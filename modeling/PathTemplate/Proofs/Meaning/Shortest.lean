import PathTemplate.Proofs.Meaning.ItemEffort
import PathTemplate.Proofs.Meaning.Segmented

/-!
What a matcher of segments finds first. The tokens go further and further, since a later place
within a segment leads to a later place behind it, and the ending goes back. So the first match has
the shortest body, and behind it the longest ending.
-/
namespace PathTemplate.Matching

open Expression State Step

/-! ### Tokens -/

section Tokens

variable {a : Bool} {o : Options} {ts : List Token} {p : Parameter} {et : EmptyTurn} {s t u : State}

theorem takes_of_mem_tokensItems {g : Nat} (hts : DefaultPatterns o ts)
    (h : t ∈ itemsWays (tokensItems a g ts) et s) :
    ∃ w vs, Takes a o ts w vs ∧ s.Passes w t ∧ t.texts = fill (g + 1) vs s.texts := by
  obtain ⟨w, vs, hw, hs, htexts⟩ := (fills_tokensItems a g ts et).sound s t h
  exact ⟨w, vs, hw.takes hts, hs, htexts⟩

/-- The items of a parameter of segments: its lead, and a lazy run in a group. -/
theorem parameterItems_segmented (hs : Segmented o (.parameter p :: ts)) (a : Bool) (g : Nat) :
    parameterItems a g p =
      [charItem a o.delimiter, groupItem (g + 1) (defaultContent a o p)] := by
  have hp : p ∈ parameters (.parameter p :: ts) := List.mem_cons_self
  rw [parameterItems, hs.required p hp, hs.led p hp, valueContent, hs.once p hp,
    bodyContent_defaultPattern a (hs.defaults p List.mem_cons_self)]
  rfl

private theorem ascends_parameterItems (hs : Segmented o (.parameter p :: ts)) (a : Bool) (g : Nat)
    (et : EmptyTurn) : Ascends (itemsWays (parameterItems a g p) et) := by
  have hrun : Ascends (itemsWays [groupItem (g + 1) (defaultContent a o p)] et) := by
    intro s
    rw [itemsWays_single]
    exact (ascends_run (outside (excluded o p)) a et).group (g + 1) s
  rw [parameterItems_segmented hs]
  exact Ascends.after (length_paths_one_le _ _ et) hrun

/-- Between two places that tokens lead to stands no delimiter. -/
theorem exists_between (hs : Segmented o ts) (hd : Fixed a o.delimiter) {g : Nat}
    (ht : t ∈ itemsWays (tokensItems a g ts) et s) (hu : u ∈ itemsWays (tokensItems a g ts) et s)
    (hlt : t.pos < u.pos) : ∃ z, z ≠ [] ∧ o.delimiter ∉ z ∧ t.rest = z ++ u.rest ∧
      u.pos = t.pos + z.length := by
  obtain ⟨w, vs, hw, hst, -⟩ := takes_of_mem_tokensItems hs.defaults ht
  obtain ⟨w', vs', hw', hsu, -⟩ := takes_of_mem_tokensItems hs.defaults hu
  rcases List.append_eq_append_iff.mp (hst.rest.symm.trans hsu.rest) with
    ⟨z, rfl, hz⟩ | ⟨z, rfl, hz⟩
  · have hlen : u.pos = t.pos + z.length := by
      rw [hsu.pos, hst.pos, List.length_append, Nat.add_assoc]
    exact ⟨z, List.length_pos_iff.mp (by omega), hw.notMem_of_append hs hd hw', hz, hlen⟩
  · rw [hst.pos, hsu.pos, List.length_append] at hlt
    omega

/-- The tokens go further and further. -/
theorem ascends_tokensItems (hs : Segmented o ts) (hd : Fixed a o.delimiter) (g : Nat)
    (et : EmptyTurn) : Ascends (itemsWays (tokensItems a g ts) et) := by
  induction ts generalizing g with
  | nil => exact fun s => List.pairwise_singleton _ s
  | cons t ts ih =>
    intro s
    cases t with
    | literal t =>
      rw [tokensItems, itemsWays_append]
      have hchars : ∀ i ∈ t.map (charItem a), i.Brief := by simpa using fun c _ => brief_char a c
      exact Ascends.after (length_briefs_le hchars) (ih hs.tail g) s
    | parameter p =>
      have hone : Segmented o [.parameter p] := hs.of_sublist (by simp)
      have hitems : tokensItems a g [.parameter p] = parameterItems a g p := List.append_nil _
      rw [tokensItems, itemsWays_append]
      refine List.pairwise_flatMap.mpr ⟨fun r _ => ih hs.tail (g + 1) r,
        (ascends_parameterItems hs a g et s).imp_of_mem fun {t u} ht hu htu x hx y hy => ?_⟩
      rw [← hitems] at ht hu
      obtain ⟨z, hz, hdz, hrest, hpos⟩ := exists_between hone hd ht hu htu
      obtain ⟨w, vs, hw, htx, -⟩ := takes_of_mem_tokensItems hs.tail.defaults hx
      obtain ⟨w', vs', hw', huy, -⟩ := takes_of_mem_tokensItems hs.tail.defaults hy
      have heq : w ++ x.rest = z ++ (w' ++ y.rest) := by
        rw [← htx.rest, hrest, huy.rest]
      have hlt := hw.length_lt hs.tail hd hz hdz hw' heq
      rw [htx.pos, huy.pos]
      omega

end Tokens

/-! ### Endings -/

section Endings

variable (a : Bool) (o : Options) (ts : List Token) (et : EmptyTurn)

private theorem descends_append {is js : List Item} (h : Descends (itemsWays is et))
    (h' : Wide 0 (itemsWays js et)) : Descends (itemsWays (is ++ js) et) := by
  rw [show itemsWays (is ++ js) et = _ from funext (itemsWays_append is js et)]
  exact h.flatMap h'

private theorem wide_ahead_items (es : List Expr) : Wide 0 (itemsWays [aheadItem es] et) := by
  intro s
  rw [itemsWays_single]
  exact wide_ahead et _ s

private theorem wide_char (c : Char) : Wide 1 ((charItem a c).expr.paths et) := wide_one _ _ et

private theorem descends_optional {is : List Item} {n : Nat} (h : Wide n (itemsWays is et)) :
    Descends
      (itemsWays (if o.strict then [] else [loopItem (bundledItem .path is) (some 1)]) et) := by
  split
  · exact fun s => List.pairwise_singleton _ s
  · have hpaths : (bundledItem .path is).expr.paths et = itemsWays is et :=
      Branch.paths_ofItems is et
    rw [← hpaths] at h
    intro s
    rw [itemsWays_single]
    exact h.descends_optional et s

/-- The ending goes back. -/
theorem descends_endingItems : Descends (itemsWays (endingItems a o ts) et) := by
  rw [endingItems]
  split
  · refine descends_append et (descends_optional o et (n := 1) fun s => ?_) ?_
    · rw [itemsWays_single]
      exact wide_char a et _ s
    · split
      · intro s
        rw [itemsWays_single]
        exact wide_check et .textEnd s
      · exact wide_ahead_items et _
  · refine descends_append et (descends_optional o et (n := 1 + 0) fun s => ?_) ?_
    · exact (wide_char a et o.delimiter).flatMap (wide_ahead_items et _) s
    · split
      · exact wide_stay
      · exact wide_ahead_items et _

end Endings

/-! ### The first match -/

section First

variable {o : Options} {ts : List Token} {path : Text} {et : EmptyTurn} {r q : State}

def bodyWays (o : Options) (ts : List Token) (et : EmptyTurn) (path : Text) : List State :=
  itemsWays (tokensItems (!o.sensitive) 0 ts) et (State.between [] path (parameters ts).length)

def endingWays (o : Options) (ts : List Token) (et : EmptyTurn) : Step :=
  itemsWays (endingItems (!o.sensitive) o ts) et

/-- Held to the start, an expression goes through the tokens and then through the ending. -/
theorem paths_compiledTokens (ts : List Token) (et : EmptyTurn) (path : Text)
    (hstart : o.fromStart = true) :
    (compiledTokens o ts).expr.paths et (State.between [] path (parameters ts).length) =
      (bodyWays o ts et path).flatMap (endingWays o ts et) := by
  have hitems : (compiledTokens o ts).expr.paths et =
      itemsWays ([checkItem .path .textStart] ++ (tokensItems (!o.sensitive) 0 ts ++
        endingItems (!o.sensitive) o ts)) et := by
    rw [compiledTokens, Branch.paths_ofItems, expressionItems, hstart, if_pos rfl,
      List.append_assoc]
    rfl
  have hcheck : itemsWays [checkItem .path .textStart] et
      (State.between [] path (parameters ts).length) =
        [State.between [] path (parameters ts).length] := rfl
  rw [hitems, itemsWays_append, hcheck, List.flatMap_singleton, itemsWays_append]
  rfl

/-- A place behind the tokens and one behind the ending divide the path. -/
private theorem division_of_ways (hdef : DefaultPatterns o ts) (hr : r ∈ bodyWays o ts et path)
    (hq : q ∈ endingWays o ts et r) :
    ∃ v : Division (!o.sensitive) o ts path, v.skipped = [] ∧ r.pos = v.body.length ∧
      q.pos = v.body.length + v.ending.length ∧ r.texts = none :: v.values ∧
      Match.ofState path (State.close 0 (State.between [] path (parameters ts).length) q) =
        v.toMatch := by
  obtain ⟨w, vs, hw, hs, htexts⟩ := takes_of_mem_tokensItems hdef hr
  obtain ⟨e, he, hsq, hgroups⟩ := (precedes_endingItems (!o.sensitive) o ts et r q).mp hq
  have hvalues : r.texts = none :: vs :=
    htexts.trans (fill_texts_between [] path (TakesAt.ofTakes hw hdef [] []).length)
  have hpath : path = w ++ (e ++ q.rest) := by
    rw [← hsq.rest, ← hs.rest]
    rfl
  refine ⟨⟨[], w, e, q.rest, vs, hpath, fun _ => rfl, hw, he⟩, rfl, ?_, ?_, hvalues, ?_⟩
  · rw [hs.pos]
    exact Nat.zero_add _
  · rw [hsq.pos, hs.pos]
    exact congrArg (· + e.length) (Nat.zero_add _)
  · exact ofState_close (u := []) (hs.trans hsq) ((texts_congr hgroups).trans hvalues)

/-- A division of the path is found by the tokens and the ending. -/
private theorem ways_of_division (hdef : DefaultPatterns o ts) (hstart : o.fromStart = true)
    (v : Division (!o.sensitive) o ts path) (et : EmptyTurn) :
    ∃ r ∈ bodyWays o ts et path, ∃ q ∈ endingWays o ts et r, r.pos = v.body.length ∧
      q.pos = v.body.length + v.ending.length ∧ r.texts = none :: v.values := by
  have hpath := v.path_eq_of_start hstart
  obtain ⟨r, hr, hs, htexts⟩ := (fills_tokensItems (!o.sensitive) 0 ts et).complete
    (State.between [] path (parameters ts).length) v.body (v.ending ++ v.left) v.values
    (.ofTakes v.takes hdef _ _) hpath
  have hrest : r.rest = v.ending ++ v.left :=
    List.append_cancel_left (hs.rest.symm.trans hpath)
  have hpast := passes_past hrest
  refine ⟨r, hr, r.past v.ending v.left, (precedes_endingItems _ o ts et r _).mpr
    ⟨v.ending, v.ends, hpast, rfl⟩, ?_, ?_, ?_⟩
  · rw [hs.pos]
    exact Nat.zero_add _
  · rw [hpast.pos, hs.pos]
    exact congrArg (· + v.ending.length) (Nat.zero_add _)
  · exact htexts.trans (fill_texts_between [] path (TakesAt.ofTakes v.takes hdef [] []).length)

variable (hs : Segmented o ts) (hd : Fixed (!o.sensitive) o.delimiter)
  (hstart : o.fromStart = true)

include hs hd hstart

/-- The first match has the shortest body of all, and of those with that body the longest
ending. -/
theorem exec_eq_of_shortest {source : Text} {keys : List Key}
    (hne : Matcher.exec ⟨source, keys, compiledTokens o ts⟩ path ≠ .error ⟨path⟩)
    (v : Division (!o.sensitive) o ts path)
    (hbody : ∀ w : Division (!o.sensitive) o ts path, v.body.length ≤ w.body.length)
    (hending : ∀ w : Division (!o.sensitive) o ts path, w.body = v.body →
      w.ending.length ≤ v.ending.length) :
    Matcher.exec ⟨source, keys, compiledTokens o ts⟩ path =
      .ok (some ⟨0, v.body ++ v.ending, Matcher.values keys v.values⟩) := by
  obtain ⟨r, hr, q, hq, hrpos, hqpos, htexts⟩ :=
    ways_of_division hs.defaults hstart v (compiledTokens o ts).expr.emptyTurn
  have hpaths := paths_compiledTokens ts (compiledTokens o ts).expr.emptyTurn path hstart
  obtain ⟨q', hq'⟩ : ∃ q', ((bodyWays o ts (compiledTokens o ts).expr.emptyTurn path).flatMap
      (endingWays o ts (compiledTokens o ts).expr.emptyTurn)).head? = some q' :=
    Option.isSome_iff_exists.mp (List.isSome_head?.mpr
      (List.ne_nil_of_mem (List.mem_flatMap.mpr ⟨r, hr, hq⟩)))
  obtain ⟨r', hr', hfirst, horder⟩ := exists_head?_of_flatMap
    (ascends_tokensItems hs hd 0 _ _) hq' hr (List.ne_nil_of_mem hq)
  obtain ⟨w, hskipped, hrpos', hqpos', htexts', hmatch⟩ :=
    division_of_ways hs.defaults hr' (List.mem_of_mem_head? hfirst)
  have hwbody := hbody w
  obtain rfl : r = r' := by
    rcases horder with h | h
    · exact h
    · omega
  have hpath := (v.path_eq_of_start hstart).symm.trans (w.path_eq_of_start hstart)
  obtain ⟨hsame, hrests⟩ := List.append_inj hpath (by omega)
  have hwending := hending w hsame.symm
  have hlonger : q.pos ≤ q'.pos := by
    rcases eq_or_rel_of_head? (descends_endingItems (!o.sensitive) o ts _ r) hfirst hq with h | h
    · rw [h]
    · exact h
  have hendings : v.ending = w.ending := (List.append_inj hrests (by omega)).1
  have hvalues : v.values = w.values := (List.cons.inj (htexts.symm.trans htexts')).2
  have hhead := (compiledTokens o ts).head?_matchStates_of_head? path
    ((congrArg List.head? hpaths).trans hq')
  rw [Matcher.exec_eq _ path hne, hhead, Option.map_some, Matcher.pathMatch, hsame, hendings,
    hvalues]
  simp only [show Match.ofState path (State.close 0 (State.between [] path
    (compiledTokens o ts).groups) q') = w.toMatch from hmatch, Division.toMatch, hskipped]
  rfl

end First

end PathTemplate.Matching
