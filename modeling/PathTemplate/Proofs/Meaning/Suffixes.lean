import PathTemplate.Proofs.Meaning.Permissive
import PathTemplate.Proofs.Meaning.Winner

/-!
Matchers that may begin anywhere. But for the check of the start an expression with default patterns
asks only for what comes, so behind a text it does what it does where nothing stands before. What a
matcher finds in a path is then what the same matcher, held to the start, finds in the longest
suffix that it matches.
-/
namespace PathTemplate.Expression

/-- What stands before a place is not asked for. -/
def Expr.looksOnward : Expr → Bool
  | empty => true
  | one _ _ => true
  | check x => x == .textEnd
  | cat a b => a.looksOnward && b.looksOnward
  | alt a b => a.looksOnward && b.looksOnward
  | group _ e => e.looksOnward
  | loop e _ _ _ => e.looksOnward
  | ahead _ e => e.looksOnward
  | behind _ _ _ => false
  | atomic e => e.looksOnward
  | again _ => false

namespace State

def preceded (u : Text) (s : State) : State :=
  { s with before := s.before ++ u.reverse, pos := s.pos + u.length }

theorem keeps_preceded (u : Text) : State.Keeps (preceded u) := by
  refine ⟨fun s t => ?_, fun _ => rfl⟩
  simp [before?, preceded]

theorem close_preceded (u : Text) (i : Nat) (s t : State) :
    State.close i (s.preceded u) (t.preceded u) = (State.close i s t).preceded u := by
  simp [State.close, preceded, Nat.add_sub_add_right]

theorem preceded_between (u v : Text) (n : Nat) :
    (State.between [] v n).preceded u = State.between u v n := by
  simp [preceded, between]

end State

open State

theorem Expr.along_of_looksOnward {e : Expr} (h : e.looksOnward = true) (u : Text)
    (et : EmptyTurn) : Step.Along (preceded u) (e.paths et) (e.paths et) := by
  induction e generalizing et with
  | empty => exact fun _ => rfl
  | one s a =>
    intro t
    obtain ⟨b, r, p, gs⟩ := t
    cases r with
    | nil => rfl
    | cons c r =>
      simp only [paths, preceded]
      split
      · simp [State.next, preceded, Nat.add_right_comm]
      · rfl
  | check x =>
    intro t
    obtain rfl : x = .textEnd := by simpa [looksOnward] using h
    have hholds : Assertion.textEnd.holds (t.preceded u).before (t.preceded u).rest =
        Assertion.textEnd.holds t.before t.rest := rfl
    simp only [paths, hholds]
    split <;> rfl
  | cat a b iha ihb =>
    obtain ⟨ha, hb⟩ := Bool.and_eq_true_iff.mp h
    exact (iha ha et).flatMap (ihb hb et)
  | alt a b iha ihb =>
    obtain ⟨ha, hb⟩ := Bool.and_eq_true_iff.mp h
    exact (iha ha et).append (ihb hb et)
  | group i e ih =>
    intro t
    simp only [paths, ih h et t, List.map_map]
    exact List.map_congr_left fun r _ => close_preceded u i t r
  | loop e lo hi greedy ih => exact (ih h et).loop (keeps_preceded u) et lo hi greedy
  | ahead wanted e ih => exact (ih h e.emptyTurn).ahead et et (fun _ _ => rfl) wanted
  | behind wanted n e ih => cases h
  | atomic e ih => exact (ih h e.emptyTurn).atomic et et
  | again i => cases h

theorem looksOnward_ofItems (is : List Item) :
    (Branch.ofItems is).expr.looksOnward = is.all fun i => i.expr.looksOnward :=
  all_ofItems rfl (fun _ _ => rfl) is

theorem looksOnward_altAll (es : List Expr) :
    (Builder.altAll es).looksOnward = es.all Expr.looksOnward :=
  Builder.all_altAll rfl (fun _ _ => rfl) es

end PathTemplate.Expression

namespace PathTemplate.Matching

open Expression State

/-! ### Items -/

section Items

variable (a : Bool) {o : Options}

private theorem looksOnward_bundled (d : Dialect) (is : List Item) :
    (bundledItem d is).expr.looksOnward = is.all fun i => i.expr.looksOnward :=
  looksOnward_ofItems is

private theorem looksOnward_valueContent {p : Parameter}
    (hp : p.pattern = Template.defaultPattern p.delimiter o.delimiter) :
    (valueContent a p).expr.looksOnward = true := by
  have hbody : (bodyContent a p.pattern).expr.looksOnward = true := by
    rw [bodyContent_defaultPattern a hp]
    exact looksOnward_ofItems [lazyItem .path (excluded o p) a]
  unfold valueContent
  split
  · have hitem : (bodyItem a p).expr.looksOnward = true := hbody
    have hfurther : (furtherItem a p).expr.looksOnward = true := by
      rw [furtherItem, looksOnward_bundled]
      simp [charItem, Expr.looksOnward, hitem]
    refine (looksOnward_ofItems _).trans ?_
    simp [loopItem, Expr.looksOnward, hitem, hfurther]
  · exact hbody

private theorem looksOnward_tokensItems (g : Nat) {ts : List Token} (h : DefaultPatterns o ts) :
    ∀ i ∈ tokensItems a g ts, i.expr.looksOnward = true := by
  intro i hi
  rcases eq_char_or_mem_of_mem_tokensItems hi with ⟨c, rfl⟩ | ⟨p, k, hp, hi⟩
  · rfl
  · have hgroup : (groupItem (k + 1) (valueContent a p)).expr.looksOnward = true :=
      looksOnward_valueContent a (h p hp)
    unfold parameterItems at hi
    split at hi
    all_goals simp only [List.mem_cons, List.not_mem_nil, or_false] at hi
    · rw [hi]
      exact hgroup
    · rw [hi]
      refine (looksOnward_bundled .path _).trans ?_
      simp [charItem, Expr.looksOnward, hgroup]
    · rw [hi]
      exact hgroup
    · rcases hi with rfl | rfl
      · rfl
      · exact hgroup

private theorem looksOnward_ahead {as : List Alternative}
    (h : ∀ q ∈ as, ∀ i ∈ q.2, i.expr.looksOnward = true) :
    (aheadItem (alternativeExprs as)).expr.looksOnward = true := by
  refine (looksOnward_altAll _).trans (List.all_eq_true.mpr fun e he => ?_)
  obtain ⟨q, hq, rfl⟩ := List.mem_map.mp he
  rw [looksOnward_ofItems, List.all_eq_true]
  exact h q hq

private theorem looksOnward_endingItems (ts : List Token) :
    ∀ i ∈ endingItems a o ts, i.expr.looksOnward = true := by
  have hterminators : ∀ q ∈ terminators a o, ∀ i ∈ q.2, i.expr.looksOnward = true := by
    intro q hq i hi
    rcases List.mem_append.mp hq with hq | hq
    · obtain ⟨t, -, rfl⟩ := List.mem_map.mp hq
      obtain ⟨c, -, rfl⟩ := List.mem_map.mp hi
      rfl
    · rw [List.mem_singleton.mp hq] at hi
      rw [List.mem_singleton.mp hi]
      rfl
  have hend : (endItem a o).expr.looksOnward = true := looksOnward_ahead hterminators
  have hboundary : (aheadItem (alternativeExprs (boundaries a o))).expr.looksOnward = true := by
    refine looksOnward_ahead fun q hq i hi => ?_
    rcases List.mem_cons.mp hq with rfl | hq
    · rw [List.mem_singleton.mp hi]
      rfl
    · exact hterminators q hq i hi
  have hchar : (charItem a o.delimiter).expr.looksOnward = true := rfl
  have hall : ((endingItems a o ts).all fun i => i.expr.looksOnward) = true := by
    simp only [endingItems, closingItems, openItems]
    split
    all_goals
      rw [List.all_append, Bool.and_eq_true]
      constructor
      all_goals split
    all_goals simp [loopItem, Expr.looksOnward, looksOnward_bundled, hchar, hend, hboundary]
    rfl
  exact List.all_eq_true.mp hall

end Items

/-! ### The start -/

section Start

variable {o : Options} {ts : List Token}

private abbrev onward (o : Options) (ts : List Token) : Compiled :=
  compiledTokens { o with fromStart := false } ts

private abbrev held (o : Options) (ts : List Token) : Compiled :=
  compiledTokens { o with fromStart := true } ts

private theorem looksOnward_onward (h : DefaultPatterns o ts) :
    (onward o ts).expr.looksOnward = true := by
  refine (looksOnward_ofItems _).trans (List.all_eq_true.mpr fun i hi => ?_)
  rcases List.mem_append.mp hi with hi | hi
  · exact looksOnward_tokensItems (o := o) _ 0 h i hi
  · exact looksOnward_endingItems _ ts i hi

private theorem emptyTurn_held : (held o ts).expr.emptyTurn = (onward o ts).expr.emptyTurn := by
  have hall : ∀ is : List Item, (Branch.ofItems is).expr.isPlain = is.all fun i => i.expr.isPlain :=
    all_ofItems rfl fun _ _ => rfl
  have hplain : (held o ts).expr.isPlain = (onward o ts).expr.isPlain := by
    rw [held, onward, compiledTokens, compiledTokens, hall, hall]
    rfl
  rw [Expr.emptyTurn, Expr.emptyTurn, hplain]

/-- Held to the start, the expression does there what it does otherwise, and nothing elsewhere. -/
private theorem paths_held (et : EmptyTurn) (s : State) :
    (held o ts).expr.paths et s =
      if s.before.isEmpty then (onward o ts).expr.paths et s else [] := by
  have hitems : expressionItems (!o.sensitive) { o with fromStart := true } 0 ts =
      [checkItem .path .textStart] ++
        expressionItems (!o.sensitive) { o with fromStart := false } 0 ts := rfl
  have hpaths : (held o ts).expr.paths et s =
      ((checkItem .path .textStart).expr.paths et s).flatMap ((onward o ts).expr.paths et) := by
    rw [held, onward, compiledTokens, compiledTokens, Branch.paths_ofItems, Branch.paths_ofItems]
    simp only [hitems, List.map_append, Step.inTurn_append, List.map_singleton, Step.inTurn_single]
  rw [hpaths]
  by_cases hs : s.before.isEmpty = true
  · have hcheck : (checkItem .path .textStart).expr.paths et s = [s] := if_pos hs
    rw [hcheck, List.flatMap_singleton, if_pos hs]
  · have hcheck : (checkItem .path .textStart).expr.paths et s = [] := if_neg hs
    rw [hcheck, List.flatMap_nil, if_neg hs]

private abbrev firstWay (o : Options) (ts : List Token) (v : Text) : Option State :=
  ((onward o ts).expr.paths (onward o ts).expr.emptyTurn
    (State.between [] v (parameters ts).length)).head?

/-- The first match of an expression that is held to the start stands there. -/
private theorem head?_held (v : Text) : ((held o ts).matchStates v).head? =
    (firstWay o ts v).map (State.close 0 (State.between [] v (parameters ts).length)) := by
  obtain ⟨ss, hss⟩ := State.exists_places_eq v (parameters ts).length
  have hpairs := State.pairwise_places v (parameters ts).length
  rw [hss] at hpairs
  have hlater : ∀ s ∈ ss, s.before.isEmpty = false := by
    intro s hs
    have hlt := (List.pairwise_cons.mp hpairs).1 s hs
    cases hb : s.before with
    | nil => simp [hb, State.between, Text.utf8Size] at hlt
    | cons => rfl
  have htail : ss.findSome? (fun s =>
      ((held o ts).expr.paths (held o ts).expr.emptyTurn s).head?.map (State.close 0 s)) =
      none := by
    refine List.findSome?_eq_none_iff.mpr fun s hs => ?_
    rw [paths_held, hlater s hs]
    rfl
  rw [Compiled.head?_matchStates_eq, show (held o ts).groups = (parameters ts).length from rfl, hss,
    List.findSome?_cons, htail, paths_held, emptyTurn_held]
  simp only [State.between, List.reverse_nil, List.isEmpty_nil, if_true, firstWay]
  split <;> simp_all

/-- Behind `u` the first way is the same. -/
private theorem head?_onward (h : DefaultPatterns o ts) (u v : Text) :
    ((onward o ts).expr.paths (onward o ts).expr.emptyTurn
      (State.between u v (parameters ts).length)).head? =
        (firstWay o ts v).map (State.preceded u) := by
  have halong := Expr.along_of_looksOnward (looksOnward_onward h) u (onward o ts).expr.emptyTurn
    (State.between [] v (parameters ts).length)
  rw [preceded_between] at halong
  rw [halong, List.head?_map]

/-- What is taken and given behind `u` is the same. -/
private theorem ofState_preceded {v : Text} {r : State} (u : Text) (hr : firstWay o ts v = some r) :
    Match.ofState (u ++ v)
        (State.close 0 (State.between u v (parameters ts).length) (r.preceded u)) =
      { Match.ofState v (State.close 0 (State.between [] v (parameters ts).length) r) with
        skipped := u } := by
  have hfills := fills_expressionItems (!o.sensitive) { o with fromStart := false } 0 ts
    (onward o ts).expr.emptyTurn
  rw [← Branch.paths_ofItems] at hfills
  obtain ⟨w, vs, htakes, hs, hf⟩ := hfills.sound _ r (List.mem_of_mem_head? hr)
  have htexts : r.texts = none :: vs :=
    hf.trans (fill_texts_between [] v (hfills.length _ _ _ _ htakes))
  have hs' : (State.between u v (parameters ts).length).Passes w (r.preceded u) := by
    refine ⟨hs.rest, ?_, ?_⟩
    · simp [preceded, hs.before, State.between]
    · simp [preceded, hs.pos, State.between, Nat.add_comm]
  have hmatch : Match.ofState v (State.close 0 (State.between [] v (parameters ts).length) r) =
      ⟨[], w, vs⟩ := ofState_close hs htexts
  rw [ofState_close hs' htexts, hmatch]

end Start

/-! ### Answers -/

/-- The answer is that of the matcher to a suffix of the path, the longest that it matches, but for
the index, which is where the suffix begins. -/
def AnswersLeftmost (m : Matcher) (path : Text) (f : PathMatch) : Prop :=
  ∃ u v g, path = u ++ v ∧ m.exec v = .ok (some g) ∧ f = { g with index := u.utf8Size } ∧
    ∀ u' v' g', path = u' ++ v' → m.exec v' = .ok (some g') → u.utf8Size ≤ u'.utf8Size

/-- The first answer to a suffix of the path, the longest first, moved to where the suffix
begins. -/
private def firstSuffix (answer : Text → Option PathMatch) (path : Text) (n : Nat) :
    Option PathMatch :=
  (State.places path n).findSome? fun s =>
    (answer s.rest).map fun g => { g with index := s.before.utf8Size }

section Answers

variable {m m₁ : Matcher} {path : Text} {answer : Text → Option PathMatch} {n : Nat}

private theorem utf8Size_between (u v : Text) (n : Nat) :
    (State.between u v n).before.utf8Size = u.utf8Size := Text.utf8Size_reverse u

private theorem answersLeftmost_of_firstSuffix {f : PathMatch}
    (hanswer : ∀ u v, path = u ++ v → m₁.exec v = .ok (answer v))
    (hf : firstSuffix answer path n = some f) : AnswersLeftmost m₁ path f := by
  obtain ⟨early, s, late, hplaces, hs, hearly⟩ := List.findSome?_eq_some_iff.mp hf
  have hpairs := State.pairwise_places path n
  have hmem := State.mem_places path n
  rw [hplaces] at hpairs hmem
  obtain ⟨u, v, huv, rfl⟩ := (hmem s).mp (by simp)
  obtain ⟨g, hg, rfl⟩ := Option.map_eq_some_iff.mp hs
  refine ⟨u, v, g, huv, by rw [hanswer u v huv, ← hg]; rfl, by rw [utf8Size_between], ?_⟩
  intro u' v' g' huv' hg'
  rw [hanswer u' v' huv'] at hg'
  rcases List.mem_append.mp ((hmem _).mpr ⟨u', v', huv', rfl⟩) with hbefore | hafter
  · have hnone := Option.map_eq_none_iff.mp (hearly _ hbefore)
    have hsome : answer v' = some g' := Except.ok.inj hg'
    cases hsome.symm.trans hnone
  · rw [← utf8Size_between u v n, ← utf8Size_between u' v' n]
    rcases List.mem_cons.mp hafter with heq | hlate
    · rw [heq]
    · exact Nat.le_of_lt ((List.pairwise_cons.mp (List.pairwise_append.mp hpairs).2.1).1 _ hlate)

private theorem exists_firstSuffix (hanswer : ∀ u v, path = u ++ v → m₁.exec v = .ok (answer v))
    {u v : Text} {g : PathMatch} (huv : path = u ++ v) (hg : m₁.exec v = .ok (some g)) (n : Nat) :
    ∃ f, firstSuffix answer path n = some f := by
  have hsome : answer v = some g := Except.ok.inj ((hanswer u v huv).symm.trans hg)
  refine Option.isSome_iff_exists.mp (List.findSome?_isSome_iff.mpr
    ⟨State.between u v n, (State.mem_places path n _).mpr ⟨u, v, huv, rfl⟩, ?_⟩)
  simp [State.between, hsome]

/-- A matcher of tokens that may begin anywhere answers with what the one that is held to the start
finds first in a suffix. -/
private theorem exec_onward {o : Options} {ts : List Token} (h : DefaultPatterns o ts)
    {source source' : Text} {keys : List Key}
    (hne : Matcher.exec ⟨source, keys, onward o ts⟩ path ≠ .error ⟨path⟩)
    (hne' : ∀ u v, path = u ++ v → Matcher.exec ⟨source', keys, held o ts⟩ v ≠ .error ⟨v⟩) :
    ∃ answer,
      (∀ u v, path = u ++ v → Matcher.exec ⟨source', keys, held o ts⟩ v = .ok (answer v)) ∧
        Matcher.exec ⟨source, keys, onward o ts⟩ path =
          .ok (firstSuffix answer path (parameters ts).length) := by
  refine ⟨_, fun u v huv => Matcher.exec_eq _ v (hne' u v huv), ?_⟩
  rw [Matcher.exec_eq _ path hne, Compiled.head?_matchStates_eq, List.map_findSome?]
  refine congrArg Except.ok (findSome?_congr fun s hs => ?_)
  obtain ⟨u, v, rfl, rfl⟩ := (State.mem_places path (parameters ts).length s).mp hs
  rw [Function.comp_apply, head?_onward h, utf8Size_between]
  simp only [State.between, head?_held]
  cases hr : firstWay o ts v with
  | none => rfl
  | some r =>
    simp only [Option.map_some, Matcher.pathMatch]
    exact congrArg some (by rw [show (⟨u.reverse, v, u.length, _⟩ : State) =
      State.between u v (parameters ts).length from rfl, ofState_preceded u hr]; rfl)

end Answers

/-- A matcher of a template with default patterns that may begin anywhere matches a path if, held
to the start, it matches any suffix of it, and its answer is what it finds in the longest of
these. -/
theorem exec_unanchored {o : Options} {t : Text} (h : DefaultPatterns o (Template.tokens o t)) :
    ∃ m m₁, Matcher.compile { o with fromStart := false } (.template t) = .ok m ∧
      Matcher.compile { o with fromStart := true } (.template t) = .ok m₁ ∧
      ∀ path, m.exec path ≠ .error ⟨path⟩ →
        (∀ u v, path = u ++ v → m₁.exec v ≠ .error ⟨v⟩) →
        ((∃ f, m.exec path = .ok (some f)) ↔
          ∃ u v g, path = u ++ v ∧ m₁.exec v = .ok (some g)) ∧
        ∀ f, m.exec path = .ok (some f) → AnswersLeftmost m₁ path f := by
  have htokens : ∀ b, Template.tokens { o with fromStart := b } t = Template.tokens o t := by
    intro b
    refine Template.tokens_congr ?_ ?_ t <;> rfl
  have hcompile := fun b => compile_template_eq_of_tokens (htokens b) h
  refine ⟨_, _, hcompile false, hcompile true, fun path hne hne' => ?_⟩
  obtain ⟨answer, hanswer, hexec⟩ := exec_onward h hne hne'
  rw [hexec]
  refine ⟨⟨?_, ?_⟩, fun f hf => answersLeftmost_of_firstSuffix hanswer (Except.ok.inj hf)⟩
  · rintro ⟨f, hf⟩
    obtain ⟨u, v, g, huv, hg, -⟩ := answersLeftmost_of_firstSuffix hanswer (Except.ok.inj hf)
    exact ⟨u, v, g, huv, hg⟩
  · rintro ⟨u, v, g, huv, hg⟩
    obtain ⟨f, hf⟩ := exists_firstSuffix hanswer huv hg _
    exact ⟨f, congrArg Except.ok hf⟩

/-- Behind a letter of two bytes, `/:id` finds `/7`. -/
theorem exec_unanchored_behind_letter : ∃ m m₁ f,
    Matcher.compile { fromStart := false } (.template "/:id".toList) = .ok m ∧
    Matcher.compile {} (.template "/:id".toList) = .ok m₁ ∧
    m.exec "é/7".toList = .ok (some f) ∧ AnswersLeftmost m₁ "é/7".toList f ∧ f.index = 2 := by
  have hd : DefaultPatterns {} (Template.tokens {} "/:id".toList) :=
    defaultPatterns_of_all (by decide)
  obtain ⟨m, m₁, hm, hm₁, hanswers⟩ := exec_unanchored (o := {}) hd
  have hfound : (Matcher.compile { fromStart := false } (.template "/:id".toList)).map
      (fun m => (m.exec "é/7".toList).map (Option.map PathMatch.index)) = .ok (.ok (some 2)) := by
    decide +kernel
  have hplain : (Matcher.compile {} (.template "/:id".toList)).map
      (fun m => m.compiled.expr.isPlain) = .ok true := by decide
  rw [hm] at hfound
  rw [hm₁] at hplain
  obtain ⟨answer, hanswer, hindex⟩ := exists_ok_of_map (Except.ok.inj hfound)
  obtain ⟨f, rfl, hf⟩ := Option.map_eq_some_iff.mp hindex
  have hnever : ∀ v, m₁.exec v ≠ .error ⟨v⟩ := by
    intro v
    rw [Matcher.exec_of_isPlain m₁ (Except.ok.inj hplain)]
    nofun
  exact ⟨m, m₁, f, hm, hm₁, hanswer,
    (hanswers _ (by rw [hanswer]; nofun) fun _ v _ => hnever v).2 f hanswer, hf⟩

end PathTemplate.Matching
