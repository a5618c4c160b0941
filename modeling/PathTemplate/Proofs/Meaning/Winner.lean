import PathTemplate.Proofs.Meaning.Alternatives

/-!
What a matcher of a list of templates answers. The winner is the template that matches at the
smallest index, the first of them if there are several, and the answer is its own answer, with no
values for the keys of the other templates.
-/
namespace PathTemplate.Expression

section Earliest

variable {α β γ : Type} {lt : α → α → Prop} {f : β → α → Option γ} {ss : List α} {ls : List β}

def earliest (ss : List α) (f : α → Option γ) : Option (α × γ) :=
  ss.findSome? fun s => (f s).map fun x => (s, x)

/-- The first place that has a result of any of the list, the first of the list with a result
there, and this result. -/
def earliestOf (ss : List α) (ls : List β) (f : β → α → Option γ) : Option (α × β × γ) :=
  ss.findSome? fun s => ls.findSome? fun l => (f l s).map fun x => (s, l, x)

theorem earliest_eq_none_iff {h : α → Option γ} : earliest ss h = none ↔ ∀ s ∈ ss, h s = none := by
  simp [earliest]

theorem earliestOf_eq_none_iff :
    earliestOf ss ls f = none ↔ ∀ l ∈ ls, earliest ss (f l) = none := by
  simp only [earliestOf, earliest, List.findSome?_eq_none_iff, Option.map_eq_none_iff]
  exact ⟨fun h l hl s hs => h s hs l hl, fun h s hs l hl => h l hl s hs⟩

/-- What comes first of all comes first for its own member of the list. Members before it come
later, and members behind it do not come earlier. -/
theorem exists_earliest {s : α} {l : β} {x : γ} (hss : ss.Pairwise lt)
    (h : earliestOf ss ls f = some (s, l, x)) :
    ∃ before after, ls = before ++ l :: after ∧ earliest ss (f l) = some (s, x) ∧
      (∀ k ∈ before, ∀ t y, earliest ss (f k) = some (t, y) → lt s t) ∧
      ∀ k ∈ after, ∀ t y, earliest ss (f k) = some (t, y) → s = t ∨ lt s t := by
  obtain ⟨early, s', late, rfl, hs, hearly⟩ := List.findSome?_eq_some_iff.mp h
  obtain ⟨before, l', after, rfl, hl, hbefore⟩ := List.findSome?_eq_some_iff.mp hs
  obtain ⟨x', hx, heq⟩ := Option.map_eq_some_iff.mp hl
  obtain ⟨rfl, rfl, rfl⟩ : s' = s ∧ l' = l ∧ x' = x := by simpa using heq
  have hnone : ∀ k ∈ before ++ l' :: after, ∀ t ∈ early, f k t = none := by
    intro k hk t ht
    have := List.findSome?_eq_none_iff.mp (hearly t ht) k hk
    simpa using this
  have hlate := (List.pairwise_cons.mp (List.pairwise_append.mp hss).2.1).1
  have hrest : ∀ k ∈ before ++ l' :: after, earliest (early ++ s' :: late) (f k) =
      earliest (s' :: late) (f k) := by
    intro k hk
    have hskip : earliest early (f k) = none := earliest_eq_none_iff.mpr (hnone k hk)
    simp only [earliest] at hskip ⊢
    rw [List.findSome?_append, hskip, Option.none_or]
  have hplace : ∀ (k : β) (t : α) (y : γ) (ts : List α),
      earliest ts (f k) = some (t, y) → t ∈ ts := by
    intro k t y ts hk
    obtain ⟨r, hr, hry⟩ := List.exists_of_findSome?_eq_some hk
    obtain ⟨z, -, hz⟩ := Option.map_eq_some_iff.mp hry
    rwa [← (Prod.mk.inj hz).1]
  refine ⟨before, after, rfl, ?_, ?_, ?_⟩
  · rw [hrest l' (by simp), earliest, List.findSome?_cons, hx]
    rfl
  · intro k hk t y hkt
    have hskip : f k s' = none := by simpa using hbefore k hk
    rw [hrest k (by simp [hk]), earliest, List.findSome?_cons, hskip] at hkt
    exact hlate t (hplace k t y late hkt)
  · intro k hk t y hkt
    rw [hrest k (by simp [hk])] at hkt
    rcases List.mem_cons.mp (hplace k t y _ hkt) with rfl | ht
    · exact Or.inl rfl
    · exact Or.inr (hlate t ht)

end Earliest

end PathTemplate.Expression

namespace PathTemplate.Matching

open Expression State

/-! ### Answers -/

section Answers

variable {a : Bool} {o : Options} {et : EmptyTurn} {n : Nat} {path : Text}

/-- The text and the values of the first match of a template at a place, where the template stands
behind so many groups. -/
def firstAt (a : Bool) (o : Options) (et : EmptyTurn) (l : Nat × Text) (s : State) :
    Option (Text × List (Option Text)) :=
  ((templateExpr a o l.1 l.2).paths et s).head?.map fun r =>
    (s.rest.take (r.pos - s.pos), (r.texts.drop (l.1 + 1)).take (groupCount o l.2))

def answerAt (keys : List Key) (s : State) (x : Text × List (Option Text)) : PathMatch :=
  ⟨s.before.utf8Size, x.1, Matcher.values keys x.2⟩

def spread (o : Options) (n : Nat) (l : Nat × Text) (vs : List (Option Text)) :
    List (Option Text) :=
  List.replicate l.1 none ++ (vs ++ List.replicate (n - l.1 - groupCount o l.2) none)

private theorem firstAt_eq {l : Nat × Text} {u v : Text} {r : State}
    (hl : l.1 + groupCount o l.2 ≤ n)
    (hr : ((templateExpr a o l.1 l.2).paths et (State.between u v n)).head? = some r) :
    ∃ w vs, firstAt a o et l (State.between u v n) = some (w, vs) ∧
      vs.length = groupCount o l.2 ∧ (State.between u v n).Passes w r ∧
      r.texts = none :: spread o n l vs := by
  obtain ⟨w, vs, hlen, hs, htexts⟩ := texts_of_mem_paths hl (List.mem_of_mem_head? hr)
  refine ⟨w, vs, ?_, hlen, hs, htexts⟩
  have htake : (State.between u v n).rest.take (r.pos - (State.between u v n).pos) = w := by
    rw [hs.rest, hs.pos, Nat.add_sub_cancel_left, List.take_left']
    rfl
  have hvalues : (r.texts.drop (l.1 + 1)).take (groupCount o l.2) = vs := by
    rw [htexts, List.drop_succ_cons, List.drop_left' List.length_replicate, List.take_left' hlen]
  rw [firstAt, hr, Option.map_some, htake, hvalues]

/-- What comes first has a value for each group of the template, or none. -/
private theorem length_of_earliest {l : Nat × Text} {s : State} {w : Text}
    {vs : List (Option Text)} (hl : l.1 + groupCount o l.2 ≤ n)
    (h : earliest (State.places path n) (firstAt a o et l) = some (s, w, vs)) :
    vs.length = groupCount o l.2 := by
  obtain ⟨s', hs, hfirst⟩ := List.exists_of_findSome?_eq_some h
  obtain ⟨x, hx, heq⟩ := Option.map_eq_some_iff.mp hfirst
  obtain ⟨rfl, rfl⟩ : s' = s ∧ x = (w, vs) := by simpa using heq
  obtain ⟨u, v, rfl, rfl⟩ := (State.mem_places path n s').mp hs
  obtain ⟨r, hr, -⟩ := Option.map_eq_some_iff.mp hx
  obtain ⟨w', vs', hfirst', hlen, -⟩ := firstAt_eq hl hr
  rw [hx] at hfirst'
  rw [(Prod.mk.inj (Option.some.inj hfirst')).2]
  exact hlen

private theorem answerAt_eq {keys : List Key} {source : Text} {c : Compiled} {u v w : Text}
    {vs : List (Option Text)} {m : Nat} {r s : State} (hs : (State.between u v m).Passes w r)
    (htexts : r.texts = none :: vs) (hbefore : s.before = u.reverse) :
    Matcher.pathMatch ⟨source, keys, c⟩ (u ++ v) (State.close 0 (State.between u v m) r) =
      answerAt keys s (w, vs) := by
  have hsize : u.utf8Size = s.before.utf8Size := by
    rw [hbefore, Text.utf8Size_reverse]
  rw [Matcher.pathMatch, ofState_close hs htexts, answerAt, ← hsize]
  rfl

theorem findSome?_congr {α β : Type} {f g : α → Option β} {ss : List α}
    (h : ∀ s ∈ ss, f s = g s) : ss.findSome? f = ss.findSome? g := by
  induction ss with
  | nil => rfl
  | cons s ss ih =>
    rw [List.findSome?_cons, List.findSome?_cons, h s List.mem_cons_self,
      ih fun t ht => h t (List.mem_cons_of_mem s ht)]

private theorem exec_eq_findSome? {source : Text} {keys : List Key} {e : Expr}
    {x : Option PathMatch} (h : Matcher.exec ⟨source, keys, ⟨e, n⟩⟩ path = .ok x) :
    x = (State.places path n).findSome? fun s => (e.paths e.emptyTurn s).head?.map fun r =>
      Matcher.pathMatch ⟨source, keys, ⟨e, n⟩⟩ path (State.close 0 s r) := by
  have hexec := Matcher.exec_eq _ path (by rw [h]; nofun)
  rw [h] at hexec
  rw [Except.ok.inj hexec, Compiled.head?_matchStates_eq, List.map_findSome?]
  exact congrArg (List.findSome? · _) (funext fun s => Option.map_map _ _ _)

/-- A template answers by itself with what it finds first behind the groups of others. -/
theorem exec_template_eq {source : Text} {keys : List Key} {t : Text} {k : Nat}
    (hk : k + groupCount o t ≤ n) (et : EmptyTurn) {x : Option PathMatch}
    (h : Matcher.exec ⟨source, keys, ⟨templateExpr a o 0 t, groupCount o t⟩⟩ path = .ok x) :
    x = (earliest (State.places path n) (firstAt a o et (k, t))).map fun y =>
      answerAt keys y.1 y.2 := by
  rw [exec_eq_findSome? h, State.places_narrow path hk, List.findSome?_map, earliest,
    List.map_findSome?]
  refine findSome?_congr fun s hs => ?_
  obtain ⟨u, v, rfl, rfl⟩ := (State.mem_places path n s).mp hs
  have hcarried := carries_templateExpr a o k t et (templateExpr a o 0 t).emptyTurn
    (State.between u v n)
  simp only [Function.comp_apply, hcarried, List.head?_map]
  cases hr : ((templateExpr a o k t).paths et (State.between u v n)).head? with
  | none => simp [firstAt, hr]
  | some r =>
    obtain ⟨w, vs, hfirst, hlen, hpass, htexts⟩ := firstAt_eq (l := (k, t)) hk hr
    have hpass' : (State.between u v (groupCount o t)).Passes w
        (r.moved 0 (narrow k (groupCount o t))) := ⟨hpass.rest, hpass.before, hpass.pos⟩
    have htexts' : (r.moved 0 (narrow k (groupCount o t))).texts = none :: vs := by
      have hnarrow : (r.moved 0 (narrow k (groupCount o t))).texts =
          none :: (r.texts.drop (k + 1)).take (groupCount o t) := by
        simp [State.texts, State.moved, narrow, List.map_take, List.map_drop]
      rw [hnarrow, htexts, List.drop_succ_cons, spread, List.drop_left' List.length_replicate,
        List.take_left' hlen]
    rw [State.moved_between u v hk, hfirst]
    exact congrArg some (answerAt_eq (s := State.between u v n) hpass' htexts' rfl)

/-- A list answers with what any of its templates finds first. -/
theorem exec_list_eq {i : Input} (hi : i.Templates) {source : Text} {keys : List Key}
    (hn : ∀ l ∈ located o 0 i.leaves, l.1 + groupCount o l.2 ≤ n) {x : Option PathMatch}
    (h : Matcher.exec ⟨source, keys, ⟨(Branch.ofItems ((i.fragment a o).items 0)).expr, n⟩⟩ path =
      .ok x) :
    ∃ et, x = (earliestOf (State.places path n) (located o 0 i.leaves) (firstAt a o et)).map
      fun y => answerAt keys y.1 (y.2.2.1, spread o n y.2.1 y.2.2.2) := by
  refine ⟨(Branch.ofItems ((i.fragment a o).items 0)).expr.emptyTurn, ?_⟩
  rw [exec_eq_findSome? h, earliestOf, List.map_findSome?]
  generalize (Branch.ofItems ((i.fragment a o).items 0)).expr.emptyTurn = et
  refine findSome?_congr fun s hs => ?_
  obtain ⟨u, v, rfl, rfl⟩ := (State.mem_places path n s).mp hs
  simp only [Function.comp_apply]
  rw [paths_fragment hi, List.head?_flatMap, List.map_findSome?, List.map_findSome?]
  refine findSome?_congr fun l hl => ?_
  simp only [Function.comp_apply]
  cases hr : ((templateExpr a o l.1 l.2).paths et (State.between u v n)).head? with
  | none => simp [firstAt, hr]
  | some r =>
    obtain ⟨w, vs, hfirst, -, hpass, htexts⟩ := firstAt_eq (hn l hl) hr
    rw [hfirst]
    exact congrArg some (answerAt_eq hpass htexts rfl)

end Answers

/-! ### The winner -/

section Winner

variable {o : Options} {path : Text}

private def keysAt (o : Options) (l : Nat × Text) : List Key := tokensKeys (Template.tokens o l.2)

private theorem length_keysAt (o : Options) (l : Nat × Text) :
    (keysAt o l).length = groupCount o l.2 := length_tokensKeys _

private theorem flatMap_keysAt (o : Options) (k : Nat) (ts : List Text) :
    (located o k ts).flatMap (keysAt o) = ts.flatMap fun t => tokensKeys (Template.tokens o t) := by
  induction ts generalizing k with
  | nil => rfl
  | cons t ts ih =>
    rw [located, List.flatMap_cons, ih, List.flatMap_cons]
    rfl

/-- The groups before a template are those of the templates before it. -/
private theorem located_eq_append {k : Nat} {ts : List Text} {before after : List (Nat × Text)}
    {l : Nat × Text} (h : located o k ts = before ++ l :: after) :
    l.1 = k + (before.flatMap (keysAt o)).length := by
  induction before generalizing k ts with
  | nil =>
    cases ts with
    | nil => cases h
    | cons t ts =>
      rw [located, List.nil_append] at h
      rw [← (List.cons.inj h).1]
      rfl
  | cons b before ih =>
    cases ts with
    | nil => cases h
    | cons t ts =>
      rw [located, List.cons_append] at h
      obtain ⟨rfl, hrest⟩ := List.cons.inj h
      rw [ih hrest, List.flatMap_cons, List.length_append, length_keysAt, Nat.add_assoc]

private theorem zip_replicate_none (keys : List Key) :
    keys.zip (List.replicate keys.length (none : Option Text)) = keys.map (·, none) := by
  induction keys with
  | nil => rfl
  | cons k keys ih =>
    rw [List.length_cons, List.replicate_succ, List.zip_cons_cons, ih, List.map_cons]

/-- Values spread among those of other keys are told off against their own keys. -/
private theorem values_spread (ks ls ms : List Key) {vs : List (Option Text)}
    (hvs : vs.length = ls.length) :
    Matcher.values (ks ++ (ls ++ ms)) (List.replicate ks.length none ++
      (vs ++ List.replicate ms.length none)) =
        ks.map (·, none) ++ (Matcher.values ls vs ++ ms.map (·, none)) := by
  rw [Matcher.values_eq_zip (by simp [hvs]), Matcher.values_eq_zip hvs,
    List.zip_append (by simp), List.zip_append hvs.symm, zip_replicate_none, zip_replicate_none]

/-- Keys without a value are no answer to any name. -/
private theorem get_eq {f w : PathMatch} {ks ms : List Key}
    (h : f.values = ks.map (·, none) ++ (w.values ++ ms.map (·, none))) (name : Text) :
    f.get name = w.get name := by
  have hnone : ∀ ls : List Key, ((ls.map fun k => (k, (none : Option Text))).filter
      fun kv => kv.1.name.text == name).findSome? (·.2) = none := by
    intro ls
    refine List.findSome?_eq_none_iff.mpr fun kv hkv => ?_
    obtain ⟨k, -, rfl⟩ := List.mem_map.mp (List.mem_filter.mp hkv).1
    rfl
  rw [PathMatch.get, PathMatch.get, h, List.filter_append, List.filter_append,
    List.findSome?_append, List.findSome?_append, hnone, hnone, Option.none_or, Option.or_none]

abbrev Run := Matcher × Option PathMatch

/-- The run is that of a template behind others, and answers with what comes first for it. -/
private def AnswersBy (o : Options) (ss : List State)
    (f : Nat × Text → State → Option (Text × List (Option Text))) (l : Nat × Text)
    (x : Run) : Prop :=
  x.1.keys = keysAt o l ∧ x.2 = (earliest ss (f l)).map fun y => answerAt (keysAt o l) y.1 y.2

private theorem answersBy_runs (et : EmptyTurn) {n k : Nat} {ts : List Text} {runs : List Run}
    (hacc : ∀ t ∈ ts, ∃ r, Rendering.Renderer.compile o t = .ok r)
    (hclear : ∀ t ∈ ts, Rendering.ClearPatterns (Template.tokens o t))
    (hn : ∀ l ∈ located o k ts, l.1 + groupCount o l.2 ≤ n)
    (hruns : List.Forall₂ (fun t (x : Run) => Matcher.compile o (.template t) = .ok x.1 ∧
      x.1.exec path = .ok x.2) ts runs) :
    List.Forall₂ (AnswersBy o (State.places path n) (firstAt (!o.sensitive) o et)) (located o k ts)
      runs := by
  induction hruns generalizing k with
  | nil => exact .nil
  | @cons t x ts runs hx _ ih =>
    obtain ⟨⟨r, hr⟩, hacc⟩ := List.forall_mem_cons.mp hacc
    obtain ⟨hfirst, hclear⟩ := List.forall_mem_cons.mp hclear
    have hrest := ih (k := k + groupCount o t) hacc hclear
      fun l hl => hn l (List.mem_cons_of_mem _ hl)
    obtain ⟨m, x⟩ := x
    obtain rfl := Rendering.matcher_eq_of_compile hr hfirst hx.1
    exact .cons ⟨rfl, exec_template_eq (hn (k, t) List.mem_cons_self) et hx.2⟩ hrest

section AnswersBy

variable {ss : List State} {f : Nat × Text → State → Option (Text × List (Option Text))}
  {ls : List (Nat × Text)} {runs : List Run}

private theorem forall_none_iff (h : List.Forall₂ (AnswersBy o ss f) ls runs) :
    (∀ l ∈ ls, earliest ss (f l) = none) ↔ ∀ x ∈ runs, x.2 = none := by
  induction h with
  | nil => simp
  | cons hx _ ih =>
    rw [List.forall_mem_cons, List.forall_mem_cons, ih, hx.2, Option.map_eq_none_iff]

private theorem le_index (h : List.Forall₂ (AnswersBy o ss f) ls runs) {c : Nat}
    (hc : ∀ l ∈ ls, ∀ t y, earliest ss (f l) = some (t, y) → c ≤ t.before.utf8Size) :
    ∀ x ∈ runs, ∀ g, x.2 = some g → c ≤ g.index := by
  induction h with
  | nil => simp
  | @cons l x ls runs hx _ ih =>
    intro z hz g hg
    rcases List.mem_cons.mp hz with rfl | hz
    · obtain ⟨⟨t, y⟩, hy, rfl⟩ := Option.map_eq_some_iff.mp (hx.2.symm.trans hg)
      exact hc l List.mem_cons_self t y hy
    · exact ih (fun k hk => hc k (List.mem_cons_of_mem l hk)) z hz g hg

end AnswersBy

private theorem forall₂_append_cons {α β : Type} {R : α → β → Prop} {before after : List α} {l : α}
    {ys : List β} (h : List.Forall₂ R (before ++ l :: after) ys) :
    ∃ ys₁ y ys₂, ys = ys₁ ++ y :: ys₂ ∧ List.Forall₂ R before ys₁ ∧ R l y ∧
      List.Forall₂ R after ys₂ := by
  induction before generalizing ys with
  | nil =>
    obtain ⟨y, ys₂, hy, hys, rfl⟩ := List.forall₂_cons_left_iff.mp h
    exact ⟨[], y, ys₂, rfl, .nil, hy, hys⟩
  | cons b before ih =>
    obtain ⟨z, zs, hz, hzs, rfl⟩ := List.forall₂_cons_left_iff.mp h
    obtain ⟨ys₁, y, ys₂, rfl, h₁, hy, h₂⟩ := ih hzs
    exact ⟨z :: ys₁, y, ys₂, rfl, .cons hz h₁, hy, h₂⟩

private theorem flatMap_eq_of_forall₂ {α β γ : Type} {R : α → β → Prop} {f : α → List γ}
    {g : β → List γ} {xs : List α} {ys : List β} (h : List.Forall₂ R xs ys)
    (hfg : ∀ x y, R x y → g y = f x) : ys.flatMap g = xs.flatMap f := by
  induction h with
  | nil => rfl
  | cons hxy _ ih => rw [List.flatMap_cons, List.flatMap_cons, hfg _ _ hxy, ih]

section Templates

variable {i : Input} (hi : i.Templates) (a : Bool)

include hi

private theorem length_keys : (i.keys o).length = (i.fragment a o).groups := by
  rw [hi.keys_eq, hi.groups_fragment, List.length_flatMap]
  simp only [length_tokensKeys]

private theorem keys_split {before after : List (Nat × Text)} {l : Nat × Text}
    (h : located o 0 i.leaves = before ++ l :: after) :
    i.keys o = before.flatMap (keysAt o) ++ (keysAt o l ++ after.flatMap (keysAt o)) := by
  rw [hi.keys_eq, ← flatMap_keysAt o 0, h, List.flatMap_append, List.flatMap_cons]

/-- Every template of a list has its groups among those of the list. -/
private theorem located_le :
    ∀ l ∈ located o 0 i.leaves, l.1 + groupCount o l.2 ≤ (i.fragment a o).groups := by
  intro l hl
  obtain ⟨before, after, hsplit⟩ := List.append_of_mem hl
  rw [← length_keys hi, keys_split hi hsplit, located_eq_append hsplit, List.length_append,
    List.length_append, length_keysAt]
  omega

/-- The values of a template of a list stand at its own keys, and all other keys have none. -/
private theorem values_answerAt {before after : List (Nat × Text)} {l : Nat × Text}
    (h : located o 0 i.leaves = before ++ l :: after) (s : State) (w : Text)
    {vs : List (Option Text)} (hvs : vs.length = groupCount o l.2) :
    (answerAt (i.keys o) s (w, spread o (i.fragment a o).groups l vs)).values =
      (before.flatMap (keysAt o)).map (·, none) ++
        (Matcher.values (keysAt o l) vs ++ (after.flatMap (keysAt o)).map (·, none)) := by
  have hkeys := keys_split hi h
  have hoffset : l.1 = (before.flatMap (keysAt o)).length := by
    rw [located_eq_append h, Nat.zero_add]
  have hrest : (i.fragment a o).groups - l.1 - groupCount o l.2 =
      (after.flatMap (keysAt o)).length := by
    rw [← length_keys hi, hkeys, List.length_append, List.length_append, length_keysAt]
    omega
  rw [← values_spread _ _ _ (hvs.trans (length_keysAt o l).symm), answerAt, spread, hrest, hkeys,
    hoffset]

end Templates

/-- A list of templates matches where any of them does. The answer is that of the template that
matches at the smallest index, and of these the first; the keys of all others have no value. -/
theorem exec_anyOf (o : Options) {is : List Input} (hi : (Input.anyOf is).Templates)
    (hacc : ∀ t ∈ (Input.anyOf is).leaves, ∃ r, Rendering.Renderer.compile o t = .ok r)
    (hclear : ∀ t ∈ (Input.anyOf is).leaves, Rendering.ClearPatterns (Template.tokens o t))
    {m : Matcher} (hm : Matcher.compile o (.anyOf is) = .ok m) {path : Text}
    {answer : Option PathMatch} (h : m.exec path = .ok answer) {runs : List Run}
    (hruns : List.Forall₂ (fun t (x : Run) => Matcher.compile o (.template t) = .ok x.1 ∧
      x.1.exec path = .ok x.2) (Input.anyOf is).leaves runs) :
    m.keys = runs.flatMap (·.1.keys) ∧ (answer = none ↔ ∀ x ∈ runs, x.2 = none) ∧
    ∀ f, answer = some f → ∃ before winner w after, runs = before ++ (winner, some w) :: after ∧
      (∀ x ∈ before, ∀ g, x.2 = some g → w.index < g.index) ∧
      (∀ x ∈ after, ∀ g, x.2 = some g → w.index ≤ g.index) ∧
      f.index = w.index ∧ f.matched = w.matched ∧
      f.values = (before.flatMap (·.1.keys)).map (·, none) ++
        (w.values ++ (after.flatMap (·.1.keys)).map (·, none)) ∧
      ∀ name, f.get name = w.get name := by
  have hembeds : ∀ t ∈ (Input.anyOf is).leaves, ∀ p, .parameter p ∈ Template.tokens o t →
      Embeds (!o.sensitive) (Dialect.path.depth + 1) p := by
    intro t ht
    obtain ⟨r, hr⟩ := hacc t ht
    exact Rendering.embeds_of_compile hr (hclear t ht) (!o.sensitive)
  obtain rfl := hi.eq_of_compile hembeds hm
  have hn := located_le (o := o) hi (!o.sensitive)
  obtain ⟨et, hanswer⟩ := exec_list_eq hi hn h
  have hlocated := answersBy_runs et hacc hclear hn hruns
  refine ⟨?_, ?_, fun f hf => ?_⟩
  · rw [flatMap_eq_of_forall₂ hlocated fun l x hx => hx.1, flatMap_keysAt]
    exact hi.keys_eq
  · rw [hanswer, Option.map_eq_none_iff, earliestOf_eq_none_iff]
    exact forall_none_iff hlocated
  · obtain ⟨⟨s, l, w, vs⟩, hfound, rfl⟩ := Option.map_eq_some_iff.mp (hanswer.symm.trans hf)
    obtain ⟨before, after, hsplit, hfirst, hbefore, hafter⟩ :=
      exists_earliest (State.pairwise_places path _) hfound
    have hvs := length_of_earliest (hn l (by simp [hsplit])) hfirst
    have hvalues := values_answerAt hi (!o.sensitive) hsplit s w hvs
    rw [hsplit] at hlocated
    obtain ⟨runs₁, ⟨winner, x⟩, runs₂, rfl, hruns₁, hx, hruns₂⟩ := forall₂_append_cons hlocated
    have hwinner : x = some (answerAt (keysAt o l) s (w, vs)) := by
      rw [show x = _ from hx.2, hfirst]
      rfl
    rw [← flatMap_eq_of_forall₂ hruns₁ fun l x hx => hx.1,
      ← flatMap_eq_of_forall₂ hruns₂ fun l x hx => hx.1] at hvalues
    refine ⟨runs₁, winner, answerAt (keysAt o l) s (w, vs), runs₂, by rw [hwinner], ?_, ?_, rfl,
      rfl, hvalues, get_eq hvalues⟩
    · exact le_index hruns₁ hbefore
    · refine le_index hruns₂ fun k hk t y hkt => ?_
      rcases hafter k hk t y hkt with rfl | hlt
      · exact Nat.le_refl _
      · exact Nat.le_of_lt hlt

/-- The list of `/:a(\\d+)` and, in a list of its own, `/:b` gives `/x` to the second, which finds
it by itself. -/
theorem exec_anyOf_nested : ∃ m f m₁ m₂ w,
    Matcher.compile {} (.anyOf [.template "/:a(\\d+)".toList, .anyOf [.template "/:b".toList]]) =
      .ok m ∧ m.exec "/x".toList = .ok (some f) ∧
    Matcher.compile {} (.template "/:a(\\d+)".toList) = .ok m₁ ∧ m₁.exec "/x".toList = .ok none ∧
    Matcher.compile {} (.template "/:b".toList) = .ok m₂ ∧ m₂.exec "/x".toList = .ok (some w) ∧
    f.index = w.index ∧ f.matched = w.matched ∧ f.values = m₁.keys.map (·, none) ++ w.values ∧
    f.get ['b'] = w.get ['b'] := by
  have hlist : (Matcher.compile {} (.anyOf [.template "/:a(\\d+)".toList,
      .anyOf [.template "/:b".toList]])).map (fun m => (m.exec "/x".toList).map Option.isSome) =
        .ok (.ok true) := by decide
  have hfirst : (Matcher.compile {} (.template "/:a(\\d+)".toList)).map
      (fun m => m.exec "/x".toList) = .ok (.ok none) := by decide
  have hsecond : (Matcher.compile {} (.template "/:b".toList)).map
      (fun m => (m.exec "/x".toList).map Option.isSome) = .ok (.ok true) := by decide
  have hrenderers : ∀ t ∈ ["/:a(\\d+)".toList, "/:b".toList],
      (Rendering.Renderer.compile {} t).map (fun _ => ()) = .ok () := by decide
  have hclear : ∀ t ∈ ["/:a(\\d+)".toList, "/:b".toList],
      Rendering.ClearPatterns (Template.tokens {} t) := by decide
  obtain ⟨m, hm, hexec⟩ := exists_ok_of_map hlist
  obtain ⟨answer, hanswer, hsome⟩ := exists_ok_of_map hexec
  obtain ⟨f, rfl⟩ := Option.isSome_iff_exists.mp hsome
  obtain ⟨m₁, hm₁, hexec₁⟩ := exists_ok_of_map hfirst
  obtain ⟨m₂, hm₂, hexec₂⟩ := exists_ok_of_map hsecond
  obtain ⟨answer₂, hanswer₂, hsome₂⟩ := exists_ok_of_map hexec₂
  obtain ⟨w, rfl⟩ := Option.isSome_iff_exists.mp hsome₂
  have htemplates : (Input.anyOf [.template "/:a(\\d+)".toList,
      .anyOf [.template "/:b".toList]]).Templates :=
    .anyOf (by simp) (by simp [Input.Templates.template, Input.Templates.anyOf])
  have hruns : List.Forall₂ (fun t (x : Run) => Matcher.compile {} (.template t) = .ok x.1 ∧
      x.1.exec "/x".toList = .ok x.2) ["/:a(\\d+)".toList, "/:b".toList]
        [(m₁, none), (m₂, some w)] :=
    .cons ⟨hm₁, hexec₁⟩ (.cons ⟨hm₂, hanswer₂⟩ .nil)
  obtain ⟨-, -, hwinner⟩ := exec_anyOf {} htemplates
    (fun t ht => (exists_ok_of_map (hrenderers t ht)).imp fun _ h => h.1) hclear hm hanswer hruns
  obtain ⟨before, winner, w', after, hruns, -, -, hindex, hmatched, hvalues, hget⟩ := hwinner f rfl
  obtain ⟨rfl, rfl, rfl⟩ : before = [(m₁, none)] ∧ w' = w ∧ after = [] := by
    rcases before with _ | ⟨b, _ | ⟨c, before⟩⟩
    · simp at hruns
    · obtain ⟨rfl, ⟨-, rfl⟩, rfl⟩ := by simpa using hruns
      exact ⟨rfl, rfl, rfl⟩
    · simp at hruns
  refine ⟨m, f, m₁, m₂, w', hm, hanswer, hm₁, hexec₁, hm₂, hanswer₂, hindex, hmatched, ?_, hget _⟩
  simpa using hvalues

/-- In the first of these templates one set goes on from `[!-[]` to the last bracket, and with it
the group. The value of `c` is then in the second group, while its key is the third. -/
theorem exec_anyOf_bracketed : ∃ m f m₁ m₂ w,
    (∀ t ∈ ["/:a([!-[])/:b([x]])".toList, "/z/:c".toList],
      ∃ r, Rendering.Renderer.compile { sensitive := true, toEnd := false } t = .ok r) ∧
    Matcher.compile { sensitive := true, toEnd := false }
      (.anyOf [.template "/:a([!-[])/:b([x]])".toList, .template "/z/:c".toList]) = .ok m ∧
    m.exec "/z/1".toList = .ok (some f) ∧
    Matcher.compile { sensitive := true, toEnd := false }
      (.template "/:a([!-[])/:b([x]])".toList) = .ok m₁ ∧ m₁.exec "/z/1".toList = .ok none ∧
    Matcher.compile { sensitive := true, toEnd := false } (.template "/z/:c".toList) = .ok m₂ ∧
    m₂.exec "/z/1".toList = .ok (some w) ∧ f.get ['c'] = none ∧ w.get ['c'] = some ['1'] := by
  have hlist : (Matcher.compile { sensitive := true, toEnd := false }
      (.anyOf [.template "/:a([!-[])/:b([x]])".toList, .template "/z/:c".toList])).map (fun m =>
        (m.exec "/z/1".toList).map (Option.map fun f => f.get ['c'])) = .ok (.ok (some none)) := by
    decide
  have hfirst : (Matcher.compile { sensitive := true, toEnd := false }
      (.template "/:a([!-[])/:b([x]])".toList)).map (fun m => m.exec "/z/1".toList) =
        .ok (.ok none) := by decide
  have hsecond : (Matcher.compile { sensitive := true, toEnd := false }
      (.template "/z/:c".toList)).map (fun m =>
        (m.exec "/z/1".toList).map (Option.map fun f => f.get ['c'])) =
          .ok (.ok (some (some ['1']))) := by decide
  have hrenderers : ∀ t ∈ ["/:a([!-[])/:b([x]])".toList, "/z/:c".toList],
      (Rendering.Renderer.compile { sensitive := true, toEnd := false } t).map (fun _ => ()) =
        .ok () := by decide
  obtain ⟨m, hm, hexec⟩ := exists_ok_of_map hlist
  obtain ⟨answer, hanswer, hsome⟩ := exists_ok_of_map hexec
  obtain ⟨f, rfl, hget⟩ := Option.map_eq_some_iff.mp hsome
  obtain ⟨m₁, hm₁, hexec₁⟩ := exists_ok_of_map hfirst
  obtain ⟨m₂, hm₂, hexec₂⟩ := exists_ok_of_map hsecond
  obtain ⟨answer₂, hanswer₂, hsome₂⟩ := exists_ok_of_map hexec₂
  obtain ⟨w, rfl, hget₂⟩ := Option.map_eq_some_iff.mp hsome₂
  refine ⟨m, f, m₁, m₂, w, ?_, hm, hanswer, hm₁, hexec₁, hm₂, hanswer₂, hget, hget₂⟩
  exact fun t ht => (exists_ok_of_map (hrenderers t ht)).imp fun _ h => h.1

end Winner

end PathTemplate.Matching
