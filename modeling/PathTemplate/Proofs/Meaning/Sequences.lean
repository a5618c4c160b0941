import PathTemplate.Proofs.Groups.Aligned
import PathTemplate.Proofs.Meaning.Behind
import PathTemplate.Proofs.Reading.Sequenced

/-!
Sequences of inputs. Where their sources do not disturb each other, a sequence matches a path if one
of its inputs does by itself.
-/
namespace PathTemplate.Expression

/-- A plain expression matches at a place whatever happens to empty turns. -/
theorem Expr.exists_mem_paths_congr {e : Expr} {et et' : EmptyTurn}
    (h : e.isPlain = true ∨ et = et') {txt : Text} {s : State} (hs : s.StandsIn txt) :
    (∃ r, r ∈ e.paths et s) ↔ ∃ r, r ∈ e.paths et' s := by
  rcases h with hplain | rfl
  · have hreaches : ∀ et et', (∃ r, r ∈ e.paths et s) → ∃ r, r ∈ e.paths et' s := by
      intro et et' h
      obtain ⟨r, hr⟩ := h
      obtain ⟨q, hq, -⟩ := e.reaches_paths txt hplain et et' s s hs hs rfl r hr
      exact ⟨q, hq⟩
    exact ⟨hreaches et et', hreaches et' et⟩
  · exact Iff.rfl

theorem Builder.exists_mem_paths_altAll {es : List Expr} (hes : es ≠ []) (et : EmptyTurn)
    (s : State) : (∃ r, r ∈ (altAll es).paths et s) ↔ ∃ e ∈ es, ∃ r, r ∈ e.paths et s := by
  simp only [paths_altAll hes, List.mem_flatMap]
  constructor
  · rintro ⟨r, e, he, hr⟩
    exact ⟨e, he, r, hr⟩
  · rintro ⟨e, he, r, hr⟩
    exact ⟨r, e, he, hr⟩

/-- Alternatives behind the groups of others match where they match by themselves. -/
theorem exists_mem_paths_placed {bs : List Builder}
    (hbs : ∀ b ∈ bs, ∀ e ∈ Builder.alternatives b.frame, e.KeepsTo b.groups) {k n : Nat}
    (hn : k + (bs.map Builder.groups).sum ≤ n) (et : EmptyTurn) (u v : Text) :
    (∃ e ∈ placed k bs, ∃ r, r ∈ e.paths et (State.between u v n)) ↔
      ∃ b ∈ bs, ∃ e ∈ Builder.alternatives b.frame,
        ∃ r, r ∈ e.paths et (State.between u v b.groups) := by
  induction bs generalizing k with
  | nil => simp [placed]
  | cons b bs ih =>
    rw [List.map_cons, List.sum_cons] at hn
    have hrest := ih (fun d hd => hbs d (List.mem_cons_of_mem b hd))
      (k := k + b.groups) (by omega)
    have hfirst : ∀ e ∈ Builder.alternatives b.frame,
        (∃ r, r ∈ (e.renumber (k + ·)).paths et (State.between u v n)) ↔
          ∃ r, r ∈ e.paths et (State.between u v b.groups) := by
      intro e he
      have halong := (hbs b List.mem_cons_self e he).along k et (State.between u v n)
      rw [State.moved_between u v (by omega)] at halong
      rw [halong]
      simp only [List.mem_map]
      constructor
      · rintro ⟨r, hr⟩
        exact ⟨_, r, hr, rfl⟩
      · rintro ⟨-, r, hr, -⟩
        exact ⟨r, hr⟩
    rw [placed]
    constructor
    · rintro ⟨e, he, hr⟩
      rcases List.mem_append.mp he with he | he
      · obtain ⟨e', he', rfl⟩ := List.mem_map.mp he
        exact ⟨b, List.mem_cons_self, e', he', (hfirst e' he').mp hr⟩
      · obtain ⟨d, hd, hmatch⟩ := hrest.mp ⟨e, he, hr⟩
        exact ⟨d, List.mem_cons_of_mem b hd, hmatch⟩
    · rintro ⟨d, hd, e, he, hr⟩
      rcases List.mem_cons.mp hd with rfl | hd
      · exact ⟨_, List.mem_append_left _ (List.mem_map_of_mem he), (hfirst e he).mpr hr⟩
      · obtain ⟨e', he', hr'⟩ := hrest.mpr ⟨d, hd, e, he, hr⟩
        exact ⟨e', List.mem_append_right _ he', hr'⟩

/-- A check that goes through alternatives, and does not look at numbers, looks at the expression of
every builder. -/
theorem all_placed {f : Expr → Bool} (hempty : f .empty = true)
    (halt : ∀ e g, f (.alt e g) = (f e && f g)) (hnumber : ∀ h e, f (Expr.renumber h e) = f e)
    (k : Nat) (bs : List Builder) :
    f (Builder.altAll (placed k bs)) = bs.all fun b => f b.compiled.expr := by
  rw [Builder.all_altAll hempty halt]
  induction bs generalizing k with
  | nil => rfl
  | cons b bs ih =>
    have hown : ((Builder.alternatives b.frame).map (Expr.renumber (k + ·))).all f =
        f b.compiled.expr := by
      rw [Builder.compiled, Builder.all_altAll hempty halt, List.all_map]
      exact congrArg (List.all _) (funext fun e => hnumber _ e)
    rw [placed, List.all_append, ih, hown, List.all_cons]

theorem isPlain_placed (k : Nat) (bs : List Builder) :
    (Builder.altAll (placed k bs)).isPlain = bs.all fun b => b.compiled.expr.isPlain :=
  all_placed rfl (fun _ _ => rfl) (fun _ e => e.isPlain_renumber) k bs

/-- The sets of a bundle are those of its alternatives. -/
theorem settled_bundled {ts : List Text} {bs : List Builder} (hapart : Apart ts) (hne : ts ≠ [])
    (hts : List.Forall₂ (fun t b => Builder.after t = some b ∧ b.Finished) ts bs)
    (hbs : ∀ b ∈ bs, b.compiled.expr.isSettled = true) :
    Settled (Matching.bundled (Text.join ['|'] ts)) := by
  intro e n hread
  rw [read_eq_after] at hread
  obtain ⟨c, hc, hfinish⟩ := Option.bind_eq_some_iff.mp hread
  obtain ⟨hfinished, rfl, -⟩ := Builder.finish_inv hfinish
  have hwhole := congrArg Compiled.expr (compiled_bundled hapart hne hts hc hfinished)
  have hexpr : c.compiled.expr = Builder.altAll (Builder.alternatives c.frame) := rfl
  rw [← hexpr, hwhole, all_placed rfl (fun _ _ => rfl) (fun _ e => e.isSettled_renumber),
    List.all_eq_true]
  exact hbs

/-- Alternatives behind each other match a text if one of the builders' expressions matches it. -/
theorem exists_mem_matchStates_placed {bs : List Builder} (hne : bs ≠ [])
    (hbs : ∀ b ∈ bs, ∀ e ∈ Builder.alternatives b.frame, e.KeepsTo b.groups) (t : Text) :
    (∃ s, s ∈ Compiled.matchStates ⟨Builder.altAll (placed 0 bs), (bs.map Builder.groups).sum⟩ t) ↔
      ∃ b ∈ bs, ∃ s, s ∈ b.compiled.matchStates t := by
  have hplaced : placed 0 bs ≠ [] := by
    obtain ⟨b, bs, rfl⟩ := List.exists_cons_of_ne_nil hne
    simp [placed, Builder.alternatives]
  -- the whole is searched like those that are not plain, if there are any
  have hturn : ∀ b ∈ bs, b.compiled.expr.isPlain = true ∨
      (Builder.altAll (placed 0 bs)).emptyTurn = b.compiled.expr.emptyTurn := by
    intro b hb
    by_cases hplain : b.compiled.expr.isPlain = true
    · exact .inl hplain
    · have hwhole : ¬ (Builder.altAll (placed 0 bs)).isPlain = true := by
        rw [isPlain_placed, List.all_eq_true]
        exact fun hall => hplain (hall b hb)
      rw [Expr.emptyTurn, Expr.emptyTurn, if_neg hplain, if_neg hwhole]
      exact .inr rfl
  have hplace : ∀ u v,
      (∃ r, r ∈ (Builder.altAll (placed 0 bs)).paths (Builder.altAll (placed 0 bs)).emptyTurn
        (State.between u v (bs.map Builder.groups).sum)) ↔
      ∃ b ∈ bs, ∃ r, r ∈ b.compiled.expr.paths b.compiled.expr.emptyTurn
        (State.between u v b.compiled.groups) := by
    intro u v
    rw [Builder.exists_mem_paths_altAll hplaced, exists_mem_paths_placed hbs (by omega)]
    refine exists_congr fun b => and_congr_right fun hb => ?_
    rw [← Builder.exists_mem_paths_altAll (by simp [Builder.alternatives])]
    exact Expr.exists_mem_paths_congr (hturn b hb) (State.between_standsIn u v b.groups)
  simp only [Compiled.exists_mem_matchStates, hplace]
  constructor
  · rintro ⟨u, v, ht, b, hb, hr⟩
    exact ⟨b, hb, u, v, ht, hr⟩
  · rintro ⟨b, hb, u, v, ht, hr⟩
    exact ⟨u, v, ht, b, hb, hr⟩

end PathTemplate.Expression

namespace PathTemplate.Matching

open Expression

theorem textRead_eq_source {o : Options} (hs : o.sensitive = true) (i : Input) :
    textRead o i = i.source o := by
  cases i <;> simp [textRead, Matcher.flagged, hs, Input.source]

theorem exists_after_of_compile {o : Options} (hs : o.sensitive = true) {i : Input} {m : Matcher}
    (hsettled : Settled (i.source o)) (h : Matcher.compile o i = .ok m) :
    ∃ b, Builder.after (i.source o) = some b ∧ b.Finished ∧ b.compiled = m.compiled := by
  have hread := (compile_inv h).1
  rw [textRead_eq_source hs] at hread
  exact exists_after_of_read hsettled hread

/-- Each input of a sequence is read by itself. -/
private theorem exists_builders {o : Options} (hs : o.sensitive = true) {is : List Input}
    (hsettled : ∀ t ∈ Input.sources o is, Settled t) {ms : List Matcher}
    (h : List.Forall₂ (fun i m => Matcher.compile o i = .ok m) is ms) :
    ∃ bs : List Builder,
      List.Forall₂ (fun t b => Builder.after t = some b ∧ b.Finished) (Input.sources o is) bs ∧
        (∀ b ∈ bs, (∀ e ∈ Builder.alternatives b.frame, e.KeepsTo b.groups) ∧
          b.compiled.expr.isSettled = true) ∧
          bs.map Builder.compiled = ms.map Matcher.compiled := by
  induction h with
  | nil => exact ⟨[], .nil, by simp, rfl⟩
  | @cons i m is ms hm _ ih =>
    rw [Input.sources, List.forall_mem_cons] at hsettled
    obtain ⟨hi, hsettled⟩ := hsettled
    obtain ⟨b, hb, hfinished, hcompiled⟩ := exists_after_of_compile hs hi hm
    obtain ⟨xs, -, hrun⟩ := Option.bind_eq_some_iff.mp hb
    obtain ⟨bs, hbs, hkeeps, hmap⟩ := ih hsettled
    have hknown : b.compiled.expr.isSettled = true := by
      have hread := (compile_inv hm).1
      rw [textRead_eq_source hs] at hread
      rw [hcompiled]
      exact hi.isSettled hread
    refine ⟨b :: bs, .cons ⟨hb, hfinished⟩ hbs, ?_, ?_⟩
    · exact List.forall_mem_cons.mpr ⟨⟨fun e he => hfinished.keepsTo hrun he, hknown⟩, hkeeps⟩
    · rw [List.map_cons, List.map_cons, hcompiled, hmap]

/-- Where the sources of its inputs do not disturb each other, a sequence matches a path exactly if
one of the inputs by itself matches it. -/
theorem isMatch_anyOf_iff (o : Options) (hs : o.sensitive = true) {is : List Input} (hne : is ≠ [])
    (hapart : Apart (Input.sources o is)) {m : Matcher} {ms : List Matcher}
    (hm : Matcher.compile o (.anyOf is) = .ok m)
    (hms : List.Forall₂ (fun i m => Matcher.compile o i = .ok m) is ms) {path : Text}
    (hpath : m.isMatch path ≠ .error ⟨path⟩) (hown : ∀ m ∈ ms, m.isMatch path ≠ .error ⟨path⟩) :
    m.isMatch path = .ok true ↔ ∃ m ∈ ms, m.isMatch path = .ok true := by
  obtain ⟨bs, hbs, hboth, hcompiled⟩ := exists_builders hs hapart.settled hms
  have hsources : Input.sources o is ≠ [] := by
    obtain ⟨i, is, rfl⟩ := List.exists_cons_of_ne_nil hne
    nofun
  have hbuilders : bs ≠ [] := by
    rintro rfl
    exact hsources (List.forall₂_nil_right_iff.mp hbs)
  have hsettled : Settled ((Input.anyOf is).source o) :=
    settled_bundled hapart hsources hbs fun b hb => (hboth b hb).2
  obtain ⟨c, hc, hfinished, hwhole⟩ := exists_after_of_compile hs hsettled hm
  have hany : (∃ s, s ∈ m.compiled.matchStates path) ↔
      ∃ b ∈ bs, ∃ s, s ∈ b.compiled.matchStates path := by
    rw [← hwhole, compiled_bundled hapart hsources hbs hc hfinished]
    exact exists_mem_matchStates_placed hbuilders (fun b hb => (hboth b hb).1) path
  have hlist : (∃ b ∈ bs, ∃ s, s ∈ b.compiled.matchStates path) ↔
      ∃ x ∈ ms, ∃ s, s ∈ x.compiled.matchStates path := by
    have hmap : (∃ c ∈ bs.map Builder.compiled, ∃ s, s ∈ c.matchStates path) ↔
        ∃ c ∈ ms.map Matcher.compiled, ∃ s, s ∈ c.matchStates path := by rw [hcompiled]
    simpa only [List.mem_map, exists_exists_and_eq_and] using hmap
  rw [Matcher.isMatch_eq_true_iff hpath, hany, hlist]
  exact exists_congr fun x => and_congr_right fun hx =>
    (Matcher.isMatch_eq_true_iff (hown x hx)).symm

private theorem exists_matcher {o : Options} {i : Input} {path : Text} {b : Bool}
    (h : ((Matcher.compile o i).toOption.bind fun m => (m.isMatch path).toOption) = some b) :
    ∃ m, Matcher.compile o i = .ok m ∧ m.isMatch path = .ok b := by
  cases hm : Matcher.compile o i with
  | error _ =>
    rw [hm] at h
    cases h
  | ok m =>
    rw [hm] at h
    refine ⟨m, rfl, ?_⟩
    cases hb : m.isMatch path with
    | error _ => simp [Except.toOption, hb] at h
    | ok b' => simpa [Except.toOption, hb] using h

/-- A reference in front, and a sequence inside the sequence that sets a flag. -/
theorem isMatch_anyOf_nested : ∃ v w m ms, Written.read "^/(a)\\1$".toList = some v ∧
    Written.read "(?i)^/c$".toList = some w ∧
    Matcher.compile { sensitive := true } (.anyOf [.written v,
      .anyOf [.template "/b/:x".toList, .written w], .template "/d".toList]) = .ok m ∧
    List.Forall₂ (fun i m => Matcher.compile { sensitive := true } i = .ok m) [.written v,
      .anyOf [.template "/b/:x".toList, .written w], .template "/d".toList] ms ∧
    m.isMatch "/b/7".toList = .ok true ∧ ∃ m ∈ ms, m.isMatch "/b/7".toList = .ok true := by
  have hall : ((Written.read "^/(a)\\1$".toList).bind fun v =>
      (Written.read "(?i)^/c$".toList).map fun w =>
        let o : Options := { sensitive := true }
        let is := [.written v, .anyOf [.template "/b/:x".toList, .written w],
          .template "/d".toList]
        (decide (Apart (Input.sources o is)), (Input.anyOf is :: is).map fun i =>
          (Matcher.compile o i).toOption.bind fun m => (m.isMatch "/b/7".toList).toOption)) =
      some (true, [some true, some false, some true, some false]) := by decide +kernel
  obtain ⟨v, hv, hmap⟩ := Option.bind_eq_some_iff.mp hall
  obtain ⟨w, hw, hboth⟩ := Option.map_eq_some_iff.mp hmap
  obtain ⟨hapart, hmatches⟩ := Prod.mk.inj hboth
  simp only [List.map_cons, List.map_nil, List.cons.injEq] at hmatches
  obtain ⟨hmatches, hmatches₁, hmatches₂, hmatches₃, -⟩ := hmatches
  obtain ⟨m, hm, hmatch⟩ := exists_matcher hmatches
  obtain ⟨m₁, hm₁, hmatch₁⟩ := exists_matcher hmatches₁
  obtain ⟨m₂, hm₂, hmatch₂⟩ := exists_matcher hmatches₂
  obtain ⟨m₃, hm₃, hmatch₃⟩ := exists_matcher hmatches₃
  have hms : List.Forall₂ (fun i m => Matcher.compile { sensitive := true } i = .ok m)
      [.written v, .anyOf [.template "/b/:x".toList, .written w], .template "/d".toList]
      [m₁, m₂, m₃] := .cons hm₁ (.cons hm₂ (.cons hm₃ .nil))
  have hown : ∀ m ∈ [m₁, m₂, m₃], m.isMatch "/b/7".toList ≠ .error ⟨"/b/7".toList⟩ := by
    intro x hx
    simp only [List.mem_cons, List.not_mem_nil, or_false] at hx
    rcases hx with rfl | rfl | rfl
    · rw [hmatch₁]
      nofun
    · rw [hmatch₂]
      nofun
    · rw [hmatch₃]
      nofun
  have hany := (isMatch_anyOf_iff { sensitive := true } rfl (by simp) (of_decide_eq_true hapart) hm
    hms (by rw [hmatch]; nofun) hown).mp hmatch
  exact ⟨v, w, m, [m₁, m₂, m₃], hv, hw, hm, hms, hmatch, hany⟩

/-- In `(?:(?i)/a|^/b(?:/)?$)` the flag of the first alternative reaches the second one: the
sequence matches `/B`, which none of its inputs does. -/
theorem isMatch_anyOf_flagged : ∃ w m m₁ m₂, Written.read "(?i)/a".toList = some w ∧
    Matcher.compile { sensitive := true } (.anyOf [.written w, .template "/b".toList]) = .ok m ∧
    Matcher.compile { sensitive := true } (.written w) = .ok m₁ ∧
    Matcher.compile { sensitive := true } (.template "/b".toList) = .ok m₂ ∧
    m.isMatch "/B".toList = .ok true ∧ m₁.isMatch "/B".toList = .ok false ∧
    m₂.isMatch "/B".toList = .ok false := by
  have hall : (Written.read "(?i)/a".toList).map (fun w =>
      let is := [.written w, .template "/b".toList]
      (Input.anyOf is :: is).map fun i =>
        (Matcher.compile { sensitive := true } i).toOption.bind fun m =>
          (m.isMatch "/B".toList).toOption) =
      some [some true, some false, some false] := by decide
  obtain ⟨w, hw, hmatches⟩ := Option.map_eq_some_iff.mp hall
  simp only [List.map_cons, List.map_nil, List.cons.injEq] at hmatches
  obtain ⟨hmatches, hmatches₁, hmatches₂, -⟩ := hmatches
  obtain ⟨m, hm, hmatch⟩ := exists_matcher hmatches
  obtain ⟨m₁, hm₁, hmatch₁⟩ := exists_matcher hmatches₁
  obtain ⟨m₂, hm₂, hmatch₂⟩ := exists_matcher hmatches₂
  exact ⟨w, m, m₁, m₂, hw, hm, hm₁, hm₂, hmatch, hmatch₁, hmatch₂⟩

/-- A number counts from the beginning of the sequence: in `(?:^/b/([^/]+?)(?:/)?$|^/(a)\1$)` it is
the group of the template that `\1` asks for, and `/aa` is not matched any more. -/
example : (Written.read "^/(a)\\1$".toList).map (fun w =>
    [Input.written w, .anyOf [.template "/b/:x".toList, .written w]].map fun i =>
      (Matcher.compile { sensitive := true } i).toOption.bind fun m =>
        (m.isMatch "/aa".toList).toOption) = some [some true, some false] := by decide +kernel

end PathTemplate.Matching
