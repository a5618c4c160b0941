import PathTemplate.Proofs.Meaning.Mounting

/-!
Paths in front of a terminator. A segment may hold terminators, since no pattern leaves them out.
Still a matcher stops in front of the first one behind a path, because every part of a match takes
as little as it can: a shorter body would end in front of a terminator within the path. Terminators
make the expression look ahead, so the search for a long segment is given up.
-/
namespace PathTemplate.Matching

open Expression

section Terminated

variable {a : Bool} {o : Options} {ts : List Token} {path x e r : Text} {vs : List (Option Text)}

/-- Where case counts, a match of a whole path leaves nothing, or a text that begins with a
terminator. -/
theorem Ends.isTerminated (ha : a = false) (htoEnd : o.toEnd = true) (h : Ends a o ts e r) :
    IsTerminated o r := by
  subst ha
  rw [ends_false, IsEnding, if_pos htoEnd] at h
  exact h.2.1

/-- A terminator may follow what is taken. -/
theorem ends_terminated (htoEnd : o.toEnd = true)
    (he : e = [] ∨ o.strict = false ∧ e = [o.delimiter]) (hr : ∃ t ∈ o.endsWith, t <+: r) :
    Ends a o ts e r := by
  obtain ⟨t, ht, u, rfl⟩ := hr
  rw [Ends, if_pos htoEnd]
  refine ⟨?_, Or.inr ⟨t, ht, t, u, rfl, textAlike_self a t⟩⟩
  rcases he with rfl | ⟨hloose, rfl⟩
  · exact Or.inl rfl
  · exact Or.inr ⟨hloose, textAlike_self a _⟩

variable (hs : Segmented o ts) (hstart : o.fromStart = true) (htoEnd : o.toEnd = true)
  (hsensitive : o.sensitive = true)

include hs hstart htoEnd hsensitive

/-- A body is the shortest if no terminator begins within it. -/
theorem Division.length_body_le_of_free (v w : Division (!o.sensitive) o ts path)
    (hfree : ∀ i < v.body.length, ∀ t ∈ o.endsWith, ¬ t <+: path.drop i) :
    v.body.length ≤ w.body.length := by
  have hd := fixed_of_options (o := o) (Or.inl hsensitive)
  rcases v.le_or_exists hs hd hstart w with hle | ⟨z, hz, -, hbody, hending, hleft⟩
  · exact hle
  · exfalso
    have hdrop : path.drop w.body.length = w.left := by
      have hpath := w.path_eq_of_start hstart
      rw [hending, List.nil_append] at hpath
      exact (congrArg (List.drop w.body.length) hpath).trans List.drop_left
    rcases w.ends.isTerminated (by rw [hsensitive]; rfl) htoEnd with hnil | ⟨t, ht, hprefix⟩
    · rw [hleft] at hnil
      exact hz (List.append_eq_nil_iff.mp hnil).1
    · refine hfree w.body.length ?_ t ht (hdrop ▸ hprefix)
      have hpos := List.length_pos_iff.mpr hz
      rw [hbody, List.length_append]
      omega

/-- A match of a whole path is found in front of a terminator too, if none begins within the
path. -/
theorem answersWithin_terminated (hterminators : ∀ t ∈ o.endsWith, t ≠ [] ∧ o.delimiter ∉ t)
    (h : Takes (!o.sensitive) o ts x vs) (he : e = [] ∨ o.strict = false ∧ e = [o.delimiter])
    (hr : ∃ t ∈ o.endsWith, t <+: r)
    (hfree : ∀ i < (x ++ e).length, ∀ t ∈ o.endsWith, ¬ t <+: (x ++ e ++ r).drop i)
    {source : Text} {keys : List Key} :
    Matcher.AnswersWithin ⟨source, keys, compiledTokens o ts⟩ (weight o ts) (x ++ e ++ r)
      ⟨0, x ++ e, Matcher.values keys vs⟩ := by
  have hd := fixed_of_options (o := o) (Or.inl hsensitive)
  have hleft : r.head? ≠ some o.delimiter := by
    obtain ⟨t, ht, u, rfl⟩ := hr
    obtain ⟨hne, hdt⟩ := hterminators t ht
    obtain ⟨c, t, rfl⟩ := List.exists_cons_of_ne_nil hne
    exact fun hc => hdt (Option.some.inj hc ▸ List.mem_cons_self)
  let v : Division (!o.sensitive) o ts (x ++ e ++ r) :=
    ⟨[], x, e, r, vs, List.append_assoc x e r, fun _ => rfl, h, ends_terminated htoEnd he hr⟩
  refine answersWithin_of_shortest hs hd hstart v (fun w =>
    v.length_body_le_of_free hs hstart htoEnd hsensitive w fun i hi => hfree i ?_)
      fun w hw => v.length_ending_le hd hstart w hw hleft
  rw [List.length_append]
  exact Nat.lt_add_right _ hi

end Terminated

/-- What a matcher without terminators answers to a path, the matcher with terminators answers in
front of any of them, as long as none begins within the path and the search is not given up. -/
theorem exec_terminated {o : Options} {t : Text} (hstart : o.fromStart = true)
    (htoEnd : o.toEnd = true) (hsensitive : o.sensitive = true)
    (hterminators : ∀ e ∈ o.endsWith, e ≠ [] ∧ o.delimiter ∉ e)
    (hs : Segmented o (Template.tokens o t)) :
    ∃ m₀ m, Matcher.compile { o with endsWith := [] } (.template t) = .ok m₀ ∧
      Matcher.compile o (.template t) = .ok m ∧
      ∀ path r f, (∃ e ∈ o.endsWith, e <+: r) →
        (∀ i < path.length, ∀ e ∈ o.endsWith, ¬ e <+: (path ++ r).drop i) →
        m₀.exec path = .ok (some f) →
        m.AnswersWithin (weight o (Template.tokens o t)) (path ++ r) f := by
  have htokens : Template.tokens { o with endsWith := [] } t = Template.tokens o t := by
    refine Template.tokens_congr ?_ ?_ t <;> rfl
  refine ⟨_, _, compile_template_eq_of_tokens htokens hs.defaults, compile_template_eq hs.defaults,
    fun path r f hr hfree hf => ?_⟩
  obtain ⟨x, e, vs, rfl, htakes, he, rfl⟩ := exists_takes_of_exec
    (o := { o with endsWith := [] }) (fixed_of_options (Or.inl hsensitive)) hstart htoEnd rfl hf
  exact answersWithin_terminated hs hstart htoEnd hsensitive hterminators
    (htakes.takes hs.defaults) he hr hfree

/-- What `/user/:id` finds in `/user/7` it finds in front of a query that looks like a path. -/
theorem exec_terminated_user : ∃ m₀ m f,
    Segmented { sensitive := true, endsWith := [['?'], ['#']] }
      (Template.tokens { sensitive := true, endsWith := [['?'], ['#']] } "/user/:id".toList) ∧
    Matcher.compile { sensitive := true } (.template "/user/:id".toList) = .ok m₀ ∧
    Matcher.compile { sensitive := true, endsWith := [['?'], ['#']] }
      (.template "/user/:id".toList) = .ok m ∧
    m₀.exec "/user/7".toList = .ok (some f) ∧
    m.exec "/user/7?a=/user/8?b#c".toList = .ok (some f) := by
  have hs : Segmented { sensitive := true, endsWith := [['?'], ['#']] }
      (Template.tokens { sensitive := true, endsWith := [['?'], ['#']] } "/user/:id".toList) := by
    decide
  obtain ⟨m₀, m, hm₀, hm, hterminated⟩ := exec_terminated rfl rfl rfl (by decide) hs
  have hfound : (Matcher.compile { sensitive := true } (.template "/user/:id".toList)).map
      (fun m => (m.exec "/user/7".toList).map Option.isSome) = .ok (.ok true) := by decide
  rw [show Matcher.compile _ _ = _ from hm₀] at hfound
  obtain ⟨answer, hanswer, hsome⟩ := exists_ok_of_map (Except.ok.inj hfound)
  obtain ⟨f, rfl⟩ := Option.isSome_iff_exists.mp hsome
  have hr : ∃ e ∈ [['?'], ['#']], e <+: "?a=/user/8?b#c".toList := by decide
  have hfree : ∀ i < "/user/7".toList.length, ∀ e ∈ [['?'], ['#']],
      ¬ e <+: ("/user/7".toList ++ "?a=/user/8?b#c".toList).drop i := by decide
  have hfits : weight { sensitive := true, endsWith := [['?'], ['#']] }
      (Template.tokens { sensitive := true, endsWith := [['?'], ['#']] } "/user/:id".toList) * 22 ≤
        stepLimit := by decide
  exact ⟨m₀, m, f, hs, hm₀, hm, hanswer, (hterminated _ _ f hr hfree hanswer).exec_eq hfits⟩

/-- In front of a question mark the search for a segment of a million characters is given up. -/
theorem exec_terminated_gaveUp : ∃ m₀ m f,
    Segmented { sensitive := true } (Template.tokens { sensitive := true } "/:a".toList) ∧
    Matcher.compile { sensitive := true } (.template "/:a".toList) = .ok m₀ ∧
    Matcher.compile { sensitive := true, endsWith := [['?']] } (.template "/:a".toList) = .ok m ∧
    (∀ i < ('/' :: List.replicate 1000000 'x').length,
      ¬ ['?'] <+: ('/' :: List.replicate 1000000 'x' ++ ['?']).drop i) ∧
    m₀.exec ('/' :: List.replicate 1000000 'x') = .ok (some f) ∧
    m.exec ('/' :: List.replicate 1000000 'x' ++ ['?']) =
      .error ⟨'/' :: List.replicate 1000000 'x' ++ ['?']⟩ := by
  obtain ⟨m₀, f, hm₀, hf⟩ := exists_exec_segment false 999999
  obtain ⟨m, hm, hgave⟩ := exec_segment_gaveUp (o := { sensitive := true, endsWith := [['?']] })
    (f := .loop (.one (.range '/' '/') false) 0 (some 1) true)
    (g := .ahead true (.alt (.one (.range '?' '?') false) (.check .textEnd))) (n := 999999)
    (d := 9) rfl rfl (by decide) rfl (fun _ _ _ _ _ _ _ _ => rfl) (by decide) ['?']
  refine ⟨m₀, m, f, ?_, hm₀, hm, fun i hi hprefix => ?_, hf, hgave⟩
  · rw [tokens_segmentParameter rfl rfl]
    exact segmented_segmentParameter rfl
  · obtain ⟨u, hu⟩ := hprefix
    rw [List.drop_append_of_le_length (Nat.le_of_lt hi), List.drop_eq_getElem_cons hi] at hu
    have hmem := List.getElem_mem hi
    rw [← (List.cons.inj hu).1] at hmem
    rcases List.mem_cons.mp hmem with hslash | hx
    · exact absurd hslash (by decide)
    · exact absurd (List.eq_of_mem_replicate hx) (by decide)

end PathTemplate.Matching
