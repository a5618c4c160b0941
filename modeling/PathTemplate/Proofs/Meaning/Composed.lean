import PathTemplate.Proofs.Meaning.Spelling
import PathTemplate.Proofs.Reading.Accepted

/-!
What a match of a template has taken when case counts. Whatever the patterns are, the text is that
of the literals and of the values with their leads, in order, and behind it the path ends as the
options ask.
-/
namespace PathTemplate.Matching

open Expression

/-- The text of the tokens when their parameters have the given values. A parameter without a value
leaves nothing, not even its lead. -/
def composed : List Token → List (Option Text) → Text
  | [], _ => []
  | .literal t :: ts, vs => t ++ composed ts vs
  | .parameter p :: ts, some v :: vs => p.leadText ++ v ++ composed ts vs
  | .parameter _ :: ts, none :: vs => composed ts vs
  | .parameter _ :: ts, [] => composed ts []

theorem TakesAt.composed_eq {ts : List Token} {b w u : Text} {vs : List (Option Text)}
    (h : TakesAt false ts b w u vs) : composed ts vs = w := by
  induction h with
  | nil => rfl
  | literal ht _ ih => rw [composed, ih, (textAlike_false_iff _ _).mp ht]
  | absent _ _ ih => rw [composed, ih]
  | present hl _ _ ih => rw [composed, ih, (textAlike_false_iff _ _).mp hl]

/-- Only an optional parameter can be left without a value. -/
theorem TakesAt.optional {a : Bool} {ts : List Token} {b w u : Text} {vs : List (Option Text)}
    (h : TakesAt a ts b w u vs) :
    ∀ kv ∈ (tokensKeys ts).zip vs, kv.2 = none → kv.1.optional = true := by
  induction h with
  | nil => simp
  | literal _ _ ih => exact ih
  | absent hopt _ ih =>
    intro kv hkv hnone
    rcases List.mem_cons.mp hkv with rfl | hkv
    · exact hopt
    · exact ih kv hkv hnone
  | present _ _ _ ih =>
    intro kv hkv hnone
    rcases List.mem_cons.mp hkv with rfl | hkv
    · cases hnone
    · exact ih kv hkv hnone

/-- Where case counts, a match of a template whose patterns are accepted one by one is a piece of
the path: the literals and the values with their leads, and behind them at most a delimiter. -/
theorem exec_composed (o : Options) (t : Text) (hs : o.sensitive = true) {r : Rendering.Renderer}
    (hr : Rendering.Renderer.compile o t = .ok r)
    (hclear : Rendering.ClearPatterns (Template.tokens o t)) {m : Matcher}
    (hm : Matcher.compile o (.template t) = .ok m) {path : Text} {f : PathMatch}
    (hf : m.exec path = .ok (some f)) :
    ∃ before ending rest,
      path = before ++ f.matched ++ rest ∧ f.index = before.utf8Size ∧
      (o.fromStart = true → f.index = 0) ∧
      f.values.map Prod.fst = tokensKeys (Template.tokens o t) ∧
      f.matched = composed (Template.tokens o t) (f.values.map Prod.snd) ++ ending ∧
      (∀ kv ∈ f.values, kv.2 = none → kv.1.optional = true) ∧
      IsEnding o (Template.tokens o t) ending rest := by
  obtain rfl := Rendering.matcher_eq_of_compile hr hclear hm
  have hplacement := exists_placement_of_exec hf
  rw [hs, Bool.not_true] at hplacement
  obtain ⟨v, rfl⟩ := hplacement
  have hlen : v.values.length = (tokensKeys (Template.tokens o t)).length := by
    rw [v.takes.length, length_tokensKeys]
  refine ⟨v.skipped, v.ending, v.left, ?_, rfl, ?_, ?_, ?_, ?_, (ends_false o _ _ _).mp v.ends⟩
  · have hpath := v.path_eq
    simpa using hpath
  · intro hstart
    simp [v.anchored hstart, Text.utf8Size]
  · simp only [Matcher.values_eq_zip hlen]
    exact List.map_fst_zip hlen.ge
  · simp only [Matcher.values_eq_zip hlen]
    rw [List.map_snd_zip hlen.le, v.takes.composed_eq]
  · simp only [Matcher.values_eq_zip hlen]
    exact v.takes.optional

/-- In `/u/42/` the template `/u/:id(\\d+|me)/:tab?` finds a number and no tab. -/
theorem exec_composed_user : ∃ r m f,
    Rendering.Renderer.compile { sensitive := true } "/u/:id(\\d+|me)/:tab?".toList = .ok r ∧
    Matcher.compile { sensitive := true } (.template "/u/:id(\\d+|me)/:tab?".toList) = .ok m ∧
    m.exec "/u/42/".toList = .ok (some f) ∧ f.values.map Prod.snd = [some "42".toList, none] ∧
    ∃ ending rest, f.matched = "/u/42".toList ++ ending ∧ IsEnding { sensitive := true }
      (Template.tokens { sensitive := true } "/u/:id(\\d+|me)/:tab?".toList) ending rest := by
  have hrenderer : (Rendering.Renderer.compile { sensitive := true }
      "/u/:id(\\d+|me)/:tab?".toList).map (fun _ => ()) = .ok () := by decide
  have hmatcher : (Matcher.compile { sensitive := true }
      (.template "/u/:id(\\d+|me)/:tab?".toList)).map (fun m => (m.exec "/u/42/".toList).map
        (Option.map fun f => f.values.map Prod.snd)) =
          .ok (.ok (some [some "42".toList, none])) := by decide
  obtain ⟨r, hr, -⟩ := exists_ok_of_map hrenderer
  obtain ⟨m, hm, hexec⟩ := exists_ok_of_map hmatcher
  obtain ⟨found, hfound, hsome⟩ := exists_ok_of_map hexec
  obtain ⟨f, rfl, hvalues⟩ := Option.map_eq_some_iff.mp hsome
  have hclear : Rendering.ClearPatterns (Template.tokens { sensitive := true }
      "/u/:id(\\d+|me)/:tab?".toList) := by decide
  obtain ⟨_, ending, rest, -, -, -, -, hmatched, -, hends⟩ :=
    exec_composed { sensitive := true } "/u/:id(\\d+|me)/:tab?".toList rfl hr hclear hm hfound
  have htext : composed (Template.tokens { sensitive := true } "/u/:id(\\d+|me)/:tab?".toList)
      [some "42".toList, none] = "/u/42".toList := by decide
  rw [hvalues, htext] at hmatched
  exact ⟨r, m, f, hr, hm, hfound, hvalues, ending, rest, hmatched, hends⟩

/-- In `/([!-[])/([x]])` one set goes on to the last bracket, and with it the first group. The
parameter `b` is not optional and has no value. -/
theorem exec_bracketed : ∃ r m f,
    Rendering.Renderer.compile { sensitive := true } "/:a([!-[])/:b([x]])".toList = .ok r ∧
    Matcher.compile { sensitive := true, toEnd := false } (.template "/:a([!-[])/:b([x]])".toList) =
      .ok m ∧ m.exec "/!/x]".toList = .ok (some f) ∧
    ∃ kv ∈ f.values, kv.2 = none ∧ kv.1.optional = false := by
  have hrenderer : (Rendering.Renderer.compile { sensitive := true }
      "/:a([!-[])/:b([x]])".toList).map (fun _ => ()) = .ok () := by decide
  have hmatcher : (Matcher.compile { sensitive := true, toEnd := false }
      (.template "/:a([!-[])/:b([x]])".toList)).map (fun m => (m.exec "/!/x]".toList).map
        (Option.map fun f => f.values.any fun kv => kv.2.isNone && !kv.1.optional)) =
          .ok (.ok (some true)) := by decide
  obtain ⟨r, hr, -⟩ := exists_ok_of_map hrenderer
  obtain ⟨m, hm, hexec⟩ := exists_ok_of_map hmatcher
  obtain ⟨found, hfound, hsome⟩ := exists_ok_of_map hexec
  obtain ⟨f, rfl, hany⟩ := Option.map_eq_some_iff.mp hsome
  obtain ⟨kv, hkv, hnone⟩ := List.any_eq_true.mp hany
  exact ⟨r, m, f, hr, hm, hfound, kv, hkv, by simpa using hnone⟩

end PathTemplate.Matching
