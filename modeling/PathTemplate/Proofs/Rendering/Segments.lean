import PathTemplate.Proofs.Meaning.Spelling
import PathTemplate.Proofs.Rendering.Contributions
import PathTemplate.Proofs.Rendering.Validators

/-!
Values of parameters without a pattern of their own. Whatever characters the delimiters are, and
whatever they would mean inside brackets, such a parameter has a validator, and it accepts just the
segments: texts that are not empty and hold neither the delimiter of the parameter nor that of the
options.
-/
namespace PathTemplate.Rendering

open Expression Matching Template

variable {o : Options} {p : Parameter}

theorem accepts_defaultPattern_iff
    (hp : p.pattern = defaultPattern p.delimiter o.delimiter) {c : Compiled}
    (hc : validator p = .ok c) (s : Text) : accepts c s = true ↔ IsSegment o p s :=
  (accepts_iff (denotes_defaultPattern .segment hp) hc s).trans (mem_segments_false o p s)

theorem accepted_defaultPattern_iff (hp : p.pattern = defaultPattern p.delimiter o.delimiter)
    (s : Text) : Accepted p s ↔ IsSegment o p s :=
  (accepted_iff (validator_eq hp) s).trans (accepts_defaultPattern_iff hp (validator_eq hp) s)

/-- A token fails for the whole path when none in front of it does. -/
theorem renderWith_eq_error {t : Text} {r : Renderer} {encode : Encoder} {data : Params}
    {before after : List Token} {u : Token} {e : RenderError} (hr : Renderer.compile o t = .ok r)
    (htokens : tokens o t = before ++ u :: after)
    (hbefore : ∀ x ∈ before, ∃ w, Contribution encode data x (.ok w))
    (hu : Contribution encode data u (.error e)) : r.renderWith encode data = .error e := by
  obtain ⟨parts, hparts, rfl⟩ := exists_ok_of_map hr
  exact (renderParts_eq_error_iff hparts).mpr ⟨before, u, after, htokens, hbefore, hu⟩

/-- A parameter of default pattern has a validator, which accepts the segments and nothing else.
When rendering comes to the parameter, a value whose encoding is no segment is a mismatch, alone or
as the first such element of a sequence. -/
theorem defaultPattern_takes_segments (o : Options) (t : Text) {p : Parameter}
    (hp : .parameter p ∈ tokens o t)
    (hpattern : p.pattern = defaultPattern p.delimiter o.delimiter) :
    ∃ c, validator p = .ok c ∧
      (∀ s, accepts c s = true ↔ s ≠ [] ∧ p.delimiter ∉ s ∧ o.delimiter ∉ s) ∧
      ∀ r, Renderer.compile o t = .ok r → .parameter p c ∈ r.parts ∧
        ∀ encode data before after, tokens o t = before ++ .parameter p :: after →
          (∀ x ∈ before, ∃ w, Contribution encode data x (.ok w)) →
          (∀ v, data.lookup p.name = some (.scalar v) → ¬IsSegment o p (encode v p) →
            r.renderWith encode data = .error (.mismatch p.name p.pattern (encode v p))) ∧
          ∀ us v ws, data.lookup p.name = some (.sequence (us ++ v :: ws)) → p.repeats = true →
            (∀ u ∈ us, IsSegment o p (encode u p)) → ¬IsSegment o p (encode v p) →
            r.renderWith encode data =
              .error (.sequenceMismatch p.name p.pattern (encode v p)) := by
  have hc := validator_eq hpattern
  have haccepted := accepted_defaultPattern_iff hpattern
  refine ⟨_, hc, accepts_defaultPattern_iff hpattern hc, fun r hr => ⟨?_, ?_⟩⟩
  · obtain ⟨c, hc', hmem⟩ := exists_validator_of_compile hr hp
    rwa [Except.ok.inj (hc.symm.trans hc')]
  · intro encode data before after htokens hbefore
    constructor
    · intro v hlookup hv
      exact renderWith_eq_error hr htokens hbefore
        (.mismatch hlookup ((haccepted _).not.mpr hv))
    · intro us v ws hlookup hrep hus hv
      exact renderWith_eq_error hr htokens hbefore
        (.sequenceMismatch hlookup hrep (fun u hu => (haccepted _).mpr (hus u hu))
          ((haccepted _).not.mpr hv))

/-- A closing bracket divides the options' values and a caret those of the parameter; the value
holds a bracket. -/
theorem defaultPattern_takes_segments_brackets :
    .parameter ⟨.named ['a'], some '^', '^', false, false, "[^\\^\\]]+?".toList⟩ ∈
      tokens { delimiter := ']' } "^:a".toList ∧
    ∃ r, Renderer.compile { delimiter := ']' } "^:a".toList = .ok r ∧
      r.renderWith (fun v _ => v) (.ofList [("a".toList, .scalar "-]".toList)]) =
        .error (.mismatch (.named ['a']) "[^\\^\\]]+?".toList "-]".toList) := by
  have htokens : tokens { delimiter := ']' } "^:a".toList =
      [.parameter ⟨.named ['a'], some '^', '^', false, false, "[^\\^\\]]+?".toList⟩] := by
    decide
  have hp : .parameter ⟨.named ['a'], some '^', '^', false, false, "[^\\^\\]]+?".toList⟩ ∈
      tokens { delimiter := ']' } "^:a".toList := by
    rw [htokens]
    exact List.mem_cons_self
  obtain ⟨c, hc, -, hrender⟩ := defaultPattern_takes_segments { delimiter := ']' } "^:a".toList hp
    (by decide)
  obtain ⟨r, hr⟩ : ∃ r, Renderer.compile { delimiter := ']' } "^:a".toList = .ok r := by
    rw [Renderer.compile, htokens, Renderer.ofTokens, partsOf, Part.ofToken, hc]
    exact ⟨_, rfl⟩
  obtain ⟨-, hfails⟩ := hrender r hr
  obtain ⟨hmismatch, -⟩ := hfails (fun v _ => v) (.ofList [("a".toList, .scalar "-]".toList)])
    [] [] htokens (List.forall_mem_nil _)
  exact ⟨hp, r, hr, hmismatch "-]".toList rfl (by unfold IsSegment; decide)⟩

end PathTemplate.Rendering
