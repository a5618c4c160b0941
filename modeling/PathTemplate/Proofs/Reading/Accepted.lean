import PathTemplate.Proofs.Reading.Compiling
import PathTemplate.Proofs.Reading.Patterns

/-!
Templates that a renderer accepts. Each of their patterns keeps to itself in the expression of the
template, so a matcher of such a template is compiled from the items of its tokens.
-/
namespace PathTemplate.Rendering

open Expression Matching

variable {o : Options} {t : Text} {r : Renderer}

/-- The parts of tokens are those of the first token and of the others. -/
theorem partsOf_cons {t : Token} {ts : List Token} {parts : List Part}
    (h : partsOf (t :: ts) = .ok parts) :
    ∃ q qs, Part.ofToken t = .ok q ∧ partsOf ts = .ok qs ∧ parts = q :: qs := by
  rw [partsOf] at h
  cases ht : Part.ofToken t with
  | error e =>
    rw [ht] at h
    cases h
  | ok q =>
    rw [ht] at h
    obtain ⟨qs, hqs, rfl⟩ := exists_ok_of_map h
    exact ⟨q, qs, rfl, hqs, rfl⟩

/-- The validators of tokens that have parts. -/
theorem exists_validator_of_partsOf {ts : List Token} {parts : List Part}
    (h : partsOf ts = .ok parts) {p : Parameter} (hp : .parameter p ∈ ts) :
    ∃ c, validator p = .ok c ∧ .parameter p c ∈ parts := by
  induction ts generalizing parts with
  | nil => simp at hp
  | cons t ts ih =>
    obtain ⟨q, qs, hq, hqs, rfl⟩ := partsOf_cons h
    rcases List.mem_cons.mp hp with rfl | hp
    · obtain ⟨c, hc, rfl⟩ := exists_ok_of_map hq
      exact ⟨c, hc, List.mem_cons_self⟩
    · obtain ⟨c, hc, hmem⟩ := ih hqs hp
      exact ⟨c, hc, List.mem_cons_of_mem q hmem⟩

theorem exists_validator_of_compile (h : Renderer.compile o t = .ok r) {p : Parameter}
    (hp : .parameter p ∈ Template.tokens o t) :
    ∃ c, validator p = .ok c ∧ .parameter p c ∈ r.parts := by
  obtain ⟨parts, hparts, rfl⟩ := exists_ok_of_map h
  exact exists_validator_of_partsOf hparts hp

def ClearPatterns (ts : List Token) : Prop := ∀ p, .parameter p ∈ ts → Clear p.pattern

instance (ts : List Token) : Decidable (ClearPatterns ts) :=
  decidable_of_iff (∀ p ∈ parameters ts, Clear p.pattern) (by simp only [mem_parameters]; rfl)

/-- The patterns of a template that a renderer accepts make up their contents in paths. -/
theorem embeds_of_compile (h : Renderer.compile o t = .ok r)
    (hclear : ClearPatterns (Template.tokens o t)) (a : Bool) :
    ∀ p, .parameter p ∈ Template.tokens o t → Embeds a (Dialect.path.depth + 1) p := by
  intro p hp
  obtain ⟨c, hc, -⟩ := exists_validator_of_compile h hp
  have hflat : Flat p.pattern := flat_of_validator (Template.parenless_pattern hp) (hclear p hp) hc
  exact ⟨encloses_bodyContent a hflat, hflat.isSettled_bodyContent a, head_of_validator hc⟩

/-- The matcher of a template that a renderer accepts is compiled from the items of its tokens. -/
theorem matcher_eq_of_compile {m : Matcher} (h : Renderer.compile o t = .ok r)
    (hclear : ClearPatterns (Template.tokens o t)) (hm : Matcher.compile o (.template t) = .ok m) :
    m = ⟨tokensSource o (Template.tokens o t), tokensKeys (Template.tokens o t),
      compiledTokens o (Template.tokens o t)⟩ :=
  eq_of_ofTokens (embeds_of_compile h hclear (!o.sensitive)) hm

end PathTemplate.Rendering
