import PathTemplate.Proofs.Meaning.PlainLexemes
import PathTemplate.Proofs.Rendering.Rendered

/-!
Plain patterns mean the same to renderers and matchers. The validator of such a pattern accepts
the texts of a language, and where case counts the matcher takes the texts of this language for a
value, whatever stands around them.
-/
namespace PathTemplate.Rendering

open Expression Matching

/-- Every parameter has a plain pattern, or the one that a template gives it when it names none. -/
def PlainPatterns (o : Options) (ts : List Token) : Prop :=
  ∀ p, .parameter p ∈ ts → p.pattern = Template.defaultPattern p.delimiter o.delimiter ∨
    ∃ l, PlainPattern p.pattern l

/-- The renderer and the matcher take the texts of the language for segments of the parameter. -/
structure Understood (p : Parameter) (l : Language Char) : Prop where
  accepts_iff : ∀ c, validator p = .ok c → ∀ s, accepts c s = true ↔ s ∈ l
  valueAt_iff : ∀ b v u, ValueAt false p b v u ↔ JoinedTexts p l v

section Understood

variable {o : Options} {p : Parameter} {l : Language Char}

/-- A pattern that denotes one language in both dialects is understood. -/
private theorem understood_of_denotes (hflat : Flat p.pattern)
    (h : ∀ d, ∃ c, Denotes d p.pattern c l) : Understood p l := by
  obtain ⟨c, hsegment⟩ := h .segment
  obtain ⟨c', hpath⟩ := h .path
  refine ⟨fun v hv s => Rendering.accepts_iff hsegment hv s, fun b v u => ?_⟩
  rw [Matching.valueAt_iff false (hpath.accepts_bodyContent hflat) b v u]
  exact mem_valuesOf_iff fun x => alike_false_iff p.delimiter x

end Understood

section Template

variable {o : Options} {ts : List Token} {p : Parameter}

theorem understood_defaultPattern
    (hd : p.pattern = Template.defaultPattern p.delimiter o.delimiter) :
    Understood p (segments false (excluded o p)) :=
  understood_of_denotes (flat_defaultPattern hd) fun d => ⟨_, denotes_defaultPattern d hd⟩

/-- Plain patterns are understood. -/
theorem exists_understood (hplain : PlainPatterns o ts) (hp : .parameter p ∈ ts) :
    ∃ l, Understood p l := by
  rcases hplain p hp with hd | ⟨l, hl⟩
  · exact ⟨_, understood_defaultPattern hd⟩
  · exact ⟨l, understood_of_denotes hl.plainText.flat hl.exists_denotes⟩

theorem PlainPatterns.embeds (hplain : PlainPatterns o ts) :
    ∀ p, .parameter p ∈ ts → Embeds false 0 p := by
  intro p hp
  rcases hplain p hp with hd | ⟨l, hl⟩
  · exact embeds_defaultPattern false hd
  · exact hl.plainText.embeds

/-- Where case counts, a matcher of tokens with plain patterns is compiled from their items. -/
theorem eq_of_ofTokens_plain (hs : o.sensitive = true) (hplain : PlainPatterns o ts) {m : Matcher}
    (hm : Matcher.ofTokens o ts = .ok m) :
    m = ⟨tokensSource o ts, tokensKeys ts, compiledTokens o ts⟩ := by
  refine eq_of_ofTokens (n := 0) ?_ hm
  rw [hs]
  exact hplain.embeds

end Template

/-- Where case counts, a matcher of a template with plain patterns says yes to all paths that the
renderer of the template writes, unless it gives up. -/
theorem isMatch_rendered_plain (o : Options) (t : Text) (hs : o.sensitive = true)
    (hplain : PlainPatterns o (Template.tokens o t)) {r : Renderer}
    (hr : Renderer.compile o t = .ok r) {m : Matcher}
    (hm : Matcher.compile o (.template t) = .ok m) (encode : Encoder) (data : Params) {path : Text}
    (hp : r.renderWith encode data = .ok path) {b : Bool} (hb : m.isMatch path = .ok b) :
    b = true := by
  obtain rfl := eq_of_ofTokens_plain hs hplain hm
  have hcomposed := composed_of_renderWith hr hp
  have htakes : TakesAt (!o.sensitive) (Template.tokens o t) [] path []
      ((parameters (Template.tokens o t)).map (encodedValue encode data)) := by
    rw [hs, Bool.not_true]
    refine hcomposed.takesAt (fun p hmem v hv b u => ?_) [] []
    obtain ⟨l, hl⟩ := exists_understood hplain (mem_parameters.mp hmem)
    have hsegments := hcomposed.segments hmem fun c hc s => (hl.accepts_iff c hc s).mp
    exact (hl.valueAt_iff b v u).mpr (hcomposed.joined hmem hsegments hv)
  exact (isMatch_iff_placement hb).mpr ⟨.whole htakes⟩

/-- A number, or the word `me`. -/
theorem plainPattern_number : PlainPattern "\\d+|me".toList
    (Step.repeated CharSet.digit.texts 1 none * 1 +
      (CharSet.single 'm').texts * ((CharSet.single 'e').texts * 1)) := by
  have hme : PlainBranch "me".toList ((CharSet.single 'm').texts *
      ((CharSet.single 'e').texts * 1)) :=
    .once (.char (c := 'm') (by decide)) (.once (.char (c := 'e') (by decide)) .nil)
  exact .bar (.greedy (.escape (t := ['d']) rfl rfl) .plus .nil) (.single hme)

private theorem plainPatterns_user :
    PlainPatterns { sensitive := true }
      (Template.tokens { sensitive := true } "/u/:id(\\d+|me)/:tab?".toList) := by
  have htokens : Template.tokens { sensitive := true } "/u/:id(\\d+|me)/:tab?".toList =
      [.literal "/u".toList,
        .parameter ⟨.named "id".toList, some '/', '/', false, false, "\\d+|me".toList⟩,
        .parameter ⟨.named "tab".toList, some '/', '/', true, false, "[^/]+?".toList⟩] := by
    decide
  rw [htokens]
  intro p hp
  simp only [List.mem_cons, Token.parameter.injEq, reduceCtorEq, List.not_mem_nil, or_false,
    false_or] at hp
  rcases hp with rfl | rfl
  · exact Or.inr ⟨_, plainPattern_number⟩
  · exact Or.inl rfl

/-- From `/u/:id(\\d+|me)/:tab?` the path `/u/42` is rendered, and it is matched. -/
theorem isMatch_rendered_number : ∃ r m,
    Renderer.compile { sensitive := true } "/u/:id(\\d+|me)/:tab?".toList = .ok r ∧
    Matcher.compile { sensitive := true } (.template "/u/:id(\\d+|me)/:tab?".toList) = .ok m ∧
    r.renderWith (fun v _ => v) (.ofList [("id".toList, .scalar "42".toList)]) =
      .ok "/u/42".toList ∧
    ∃ b, m.isMatch "/u/42".toList = .ok b ∧ b = true := by
  have hrender : (Renderer.compile { sensitive := true } "/u/:id(\\d+|me)/:tab?".toList).map
      (fun r => r.renderWith (fun v _ => v) (.ofList [("id".toList, .scalar "42".toList)])) =
        .ok (.ok "/u/42".toList) := by decide
  have hmatcher : (Matcher.compile { sensitive := true }
      (.template "/u/:id(\\d+|me)/:tab?".toList)).map
        (fun m => (m.isMatch "/u/42".toList).map fun _ => ()) = .ok (.ok ()) := by decide
  obtain ⟨r, hr, hp⟩ := exists_ok_of_map hrender
  obtain ⟨m, hm, hanswer⟩ := exists_ok_of_map hmatcher
  obtain ⟨b, hb, -⟩ := exists_ok_of_map hanswer
  exact ⟨r, m, hr, hm, hp, b, hb, isMatch_rendered_plain { sensitive := true }
    "/u/:id(\\d+|me)/:tab?".toList rfl plainPatterns_user hr hm (fun v _ => v) _ hp hb⟩

end PathTemplate.Rendering
