import PathTemplate.Proofs.Rendering.Rendered

/-!
When the matcher of a template matches the paths that its renderer writes. Validators count case
and matchers need not, so a segment may hold a variant of a delimiter that the matcher then takes
for the delimiter itself. A delimiter that is no letter has no variants.
-/
namespace PathTemplate.Rendering

open Expression Matching

/-- No segment holds a character that the matcher takes for a delimiter of its parameter. -/
def FreeOfVariants (o : Options) (encode : Encoder) (data : Params) (ts : List Token) : Prop :=
  ∀ p ∈ parameters ts, ∀ s ∈ encodedSegments encode data p,
    ∀ x ∈ s, ∀ c ∈ excluded o p, ¬ Alike (!o.sensitive) c x

section Matched

variable {o : Options} {encode : Encoder} {data : Params} {ts : List Token} {path : Text}

private theorem division_of_freeOfVariants (h : RenderedBy o encode data ts path)
    (hv : FreeOfVariants o encode data ts) : Nonempty (Division (!o.sensitive) o ts path) := by
  have htakes := h.takes (!o.sensitive) fun p hp s hs => ⟨(h.segments p hp s hs).1, hv p hp s hs⟩
  exact ⟨.whole htakes⟩

theorem freeOfVariants_of_sensitive (h : RenderedBy o encode data ts path)
    (hs : o.sensitive = true) : FreeOfVariants o encode data ts := by
  intro p hp s hseg
  have := (h.segments p hp s hseg).2
  rwa [← Bool.not_true, ← hs] at this

theorem freeOfVariants_of_nonLetter (h : RenderedBy o encode data ts path)
    (hd : Unicode.AsciiNonLetter o.delimiter)
    (hp : ∀ p ∈ parameters ts, Unicode.AsciiNonLetter p.delimiter) :
    FreeOfVariants o encode data ts := by
  intro p hmem s hs x hx c hc
  have hc' : Unicode.AsciiNonLetter c := by
    rw [excluded] at hc
    split at hc
    · rw [List.mem_singleton.mp hc]
      exact hp p hmem
    · simp only [List.mem_cons, List.not_mem_nil, or_false] at hc
      rcases hc with rfl | rfl
      · exact hp p hmem
      · exact hd
  have hfree := (h.segments p hmem s hs).2 x hx c hc
  rw [alike_false_iff] at hfree
  rwa [alike_iff_eq hc']

end Matched

/-- A rendered path is matched exactly if it can be divided for the case that the matcher reads it
in. It can if case counts, if the delimiters are no letters, or if no segment holds a variant of
one. -/
theorem isMatch_rendered_iff (o : Options) (t : Text) (encode : Encoder) (data : Params)
    (r : Renderer) (path : Text) (hd : DefaultPatterns o (Template.tokens o t))
    (hr : Renderer.compile o t = .ok r) (hp : r.renderWith encode data = .ok path) :
    ∃ m, Matcher.compile o (.template t) = .ok m ∧ ∀ b, m.isMatch path = .ok b →
      (b = true ↔ Nonempty (Division (!o.sensitive) o (Template.tokens o t) path)) ∧
      ((o.sensitive = true ∨ FreeOfVariants o encode data (Template.tokens o t) ∨
        Unicode.AsciiNonLetter o.delimiter ∧
          ∀ p ∈ parameters (Template.tokens o t), Unicode.AsciiNonLetter p.delimiter) →
        b = true) := by
  have hrendered := renderedBy_of_renderWith hd hr hp
  refine ⟨_, compile_template_eq hd, fun b hb => ?_⟩
  have hiff := isMatch_compiledTokens_iff hd hb
  refine ⟨hiff, fun h => hiff.mpr ?_⟩
  rcases h with hs | hv | ⟨ho, hdelimiters⟩
  · exact division_of_freeOfVariants hrendered (freeOfVariants_of_sensitive hrendered hs)
  · exact division_of_freeOfVariants hrendered hv
  · exact division_of_freeOfVariants hrendered
      (freeOfVariants_of_nonLetter hrendered ho hdelimiters)

/-- With the options as they are, what `/user/:id` renders is matched. -/
theorem isMatch_rendered_user : ∃ r m, Renderer.compile {} "/user/:id".toList = .ok r ∧
    r.renderWith (fun v _ => v) (.ofList [("id".toList, .scalar "A7".toList)]) =
      .ok "/user/A7".toList ∧
    Matcher.compile {} (.template "/user/:id".toList) = .ok m ∧
    m.isMatch "/user/A7".toList = .ok true := by
  have hrender : (Renderer.compile {} "/user/:id".toList).map (fun r => r.renderWith
      (fun v _ => v) (.ofList [("id".toList, .scalar "A7".toList)])) =
        .ok (.ok "/user/A7".toList) := by decide
  obtain ⟨r, hr, hp⟩ := exists_ok_of_map hrender
  obtain ⟨m, hm, hiff⟩ := isMatch_rendered_iff {} "/user/:id".toList (fun v _ => v)
    (.ofList [("id".toList, .scalar "A7".toList)]) r "/user/A7".toList
    (defaultPatterns_of_all (by decide)) hr hp
  have hyes : (Matcher.compile {} (.template "/user/:id".toList)).map
      (fun m => m.isMatch "/user/A7".toList |>.isOk) = .ok true := by decide
  rw [hm] at hyes
  refine ⟨r, m, hr, hp, hm, ?_⟩
  cases hb : m.isMatch "/user/A7".toList with
  | error e =>
    rw [Except.map, hb] at hyes
    cases hyes
  | ok b => rw [(hiff b hb).2 (Or.inr (Or.inr (by decide)))]

/-- The renderer of `a:foo` writes `aA`, since `A` is not the letter `a`. The matcher of the same
template and options takes `A` for the delimiter `a`, and does not match what was written. -/
theorem rendered_not_matched : DefaultPatterns {} (Template.tokens {} "a:foo".toList) ∧
    (∃ r, Renderer.compile {} "a:foo".toList = .ok r ∧
      r.render (.ofList [("foo".toList, .scalar ['A'])]) = .ok "aA".toList) ∧
    ∃ m, Matcher.compile {} (.template "a:foo".toList) = .ok m ∧
      m.isMatch "aA".toList = .ok false := by
  refine ⟨defaultPatterns_of_all (by decide), ?_, ?_⟩
  · have hrender : (Renderer.compile {} "a:foo".toList).map (fun r => r.render
        (.ofList [("foo".toList, .scalar ['A'])])) = .ok (.ok "aA".toList) := by decide
    exact exists_ok_of_map hrender
  · have hno : (Matcher.compile {} (.template "a:foo".toList)).map
        (fun m => m.isMatch "aA".toList) = .ok (.ok false) := by decide
    exact exists_ok_of_map hno

end PathTemplate.Rendering
