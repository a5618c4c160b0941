import PathTemplate.Proofs.Meaning.Paths
import PathTemplate.Proofs.Templates.Passing
import PathTemplate.Proofs.Templates.Stretches
import PathTemplate.Rendering.Renderer

/-!
Any text without a line feed can be said by a template: every character is escaped. Whatever the
text would mean as a template or as an expression, it is rendered and matched as it is.
-/
namespace PathTemplate.Template

variable {s : Text}

def escapeAll (s : Text) : Text := s.flatMap fun c => ['\\', c]

def spoken (s : Text) : List Token := if s = [] then [] else [.literal s]

/-- The pass meets nothing but escapes. -/
theorem passed_escapeAll (h : '\n' ∉ s) : Passed (escapeAll s) (s.map .escaped) := by
  induction s with
  | nil => exact .nil
  | cons c s ih =>
    have hc : c ≠ '\n' := fun hc => h (hc ▸ List.mem_cons_self)
    exact .cons (.escaped hc) (ih fun hs => h (List.mem_cons_of_mem c hs))

theorem tokens_escapeAll (h : '\n' ∉ s) (o : Options) : tokens o (escapeAll s) = spoken s := by
  have hunmarked : ∀ m, .mark m ∉ s.map Piece.escaped := by simp
  have hkept : (s.map Piece.escaped).flatMap Piece.kept = s := by
    rw [List.flatMap_map]
    exact List.flatMap_singleton' s
  have htokens := tokensFrom_unmarked o 0 [] hunmarked []
  rw [List.append_nil, List.append_nil, tokensFrom, Stretch.literal_eq, Stretch.text_ofPieces,
    hkept] at htokens
  rw [tokens, ← passed_iff.mp (passed_escapeAll h)]
  exact htokens

end PathTemplate.Template

namespace PathTemplate.Matching

open Expression Template

variable {s : Text}

theorem defaultPatterns_spoken (o : Options) (s : Text) : DefaultPatterns o (spoken s) := by
  intro p hp
  rw [spoken] at hp
  split at hp <;> simp at hp

theorem takes_spoken_iff {o : Options} {b : Text} :
    (∃ vs, Takes false o (spoken s) b vs) ↔ b = s := by
  rw [spoken]
  split
  case _ hs =>
    subst hs
    constructor
    · rintro ⟨_, ⟨⟩⟩
      rfl
    · rintro rfl
      exact ⟨[], .nil⟩
  case _ =>
    constructor
    · rintro ⟨vs, h⟩
      cases h with
      | literal hw hu =>
        cases hu
        rw [List.append_nil]
        exact ((textAlike_false_iff _ _).mp hw).symm
    · rintro rfl
      have hliteral := Takes.literal (o := o) (textAlike_self false b) .nil
      rw [List.append_nil] at hliteral
      exact ⟨[], hliteral⟩

/-- Where the options ask for a path from its start to its end, only the text itself is one. -/
theorem division_spoken_iff {o : Options} (hstart : o.fromStart = true)
    (hend : o.toEnd = true) (hstrict : o.strict = true) (hw : o.endsWith = []) {path : Text} :
    Nonempty (Division false o (spoken s) path) ↔ path = s := by
  constructor
  · rintro ⟨v⟩
    obtain ⟨hending, hleft⟩ : v.ending = [] ∧ v.left = [] := by
      have hends := v.ends
      simpa [Ends, hend, Closes, hstrict, MayEnd, hw] using hends
    rw [v.path_eq, v.anchored hstart, hending, hleft, takes_spoken_iff.mp ⟨_, v.takes⟩,
      List.append_nil, List.append_nil, List.nil_append]
  · rintro rfl
    obtain ⟨vs, hvs⟩ := takes_spoken_iff.mpr rfl
    exact ⟨.whole hvs⟩

/-- The matcher of such tokens answers for every path. -/
theorem isMatch_spoken {o : Options} (hstart : o.fromStart = true)
    (hend : o.toEnd = true) (hstrict : o.strict = true) (hsensitive : o.sensitive = true)
    (hw : o.endsWith = []) (s path : Text) (source : Text) (keys : List Key) :
    Matcher.isMatch ⟨source, keys, compiledTokens o (spoken s)⟩ path =
      .ok (decide (path = s)) := by
  have hdefault := defaultPatterns_spoken o s
  obtain ⟨b, hb⟩ :
      ∃ b, Matcher.isMatch ⟨source, keys, compiledTokens o (spoken s)⟩ path = .ok b := by
    rw [Matcher.isMatch, Matcher.exec_of_isPlain _ (isPlain_compiledTokens hend hw hdefault)]
    exact ⟨_, rfl⟩
  have hiff := isMatch_compiledTokens_iff hdefault hb
  rw [hsensitive, Bool.not_true, division_spoken_iff hstart hend hstrict hw] at hiff
  rw [hb, Bool.eq_iff_iff.mpr (hiff.trans (decide_eq_true_iff).symm)]

end PathTemplate.Matching

namespace PathTemplate.Rendering

open Template Matching

variable {s : Text}

theorem renderTokens_spoken (o : Options) (s : Text) :
    ∃ r, Renderer.ofTokens o (spoken s) = .ok r ∧
      ∀ encode data, r.renderWith encode data = .ok s := by
  rw [spoken]
  split
  case _ hs => exact ⟨⟨[], o.encode⟩, rfl, fun _ _ => hs ▸ rfl⟩
  case _ =>
    refine ⟨⟨[.literal s], o.encode⟩, rfl, fun encode data => ?_⟩
    simp [Renderer.renderWith, renderParts, renderPart, Except.map]

/-- The template that escapes every character of a text says the text and nothing else: one literal
is its token, it renders the text whatever the values are, and where the options ask for the whole
path and nothing more, the text is the only path that it matches. -/
theorem escapeAll_says (h : '\n' ∉ s) (o : Options) :
    tokens o (escapeAll s) = (if s = [] then [] else [.literal s]) ∧
    (∃ r, Renderer.compile o (escapeAll s) = .ok r ∧
      ∀ data, r.render data = .ok s ∧ ∀ encode, r.renderWith encode data = .ok s) ∧
    ∃ m, Matcher.compile o (.template (escapeAll s)) = .ok m ∧ m.keys = [] ∧
      (o.fromStart = true → o.toEnd = true → o.strict = true → o.sensitive = true →
        o.endsWith = [] → ∀ path, m.isMatch path = .ok (decide (path = s))) := by
  have htokens := tokens_escapeAll h o
  refine ⟨htokens, ?_, _, compile_template_eq_of_tokens htokens
    (defaultPatterns_spoken o s), ?_, ?_⟩
  · obtain ⟨r, hr, hrender⟩ := renderTokens_spoken o s
    refine ⟨r, ?_, fun data => ⟨hrender _ data, fun encode => hrender encode data⟩⟩
    rw [Renderer.compile, htokens, hr]
  · rw [spoken]
    split <;> rfl
  · exact fun hstart hend hstrict hsensitive hw path =>
      isMatch_spoken hstart hend hstrict hsensitive hw s path _ _

/-- What spells a parameter is not one any more. -/
theorem escapeAll_says_mark : '\n' ∉ "/:id(\\d+)*".toList ∧
    tokens {} (escapeAll "/:id(\\d+)*".toList) = [.literal "/:id(\\d+)*".toList] ∧
    ∃ m, Matcher.compile { strict := true, sensitive := true }
        (.template (escapeAll "/:id(\\d+)*".toList)) = .ok m ∧
      m.isMatch "/:id(\\d+)*".toList = .ok true ∧ m.isMatch "/7".toList = .ok false := by
  have h : '\n' ∉ "/:id(\\d+)*".toList := by decide
  obtain ⟨htokens, -, -⟩ := escapeAll_says h {}
  obtain ⟨-, -, m, hm, -, hmatch⟩ := escapeAll_says h { strict := true, sensitive := true }
  have hdecided := hmatch rfl rfl rfl rfl rfl
  exact ⟨h, htokens, m, hm, hdecided _, hdecided _⟩

end PathTemplate.Rendering
