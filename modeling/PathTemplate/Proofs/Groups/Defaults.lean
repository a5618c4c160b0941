import PathTemplate.Proofs.Groups.Contained
import PathTemplate.Proofs.Reading.Compiling

/-!
Templates whose parameters have no patterns of their own. Their values are contained, so the keys of
their matchers are those of the groups.
-/
namespace PathTemplate.Matching

open Expression

/-- The text is cut alike whatever follows it, and leaves every calm scan as it is. -/
def Neutral (t : Text) : Prop :=
  ∃ cs, (∀ u, Cuts (t ++ u) cs u) ∧
    ∀ (σ : Scan) (k : Nat), σ.Calm → σ.trace k cs = some ([], σ)

namespace Neutral

theorem append {t u : Text} (h : Neutral t) (h' : Neutral u) : Neutral (t ++ u) := by
  obtain ⟨cs, hcs, htrace⟩ := h
  obtain ⟨ds, hds, htrace'⟩ := h'
  refine ⟨cs ++ ds, ?_, ?_⟩
  · intro r
    rw [List.append_assoc]
    exact (hcs (u ++ r)).trans (hds r)
  · intro σ k hσ
    exact traceWith_append_eq_some.mpr ⟨σ, [], [], htrace σ k hσ, htrace' σ _ hσ, rfl⟩

theorem lexeme {t : Text} {x : Lexeme} (h : ∀ u, lexeme .path (t ++ u) = some (x, u))
    (hx : ∀ σ : Scan, σ.Calm → σ.step x = some σ) : Neutral t := by
  refine ⟨[⟨t, x⟩], fun u => .more (h u) (.stop u), ?_⟩
  intro σ k hσ
  have hnone : ∀ p ∈ ([] : List Pending), p.Quiet := by simp
  have hmarked : σ.marked σ k = [] := Scan.marked_deeper hnone [] k
  exact traceWith_cons_eq_some.mpr ⟨σ, [], hx σ hσ, rfl, by rw [hmarked, List.append_nil]⟩

theorem char (c : Char) : Neutral (Quoting.char c) := by
  have hstep : ∀ (folds bare : Bool) (σ : Scan), σ.Calm → σ.step (.char c folds bare) = some σ := by
    intro folds bare σ hσ
    obtain ⟨groups, spaced, hidden, pending⟩ := σ
    obtain ⟨rfl, rfl⟩ := hσ
    rfl
  by_cases hc : Quoting.isMeta c = true
  · rw [Quoting.char_of_isMeta hc]
    exact lexeme (lexeme_quoted .path hc) (hstep _ _)
  · rw [Bool.not_eq_true] at hc
    rw [Quoting.char_of_not_isMeta hc]
    exact lexeme (lexeme_plain .path hc) (hstep _ _)

theorem bundled {t : Text} (h : Neutral t) : Neutral (Matching.bundled t) := by
  obtain ⟨cs, hcs, htrace⟩ := h
  refine ⟨⟨"(?:".toList, .opening (.plain [])⟩ :: (cs ++ [⟨[')'], .close⟩]), ?_, ?_⟩
  · intro u
    have hclose : Cuts ([')'] ++ u) [⟨[')'], .close⟩] u := .more rfl (.stop u)
    have hinside := (hcs ([')'] ++ u)).trans hclose
    have hopen : Expression.lexeme .path ("(?:".toList ++ (t ++ ([')'] ++ u))) =
        some (.opening (.plain []), t ++ ([')'] ++ u)) := rfl
    have htext : Matching.bundled t ++ u = "(?:".toList ++ (t ++ ([')'] ++ u)) := by
      simp [Matching.bundled]
    rw [htext]
    exact .more hopen hinside
  · intro σ k hσ
    have hown : ∀ p ∈ [(⟨none, true, false⟩ : Pending)], p.Quiet := by simp [Pending.Quiet]
    have hnone : ∀ p ∈ ([] : List Pending), p.Quiet := by simp
    have hopen : σ.step (.opening (.plain [])) = some (σ.deeper [⟨none, true, false⟩]) := by
      simp [Scan.step, Scan.enter, Scan.push, Scan.deeper, spacing, hσ.1, hσ.2]
    have hclose : (σ.deeper [⟨none, true, false⟩]).step .close = some σ := by
      obtain ⟨groups, spaced, hidden, pending⟩ := σ
      obtain ⟨rfl, rfl⟩ := hσ
      rfl
    have hcalm : (σ.deeper [⟨none, true, false⟩]).Calm := hσ
    have hopened : σ.marked (σ.deeper [⟨none, true, false⟩]) k = [] := Scan.marked_deeper hnone _ k
    have hclosed : ∀ j, (σ.deeper [⟨none, true, false⟩]).marked σ j = [] :=
      fun j => Scan.marked_deeper hown [] j
    refine traceWith_cons_eq_some.mpr ⟨_, [], hopen, ?_, by rw [hopened, List.append_nil]⟩
    refine traceWith_append_eq_some.mpr ⟨_, [], [], htrace _ _ hcalm, ?_, rfl⟩
    exact traceWith_cons_eq_some.mpr ⟨σ, [], hclose, rfl, by rw [hclosed, List.append_nil]⟩

/-- A neutral value that begins with no question mark is contained. -/
theorem contained {v : Text} (h : Neutral v) (hv : v.head? ≠ some '?') : Contained v := by
  obtain ⟨cs, hcs, htrace⟩ := h
  have hsource : parenthesized v = ['('] ++ (v ++ ([')'] ++ [])) := by simp [parenthesized]
  have hopen : Expression.lexeme .path (['('] ++ (v ++ ([')'] ++ []))) =
      some (.opening .capture, v ++ ([')'] ++ [])) := by
    cases v with
    | nil => rfl
    | cons c v =>
      have hc : c ≠ '?' := by simpa using hv
      exact opening_capture .path hc _
  have hclose : Cuts ([')'] ++ []) [⟨[')'], .close⟩] [] := .more rfl (.stop [])
  have hcuts : Cuts (parenthesized v)
      (⟨['('], .opening .capture⟩ :: (cs ++ [⟨[')'], .close⟩])) [] := by
    rw [hsource]
    exact .more hopen ((hcs _).trans hclose)
  have htexts : Cut.texts cs = v := by
    have hself := hcs []
    rw [List.append_nil] at hself
    exact hself.texts_whole
  have hcapture : ∀ ρ : Scan, ρ.hidden = false → ρ.step (.opening .capture) = some ρ.capture := by
    intro ρ hρ
    simp [Scan.step, Scan.enter, hρ]
  have hcalm : Scan.Calm {} := ⟨rfl, rfl⟩
  have hall := trace_group (c := ⟨['('], .opening .capture⟩) (d := ⟨[')'], .close⟩) hcapture rfl
    htrace hcalm 0
  rw [Contained, marksAlone, cuts_eq_some_iff.mpr hcuts, Option.bind_some, hall, htexts]
  simp [Nat.add_comm]

end Neutral

section Defaults

variable {o : Options} {p : Parameter}

private theorem neutral_pattern (hp : p.pattern = Template.defaultPattern p.delimiter o.delimiter) :
    Neutral p.pattern := by
  have hset : Neutral ("[^".toList ++ Quoting.literal (excluded o p) ++ [']']) := by
    refine .lexeme (x := .set (outside (excluded o p))) ?_ ?_
    · intro u
      have htext : "[^".toList ++ Quoting.literal (excluded o p) ++ [']'] ++ u =
          '[' :: '^' :: (Quoting.literal (excluded o p) ++ ']' :: u) := by simp
      rw [htext, lexeme, Bracket.set_outside .path (excluded_ne_nil o p)]
      rfl
    · intro σ hσ
      simp [Scan.step, hσ.2]
  have hplus : Neutral ['+'] := .lexeme (x := .plus) (fun _ => rfl) fun σ hσ => by
    simp [Scan.step, hσ.2]
  have hlazy : Neutral ['?'] := .lexeme (x := .question) (fun _ => rfl) fun σ hσ => by
    simp [Scan.step, hσ.2]
  have htext : p.pattern =
      "[^".toList ++ Quoting.literal (excluded o p) ++ [']'] ++ ['+'] ++ ['?'] := by
    rw [hp]
    simp [Template.defaultPattern, excluded]
  rw [htext]
  exact (hset.append hplus).append hlazy

private theorem neutral_valueSource
    (hp : p.pattern = Template.defaultPattern p.delimiter o.delimiter) :
    Neutral (valueSource p) := by
  have hpattern := neutral_pattern hp
  have hstar : Neutral ['*'] := .lexeme (x := .star) (fun _ => rfl) fun σ hσ => by
    simp [Scan.step, hσ.2]
  rw [valueSource]
  split
  · have hfurther := (Neutral.char p.delimiter).append hpattern.bundled
    exact (hpattern.bundled.append hfurther.bundled).append hstar
  · exact hpattern

end Defaults

/-- A template with default patterns only has a matcher, whose keys are those of its groups. -/
theorem aligned_of_defaultPatterns {o : Options} {t : Text}
    (h : DefaultPatterns o (Template.tokens o t)) :
    ∃ m, Matcher.compile o (.template t) = .ok m ∧ Aligned o (.template t) m := by
  have hembeds := fun p hp => embeds_defaultPattern (o := o) (!o.sensitive) (h p hp)
  have hsettled : Input.Settled o (.template t) :=
    ⟨settled_tokensSource hembeds, fun w hw => absurd hw written_not_mem_tokensParts⟩
  refine ⟨_, compile_template_eq h,
    (aligned_iff_contained hsettled (compile_template_eq h) ?_).mpr ?_⟩
  · exact fun w hw => absurd hw written_not_mem_tokensParts
  · intro p hp
    have hmem := mem_of_group_mem_tokensParts hp
    exact (neutral_valueSource (h p hmem)).contained (head_valueSource (hembeds p hmem).unmarked)

end PathTemplate.Matching
