import PathTemplate.Proofs.Meaning.Paths

/-!
The paths of a template when case counts, said without expressions: texts joined and compared.
A matcher answers that a path matches exactly when the path is written in this way.
-/
namespace PathTemplate.Matching

open Expression

/-- A segment of a value holds neither the delimiter of its parameter nor that of the options. -/
def IsSegment (o : Options) (p : Parameter) (w : Text) : Prop :=
  w ≠ [] ∧ p.delimiter ∉ w ∧ o.delimiter ∉ w

/-- One segment, or for a parameter that repeats one or more with delimiters between them. -/
def IsValue (o : Options) (p : Parameter) (v : Text) : Prop :=
  ∃ ws : List Text, ws ≠ [] ∧ (p.repeats = false → ws.length = 1) ∧
    (∀ w ∈ ws, IsSegment o p w) ∧ v = Text.join [p.delimiter] ws

/-- The text is written by the tokens in order: literals as they are, and parameters as their lead
and a value, or as nothing where they are optional. -/
def SpelledBy (o : Options) : List Token → Text → Prop
  | [], b => b = []
  | .literal t :: ts, b => ∃ u, b = t ++ u ∧ SpelledBy o ts u
  | .parameter p :: ts, b => ∃ w u, b = w ++ u ∧ SpelledBy o ts u ∧
      ((∃ v, IsValue o p v ∧ w = p.leadText ++ v) ∨ p.optional = true ∧ w = [])

def IsTerminated (o : Options) (r : Text) : Prop := r = [] ∨ ∃ e ∈ o.endsWith, e <+: r

def IsEnding (o : Options) (ts : List Token) (s r : Text) : Prop :=
  if o.toEnd then
    (s = [] ∨ o.strict = false ∧ s = [o.delimiter]) ∧ IsTerminated o r ∧
      (o.endsWith = [] → r = [])
  else
    (s = [] ∨ o.strict = false ∧ s = [o.delimiter] ∧ IsTerminated o r) ∧
      (ts = [] ∨ (∃ t, ts.getLast? = some (.literal t) ∧ t.getLast? = some o.delimiter) ∨
        r.head? = some o.delimiter ∨ IsTerminated o r)

/-- The path holds a text spelled by the tokens, and ends behind it as the options ask. -/
def IsPathOf (o : Options) (ts : List Token) (path : Text) : Prop :=
  ∃ u b s r, path = u ++ b ++ s ++ r ∧ (o.fromStart = true → u = []) ∧ SpelledBy o ts b ∧
    IsEnding o ts s r

theorem mem_segments_false (o : Options) (p : Parameter) (w : Text) :
    w ∈ segments false (excluded o p) ↔ IsSegment o p w := by
  have hfree : (∀ x ∈ w, ∀ c ∈ excluded o p, ¬ Alike false c x) ↔
      ∀ c ∈ excluded o p, c ∉ w := by
    simp only [alike_false_iff]
    constructor
    · intro h c hc hw
      exact h c hw c hc rfl
    · intro h x hx c hc hcx
      exact h c hc (hcx ▸ hx)
  have hexcluded : (∀ c ∈ excluded o p, c ∉ w) ↔ p.delimiter ∉ w ∧ o.delimiter ∉ w := by
    rw [excluded]
    split
    case isTrue heq => simp [heq]
    case isFalse => simp
  exact and_congr_right fun _ => hfree.trans hexcluded

theorem mem_valueTexts_false (o : Options) (p : Parameter) (v : Text) :
    v ∈ valueTexts false o p ↔ IsValue o p v := by
  rw [valueTexts_eq, mem_valuesOf_iff fun x => alike_false_iff p.delimiter x]
  simp only [JoinedTexts, mem_segments_false]
  rfl

private theorem spelledBy_of_takes {o : Options} {ts : List Token} {b : Text}
    {vs : List (Option Text)} (h : Takes false o ts b vs) : SpelledBy o ts b := by
  induction h with
  | nil => rfl
  | literal ht _ ih =>
    rw [(textAlike_false_iff _ _).mp ht]
    exact ⟨_, rfl, ih⟩
  | absent hopt _ ih => exact ⟨[], _, rfl, ih, Or.inr ⟨hopt, rfl⟩⟩
  | @present p w v u ts vs hl hv _ ih =>
    rw [← (textAlike_false_iff _ _).mp hl]
    exact ⟨_, u, rfl, ih, Or.inl ⟨v, (mem_valueTexts_false o p v).mp hv, rfl⟩⟩

private theorem takes_of_spelledBy {o : Options} {ts : List Token} {b : Text}
    (h : SpelledBy o ts b) : ∃ vs, Takes false o ts b vs := by
  induction ts generalizing b with
  | nil => exact ⟨[], h ▸ .nil⟩
  | cons t ts ih =>
    cases t with
    | literal t =>
      obtain ⟨u, rfl, hu⟩ := h
      obtain ⟨vs, hvs⟩ := ih hu
      exact ⟨vs, .literal (textAlike_self false t) hvs⟩
    | parameter p =>
      obtain ⟨w, u, rfl, hu, hw⟩ := h
      obtain ⟨vs, hvs⟩ := ih hu
      rcases hw with ⟨v, hv, rfl⟩ | ⟨hopt, rfl⟩
      · exact ⟨_, .present (textAlike_self false p.leadText)
          ((mem_valueTexts_false o p v).mpr hv) hvs⟩
      · exact ⟨_, .absent hopt hvs⟩

private theorem mayEnd_false (o : Options) (r : Text) : MayEnd false o r ↔ IsTerminated o r := by
  simp only [MayEnd, textAlike_false_iff, IsTerminated, List.IsPrefix]
  constructor
  · intro h
    rcases h with h | ⟨e, he, w, u, rfl, rfl⟩
    · exact Or.inl h
    · exact Or.inr ⟨e, he, u, rfl⟩
  · intro h
    rcases h with h | ⟨e, he, u, rfl⟩
    · exact Or.inl h
    · exact Or.inr ⟨e, he, e, u, rfl, rfl⟩

theorem endsDelimited_iff (o : Options) (ts : List Token) :
    endsDelimited o ts = true ↔
      ts = [] ∨ ∃ t, ts.getLast? = some (.literal t) ∧ t.getLast? = some o.delimiter := by
  unfold endsDelimited
  split
  case _ h => simp [List.getLast?_eq_none_iff.mp h]
  case _ t h =>
    have hne : ts ≠ [] := fun he => by simp [he] at h
    simp [h, hne]
  case _ p h =>
    have hne : ts ≠ [] := fun he => by simp [he] at h
    simp [h, hne]

theorem ends_false (o : Options) (ts : List Token) (s r : Text) :
    Ends false o ts s r ↔ IsEnding o ts s r := by
  have hd : TextAlike false [o.delimiter] s ↔ s = [o.delimiter] := by
    rw [textAlike_false_iff, eq_comm]
  have hhead : (∃ c u, r = c :: u ∧ Alike false o.delimiter c) ↔ r.head? = some o.delimiter := by
    cases r with
    | nil => simp
    | cons c u => simp [eq_comm]
  unfold Ends IsEnding
  split
  · simp only [Closes, hd, mayEnd_false]
    have hnone : IsTerminated o r → o.endsWith = [] → r = [] := by
      intro h he
      rcases h with h | ⟨e, hmem, -⟩
      · exact h
      · simp [he] at hmem
    constructor
    · intro h
      exact ⟨h.1, h.2, hnone h.2⟩
    · intro h
      exact ⟨h.1, h.2.1⟩
  · simp only [GoesOn, hd, mayEnd_false, hhead, endsDelimited_iff, or_assoc]

private theorem division_iff_isPathOf (o : Options) (ts : List Token) (path : Text) :
    Nonempty (Division false o ts path) ↔ IsPathOf o ts path := by
  constructor
  · intro h
    obtain ⟨v⟩ := h
    refine ⟨v.skipped, v.body, v.ending, v.left, ?_, v.anchored, spelledBy_of_takes v.takes,
      (ends_false o ts v.ending v.left).mp v.ends⟩
    rw [List.append_assoc, List.append_assoc, ← v.path_eq]
  · intro h
    obtain ⟨u, b, s, r, rfl, hu, hb, hs⟩ := h
    obtain ⟨vs, hvs⟩ := takes_of_spelledBy hb
    refine ⟨⟨u, b, s, r, vs, ?_, hu, hvs, (ends_false o ts s r).mpr hs⟩⟩
    rw [List.append_assoc, List.append_assoc]

/-- A template that leaves its patterns open can be compiled, and where case counts its matcher
says yes to the paths that are written as the template says, and to no others. -/
theorem isMatch_iff_isPathOf (o : Options) (t : Text) (hs : o.sensitive = true)
    (hd : DefaultPatterns o (Template.tokens o t)) :
    ∃ m, Matcher.compile o (.template t) = .ok m ∧
      ∀ path b, m.isMatch path = .ok b →
        (b = true ↔ IsPathOf o (Template.tokens o t) path) := by
  refine ⟨_, compile_template_eq hd, fun path b hb => ?_⟩
  have hiff := isMatch_compiledTokens_iff hd hb
  rwa [hs, Bool.not_true, division_iff_isPathOf] at hiff

/-- Where case counts, `/user/7` is a path of `/user/:id`. -/
theorem isMatch_user : ∃ m, Matcher.compile { sensitive := true } (.template "/user/:id".toList) =
      .ok m ∧ m.isMatch "/user/7".toList = .ok true ∧
      IsPathOf { sensitive := true } (Template.tokens { sensitive := true } "/user/:id".toList)
        "/user/7".toList := by
  have hd : DefaultPatterns { sensitive := true }
      (Template.tokens { sensitive := true } "/user/:id".toList) :=
    defaultPatterns_of_all (by decide)
  obtain ⟨m, hm, hiff⟩ := isMatch_iff_isPathOf { sensitive := true } "/user/:id".toList rfl hd
  have hyes : (Matcher.compile { sensitive := true } (.template "/user/:id".toList)).map
      (fun m => m.isMatch "/user/7".toList) = .ok (.ok true) := by decide
  rw [hm, Except.map] at hyes
  have hmatch := Except.ok.inj hyes
  exact ⟨m, hm, hmatch, (hiff _ true hmatch).mp rfl⟩

end PathTemplate.Matching
