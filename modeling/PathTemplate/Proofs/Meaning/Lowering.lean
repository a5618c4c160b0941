import Mathlib.Data.List.Basic
import PathTemplate.Proofs.Search.Transport

/-!
Small letters for capital ones. Where case does not count, no set of characters tells a capital
letter of ASCII from its small one, so an expression whose sets are read that way does in a text
what it does in the same text in small letters.
-/
namespace PathTemplate

namespace Unicode

def capitals : List Char := (List.range 26).map fun n => Char.ofNat (65 + n)

/-- What holds of a character that is small already, and of the capital letters, holds of all. -/
theorem toLower_cases {P : Char → Char → Prop} (hself : ∀ c, P c c)
    (hcapital : ∀ c ∈ capitals, P c c.toLower) (c : Char) : P c c.toLower := by
  by_cases h : c.val ≥ 'A'.val ∧ c.val ≤ 'Z'.val
  · refine hcapital c (List.mem_map.mpr ⟨c.toNat - 65, List.mem_range.mpr ?_, ?_⟩)
    · have hle := UInt32.le_iff_toNat_le.mp h.2
      have hval : c.val.toNat = c.toNat := rfl
      have hlast : 'Z'.val.toNat = 90 := rfl
      omega
    · have hge := UInt32.le_iff_toNat_le.mp h.1
      have hval : c.val.toNat = c.toNat := rfl
      have hfirst : 'A'.val.toNat = 65 := rfl
      have hnat : 65 + (c.toNat - 65) = c.toNat := by omega
      rw [hnat, Char.ofNat_toNat]
  · have hsame : c.toLower = c := dif_neg h
    rw [hsame]
    exact hself c

/-- The tables of characters know no difference between a capital letter and its small one. -/
private theorem alike_capital : ∀ c ∈ capitals,
    (c.toLower.utf8Size = c.utf8Size ∧ c.isAlpha = true ∧ c.toLower.isAlpha = true) ∧
      (isWord c.toLower = isWord c ∧ isDecimalDigit c.toLower = isDecimalDigit c ∧
        isBlank c.toLower = isBlank c) ∧ (caseClass c.toLower).Perm (caseClass c) := by
  decide

theorem utf8Size_toLower (c : Char) : c.toLower.utf8Size = c.utf8Size :=
  toLower_cases (P := fun c d => d.utf8Size = c.utf8Size) (fun _ => rfl)
    (fun c hc => (alike_capital c hc).1.1) c

theorem isWord_toLower (c : Char) : isWord c.toLower = isWord c :=
  toLower_cases (P := fun c d => isWord d = isWord c) (fun _ => rfl)
    (fun c hc => (alike_capital c hc).2.1.1) c

theorem isDecimalDigit_toLower (c : Char) : isDecimalDigit c.toLower = isDecimalDigit c :=
  toLower_cases (P := fun c d => isDecimalDigit d = isDecimalDigit c) (fun _ => rfl)
    (fun c hc => (alike_capital c hc).2.1.2.1) c

theorem isBlank_toLower (c : Char) : isBlank c.toLower = isBlank c :=
  toLower_cases (P := fun c d => isBlank d = isBlank c) (fun _ => rfl)
    (fun c hc => (alike_capital c hc).2.1.2.2) c

/-- A letter and its small one have the same case variants. -/
theorem caseClass_toLower (c : Char) : (caseClass c.toLower).Perm (caseClass c) :=
  toLower_cases (P := fun c d => (caseClass d).Perm (caseClass c)) (fun _ => .refl _)
    (fun c hc => (alike_capital c hc).2.2) c

/-- No letter becomes one of the other characters. -/
theorem toLower_eq_iff {d : Char} (hd : d.isAlpha = false) (c : Char) : c.toLower = d ↔ c = d := by
  refine toLower_cases (P := fun c e => e = d ↔ c = d) (fun _ => Iff.rfl) (fun c hc => ?_) c
  obtain ⟨⟨-, hcapital, hsmall⟩, -, -⟩ := alike_capital c hc
  constructor
  · intro h
    rw [← h, hsmall] at hd
    cases hd
  · intro h
    rw [← h, hcapital] at hd
    cases hd

end Unicode

namespace Text

def lower (t : Text) : Text := t.map Char.toLower

theorem length_lower (t : Text) : t.lower.length = t.length := List.length_map _

theorem utf8Size_lower (t : Text) : utf8Size t.lower = utf8Size t := by
  induction t with
  | nil => rfl
  | cons c t ih =>
    rw [lower, List.map_cons, utf8Size, Unicode.utf8Size_toLower, ← lower, ih, utf8Size]

end Text

namespace Expression

open Unicode

/-! ### Sets -/

def CharSet.Blind (s : CharSet) (anyCase : Bool) : Prop :=
  ∀ c, s.has anyCase c.toLower = s.has anyCase c

theorem CharSet.blind_of_anyCase (s : CharSet) : s.Blind true := by
  intro c
  induction s with
  | empty => rfl
  | range lo hi => exact (caseClass_toLower c).any_eq
  | digit => exact isDecimalDigit_toLower c
  | word => exact isWord_toLower c
  | blank => exact isBlank_toLower c
  | categories gs => exact (caseClass_toLower c).any_eq
  | union a b iha ihb => rw [has, has, iha, ihb]
  | inter a b iha ihb => rw [has, has, iha, ihb]
  | diff a b iha ihb => rw [has, has, iha, ihb]
  | symmDiff a b iha ihb => rw [has, has, iha, ihb]
  | compl a ih => rw [has, has, ih]
  | spelled w => rfl

/-- A character that is no letter has no case that could be told. -/
theorem CharSet.blind_single {d : Char} (hd : d.isAlpha = false) (anyCase : Bool) :
    (CharSet.single d).Blind anyCase := by
  cases anyCase with
  | true => exact blind_of_anyCase _
  | false =>
    have hhas : ∀ c, (CharSet.single d).has false c = decide (c = d) := by
      intro c
      rw [Bool.eq_iff_iff]
      simp only [single, has, variants, Bool.false_eq_true, if_false, List.any_cons, List.any_nil,
        Bool.or_false, Bool.and_eq_true, decide_eq_true_eq]
      exact ⟨fun h => Char.le_antisymm h.2 h.1, fun h => h ▸ ⟨Char.le_refl c, Char.le_refl c⟩⟩
    intro c
    rw [hhas, hhas]
    exact decide_eq_decide.mpr (toLower_eq_iff hd c)

theorem CharSet.blind_notNewline (anyCase : Bool) : CharSet.notNewline.Blind anyCase := by
  intro c
  rw [notNewline, has_compl, has_compl, blind_single (by decide)]

/-! ### Expressions -/

/-- No set in the expression tells letters from small ones, and no text is asked for again. -/
def Expr.Blind : Expr → Prop
  | empty => True
  | one s a => s.Blind a
  | check _ => True
  | cat a b => a.Blind ∧ b.Blind
  | alt a b => a.Blind ∧ b.Blind
  | group _ e => e.Blind
  | loop e _ _ _ => e.Blind
  | ahead _ e => e.Blind
  | behind _ _ e => e.Blind
  | atomic e => e.Blind
  | again _ => False

def Capture.lower (c : Capture) : Capture := { c with source := c.source.lower }

theorem Capture.text_lower (c : Capture) : c.lower.text = c.text.lower := by
  rw [Capture.text, Capture.text, Capture.lower, Text.lower, Text.lower, List.map_take]

namespace State

def lower (s : State) : State where
  before := s.before.lower
  rest := s.rest.lower
  pos := s.pos
  groups := s.groups.map fun g => g.map Capture.lower

theorem keeps_lower : State.Keeps lower := ⟨fun _ _ => rfl, fun s => s.rest.length_lower⟩

theorem close_lower (i : Nat) (s t : State) :
    State.close i s.lower t.lower = (State.close i s t).lower := by
  simp [State.close, lower, Capture.lower, List.map_set]

theorem back_lower (n : Nat) (s : State) : s.lower.back n = (s.back n).map lower := by
  induction n generalizing s with
  | zero => rfl
  | succ n ih =>
    obtain ⟨b, r, p, gs⟩ := s
    cases b with
    | nil => rfl
    | cons c b => exact ih ⟨b, c :: r, p - 1, gs⟩

end State

private theorem holds_lower (x : Assertion) (s : State) :
    x.holds s.lower.before s.lower.rest = x.holds s.before s.rest := by
  have hword : ∀ t : Text, Assertion.wordAt t.lower = Assertion.wordAt t := by
    intro t
    cases t with
    | nil => rfl
    | cons c t => exact isWord_toLower c
  have hempty : ∀ t : Text, t.lower.isEmpty = t.isEmpty := fun t => List.isEmpty_map
  have hline : ∀ t : Text, t.lower.head?.all (· == '\n') = t.head?.all (· == '\n') := by
    intro t
    cases t with
    | nil => rfl
    | cons c t => exact decide_eq_decide.mpr (toLower_eq_iff (by decide) c)
  have hstate : s.lower.before = s.before.lower ∧ s.lower.rest = s.rest.lower := ⟨rfl, rfl⟩
  rw [hstate.1, hstate.2]
  cases x <;> simp only [Assertion.holds, hword, hempty, hline]

/-- An expression that does not tell letters from small ones does in a text what it does in the
text in small letters. -/
theorem Expr.Blind.along {e : Expr} (h : e.Blind) (et : EmptyTurn) :
    Step.Along State.lower (e.paths et) (e.paths et) := by
  induction e generalizing et with
  | empty => exact fun _ => rfl
  | one s a =>
    intro u
    obtain ⟨b, r, p, gs⟩ := u
    cases r with
    | nil => rfl
    | cons c r =>
      have hhas := h c
      simp only [paths, State.lower, Text.lower, List.map_cons, hhas]
      split <;> rfl
  | check x =>
    intro u
    simp only [paths, holds_lower]
    split <;> rfl
  | cat a b iha ihb => exact (iha h.1 et).flatMap (ihb h.2 et)
  | alt a b iha ihb => exact (iha h.1 et).append (ihb h.2 et)
  | group i e ih =>
    intro u
    simp only [paths, ih h et u, List.map_map]
    exact List.map_congr_left fun t _ => State.close_lower i u t
  | loop e lo hi greedy ih => exact (ih h et).loop State.keeps_lower et lo hi greedy
  | ahead wanted e ih => exact (ih h e.emptyTurn).ahead et et (fun _ _ => rfl) wanted
  | behind wanted n e ih =>
    exact (ih h e.emptyTurn).behind et et (fun _ _ => rfl) State.back_lower wanted n
  | atomic e ih => exact (ih h e.emptyTurn).atomic et et
  | again i => exact h.elim

end Expression

end PathTemplate
