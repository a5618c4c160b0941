import Mathlib.Data.List.Forall2
import PathTemplate.Expression.CharSet
import PathTemplate.Proofs.Reading.Fragment

/-!
When two characters count as the same. Only letters have case variants among the ASCII characters,
so a delimiter that is no letter stands for itself whether case counts or not.
-/
namespace PathTemplate.Unicode

def AsciiNonLetter (c : Char) : Prop := c.toNat < 0x80 ∧ c.isAlpha = false

instance (c : Char) : Decidable (AsciiNonLetter c) := inferInstanceAs (Decidable (_ ∧ _))

private def isMate (n : Nat) : Bool :=
  (n < 0xD800 || 0xDFFF < n && n < 0x110000) &&
    (0x80 ≤ n || 0x41 ≤ n && n ≤ 0x5A || 0x61 ≤ n && n ≤ 0x7A)

private theorem isMate_large : largeCaseClasses.all (·.all isMate) = true := by decide

/-- Every run and the run it is paired with lie beyond ASCII, on one side of the surrogates. -/
private theorem caseShifts_bounds :
    caseShifts.all (fun e => 0x80 ≤ e.1.1 &&
      (e.1.2.1 + e.2 < 0xD800 || 0xDFFF < e.1.1 && e.1.2.1 + e.2 < 0x110000)) = true := by
  decide

private theorem isMate_pair {a b m : Nat} (ha : isMate a = true) (hb : isMate b = true)
    (h : m ∈ [a, b]) : isMate m = true := by
  simp only [List.mem_cons, List.not_mem_nil, or_false] at h
  rcases h with rfl | rfl
  · exact ha
  · exact hb

private theorem isMate_ascii {n m : Nat} (h : m ∈ asciiCaseMates n) : isMate m = true := by
  unfold asciiCaseMates at h
  split at h
  · exact isMate_pair rfl rfl h
  split at h
  · exact isMate_pair rfl rfl h
  split at h
  · exact isMate_pair rfl rfl h
  split at h
  · exact isMate_pair rfl rfl h
  split at h
  case isTrue hn =>
    simp only [Bool.and_eq_true, decide_eq_true_eq] at hn
    rw [List.mem_singleton.mp h]
    simp [isMate]
    omega
  split at h
  case isTrue hn =>
    simp only [Bool.and_eq_true, decide_eq_true_eq] at hn
    rw [List.mem_singleton.mp h]
    simp [isMate]
    omega
  case isFalse => simp at h

private theorem isMate_shifted {n m : Nat} (hn : 0x80 ≤ n) (h : m ∈ shiftedMates n) :
    isMate m = true := by
  obtain ⟨⟨⟨lo, hi, k⟩, d⟩, he, hm⟩ := List.mem_flatMap.mp h
  have hb := List.all_eq_true.mp caseShifts_bounds _ he
  simp only [Bool.and_eq_true, Bool.or_eq_true, decide_eq_true_eq] at hb
  rcases List.mem_append.mp hm with hm | hm
  · split at hm
    case isTrue hr =>
      simp only [Run.holds, Bool.and_eq_true, decide_eq_true_eq] at hr
      rw [List.mem_singleton.mp hm]
      simp [isMate]
      omega
    case isFalse => simp at hm
  · split at hm
    case isTrue hr =>
      simp only [Run.holds, Bool.and_eq_true, decide_eq_true_eq] at hr
      rw [List.mem_singleton.mp hm]
      simp [isMate]
      omega
    case isFalse => simp at hm

private theorem isMate_of_mem {n m : Nat} (h : m ∈ caseMates n) : isMate m = true := by
  unfold caseMates at h
  split at h
  case isTrue => exact isMate_ascii h
  case isFalse hn =>
    split at h
    case _ ms hms =>
      have hall := List.all_eq_true.mp isMate_large ms (List.mem_of_find?_eq_some hms)
      exact List.all_eq_true.mp hall m (List.mem_filter.mp h).1
    case _ => exact isMate_shifted (by omega) h

/-- The letters of ASCII by their numbers. -/
private theorem isAlpha_eq_false_iff (c : Char) : c.isAlpha = false ↔
    (c.toNat < 65 ∨ 90 < c.toNat) ∧ (c.toNat < 97 ∨ 122 < c.toNat) := by
  have hranges : c.isAlpha = (decide (c.val ≥ 'A'.val ∧ c.val ≤ 'Z'.val) ||
      decide (c.val ≥ 'a'.val) && decide (c.val ≤ 'z'.val)) := rfl
  have hval : c.val.toNat = c.toNat := rfl
  simp only [hranges, Bool.or_eq_false_iff, Bool.and_eq_false_iff, decide_eq_false_iff_not,
    ge_iff_le, UInt32.le_iff_toNat_le, hval]
  simp
  omega

/-- No other character has an ASCII character as a case variant that is not a letter. -/
theorem mem_caseClass_of_asciiNonLetter {c x : Char} (h : AsciiNonLetter c) :
    c ∈ caseClass x ↔ c = x := by
  refine ⟨fun hc => ?_, fun hc => by rw [hc, caseClass]; exact List.mem_cons_self⟩
  rcases List.mem_cons.mp hc with hc | hc
  · exact hc
  · exfalso
    obtain ⟨n, hn, rfl⟩ := List.mem_map.mp hc
    have hmate := isMate_of_mem hn
    simp only [isMate, Bool.and_eq_true, Bool.or_eq_true, decide_eq_true_eq] at hmate
    have hvalid : n.isValidChar := by
      rcases hmate.1 with h | h
      · exact Or.inl h
      · exact Or.inr h
    have hnat : (Char.ofNat n).toNat = n := by
      rw [Char.ofNat, dif_pos hvalid]
      rfl
    obtain ⟨hlt, halpha⟩ := h
    rw [isAlpha_eq_false_iff] at halpha
    omega

/-- An ASCII character that is not a letter has no case variants. -/
theorem caseClass_of_asciiNonLetter {c : Char} (h : AsciiNonLetter c) : caseClass c = [c] := by
  obtain ⟨hlt, halpha⟩ := h
  rw [isAlpha_eq_false_iff] at halpha
  have hmates : caseMates c.toNat = [] := by
    unfold caseMates asciiCaseMates
    rw [if_pos hlt]
    repeat rw [if_neg (by simp; omega)]
  rw [caseClass, hmates]
  rfl

end PathTemplate.Unicode

namespace PathTemplate.Expression

open Unicode

/-- `x` counts as `c`: it is the same character or, where case does not count, a variant of it. -/
def Alike (anyCase : Bool) (c x : Char) : Prop := c ∈ CharSet.variants anyCase x

theorem alike_self (anyCase : Bool) (c : Char) : Alike anyCase c c := by
  cases anyCase <;> simp [Alike, CharSet.variants, caseClass]

@[simp] theorem alike_false_iff (c x : Char) : Alike false c x ↔ c = x := by
  simp [Alike, CharSet.variants]

theorem alike_iff_eq {anyCase : Bool} {c x : Char} (h : AsciiNonLetter c) :
    Alike anyCase c x ↔ c = x := by
  cases anyCase with
  | false => exact alike_false_iff c x
  | true => exact mem_caseClass_of_asciiNonLetter h

theorem alike_iff_eq_left {anyCase : Bool} {c x : Char} (h : AsciiNonLetter x) :
    Alike anyCase c x ↔ c = x := by
  cases anyCase with
  | false => exact alike_false_iff c x
  | true => simp [Alike, CharSet.variants, caseClass_of_asciiNonLetter h]

theorem asciiNonLetter_of_isMeta {c : Char} (h : Quoting.isMeta c = true) : AsciiNonLetter c := by
  have hmem : c ∈ ['\\', '.', '+', '*', '?', '(', ')', '|', '[', ']', '\x7b', '\x7d', '^', '$',
      '#', '&', '-', '~'] := List.contains_iff_mem.mp h
  simp only [List.mem_cons, List.not_mem_nil, or_false] at hmem
  rcases hmem with rfl | rfl | rfl | rfl | rfl | rfl | rfl | rfl | rfl | rfl | rfl | rfl | rfl |
    rfl | rfl | rfl | rfl | rfl <;> decide

/-- A quoted character loses nothing by not being read with the flag about case. -/
theorem alike_and_not_isMeta (anyCase : Bool) (c x : Char) :
    Alike (anyCase && !Quoting.isMeta c) c x ↔ Alike anyCase c x := by
  by_cases hc : Quoting.isMeta c = true
  · rw [alike_iff_eq (asciiNonLetter_of_isMeta hc), alike_iff_eq (asciiNonLetter_of_isMeta hc)]
  · rw [Bool.not_eq_true] at hc
    simp [hc]

theorem has_single_iff (anyCase : Bool) (c x : Char) :
    (CharSet.single c).has anyCase x = true ↔ Alike anyCase c x := by
  simp only [CharSet.single, CharSet.has, List.any_eq_true, Bool.and_eq_true, decide_eq_true_eq,
    Alike]
  constructor
  · rintro ⟨d, hd, hle, hge⟩
    rw [Char.le_antisymm hle hge]
    exact hd
  · intro h
    exact ⟨c, h, Char.le_refl c, Char.le_refl c⟩

theorem has_outside_iff (anyCase : Bool) (cs : List Char) (x : Char) :
    (outside cs).has anyCase x = true ↔ ∀ c ∈ cs, ¬ Alike anyCase c x := by
  have hunion : ∀ (cs : List Char) (s : CharSet),
      (cs.foldl (fun s c => .union s (.single c)) s).has anyCase x = true ↔
        s.has anyCase x = true ∨ ∃ c ∈ cs, Alike anyCase c x := by
    intro cs
    induction cs with
    | nil => simp
    | cons c cs ih =>
      intro s
      rw [List.foldl_cons, ih, CharSet.has, Bool.or_eq_true, has_single_iff]
      simp only [List.mem_cons, exists_eq_or_imp, or_assoc]
  rw [outside, CharSet.has_compl, Bool.not_eq_true', ← Bool.not_eq_true, hunion]
  simp [CharSet.has]

def TextAlike (anyCase : Bool) : Text → Text → Prop := List.Forall₂ (Alike anyCase)

theorem textAlike_self (anyCase : Bool) (t : Text) : TextAlike anyCase t t :=
  List.forall₂_same.mpr fun c _ => alike_self anyCase c

theorem TextAlike.length_eq {anyCase : Bool} {t w : Text} (h : TextAlike anyCase t w) :
    w.length = t.length := (List.Forall₂.length_eq h).symm

@[simp] theorem textAlike_false_iff (t w : Text) : TextAlike false t w ↔ t = w := by
  have h : Alike false = Eq := by
    funext c x
    exact propext (alike_false_iff c x)
  rw [TextAlike, h, List.forall₂_eq_eq_eq]

end PathTemplate.Expression
