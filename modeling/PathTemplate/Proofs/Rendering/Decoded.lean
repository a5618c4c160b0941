import Mathlib.Data.List.Basic
import PathTemplate.Percent
import PathTemplate.Text.Digits

/-!
Percent encoding can be undone. What it writes are characters that stand for themselves, and bytes
as percent signs with two hexadecimal digits behind them. Since no percent sign stands for itself,
the bytes can be told apart again, and read as UTF-8 they are the text that was encoded.
-/
namespace PathTemplate.Percent

/-! ### What encoding writes -/

def Verbatim (c : Char) : Prop :=
  ('A' ≤ c ∧ c ≤ 'Z') ∨ ('a' ≤ c ∧ c ≤ 'z') ∨ ('0' ≤ c ∧ c ≤ '9') ∨ c ∈ "-_.!~*'()".toList

def IsHexDigit (c : Char) : Prop := ('0' ≤ c ∧ c ≤ '9') ∨ ('A' ≤ c ∧ c ≤ 'F')

inductive Encoded : Text → Prop
  | nil : Encoded []
  | verbatim {c : Char} {t : Text} : Verbatim c → Encoded t → Encoded (c :: t)
  | byte {x y : Char} {t : Text} : IsHexDigit x → IsHexDigit y → Encoded t →
      Encoded ('%' :: x :: y :: t)

theorem isSafe_iff (c : Char) : isSafe c = true ↔ Verbatim c := by
  have halnum : c.isAlphanum = ((decide ('A' ≤ c ∧ c ≤ 'Z') ||
      decide ('a' ≤ c) && decide (c ≤ 'z')) || decide ('0' ≤ c) && decide (c ≤ '9')) := rfl
  simp only [isSafe, isSafeMark, halnum, Bool.or_eq_true, Bool.and_eq_true, decide_eq_true_eq,
    List.contains_iff_mem, Verbatim, or_assoc]

theorem isHexDigit_hexDigit {n : Nat} (h : n < 16) : IsHexDigit (hexDigit n) := by
  have hall : ∀ n < 16, IsHexDigit (hexDigit n) := by
    unfold IsHexDigit
    decide
  exact hall n h

theorem Encoded.append {s t : Text} (hs : Encoded s) (ht : Encoded t) : Encoded (s ++ t) := by
  induction hs with
  | nil => exact ht
  | verbatim hc _ ih => exact .verbatim hc ih
  | byte hx hy _ ih => exact .byte hx hy ih

theorem Encoded.flatMap {α : Type} {f : α → Text} (h : ∀ a, Encoded (f a)) (as : List α) :
    Encoded (as.flatMap f) := by
  induction as with
  | nil => exact .nil
  | cons a as ih => exact (h a).append ih

theorem encoded_encodeByte (b : UInt8) : Encoded (encodeByte b) := by
  have hb : b.toNat < 256 := b.toNat_lt
  exact .byte (isHexDigit_hexDigit (by omega)) (isHexDigit_hexDigit (by omega)) .nil

theorem encoded_encodeChar (c : Char) : Encoded (encodeChar c) := by
  rw [encodeChar]
  split
  case isTrue h => exact .verbatim ((isSafe_iff c).mp h) .nil
  case isFalse => exact .flatMap encoded_encodeByte _

theorem encoded_encode (v : Text) : Encoded (encode v) := .flatMap encoded_encodeChar v

/-! ### Reading it back -/

/-- The bytes of a text: a percent sign with two hexadecimal digits behind it says one of them, and
all else stands for its bytes in UTF-8. -/
def bytes : Text → List UInt8
  | [] => []
  | '%' :: x :: y :: t =>
    match Text.hexValue? x, Text.hexValue? y with
    | some m, some n => UInt8.ofNat (16 * m + n) :: bytes t
    | _, _ => String.utf8EncodeChar '%' ++ bytes (x :: y :: t)
  | c :: t => String.utf8EncodeChar c ++ bytes t

def decode (t : Text) : Option Text :=
  (String.fromUTF8? (bytes t).toByteArray).map String.toList

theorem hexValue?_hexDigit {n : Nat} (h : n < 16) : Text.hexValue? (hexDigit n) = some n := by
  have hall : ∀ n < 16, Text.hexValue? (hexDigit n) = some n := by decide
  exact hall n h

theorem bytes_encodeByte_append (b : UInt8) (t : Text) :
    bytes (encodeByte b ++ t) = b :: bytes t := by
  have hb : b.toNat < 256 := b.toNat_lt
  have hvalue : 16 * (b.toNat / 16) + b.toNat % 16 = b.toNat := by omega
  simp only [encodeByte, List.cons_append, List.nil_append, bytes,
    hexValue?_hexDigit (show b.toNat / 16 < 16 by omega),
    hexValue?_hexDigit (show b.toNat % 16 < 16 by omega), hvalue, UInt8.ofNat_toNat]

theorem bytes_encodeBytes_append (bs : List UInt8) (t : Text) :
    bytes (bs.flatMap encodeByte ++ t) = bs ++ bytes t := by
  induction bs with
  | nil => rfl
  | cons b bs ih =>
    rw [List.flatMap_cons, List.append_assoc, bytes_encodeByte_append, ih, List.cons_append]

theorem bytes_cons_of_ne {c : Char} (h : c ≠ '%') (t : Text) :
    bytes (c :: t) = String.utf8EncodeChar c ++ bytes t := by
  rw [bytes]
  exact fun _ _ _ hc _ => h hc

theorem bytes_encodeChar_append (c : Char) (t : Text) :
    bytes (encodeChar c ++ t) = String.utf8EncodeChar c ++ bytes t := by
  rw [encodeChar]
  split
  case isTrue h =>
    have hc : c ≠ '%' := by
      rintro rfl
      exact absurd h (by decide)
    exact bytes_cons_of_ne hc t
  case isFalse => exact bytes_encodeBytes_append _ t

theorem bytes_encode (v : Text) : bytes (encode v) = v.flatMap String.utf8EncodeChar := by
  induction v with
  | nil => rfl
  | cons c v ih =>
    rw [encode, List.flatMap_cons, bytes_encodeChar_append, List.flatMap_cons, ← encode, ih]

theorem decode_encode (v : Text) : decode (encode v) = some v := by
  have hvalid : (v.flatMap String.utf8EncodeChar).toByteArray.IsValidUTF8 := ⟨v, rfl⟩
  rw [decode, bytes_encode, String.fromUTF8?, dif_pos hvalid]
  exact congrArg some String.toList_ofList

/-! ### What stays as it is -/

theorem one_lt_length_encodeChar {c : Char} (h : ¬Verbatim c) : 1 < (encodeChar c).length := by
  have hne : String.utf8EncodeChar c ≠ [] := by
    rw [← List.length_pos_iff, String.length_utf8EncodeChar]
    exact c.utf8Size_pos
  obtain ⟨b, bs, hbs⟩ := List.exists_cons_of_ne_nil hne
  rw [encodeChar, if_neg ((isSafe_iff c).not.mpr h), hbs, List.flatMap_cons, List.length_append]
  have hlength : (encodeByte b).length = 3 := rfl
  omega

theorem length_le_length_encode (v : Text) : v.length ≤ (encode v).length := by
  induction v with
  | nil => exact Nat.le_refl 0
  | cons c v ih =>
    have hc : 1 ≤ (encodeChar c).length := by
      by_cases h : Verbatim c
      · rw [encodeChar, if_pos ((isSafe_iff c).mpr h)]
        exact Nat.le_refl 1
      · exact Nat.le_of_lt (one_lt_length_encodeChar h)
    rw [encode, List.flatMap_cons, List.length_append, List.length_cons, ← encode]
    omega

/-- Any character that does not stand for itself makes the text longer. -/
theorem encode_eq_self_iff (v : Text) : encode v = v ↔ ∀ c ∈ v, Verbatim c := by
  constructor
  · intro h c hc
    by_contra hv
    obtain ⟨s, t, rfl⟩ := List.append_of_mem hc
    have hlength := congrArg List.length h
    have hs := length_le_length_encode s
    have ht := length_le_length_encode t
    have hlong := one_lt_length_encodeChar hv
    rw [encode_append, encode, encode, List.flatMap_cons, List.length_append, List.length_append,
      List.length_append, List.length_cons, ← encode, ← encode] at hlength
    omega
  · intro h
    have hkept : v.flatMap encodeChar = v.flatMap fun c => [c] :=
      List.flatMap_congr fun c hc => by rw [encodeChar, if_pos ((isSafe_iff c).mpr (h c hc))]
    rw [encode, hkept, List.flatMap_singleton']

/-! ### Bytes that are characters -/

theorem le_of_mem_utf8EncodeChar {c : Char} (hc : 127 < c.toNat) {b : UInt8}
    (hb : b ∈ String.utf8EncodeChar c) : 128 ≤ b.toNat := by
  simp only [String.utf8EncodeChar] at hb
  split at hb
  case isTrue h => exact absurd h (Nat.not_le_of_lt hc)
  -- two, three or four bytes
  all_goals repeat' split at hb
  all_goals
    simp only [List.mem_cons, List.not_mem_nil, or_false] at hb
    rcases hb with rfl | rfl | rfl | rfl <;> rw [UInt8.toNat_ofNat'] <;> omega

theorem not_verbatim_of_large : ∀ n < 256, 128 ≤ n → ¬Verbatim (Char.ofNat n) := by
  unfold Verbatim
  decide +kernel

/-- In a character that does not stand for itself no byte is one that does. -/
theorem not_verbatim_of_mem_utf8EncodeChar {c : Char} (h : ¬Verbatim c) {b : UInt8}
    (hb : b ∈ String.utf8EncodeChar c) : ¬Verbatim (Char.ofNat b.toNat) := by
  by_cases hc : c.toNat ≤ 127
  · have hbyte : b.toNat = c.toNat := by
      have hmem : b = UInt8.ofNat c.toNat := by simpa [String.utf8EncodeChar, hc] using hb
      rw [hmem, UInt8.toNat_ofNat']
      omega
    rwa [hbyte, Char.ofNat_toNat]
  · exact not_verbatim_of_large b.toNat b.toNat_lt
      (le_of_mem_utf8EncodeChar (Nat.lt_of_not_le hc) hb)

/-- The characters that are kept by an encoder of whole texts, which knows no other marks. -/
def isUnreserved (c : Char) : Bool := c.isAlphanum || "-_.~".toList.contains c

/-- That encoder: a byte that is such a character is kept, all others are written in digits. -/
def encodeBytes (bs : List UInt8) : Text :=
  bs.flatMap fun b =>
    if isUnreserved (Char.ofNat b.toNat) then [Char.ofNat b.toNat] else encodeByte b

theorem Verbatim.of_isUnreserved {c : Char} (h : isUnreserved c = true) : Verbatim c := by
  have hmarks : ∀ c ∈ "-_.~".toList, c ∈ "-_.!~*'()".toList := by decide
  refine (isSafe_iff c).mp ?_
  rw [isUnreserved, Bool.or_eq_true, List.contains_iff_mem] at h
  rw [isSafe, isSafeMark, Bool.or_eq_true, List.contains_iff_mem]
  exact h.imp_right (hmarks c)

/-- None of the bytes it is given is kept. -/
theorem encodeChar_eq (c : Char) :
    encodeChar c = if isSafe c then [c] else encodeBytes (String.utf8EncodeChar c) := by
  rw [encodeChar]
  split
  case isTrue => rfl
  case isFalse h =>
    refine List.flatMap_congr fun b hb => ?_
    have hv := not_verbatim_of_mem_utf8EncodeChar ((isSafe_iff c).not.mp h) hb
    rw [if_neg fun hk => hv (.of_isUnreserved hk)]

/-- Encoding gives the characters that do not stand for themselves to an encoder of bytes, one by
one. It writes a text in characters that stand for themselves and bytes in hexadecimal digits, from
which it can be read again. It encodes the parts of a text one by one, and leaves just those texts
as they are whose characters all stand for themselves. -/
theorem faithful_encode (v w : Text) :
    (encode v = v.flatMap fun c =>
      if isSafe c then [c] else encodeBytes (String.utf8EncodeChar c)) ∧
      Encoded (encode v) ∧ decode (encode v) = some v ∧ (encode v = encode w ↔ v = w) ∧
      encode (v ++ w) = encode v ++ encode w ∧ (encode v = v ↔ ∀ c ∈ v, Verbatim c) := by
  have hdistinct : encode v = encode w ↔ v = w := by
    constructor
    · intro h
      have hread := congrArg decode h
      rw [decode_encode, decode_encode] at hread
      exact Option.some.inj hread
    · exact congrArg encode
  exact ⟨List.flatMap_congr fun c _ => encodeChar_eq c, encoded_encode v, decode_encode v,
    hdistinct, encode_append v w, encode_eq_self_iff v⟩

example : encode "a/é€😀".toList = "a%2F%C3%A9%E2%82%AC%F0%9F%98%80".toList := by decide

end PathTemplate.Percent
