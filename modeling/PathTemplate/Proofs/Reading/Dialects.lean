import PathTemplate.Proofs.Reading.Cutting
import PathTemplate.Proofs.Reading.Fragment
import PathTemplate.Proofs.Reading.Patterns
import PathTemplate.Rendering.Renderer

/-!
The dialects compared. What segments read as a character, a set, an assertion or a repetition is
cut in paths in the same places, so a pattern that segments accept is a flat run of lexemes in
paths: it opens and closes nothing, changes no flags, and refers to nothing.
-/
namespace PathTemplate.Expression

/-- The lexeme stays within the parenthesis that it stands in. A set does if it is known. -/
def Lexeme.Flat : Lexeme → Prop
  | .opening _ | .close | .flags _ | .comment | .again _ => False
  | .set s => s.isSpelled = false
  | _ => True

/-- The same lexeme, but for whether the flag about case reaches a character. -/
inductive Lexeme.Agrees : Lexeme → Lexeme → Prop
  | same {x : Lexeme} : x.Flat → Agrees x x
  | char (c : Char) (folds folds' bare : Bool) : Agrees (.char c folds bare) (.char c folds' bare)

theorem Lexeme.Agrees.flat {x y : Lexeme} (h : x.Agrees y) : y.Flat := by
  cases h with
  | same hx => exact hx
  | char c folds folds' bare => trivial

/-! ### Escapes -/

theorem isSpelled_namedSet? {c : Char} {s : CharSet} (h : namedSet? c = some s) :
    s.isSpelled = false := by
  unfold namedSet? at h
  split at h <;> cases h <;> rfl

theorem isSpelled_propertyNamed? {t : Text} {s : CharSet} (h : propertyNamed? t = some s) :
    s.isSpelled = false := by
  simp only [propertyNamed?] at h
  repeat' split at h
  all_goals first | cases h; rfl | cases h

theorem isSpelled_property {t r : Text} {s : CharSet} (h : property t = some (s, r)) :
    s.isSpelled = false := by
  unfold property at h
  split at h
  case _ =>
    split at h
    case _ name r' _ =>
      obtain ⟨s', hs, heq⟩ := Option.map_eq_some_iff.mp h
      obtain ⟨rfl, -⟩ := Prod.mk.inj heq
      unfold signedProperty? at hs
      split at hs
      case _ =>
        obtain ⟨q, -, rfl⟩ := Option.map_eq_some_iff.mp hs
        rfl
      case _ => exact isSpelled_propertyNamed? hs
    case _ => cases h
  case _ =>
    obtain ⟨s', hs, heq⟩ := Option.map_eq_some_iff.mp h
    obtain ⟨rfl, -⟩ := Prod.mk.inj heq
    exact isSpelled_propertyNamed? hs
  case _ => cases h

theorem namedLexeme?_agrees {c : Char} {x : Lexeme} (h : namedLexeme? true c = some x) :
    ∃ y, namedLexeme? false c = some y ∧ x.Agrees y := by
  rw [namedLexeme?] at h ⊢
  cases hc : namedChar? c with
  | some d =>
    rw [hc] at h
    obtain rfl := Option.some.inj h
    exact ⟨_, rfl, .char d true false false⟩
  | none =>
    rw [hc] at h
    obtain ⟨s, hs, rfl⟩ := Option.map_eq_some_iff.mp h
    exact ⟨.set s, by simp only [hs, Option.map_some], .same (isSpelled_namedSet? hs)⟩

theorem sharedEscape_agrees {t r : Text} {x : Lexeme} (h : sharedEscape true t = some (x, r)) :
    ∃ y, sharedEscape false t = some (y, r) ∧ x.Agrees y := by
  have hread := h
  have hmap : ∀ {α : Type} {f : α → Lexeme} {o : Option (α × Text)},
      (∀ a r, o = some (a, r) → (f a).Flat) →
      o.map (fun p => (f p.1, p.2)) = some (x, r) → x.Agrees x := by
    intro α f o hf ho
    obtain ⟨p, hp, heq⟩ := Option.map_eq_some_iff.mp ho
    obtain ⟨rfl, -⟩ := Prod.mk.inj heq
    exact .same (hf p.1 p.2 hp)
  unfold sharedEscape at h
  split at h
  case _ => exact ⟨x, hread, hmap (f := (.char · true false)) (fun _ _ _ => trivial) h⟩
  case _ => exact ⟨x, hread, hmap (f := (.char · true false)) (fun _ _ _ => trivial) h⟩
  case _ => exact ⟨x, hread, hmap (f := (.char · true false)) (fun _ _ _ => trivial) h⟩
  case _ => exact ⟨x, hread, hmap (f := .set) (fun _ _ => isSpelled_property) h⟩
  case _ => exact ⟨x, hread, hmap (f := (.set <| .compl ·)) (fun _ _ _ => rfl) h⟩
  case _ c t hx hu hU hp hP =>
    have hc : c ∉ introducers := by
      simp only [introducers, List.mem_cons, List.not_mem_nil, or_false, not_or]
      exact ⟨hx, hu, hU, hp, hP⟩
    rw [sharedEscape_named true hc] at hread
    obtain ⟨z, hz, heq⟩ := Option.map_eq_some_iff.mp hread
    obtain ⟨rfl, rfl⟩ := Prod.mk.inj heq
    obtain ⟨y, hy, hagrees⟩ := namedLexeme?_agrees hz
    exact ⟨y, by rw [sharedEscape_named false hc, hy]; rfl, hagrees⟩
  case _ => cases h

theorem sharedEscape_eq_none {t : Text} (h : sharedEscape true t = none) :
    sharedEscape false t = none := by
  have hread := h
  unfold sharedEscape at h
  split at h
  case _ => exact hread
  case _ => exact hread
  case _ => exact hread
  case _ => exact hread
  case _ => exact hread
  case _ c t hx hu hU hp hP =>
    have hc : c ∉ introducers := by
      simp only [introducers, List.mem_cons, List.not_mem_nil, or_false, not_or]
      exact ⟨hx, hu, hU, hp, hP⟩
    rw [sharedEscape_named true hc, Option.map_eq_none_iff, namedLexeme?] at hread
    rw [sharedEscape_named false hc, Option.map_eq_none_iff, namedLexeme?]
    cases hchar : namedChar? c with
    | some d => simp [hchar] at hread
    | none => simpa [hchar] using hread
  case _ => rfl

theorem lone?_agrees {bracketed : Bool} {c : Char} {x : Lexeme}
    (h : segmentLone? bracketed c = some x) : ∃ y, lone? bracketed c = some y ∧ x.Agrees y := by
  rw [segmentLone?] at h
  rw [lone?]
  cases ha : namedAssertion? c with
  | some a =>
    rw [ha] at h
    cases bracketed with
    | true => cases h
    | false =>
      obtain rfl := Option.some.inj h
      exact ⟨.check a, rfl, .same trivial⟩
  | none =>
    rw [ha] at h
    simp only at h
    split at h
    case isTrue => cases h
    case isFalse hc =>
      obtain rfl := Option.some.inj h
      simp only [Bool.or_eq_true, not_or, Bool.not_eq_true] at hc
      refine ⟨.char c false false, ?_, .char c true false false⟩
      cases bracketed <;> simp [hc.1]

/-- Digits refer to nothing in segments. -/
private theorem segmentEscape_digit {bracketed : Bool} {c : Char} (hd : c.isDigit = true)
    (u : Text) : segmentEscape bracketed (c :: u) = none := by
  have hintro : c ∉ introducers := by
    intro hc
    have hall : ∀ e ∈ introducers, e.isDigit = false := by decide
    rw [hall c hc] at hd
    cases hd
  have hchar : namedChar? c = none := by
    unfold namedChar?
    split <;> simp_all
  have hset : namedSet? c = none := by
    unfold namedSet?
    split <;> simp_all
  have hassertion : namedAssertion? c = none := by
    unfold namedAssertion?
    split <;> simp_all
  have halnum : isAsciiAlnum c = true := by
    simp [isAsciiAlnum, Char.isAlphanum, hd]
  rw [segmentEscape_cons, sharedEscape_named true hintro, namedLexeme?, hchar, hset, segmentLone?,
    hassertion, halnum]
  rfl

/-- An escape that segments read is read by paths too, and as the same. -/
theorem escape_agrees {bracketed : Bool} {t r : Text} {x : Lexeme}
    (h : segmentEscape bracketed t = some (x, r)) :
    ∃ y, pathEscape bracketed t = some (y, r) ∧ x.Agrees y := by
  cases t with
  | nil => cases h
  | cons c t =>
    by_cases hletters : c ∈ pathLetters
    · simp only [pathLetters, List.mem_cons, List.not_mem_nil, or_false] at hletters
      rcases hletters with rfl | rfl | rfl | rfl | rfl | rfl
      case inr.inr.inr.inl =>
        cases bracketed with
        | true => cases h
        | false => exact ⟨x, h, by cases h; exact .same trivial⟩
      all_goals cases h
    · by_cases hd : c.isDigit = true
      · rw [segmentEscape_digit hd] at h
        cases h
      · rw [Bool.not_eq_true] at hd
        rw [segmentEscape_cons, Option.or_eq_some_iff] at h
        rw [pathEscape_other bracketed hletters hd]
        rcases h with h | ⟨hnone, h⟩
        · obtain ⟨y, hy, hagrees⟩ := sharedEscape_agrees h
          exact ⟨y, by rw [hy]; rfl, hagrees⟩
        · obtain ⟨z, hz, heq⟩ := Option.map_eq_some_iff.mp h
          obtain ⟨rfl, rfl⟩ := Prod.mk.inj heq
          obtain ⟨y, hy, hagrees⟩ := lone?_agrees hz
          exact ⟨y, by rw [sharedEscape_eq_none hnone, hy]; rfl, hagrees⟩

/-! ### Sets -/

namespace Bracket

theorem item_agrees {t r : Text} {i : Item} (h : item .segment t = some (i, r)) :
    item .path t = some (i, r) := by
  unfold item at h
  split at h
  case _ => cases h
  case _ t =>
    cases hread : segmentEscape true t with
    | none =>
      simp only [escape, hread] at h
      cases h
    | some p =>
      obtain ⟨x, q⟩ := p
      obtain ⟨y, hy, hagrees⟩ := escape_agrees hread
      simp only [escape, hread] at h
      rw [item, escape, hy]
      cases hagrees with
      | same _ => exact h
      | char c folds folds' bare => exact h
  case _ c t hc =>
    rw [item]
    · exact h
    · exact hc

theorem rangeOrItem_agrees {t : Text} {p : CharSet × Text}
    (h : rangeOrItem .segment t = some p) : rangeOrItem .path t = some p := by
  simp only [rangeOrItem, Option.bind_eq_bind, Option.bind_eq_some_iff, Prod.exists] at h ⊢
  obtain ⟨a, q, hitem, h⟩ := h
  refine ⟨a, q, item_agrees hitem, ?_⟩
  split at h
  case isTrue hjoins =>
    obtain ⟨⟨b, q'⟩, hitem', h⟩ := Option.bind_eq_some_iff.mp h
    rw [if_pos hjoins, item_agrees hitem']
    exact h
  case isFalse hjoins =>
    rw [if_neg hjoins]
    exact h

theorem body_agrees {n : Nat} {p : Draft} {t r : Text} {s : CharSet}
    (h : body .segment n p t = some (s, r)) : body .path n p t = some (s, r) := by
  induction n generalizing p t s r with
  | zero => cases h
  | succ n ih =>
    unfold body at h
    split at h
    case _ => cases h
    case _ => cases h
    case _ => exact h
    case _ k q hk =>
      obtain rfl : n = k := Nat.succ.inj hk
      exact ih h
    case _ k q hk =>
      obtain rfl : n = k := Nat.succ.inj hk
      exact ih h
    case _ k q hk =>
      obtain rfl : n = k := Nat.succ.inj hk
      exact ih h
    case _ k q hk =>
      obtain rfl : n = k := Nat.succ.inj hk
      rw [body]
      cases hnamed : namedClass q with
      | some y =>
        simp only [hnamed] at h ⊢
        exact ih h
      | none =>
        simp only [hnamed] at h ⊢
        split at h
        case _ hset =>
          rw [ih hset]
          exact ih h
        case _ => cases h
    case _ k c q hclose hinter hdiff hsymm hopen hk =>
      obtain rfl : n = k := Nat.succ.inj hk
      split at h
      case _ hitem =>
        rw [body, rangeOrItem_agrees hitem]
        · exact ih h
        all_goals assumption
      case _ => cases h

theorem read_agrees {t r : Text} {s : CharSet} (h : read .segment t = some (s, r)) :
    read .path t = some (s, r) := by
  rw [read] at h ⊢
  exact body_agrees h

/-- A set that is known in paths is the set that segments read. -/
theorem set_agrees {t r q : Text} {s s' : CharSet} (h : read .segment t = some (s, r))
    (hset : set .path t = some (s', q)) (hknown : s'.isSpelled = false) :
    s = s' ∧ ∃ w, t = w ++ [']'] ++ r ∧ Whole (w ++ [']']) ∧
      ∀ u, set .path (w ++ [']'] ++ u) = some (s, u) := by
  obtain ⟨v, ht, hread⟩ := read_of_set hset hknown
  have hsame := hread q
  rw [← ht, read_agrees h] at hsame
  obtain ⟨rfl, rfl⟩ := Prod.mk.inj (Option.some.inj hsame)
  obtain ⟨v', rfl, ⟨hv, w, rfl⟩, hsettled⟩ := settles_set .path _ _ _ hset
  exact ⟨rfl, w, rfl, hv, hsettled⟩

end Bracket

/-! ### Counts -/

def Numeric (c : Char) : Prop := c.isDigit = true ∨ Unicode.isBlank c = true ∨ c = ','

theorem Numeric.ne {c e : Char} (h : Numeric c) (hd : e.isDigit = false)
    (hb : Unicode.isBlank e = false) (hcomma : e ≠ ',') : c ≠ e := by
  rintro rfl
  rcases h with h | h | h
  · rw [hd] at h
    cases h
  · rw [hb] at h
    cases h
  · exact hcomma h

theorem Numeric.not_isMeta {c : Char} (h : Numeric c) : Quoting.isMeta c = false := by
  rw [← Bool.not_eq_true]
  intro hmeta
  have hall : ∀ e ∈ "\\.+*?()|[]\x7b\x7d^$#&-~".toList,
      e.isDigit = false ∧ Unicode.isBlank e = false ∧ e ≠ ',' := by decide
  obtain ⟨hd, hb, hcomma⟩ := hall c (List.contains_iff_mem.mp hmeta)
  exact h.ne hd hb hcomma rfl

private theorem skipBlanks_inv (d : Dialect) (t : Text) :
    ∃ w, t = w ++ skipBlanks d t ∧ ∀ c ∈ w, Numeric c := by
  cases d with
  | path => exact ⟨[], rfl, by simp⟩
  | segment =>
    exact ⟨_, List.takeWhile_append_dropWhile.symm,
      fun c hc => .inr (.inl (List.mem_takeWhile_imp hc))⟩

private theorem bound_numeric {d : Dialect} {t r : Text} {n : Nat} (h : bound d t = some (n, r)) :
    ∃ w, t = w ++ r ∧ ∀ c ∈ w, Numeric c := by
  obtain ⟨⟨m, q⟩, hdigits, heq⟩ := Option.map_eq_some_iff.mp h
  obtain ⟨rfl, rfl⟩ := Prod.mk.inj heq
  obtain ⟨v, hv, -, hdigit, -⟩ := digits?_inv hdigits
  obtain ⟨w, hw, hblank⟩ := skipBlanks_inv d t
  obtain ⟨w', hw', hblank'⟩ := skipBlanks_inv d q
  refine ⟨w ++ (v ++ w'), ?_, ?_⟩
  · rw [List.append_assoc, List.append_assoc, ← hw', ← hv]
    exact hw
  · intro c hc
    simp only [List.mem_append] at hc
    rcases hc with hc | hc | hc
    · exact hblank c hc
    · exact .inl (hdigit c hc)
    · exact hblank' c hc

private theorem lowerBound_numeric {d : Dialect} {t r : Text} {n : Nat}
    (h : lowerBound d t = some (n, r)) : ∃ w, t = w ++ r ∧ ∀ c ∈ w, Numeric c := by
  unfold lowerBound at h
  split at h
  case _ =>
    obtain ⟨-, rfl⟩ := Prod.mk.inj (Option.some.inj h)
    exact ⟨[], rfl, by simp⟩
  case _ => exact bound_numeric h

/-- A count is read to the first closing brace. -/
theorem count?_numeric {d : Dialect} {t r : Text} {lo : Nat} {hi : Option Nat}
    (h : count? d t = some (lo, hi, r)) : ∃ w, t = w ++ '\x7d' :: r ∧ ∀ c ∈ w, Numeric c := by
  have hcomma : ∀ {w : Text}, (∀ c ∈ w, Numeric c) → ∀ c ∈ ',' :: w, Numeric c := by
    intro w hw c hc
    rcases List.mem_cons.mp hc with rfl | hc
    · exact .inr (.inr rfl)
    · exact hw c hc
  have hboth : ∀ {v w : Text}, (∀ c ∈ v, Numeric c) → (∀ c ∈ w, Numeric c) →
      ∀ c ∈ v ++ w, Numeric c := by
    intro v w hv hw c hc
    rcases List.mem_append.mp hc with hc | hc
    · exact hv c hc
    · exact hw c hc
  unfold count? at h
  split at h
  case _ lo' r' hlower =>
    obtain ⟨-, -, rfl⟩ : lo' = lo ∧ some lo' = hi ∧ r' = r := by simpa using h
    exact lowerBound_numeric hlower
  case _ lo' r' hlower =>
    obtain ⟨-, -, rfl⟩ : lo' = lo ∧ none = hi ∧ r' = r := by simpa using h
    obtain ⟨w, rfl, hw⟩ := lowerBound_numeric hlower
    exact ⟨w ++ [','], by simp, hboth hw (hcomma (by simp))⟩
  case _ lo' r' _ hlower =>
    split at h
    case _ hi' r'' hupper =>
      obtain ⟨-, -, rfl⟩ : lo' = lo ∧ some hi' = hi ∧ r'' = r := by simpa using h
      obtain ⟨w, rfl, hw⟩ := lowerBound_numeric hlower
      obtain ⟨w', rfl, hw'⟩ := bound_numeric hupper
      exact ⟨w ++ ',' :: w', by simp, hboth hw (hcomma hw')⟩
    case _ => cases h
  case _ => cases h

/-! ### Lexemes -/

/-- The text ends in a closing parenthesis or a dollar sign only if it is a single character or a
pair with a backslash. -/
def Held (v : Text) : Prop :=
  (∃ c, v = [c]) ∨ (∃ c, v = ['\\', c]) ∨ ∃ w c, v = w ++ [c] ∧ c ≠ ')' ∧ c ≠ '$'

/-- Characters that mean nothing else are cut one by one. -/
theorem cuts_plain {w : Text} (hw : ∀ c ∈ w, Quoting.isMeta c = false) (u : Text) :
    Cuts (w ++ u) (w.map fun c => ⟨[c], .char c true true⟩) u := by
  induction w with
  | nil => exact .stop u
  | cons c w ih =>
    exact .more (v := [c]) (lexeme_plain .path (hw c List.mem_cons_self) (w ++ u))
      (ih fun x hx => hw x (List.mem_cons_of_mem c hx))

/-- What segments read as a count is one in paths too, or it is text there. -/
theorem exists_cuts_of_count? {t r : Text} {lo : Nat} {hi : Option Nat}
    (h : count? .segment t = some (lo, hi, r)) :
    ∃ cs, (∀ c ∈ cs, c.lexeme.Flat) ∧ Cuts ('\x7b' :: t) cs r := by
  obtain ⟨w, rfl, hw⟩ := count?_numeric h
  cases hpath : count? .path (w ++ '\x7d' :: r) with
  | some p =>
    obtain ⟨lo', hi', r'⟩ := p
    obtain ⟨w', heq, hw'⟩ := count?_numeric hpath
    have hsame : '\x7d' :: r = '\x7d' :: r' := by
      have hspan : ∀ {v : Text} (q : Text), (∀ c ∈ v, Numeric c) →
          (v ++ '\x7d' :: q).span (· != '\x7d') = (v, '\x7d' :: q) := by
        intro v q hv
        refine span_stop (fun c hc => ?_) (by decide) q
        simpa using (hv c hc).ne (by decide) (by decide) (by decide)
      have h1 := hspan r hw
      rw [heq, hspan r' hw'] at h1
      exact (Prod.mk.inj h1).2.symm
    obtain rfl := (List.cons.inj hsame).2
    have htext : '\x7b' :: (w ++ '\x7d' :: r) = '\x7b' :: w ++ ['\x7d'] ++ r := by simp
    have hlex : lexeme .path ('\x7b' :: (w ++ '\x7d' :: r)) =
        some (.count lo' hi' ('\x7b' :: upTo (w ++ '\x7d' :: r) r), r) := by
      rw [lexeme, hpath]
    rw [htext] at hlex ⊢
    refine ⟨[_], ?_, .more hlex (.stop r)⟩
    intro c hc
    rw [List.mem_singleton.mp hc]
    trivial
  | none =>
    have hopen : lexeme .path ('\x7b' :: (w ++ '\x7d' :: r)) =
        some (.char '\x7b' true true, w ++ '\x7d' :: r) := by
      rw [lexeme, hpath]
      rfl
    have hclose : Cuts ('\x7d' :: r) [⟨['\x7d'], .char '\x7d' true true⟩] r :=
      .more (v := ['\x7d']) rfl (.stop r)
    refine ⟨_, ?_, .more (v := ['\x7b']) hopen
      ((cuts_plain (fun c hc => (hw c hc).not_isMeta) _).trans hclose)⟩
    intro c hc
    simp only [List.mem_cons, List.mem_append, List.mem_map, List.not_mem_nil, or_false] at hc
    rcases hc with rfl | ⟨e, -, rfl⟩ | rfl <;> trivial

def SetKnown (t : Text) : Prop :=
  ∀ u, t = '[' :: u → ∃ s r, Bracket.set .path u = some (s, r) ∧ s.isSpelled = false

theorem Clear.setKnown {t : Text} (h : Clear t) : SetKnown t := by
  rintro u rfl
  obtain ⟨x, r, hx, hsettled⟩ := h.head
  obtain ⟨p, hp, heq⟩ := Option.map_eq_some_iff.mp hx
  obtain ⟨rfl, rfl⟩ := Prod.mk.inj heq
  exact ⟨p.1, p.2, hp, by simpa [Lexeme.isSettled] using hsettled⟩

/-- Apart from parentheses and counts, what segments read is one lexeme in paths too. Both settle
on it whatever follows. -/
theorem lexeme_agrees {t r : Text} {x : Lexeme} (h : lexeme .segment t = some (x, r))
    (hset : SetKnown t) (hopen : ∀ u, t ≠ '(' :: u) (hclose : ∀ u, t ≠ ')' :: u)
    (hbrace : ∀ u, t ≠ '\x7b' :: u) :
    ∃ v, t = v ++ r ∧ v ≠ [] ∧ Whole v ∧ Held v ∧ ∀ u, lexeme .segment (v ++ u) = some (x, u) ∧
      ∃ y, lexeme .path (v ++ u) = some (y, u) ∧ x.Agrees y := by
  have hread := h
  have hfixed : ∀ {c : Char} {t : Text} (y : Lexeme), y.Flat → c ≠ '\\' →
      (∀ d u, lexeme d (c :: u) = some (y, u)) → lexeme .segment (c :: t) = some (x, r) →
      ∃ v, c :: t = v ++ r ∧ v ≠ [] ∧ Whole v ∧ Held v ∧
        ∀ u, lexeme .segment (v ++ u) = some (x, u) ∧
          ∃ y, lexeme .path (v ++ u) = some (y, u) ∧ x.Agrees y := by
    intro c t y hy hc hall hone
    rw [hall] at hone
    obtain ⟨rfl, rfl⟩ := Prod.mk.inj (Option.some.inj hone)
    exact ⟨[c], rfl, by simp, .bare hc .nil, .inl ⟨c, rfl⟩,
      fun u => ⟨hall .segment u, y, hall .path u, .same hy⟩⟩
  unfold lexeme at h
  split at h
  case _ => cases h
  case _ t => exact hfixed .dot trivial (by decide) (fun _ _ => rfl) hread
  case _ t => exact hfixed .caret trivial (by decide) (fun _ _ => rfl) hread
  case _ t => exact hfixed .dollar trivial (by decide) (fun _ _ => rfl) hread
  case _ t => exact hfixed .bar trivial (by decide) (fun _ _ => rfl) hread
  case _ t => exact absurd rfl (hclose t)
  case _ t => exact hfixed .star trivial (by decide) (fun _ _ => rfl) hread
  case _ t => exact hfixed .plus trivial (by decide) (fun _ _ => rfl) hread
  case _ t => exact hfixed .question trivial (by decide) (fun _ _ => rfl) hread
  case _ t => exact absurd rfl (hopen t)
  case _ t =>
    obtain ⟨⟨s, q⟩, hread', heq⟩ := Option.map_eq_some_iff.mp h
    obtain ⟨rfl, rfl⟩ := Prod.mk.inj heq
    obtain ⟨s', q', hset', hknown⟩ := hset t rfl
    obtain ⟨rfl, v, rfl, hv, hpath⟩ := Bracket.set_agrees hread' hset' hknown
    obtain ⟨v', hv', -, hsegment⟩ := Bracket.settles_read .segment _ _ _ hread'
    obtain rfl := List.append_cancel_right hv'
    refine ⟨'[' :: (v ++ [']']), rfl, by simp, .bare (by decide) hv,
      .inr (.inr ⟨'[' :: v, ']', rfl, by decide, by decide⟩),
      fun u => ⟨?_, .set s, ?_, .same hknown⟩⟩
    · rw [List.cons_append, lexeme, Bracket.set, hsegment u]
      rfl
    · rw [List.cons_append, lexeme, hpath u]
      rfl
  case _ t =>
    obtain ⟨v, rfl, hv, hsettled⟩ := settles_segmentEscape false _ _ _ h
    have hheld : Held ('\\' :: v) := by
      obtain ⟨hne, ⟨c, rfl⟩ | hinert⟩ := hv
      · exact .inr (.inl ⟨c, rfl⟩)
      · obtain ⟨w, c, rfl⟩ := (List.eq_nil_or_concat v).resolve_left hne
        have hc := hinert c (by simp)
        exact .inr (.inr ⟨'\\' :: w, c, by simp, hc.2⟩)
    exact ⟨'\\' :: v, rfl, by simp, hv.completes, hheld,
      fun u => ⟨hsettled u, escape_agrees (hsettled u)⟩⟩
  case _ t => exact absurd rfl (hbrace t)
  case _ c t _ _ _ _ _ _ _ _ _ _ hb _ =>
    refine hfixed (.char c true true) trivial hb ?_ hread
    intro d u
    rw [lexeme]
    all_goals assumption

/-- Apart from parentheses, what segments read is cut in paths to the same place. -/
theorem exists_cuts_of_lexeme {t r : Text} {x : Lexeme} (h : lexeme .segment t = some (x, r))
    (hset : SetKnown t) (hopen : ∀ u, t ≠ '(' :: u) (hclose : ∀ u, t ≠ ')' :: u) :
    ∃ v cs, t = v ++ r ∧ v ≠ [] ∧ Whole v ∧ Held v ∧ (∀ c ∈ cs, c.lexeme.Flat) ∧ Cuts t cs r := by
  by_cases hbrace : ∃ u, t = '\x7b' :: u
  · obtain ⟨t, rfl⟩ := hbrace
    rw [lexeme] at h
    split at h
    case _ lo hi s hcount =>
      obtain ⟨-, rfl⟩ := Prod.mk.inj (Option.some.inj h)
      obtain ⟨cs, hcs, hcuts⟩ := exists_cuts_of_count? hcount
      obtain ⟨w, rfl, hw⟩ := count?_numeric hcount
      have hwhole : Whole ('\x7b' :: (w ++ ['\x7d'])) := by
        refine .bare (by decide) ((whole_of_bare fun c hc => ?_).append (.bare (by decide) .nil))
        exact (hw c hc).ne (by decide) (by decide) (by decide)
      exact ⟨'\x7b' :: (w ++ ['\x7d']), cs, by simp, by simp, hwhole,
        .inr (.inr ⟨'\x7b' :: w, '\x7d', rfl, by decide, by decide⟩), hcs, hcuts⟩
    case _ => cases h
  · obtain ⟨v, rfl, hne, hv, hheld, hsettled⟩ :=
      lexeme_agrees h hset hopen hclose fun u hu => hbrace ⟨u, hu⟩
    obtain ⟨-, y, hy, hagrees⟩ := hsettled r
    refine ⟨v, [⟨v, y⟩], rfl, hne, hv, hheld, fun c hc => ?_, .more hy (.stop r)⟩
    rw [List.mem_singleton.mp hc]
    exact hagrees.flat

/-! ### Patterns -/

/-- What is held and whole does not reach beyond a text without parentheses. -/
private theorem Held.within {v p r : Text} (hv : Held v) (hwhole : Whole v) (hp : Parenless p)
    (hne : p ≠ []) (h : p ++ [')', '$'] = v ++ r) :
    ∃ q, p = v ++ q ∧ Parenless q ∧ r = q ++ [')', '$'] := by
  rcases List.append_eq_append_iff.mp h with ⟨z, rfl, hz⟩ | ⟨q, rfl, hq⟩
  · have hclosing : ∀ c ∈ z, c = ')' ∨ c = '$' := by
      intro c hc
      have hmem : c ∈ [')', '$'] := by
        rw [hz]
        exact List.mem_append_left r hc
      simpa using hmem
    have hnil : z = [] := by
      by_contra hne'
      have hlen := List.length_pos_iff.mpr hne
      have hlen' := List.length_pos_iff.mpr hne'
      rcases hv with ⟨c, hc⟩ | ⟨c, hc⟩ | ⟨w, c, hc, hclose, hdollar⟩
      · have := congrArg List.length hc
        simp only [List.length_append, List.length_singleton] at this
        omega
      · cases hp with
        | nil => exact hne rfl
        | bare hb _ _ _ => exact hb (List.cons.inj hc).1
        | pair _ =>
          have := congrArg List.length hc
          simp only [List.length_append, List.length_cons, List.length_nil] at this
          omega
      · obtain ⟨z, e, rfl⟩ := (List.eq_nil_or_concat z).resolve_left hne'
        rw [List.concat_eq_append, ← List.append_assoc] at hc
        obtain rfl : e = c := by simpa using List.append_inj_right' hc rfl
        rcases hclosing e (by simp) with rfl | rfl
        · exact hclose rfl
        · exact hdollar rfl
    subst hnil
    exact ⟨[], by simp, .nil, by simpa using hz.symm⟩
  · exact ⟨q, rfl, hp.drop hwhole, hq⟩

/-- What is cut goes on behind its first lexeme. -/
theorem lexemesFrom_inv {d : Dialect} {n : Nat} {c : Char} {t : Text} {xs : List Lexeme}
    (h : lexemesFrom d (n + 1) (c :: t) = some xs) :
    ∃ x r ys, lexeme d (c :: t) = some (x, r) ∧ lexemesFrom d n r = some ys ∧ xs = x :: ys := by
  rw [lexemesFrom] at h
  · split at h
    case _ x r hx =>
      obtain ⟨ys, hys, rfl⟩ := Option.map_eq_some_iff.mp h
      exact ⟨x, r, ys, hx, hys, rfl⟩
    case _ => cases h
  · simp

/-- A text without parentheses that segments read is a flat run of lexemes in paths, if its sets are
known there. -/
theorem exists_flat_cuts {p : Text} (hp : Parenless p) (hclear : Clear (p ++ [')', '$'])) {n : Nat}
    {xs : List Lexeme} (h : lexemesFrom .segment n (p ++ [')', '$']) = some xs) :
    ∃ cs, (∀ c ∈ cs, c.lexeme.Flat) ∧ Cuts (p ++ [')', '$']) cs [')', '$'] := by
  induction n generalizing p xs with
  | zero =>
    cases p with
    | nil => exact ⟨[], by simp, .stop _⟩
    | cons c p => cases h
  | succ n ih =>
    cases p with
    | nil => exact ⟨[], by simp, .stop _⟩
    | cons c p =>
      obtain ⟨x, r, ys, hx, hys, -⟩ := lexemesFrom_inv h
      have hparen : c ≠ '(' ∧ c ≠ ')' := by
        cases hp with
        | bare _ hopen hclose _ => exact ⟨hopen, hclose⟩
        | pair _ => decide
      obtain ⟨v, cs, ht, -, hwhole, hheld, hflat, hcuts⟩ := exists_cuts_of_lexeme hx
        hclear.setKnown (fun u hu => hparen.1 (List.cons.inj hu).1)
        (fun u hu => hparen.2 (List.cons.inj hu).1)
      obtain ⟨q, -, hq, rfl⟩ := hheld.within hwhole hp (by simp) ht
      obtain ⟨ds, hds, hcuts'⟩ := ih hq (hclear.rest hcuts) hys
      refine ⟨cs ++ ds, ?_, hcuts.trans hcuts'⟩
      intro e he
      rcases List.mem_append.mp he with he | he
      · exact hflat e he
      · exact hds e he

end PathTemplate.Expression

namespace PathTemplate.Rendering

open Expression

theorem validatorSource_eq (p : Parameter) :
    validatorSource p = '^' :: '(' :: '?' :: ':' :: (p.pattern ++ [')', '$']) := by
  unfold validatorSource
  simp

/-- A pattern that a renderer accepts is read in a parenthesis that is open. -/
private theorem exists_lexemes_of_validator {p : Parameter} {c : Compiled}
    (h : validator p = .ok c) :
    ∃ n xs b, lexemesFrom .segment n (p.pattern ++ [')', '$']) = some xs ∧
      (.caret :: .opening (.plain []) :: xs).foldlM (Builder.step .segment) Builder.init =
        some b := by
  have hread : ∃ xs b, lexemes .segment (validatorSource p) = some xs ∧
      xs.foldlM (Builder.step .segment) Builder.init = some b := by
    rw [validator] at h
    cases hr : Compiled.read .segment (validatorSource p) with
    | none =>
      rw [hr] at h
      cases h
    | some d =>
      rw [Compiled.read, Expression.read] at hr
      cases hx : lexemes .segment (validatorSource p) with
      | none =>
        rw [hx] at hr
        cases hr
      | some xs =>
        cases hb : xs.foldlM (Builder.step .segment) Builder.init with
        | none => simp [hx, hb] at hr
        | some b => exact ⟨xs, b, rfl, hb⟩
  obtain ⟨xs, b, hxs, hb⟩ := hread
  rw [validatorSource_eq, lexemes, List.length_cons, List.length_cons] at hxs
  obtain ⟨x, r, ys, hcaret, hys, rfl⟩ := lexemesFrom_inv hxs
  obtain ⟨rfl, rfl⟩ := Prod.mk.inj (Option.some.inj hcaret)
  obtain ⟨x, r, zs, hopen, hzs, rfl⟩ := lexemesFrom_inv hys
  obtain ⟨rfl, rfl⟩ := Prod.mk.inj (Option.some.inj hopen)
  exact ⟨_, zs, b, hzs, hb⟩

/-- A pattern that a renderer accepts, with sets that are known in paths, is a flat run of lexemes
there, up to any seam. -/
theorem flat_of_validator {p : Parameter} {c : Compiled} (hp : Parenless p.pattern)
    (hclear : Clear p.pattern) (h : validator p = .ok c) :
    ∃ cs, (∀ c ∈ cs, c.lexeme.Flat) ∧ ∀ u, Seam u → Cuts (p.pattern ++ u) cs u := by
  obtain ⟨n, xs, -, hxs, -⟩ := exists_lexemes_of_validator h
  have hend : Clear [')', '$'] := ⟨[.close, .dollar], rfl, by simp [Lexeme.isSettled]⟩
  obtain ⟨cs, hcs, hcuts⟩ := exists_flat_cuts hp (hclear.append (seam_close _) hend) hxs
  exact ⟨cs, hcs, fun u hu => hcuts.seam (seam_close _) hu⟩

/-- A pattern that a renderer accepts does not begin with a question mark, which would have
nothing to repeat. -/
theorem head_of_validator {p : Parameter} {c : Compiled} (h : validator p = .ok c) :
    p.pattern.head? ≠ some '?' := by
  obtain ⟨n, xs, b, hxs, hb⟩ := exists_lexemes_of_validator h
  intro hhead
  obtain ⟨q, hq⟩ : ∃ q, p.pattern = '?' :: q := by
    cases hp : p.pattern with
    | nil => simp [hp] at hhead
    | cons e q =>
      rw [hp] at hhead
      exact ⟨q, by rw [Option.some.inj hhead]⟩
  rw [hq, List.cons_append] at hxs
  cases n with
  | zero => cases hxs
  | succ n =>
    obtain ⟨x, r, ys, hquestion, -, rfl⟩ := lexemesFrom_inv hxs
    obtain ⟨rfl, rfl⟩ := Prod.mk.inj (Option.some.inj hquestion)
    cases hb

end PathTemplate.Rendering
