import Mathlib.Data.List.TakeDrop
import Mathlib.Data.List.TakeWhile
import PathTemplate.Expression.Scan

/-!
What the readers of a written expression take. Most of them settle on the text they take whatever
follows it, and that text never ends in a backslash that waits for its character.
-/
namespace PathTemplate.Expression

/-- Bare characters, and pairs of a backslash and any character. -/
inductive Whole : Text → Prop
  | nil : Whole []
  | bare {c : Char} {t : Text} : c ≠ '\\' → Whole t → Whole (c :: t)
  | pair {c : Char} {t : Text} : Whole t → Whole ('\\' :: c :: t)

/-- What the reader takes is settled whatever follows it, and has the property. -/
def Settles {α : Type} (P : Text → Prop) (f : Text → Option (α × Text)) : Prop :=
  ∀ t a r, f t = some (a, r) → ∃ v, t = v ++ r ∧ P v ∧ ∀ u, f (v ++ u) = some (a, u)

def Completes (t : Text) : Prop := Whole ('\\' :: t)

/-- A character that begins no escape, closes no parenthesis and does not stand for the end. -/
def Inert (c : Char) : Prop := c ≠ '\\' ∧ c ≠ ')' ∧ c ≠ '$'

instance (c : Char) : Decidable (Inert c) := inferInstanceAs (Decidable (_ ∧ _))

theorem Whole.append {t u : Text} (h : Whole t) (h' : Whole u) : Whole (t ++ u) := by
  induction h with
  | nil => exact h'
  | bare hc _ ih => exact .bare hc ih
  | pair _ ih => exact .pair ih

theorem whole_of_bare {t : Text} (h : ∀ c ∈ t, c ≠ '\\') : Whole t := by
  induction t with
  | nil => exact .nil
  | cons c t ih =>
    exact .bare (h c List.mem_cons_self) (ih fun x hx => h x (List.mem_cons_of_mem c hx))

theorem completes_of_inert {t : Text} (hne : t ≠ []) (h : ∀ c ∈ t, Inert c) : Completes t := by
  obtain ⟨c, t, rfl⟩ := List.exists_cons_of_ne_nil hne
  exact .pair (whole_of_bare fun x hx => (h x (List.mem_cons_of_mem c hx)).1)

theorem Settles.weaken {α : Type} {P Q : Text → Prop} {f : Text → Option (α × Text)}
    (h : Settles P f) (hPQ : ∀ v, P v → Q v) : Settles Q f := by
  intro t a r hread
  obtain ⟨v, ht, hv, hsettled⟩ := h t a r hread
  exact ⟨v, ht, hPQ v hv, hsettled⟩

/-- A reader that hands on to another one behind a fixed text. -/
theorem Settles.behind {α β : Type} {P Q : Text → Prop} {f : Text → Option (α × Text)}
    {F : Text → Option (β × Text)} (h : Settles P f) (g : α → β) (pre : Text)
    (hF : ∀ t, F (pre ++ t) = (f t).map fun p => (g p.1, p.2)) (hPQ : ∀ v, P v → Q (pre ++ v))
    {t : Text} {b : β} {r : Text} (hread : F (pre ++ t) = some (b, r)) :
    ∃ v, pre ++ t = v ++ r ∧ Q v ∧ ∀ u, F (v ++ u) = some (b, u) := by
  rw [hF] at hread
  obtain ⟨p, hp, heq⟩ := Option.map_eq_some_iff.mp hread
  obtain ⟨rfl, rfl⟩ := Prod.mk.inj heq
  obtain ⟨v, rfl, hv, hsettled⟩ := h t p.1 p.2 hp
  refine ⟨pre ++ v, by rw [List.append_assoc], hPQ v hv, ?_⟩
  intro u
  rw [List.append_assoc, hF, hsettled]
  rfl

/-- A reader that takes a fixed text and no more. -/
theorem settles_fixed {β : Type} {Q : Text → Prop} {F : Text → Option (β × Text)} (pre : Text)
    {b : β} (hF : ∀ t, F (pre ++ t) = some (b, t)) (hQ : Q pre) {t : Text} {b' : β} {r : Text}
    (hread : F (pre ++ t) = some (b', r)) :
    ∃ v, pre ++ t = v ++ r ∧ Q v ∧ ∀ u, F (v ++ u) = some (b', u) := by
  rw [hF] at hread
  obtain ⟨rfl, rfl⟩ := Prod.mk.inj (Option.some.inj hread)
  exact ⟨pre, rfl, hQ, hF⟩

/-! ### Runs of characters -/

theorem span_inv {p : Char → Bool} {t v u : Text} (h : t.span p = (v, u)) :
    t = v ++ u ∧ (∀ x ∈ v, p x = true) ∧ ∀ c r, u = c :: r → p c = false := by
  rw [List.span_eq_takeWhile_dropWhile, Prod.mk.injEq] at h
  obtain ⟨rfl, rfl⟩ := h
  refine ⟨List.takeWhile_append_dropWhile.symm, fun x hx => List.mem_takeWhile_imp hx, ?_⟩
  intro c r hr
  have hhead := List.head?_dropWhile_not p t
  rw [hr] at hhead
  simpa using hhead

theorem span_run {p : Char → Bool} {v u : Text} (hv : ∀ x ∈ v, p x = true)
    (hu : ∀ c r, u = c :: r → p c = false) : (v ++ u).span p = (v, u) := by
  rw [List.span_eq_takeWhile_dropWhile, List.takeWhile_append_of_pos hv,
    List.dropWhile_append_of_pos hv]
  cases u with
  | nil => simp
  | cons c r => simp [hu c r rfl]

theorem inert_of_hexValue? {c : Char} {n : Nat} (h : Text.hexValue? c = some n) : Inert c := by
  refine ⟨?_, ?_, ?_⟩
  all_goals
    rintro rfl
    simp [Text.hexValue?] at h

theorem inert_of_hexNumber? {t : Text} {n : Nat} (h : hexNumber? t = some n) :
    ∀ c ∈ t, Inert c := by
  have hfold : ∀ (t : Text) (m n : Nat),
      t.foldlM (fun n c => (Text.hexValue? c).map (16 * n + ·)) m = some n → ∀ c ∈ t, Inert c := by
    intro t
    induction t with
    | nil => simp
    | cons c t ih =>
      intro m n hn x hx
      rw [List.foldlM_cons] at hn
      cases hc : Text.hexValue? c with
      | none => simp [hc] at hn
      | some k =>
        rw [hc] at hn
        rcases List.mem_cons.mp hx with rfl | hx
        · exact inert_of_hexValue? hc
        · exact ih _ n hn x hx
  rw [hexNumber?] at h
  split at h
  · simp at h
  · exact hfold t 0 n h

theorem span_all {p : Char → Bool} {v : Text} (hv : ∀ x ∈ v, p x = true) : v.span p = (v, []) := by
  have hrun : (v ++ []).span p = (v, []) := span_run hv fun _ _ hnil => by cases hnil
  rwa [List.append_nil] at hrun

theorem span_stop {p : Char → Bool} {v : Text} {c : Char} (hv : ∀ x ∈ v, p x = true)
    (hc : p c = false) (r : Text) : (v ++ c :: r).span p = (v, c :: r) := by
  refine span_run hv ?_
  intro e u he
  rw [List.cons.injEq] at he
  rw [← he.1]
  exact hc

/-! ### Escapes -/

/-- A brace in front of inert characters and one behind them. -/
private theorem inert_braced {t : Text} (h : ∀ c ∈ t, Inert c) :
    ∀ c ∈ '\x7b' :: t ++ ['\x7d'], Inert c := by
  intro c hc
  rw [List.cons_append, List.mem_cons, List.mem_append, List.mem_singleton] at hc
  rcases hc with rfl | hc | rfl
  · decide
  · exact h c hc
  · decide

/-- A reader of what stands in braces, where only inert texts mean anything. -/
private theorem settles_braced {α : Type} {F : Text → Option (α × Text)} {g : Text → Option α}
    (hclosed : ∀ v r, (∀ c ∈ v, (c != '}') = true) → F ('{' :: (v ++ '}' :: r)) = (g v).map (·, r))
    (hopen : ∀ v, (∀ c ∈ v, (c != '}') = true) → F ('{' :: v) = none)
    (hinert : ∀ v a, g v = some a → ∀ c ∈ v, Inert c) {t : Text} {a : α} {r : Text}
    (h : F ('{' :: t) = some (a, r)) :
    ∃ v, '{' :: t = v ++ r ∧ (∀ c ∈ v, Inert c) ∧ ∀ u, F (v ++ u) = some (a, u) := by
  cases hspan : t.span (· != '}') with
  | mk v q =>
    obtain ⟨rfl, hv, hstop⟩ := span_inv hspan
    cases q with
    | nil =>
      rw [List.append_nil, hopen v hv] at h
      cases h
    | cons e q =>
      obtain rfl : e = '}' := by simpa using hstop e q rfl
      rw [hclosed v q hv] at h
      obtain ⟨b, hb, heq⟩ := Option.map_eq_some_iff.mp h
      obtain ⟨rfl, rfl⟩ := Prod.mk.inj heq
      refine ⟨'{' :: v ++ ['}'], by simp, inert_braced (hinert v b hb), ?_⟩
      intro u
      have htext : '{' :: v ++ ['}'] ++ u = '{' :: (v ++ '}' :: u) := by simp
      rw [htext, hclosed v u hv, hb]
      rfl

private def hexChar? (ds : Text) : Option Char := (hexNumber? ds).bind scalar?

private theorem inert_of_hexChar? {ds : Text} {c : Char} (h : hexChar? ds = some c) :
    ∀ x ∈ ds, Inert x := by
  obtain ⟨k, hk, -⟩ := Option.bind_eq_some_iff.mp h
  exact inert_of_hexNumber? hk

private theorem hexScalar_braced (n : Nat) {ds : Text} (hds : ∀ c ∈ ds, (c != '}') = true)
    (r : Text) : hexScalar n ('{' :: (ds ++ '}' :: r)) =
      (if ds.length ≤ 8 then hexChar? ds else none).map (·, r) := by
  rw [hexScalar, span_stop (p := (· != '}')) hds (by decide)]
  by_cases hlen : ds.length ≤ 8
  · simp only [hexChar?, hlen, if_true, Option.map_eq_bind, Option.bind_assoc]
    rfl
  · simp [hlen]

private theorem hexScalar_fixed (n : Nat) {t : Text} (ht : ∀ v, t ≠ '{' :: v) :
    hexScalar n t =
      if n ≤ t.length then (hexChar? (t.take n)).map (·, t.drop n) else none := by
  rw [hexScalar]
  · simp only [hexChar?, Option.map_eq_bind, Option.bind_assoc]
    rfl
  · exact ht

theorem settles_hexScalar {n : Nat} (hn : 0 < n) :
    Settles (fun v => ∀ c ∈ v, Inert c) (hexScalar n) := by
  intro t c r h
  by_cases hbrace : ∃ v, t = '{' :: v
  · obtain ⟨t, rfl⟩ := hbrace
    refine settles_braced (fun v r hv => hexScalar_braced n hv r) ?_ ?_ h
    · intro v hv
      rw [hexScalar, span_all (p := (· != '}')) hv]
    · intro v a ha
      split at ha
      case isTrue => exact inert_of_hexChar? ha
      case isFalse => cases ha
  · have hne : ∀ v, t ≠ '{' :: v := fun v hv => hbrace ⟨v, hv⟩
    rw [hexScalar_fixed n hne] at h
    split at h
    case isTrue hlen =>
      obtain ⟨d, hd, heq⟩ := Option.map_eq_some_iff.mp h
      obtain ⟨rfl, rfl⟩ := Prod.mk.inj heq
      refine ⟨t.take n, (List.take_append_drop n t).symm, inert_of_hexChar? hd, ?_⟩
      intro u
      have hlength : (t.take n).length = n := List.length_take_of_le hlen
      have hstart : ∀ v, t.take n ++ u ≠ '{' :: v := by
        obtain ⟨m, rfl⟩ : ∃ m, n = m + 1 := ⟨n - 1, by omega⟩
        obtain ⟨e, t, rfl⟩ := List.exists_cons_of_length_pos (Nat.lt_of_lt_of_le hn hlen)
        intro v hv
        rw [List.take_succ_cons, List.cons_append, List.cons.injEq] at hv
        exact hne t (by rw [hv.1])
      rw [hexScalar_fixed n hstart, List.take_left' hlength, List.drop_left' hlength, hd,
        if_pos (by rw [List.length_append, hlength]; omega)]
      rfl
    case isFalse => cases h

theorem inert_of_propertyNamed? {t : Text} {s : CharSet} (h : propertyNamed? t = some s) :
    ∀ c ∈ t, Inert c := by
  -- a name that is not inert is none of the names of properties
  have hnone : ∀ c ∈ t, ¬ Inert c → propertyNamed? t = none := by
    intro c hc hinert
    have hspecial : c ∈ ['\\', ')', '$'] := by
      simpa [Inert, Classical.or_iff_not_imp_left] using hinert
    have hkept : c ∈ (looseName t).toList := by
      have hall : ∀ e ∈ ['\\', ')', '$'],
          (e != ' ' && e != '-' && e != '_') = true ∧ e.toLower = e := by decide
      obtain ⟨hkept, hlower⟩ := hall c hspecial
      rw [looseName, String.toList_ofList]
      exact List.mem_map.mpr ⟨c, List.mem_filter.mpr ⟨hc, hkept⟩, hlower⟩
    have hname : ∀ s : String, (∀ e ∈ s.toList, Inert e) → looseName t ≠ s := by
      intro s hs heq
      exact hinert (hs c (heq ▸ hkept))
    have hcategories : categoriesNamed? (looseName t) = none := by
      rw [categoriesNamed?, Option.map_eq_none_iff, List.find?_eq_none]
      intro e he hc
      have hall : ∀ e ∈ namedCategories, ∀ s ∈ e.1, ∀ c ∈ s.toList, Inert c := by decide +kernel
      exact hname _ (hall e he _ (List.contains_iff_mem.mp hc)) rfl
    simp only [propertyNamed?, hcategories]
    have hne : ∀ s : String, (∀ e ∈ s.toList, Inert e) → (looseName t == s) = false := by
      intro s hs
      exact beq_eq_false_iff_ne.mpr (hname s hs)
    rw [hne "any" (by decide), hne "ascii" (by decide), hne "whitespace" (by decide),
      hne "wspace" (by decide), hne "space" (by decide), hne "cn" (by decide),
      hne "unassigned" (by decide), hne "c" (by decide), hne "other" (by decide)]
    rfl
  intro c hc
  by_contra hinert
  rw [hnone c hc hinert] at h
  cases h

theorem inert_of_signedProperty? {t : Text} {s : CharSet} (h : signedProperty? t = some s) :
    ∀ c ∈ t, Inert c := by
  unfold signedProperty? at h
  split at h
  · obtain ⟨s', hs, -⟩ := Option.map_eq_some_iff.mp h
    intro c hc
    rcases List.mem_cons.mp hc with rfl | hc
    · decide
    · exact inert_of_propertyNamed? hs c hc
  · exact inert_of_propertyNamed? h

/-- A property without braces is named by one character. -/
theorem property_single {c : Char} (hc : c ≠ '{') (r : Text) :
    property (c :: r) = (propertyNamed? [c]).map (·, r) := by
  unfold property
  split
  case _ heq => exact absurd (List.cons.inj heq).1 hc
  case _ heq =>
    obtain ⟨rfl, rfl⟩ := List.cons.inj heq
    rfl
  case _ heq => cases heq

private theorem property_braced {name : Text} (hname : ∀ c ∈ name, (c != '}') = true) (r : Text) :
    property ('{' :: (name ++ '}' :: r)) = (signedProperty? name).map (·, r) := by
  unfold property
  simp only [span_stop (p := (· != '}')) hname (c := '}') rfl]

private theorem property_open {t : Text} (ht : ∀ c ∈ t, (c != '}') = true) :
    property ('{' :: t) = none := by
  unfold property
  simp only [span_all (p := (· != '}')) ht]

theorem settles_property : Settles (fun v => ∀ c ∈ v, Inert c) property := by
  intro t a r h
  cases t with
  | nil => cases h
  | cons c t =>
    by_cases hc : c = '{'
    · subst hc
      exact settles_braced (fun v r hv => property_braced hv r) (fun v hv => property_open hv)
        (fun v s => inert_of_signedProperty?) h
    · rw [property_single hc] at h
      obtain ⟨s, hs, heq⟩ := Option.map_eq_some_iff.mp h
      obtain ⟨rfl, rfl⟩ := Prod.mk.inj heq
      refine ⟨[c], rfl, inert_of_propertyNamed? hs, ?_⟩
      intro u
      rw [List.singleton_append, property_single hc, hs]
      rfl

theorem settles_nameUpTo {close : Char} (hclose : isNameChar close = false)
    (hb : close ≠ '\\') : Settles Whole (nameUpTo close) := by
  intro t name r h
  unfold nameUpTo at h
  cases hspan : t.span isNameChar with
  | mk v u =>
    obtain ⟨rfl, hv, -⟩ := span_inv hspan
    rw [hspan] at h
    cases u with
    | nil => simp at h
    | cons c u =>
      simp only at h
      split at h
      case isTrue hc =>
        rw [Option.some.injEq, Prod.mk.injEq] at h
        obtain ⟨rfl, rfl⟩ := h
        simp only [Bool.and_eq_true, decide_eq_true_eq] at hc
        obtain ⟨rfl, hne⟩ := hc
        refine ⟨v ++ [c], by simp, ?_, ?_⟩
        · refine (whole_of_bare fun x hx hxb => ?_).append (.bare hb .nil)
          rw [hxb] at hx
          exact absurd (hv _ hx) (by decide)
        · intro u'
          have htext : v ++ [c] ++ u' = v ++ c :: u' := by simp
          rw [htext, nameUpTo, span_stop hv hclose]
          simp [hne]
      case isFalse => simp at h

def introducers : List Char := ['x', 'u', 'U', 'p', 'P']

def namedLexeme? (folds : Bool) (c : Char) : Option Lexeme :=
  match namedChar? c with
  | some d => some (.char d folds false)
  | none => (namedSet? c).map .set

theorem sharedEscape_named (folds : Bool) {c : Char} (hc : c ∉ introducers) (u : Text) :
    sharedEscape folds (c :: u) = (namedLexeme? folds c).map (·, u) := by
  simp only [introducers, List.mem_cons, List.not_mem_nil, or_false, not_or] at hc
  obtain ⟨hx, hu, hU, hp, hP⟩ := hc
  rw [sharedEscape, namedLexeme?]
  · cases namedChar? c with
    | some d => rfl
    | none => cases namedSet? c <;> rfl
  all_goals assumption

theorem settles_sharedEscape (folds : Bool) :
    Settles (fun v => v ≠ [] ∧ ∀ c ∈ v, Inert c) (sharedEscape folds) := by
  intro t x r h
  have hbehind : ∀ {c : Char} {v : Text}, Inert c → (∀ e ∈ v, Inert e) →
      [c] ++ v ≠ [] ∧ ∀ e ∈ [c] ++ v, Inert e := by
    intro c v hc hv
    refine ⟨by simp, fun e he => ?_⟩
    rcases List.mem_cons.mp he with rfl | he
    · exact hc
    · exact hv e he
  unfold sharedEscape at h
  split at h
  case _ t =>
    exact (settles_hexScalar (n := 2) (by decide)).behind (.char · true false) ['x'] (fun _ => rfl)
      (fun _ => hbehind (by decide)) h
  case _ t =>
    exact (settles_hexScalar (n := 4) (by decide)).behind (.char · true false) ['u'] (fun _ => rfl)
      (fun _ => hbehind (by decide)) h
  case _ t =>
    exact (settles_hexScalar (n := 8) (by decide)).behind (.char · true false) ['U'] (fun _ => rfl)
      (fun _ => hbehind (by decide)) h
  case _ t =>
    exact settles_property.behind .set ['p'] (fun _ => rfl) (fun _ => hbehind (by decide)) h
  case _ t =>
    exact settles_property.behind (.set <| .compl ·) ['P'] (fun _ => rfl)
      (fun _ => hbehind (by decide)) h
  case _ c t hx hu hU hp hP =>
    have hc : c ∉ introducers := by
      simp only [introducers, List.mem_cons, List.not_mem_nil, or_false, not_or]
      exact ⟨hx, hu, hU, hp, hP⟩
    have hread : sharedEscape folds (c :: t) = some (x, r) := by
      rw [sharedEscape]
      · exact h
      all_goals assumption
    rw [sharedEscape_named folds hc] at hread
    obtain ⟨y, hy, heq⟩ := Option.map_eq_some_iff.mp hread
    obtain ⟨rfl, rfl⟩ := Prod.mk.inj heq
    refine ⟨[c], rfl, ⟨by simp, fun e he => ?_⟩, ?_⟩
    · rw [List.mem_singleton.mp he]
      refine ⟨?_, ?_, ?_⟩
      all_goals
        rintro rfl
        cases hy
    · intro u
      rw [List.singleton_append, sharedEscape_named folds hc, hy]
      rfl
  case _ => cases h

def pathLetters : List Char := ['e', 'h', 'H', 'b', 'G', 'k']

/-- What a character with no meaning of its own stands for behind a backslash. -/
def lone? (bracketed : Bool) (c : Char) : Option Lexeme :=
  match if bracketed then none else namedAssertion? c with
  | some a => some (.check a)
  | none => if isAsciiAlnum c then none else some (.char c false false)

/-- Behind a character that is no letter of paths stands a number, or what the character means. -/
theorem pathEscape_cons (bracketed : Bool) {c : Char} (hc : c ∉ pathLetters) (u : Text) :
    pathEscape bracketed (c :: u) =
      if c.isDigit then
        if bracketed then none
        else some (.again (.number (Text.decimal ((c :: u).span Char.isDigit).1)),
          ((c :: u).span Char.isDigit).2)
      else (sharedEscape false (c :: u)).or ((lone? bracketed c).map (·, u)) := by
  simp only [pathLetters, List.mem_cons, List.not_mem_nil, or_false, not_or] at hc
  obtain ⟨he, hh, hH, hb, hG, hk⟩ := hc
  unfold pathEscape
  split
  case _ heq => cases heq
  case _ heq => exact absurd (List.cons.inj heq).1 he
  case _ heq => exact absurd (List.cons.inj heq).1 hh
  case _ heq => exact absurd (List.cons.inj heq).1 hH
  case _ heq => exact absurd (List.cons.inj heq).1 hb
  case _ heq => exact absurd (List.cons.inj heq).1 hG
  case _ heq => exact absurd (List.cons.inj heq).1 hk
  case _ heq => exact absurd (List.cons.inj heq).1 hk
  case _ heq =>
    obtain ⟨rfl, rfl⟩ := List.cons.inj heq
    congr 1
    rw [lone?]
    cases sharedEscape false (c :: u) with
    | some x => rfl
    | none =>
      rw [Option.none_or]
      cases (if bracketed = true then none else namedAssertion? c : Option Assertion) with
      | some a => rfl
      | none => cases isAsciiAlnum c <;> rfl

theorem pathEscape_other (bracketed : Bool) {c : Char} (hc : c ∉ pathLetters)
    (hd : c.isDigit = false) (u : Text) :
    pathEscape bracketed (c :: u) =
      (sharedEscape false (c :: u)).or ((lone? bracketed c).map (·, u)) := by
  rw [pathEscape_cons bracketed hc, hd, if_neg Bool.false_ne_true]

/-- An escape takes one character that it does not mean by itself, or inert characters. -/
def Escaping (v : Text) : Prop := v ≠ [] ∧ ((∃ c, v = [c]) ∨ ∀ c ∈ v, Inert c)

theorem Escaping.completes {v : Text} (h : Escaping v) : Completes v := by
  obtain ⟨hne, ⟨c, rfl⟩ | hv⟩ := h
  · exact .pair .nil
  · exact completes_of_inert hne hv

/-- An escape that both dialects share, or a meaning of the character alone, settles. -/
private theorem settles_or_lone {f : Text → Option (Lexeme × Text)} {folds : Bool} {c : Char}
    {y? : Option Lexeme} (hf : ∀ u, f (c :: u) = (sharedEscape folds (c :: u)).or (y?.map (·, u)))
    (hc : y?.isSome = true → c ∉ introducers) {t : Text} {x : Lexeme} {r : Text}
    (h : f (c :: t) = some (x, r)) :
    ∃ v, c :: t = v ++ r ∧ Escaping v ∧ ∀ u, f (v ++ u) = some (x, u) := by
  rw [hf, Option.or_eq_some_iff] at h
  rcases h with h | ⟨hnone, h⟩
  · obtain ⟨v, ht, ⟨hne, hv⟩, hread⟩ := settles_sharedEscape folds _ _ _ h
    refine ⟨v, ht, ⟨hne, .inr hv⟩, ?_⟩
    intro u
    obtain ⟨e, w, rfl⟩ := List.exists_cons_of_ne_nil hne
    obtain ⟨rfl, -⟩ := List.cons.inj ht
    have hu := hread u
    rw [List.cons_append] at hu ⊢
    rw [hf, hu]
    rfl
  · obtain ⟨y, hy, heq⟩ := Option.map_eq_some_iff.mp h
    obtain ⟨rfl, rfl⟩ := Prod.mk.inj heq
    have hintro := hc (by rw [hy]; rfl)
    refine ⟨[c], rfl, ⟨by simp, .inl ⟨c, rfl⟩⟩, ?_⟩
    intro u
    rw [sharedEscape_named folds hintro, Option.map_eq_none_iff] at hnone
    rw [List.singleton_append, hf, sharedEscape_named folds hintro, hnone, hy]
    rfl

/-- Behind a character that is neither a digit nor a letter of paths, the escape settles. -/
theorem settles_pathEscape_other (bracketed : Bool) {c : Char} (hc : c ∉ pathLetters)
    (hd : c.isDigit = false) {t : Text} {x : Lexeme} {r : Text}
    (h : pathEscape bracketed (c :: t) = some (x, r)) :
    ∃ v, c :: t = v ++ r ∧ Completes v ∧ ∀ u, pathEscape bracketed (v ++ u) = some (x, u) := by
  obtain ⟨v, ht, hv, hread⟩ := settles_or_lone (pathEscape_other bracketed hc hd) (by
    intro hlone hmem
    simp only [introducers, List.mem_cons, List.not_mem_nil, or_false] at hmem
    cases bracketed <;> rcases hmem with rfl | rfl | rfl | rfl | rfl <;> cases hlone) h
  exact ⟨v, ht, hv.completes, hread⟩

theorem settles_pathEscape_bracketed : Settles Completes (pathEscape true) := by
  intro t x r h
  have hread := h
  unfold pathEscape at h
  split at h
  case _ => cases h
  case _ t => exact settles_fixed ['e'] (fun _ => rfl) (.pair .nil) hread
  case _ t => exact settles_fixed ['h'] (fun _ => rfl) (.pair .nil) hread
  case _ t => exact settles_fixed ['H'] (fun _ => rfl) (.pair .nil) hread
  case _ t => exact settles_fixed ['b'] (fun _ => rfl) (.pair .nil) hread
  case _ => cases h
  case _ => cases h
  case _ => cases h
  case _ c t he hh hH hb hG _ _ =>
    split at h
    case isTrue => cases h
    case isFalse hd =>
      by_cases hk : c = 'k'
      · subst hk
        cases h
      · have hc : c ∉ pathLetters := by
          simp only [pathLetters, List.mem_cons, List.not_mem_nil, or_false, not_or]
          exact ⟨he, hh, hH, hb, hG, hk⟩
        exact settles_pathEscape_other true hc (by simpa using hd) hread

def segmentLone? (bracketed : Bool) (c : Char) : Option Lexeme :=
  match namedAssertion? c with
  | some a => if bracketed then none else some (.check a)
  | none => if isAsciiAlnum c || 0x80 ≤ c.toNat then none else some (.char c true false)

theorem segmentEscape_cons (bracketed : Bool) (c : Char) (u : Text) :
    segmentEscape bracketed (c :: u) =
      (sharedEscape true (c :: u)).or ((segmentLone? bracketed c).map (·, u)) := by
  rw [segmentEscape, segmentLone?]
  cases sharedEscape true (c :: u) with
  | some x => rfl
  | none =>
    rw [Option.none_or]
    cases namedAssertion? c with
    | some a => cases bracketed <;> rfl
    | none =>
      simp only
      split <;> rfl

theorem settles_segmentEscape (bracketed : Bool) : Settles Escaping (segmentEscape bracketed) := by
  intro t x r h
  cases t with
  | nil => cases h
  | cons c t =>
    refine settles_or_lone (segmentEscape_cons bracketed c) ?_ h
    intro hlone hmem
    simp only [introducers, List.mem_cons, List.not_mem_nil, or_false] at hmem
    rcases hmem with rfl | rfl | rfl | rfl | rfl <;> cases hlone

theorem settles_escape_bracketed (d : Dialect) : Settles Completes (escape d true) := by
  cases d with
  | path => exact settles_pathEscape_bracketed
  | segment => exact (settles_segmentEscape true).weaken fun _ => Escaping.completes

theorem skipComment_settles {t r : Text} (h : skipComment t = some r) :
    ∃ v, t = v ++ r ∧ v ≠ [] ∧ Whole v ∧ ∀ u, skipComment (v ++ u) = some u := by
  fun_induction skipComment t with
  | case1 => cases h
  | case2 t =>
    obtain rfl := Option.some.inj h
    exact ⟨[')'], rfl, by simp, .bare (by decide) .nil, fun _ => rfl⟩
  | case3 c t ih =>
    obtain ⟨v, rfl, -, hv, hread⟩ := ih h
    exact ⟨'\\' :: c :: v, rfl, by simp, .pair hv, fun u => by exact hread u⟩
  | case4 c t hclose hpair ih =>
    obtain ⟨v, rfl, hne, hv, hread⟩ := ih h
    have hb : c ≠ '\\' := by
      intro hb
      obtain ⟨e, v, rfl⟩ := List.exists_cons_of_ne_nil hne
      exact hpair e (v ++ r) hb rfl
    refine ⟨c :: v, rfl, by simp, .bare hb hv, ?_⟩
    intro u
    rw [List.cons_append, skipComment]
    · exact hread u
    · exact hclose
    · intro e q hc
      exact absurd hc hb

end PathTemplate.Expression
