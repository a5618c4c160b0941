import Mathlib.Data.List.Forall2
import PathTemplate.Proofs.Reading.Accepted

/-!
Rendering token by token. What a token contributes to a path depends on the value that the data
hold for it, and on no other token. A path is rendered when every token contributes a text, and it
is these texts in order; otherwise rendering fails as the first token fails that does.
-/
namespace PathTemplate.Rendering

open Expression Matching

/-! ### Single tokens -/

/-- The segment matches the pattern of the parameter from end to end. -/
def Accepted (p : Parameter) (segment : Text) : Prop :=
  ∃ c, validator p = .ok c ∧ accepts c segment = true

/-- What a token contributes to a path, or why it fails. Checks are made one after the other, and
the first that fails names the error: that a sequence stands for a parameter that repeats, that it
is not empty or need not be there, and then that each of its segments is accepted. An optional
parameter contributes nothing for an empty sequence only if it repeats. If it does not, the first
check fails, whatever the sequence holds. -/
inductive Contribution (encode : Encoder) (data : Params) : Token → Except RenderError Text → Prop
  | literal (t : Text) : Contribution encode data (.literal t) (.ok t)
  | absent {p : Parameter} : data.lookup p.name = none → p.optional = true →
      Contribution encode data (.parameter p) (.ok [])
  | missing {p : Parameter} : data.lookup p.name = none → p.optional = false →
      Contribution encode data (.parameter p) (.error (.missing p.name p.repeats))
  | scalar {p : Parameter} {v : Text} : data.lookup p.name = some (.scalar v) →
      Accepted p (encode v p) →
      Contribution encode data (.parameter p) (.ok (p.leadText ++ encode v p))
  | mismatch {p : Parameter} {v : Text} : data.lookup p.name = some (.scalar v) →
      ¬Accepted p (encode v p) →
      Contribution encode data (.parameter p) (.error (.mismatch p.name p.pattern (encode v p)))
  | unexpected {p : Parameter} {vs : List Text} : data.lookup p.name = some (.sequence vs) →
      p.repeats = false →
      Contribution encode data (.parameter p) (.error (.unexpectedSequence p.name))
  | emptied {p : Parameter} : data.lookup p.name = some (.sequence []) → p.repeats = true →
      p.optional = true → Contribution encode data (.parameter p) (.ok [])
  | emptySequence {p : Parameter} : data.lookup p.name = some (.sequence []) →
      p.repeats = true → p.optional = false →
      Contribution encode data (.parameter p) (.error (.emptySequence p.name))
  | sequence {p : Parameter} {vs : List Text} : data.lookup p.name = some (.sequence vs) →
      p.repeats = true → vs ≠ [] → (∀ v ∈ vs, Accepted p (encode v p)) →
      Contribution encode data (.parameter p)
        (.ok (p.leadText ++ Text.join [p.delimiter] (vs.map fun v => encode v p)))
  | sequenceMismatch {p : Parameter} {us ws : List Text} {v : Text} :
      data.lookup p.name = some (.sequence (us ++ v :: ws)) → p.repeats = true →
      (∀ u ∈ us, Accepted p (encode u p)) → ¬Accepted p (encode v p) →
      Contribution encode data (.parameter p)
        (.error (.sequenceMismatch p.name p.pattern (encode v p)))

section Parameter

variable {encode : Encoder} {data : Params} {p : Parameter} {c : Compiled}

theorem accepted_iff (hc : validator p = .ok c) (s : Text) : Accepted p s ↔ accepts c s = true := by
  constructor
  · rintro ⟨c', hc', h⟩
    rwa [Except.ok.inj (hc.symm.trans hc')]
  · exact fun h => ⟨c, hc, h⟩

theorem renderElements_eq {before : Text} {vs : List Text} (hvs : vs ≠ [])
    (h : ∀ v ∈ vs, accepts c (encode v p) = true) :
    renderElements p c encode before vs =
      .ok (before ++ Text.join [p.delimiter] (vs.map fun v => encode v p)) := by
  induction vs generalizing before with
  | nil => exact absurd rfl hvs
  | cons v vs ih =>
    rw [renderElements]
    simp only [h v List.mem_cons_self, if_true]
    cases vs with
    | nil =>
      rw [renderElements, Except.map, List.append_nil]
      rfl
    | cons v' vs =>
      rw [ih (List.cons_ne_nil v' vs) fun x hx => h x (List.mem_cons_of_mem v hx), Except.map,
        List.map_cons, List.map_cons, List.map_cons, Text.join_cons_cons]
      simp

/-- The first segment that is not accepted decides. -/
theorem renderElements_eq_error {before : Text} {us ws : List Text} {v : Text}
    (hus : ∀ u ∈ us, accepts c (encode u p) = true) (hv : accepts c (encode v p) ≠ true) :
    renderElements p c encode before (us ++ v :: ws) =
      .error (.sequenceMismatch p.name p.pattern (encode v p)) := by
  induction us generalizing before with
  | nil =>
    rw [List.nil_append, renderElements]
    simp only [hv]
    rfl
  | cons u us ih =>
    rw [List.cons_append, renderElements]
    simp only [hus u List.mem_cons_self, if_true]
    rw [ih fun x hx => hus x (List.mem_cons_of_mem u hx)]
    rfl

/-- Either all values have segments that are accepted, or there is a first that has not. -/
theorem accepts_all_or_first (p : Parameter) (c : Compiled) (encode : Encoder) (vs : List Text) :
    (∀ v ∈ vs, accepts c (encode v p) = true) ∨ ∃ us v ws, vs = us ++ v :: ws ∧
      (∀ u ∈ us, accepts c (encode u p) = true) ∧ accepts c (encode v p) ≠ true := by
  cases hfind : vs.find? fun v => !accepts c (encode v p) with
  | none => exact Or.inl fun v hv => by simpa using List.find?_eq_none.mp hfind v hv
  | some v =>
    obtain ⟨hv, us, ws, hvs, hus⟩ := List.find?_eq_some_iff_append.mp hfind
    exact Or.inr ⟨us, v, ws, hvs, fun u hu => by simpa using hus u hu, by simpa using hv⟩

/-- What is rendered for a parameter is its contribution. -/
theorem contribution_renderParameter (hc : validator p = .ok c) :
    Contribution encode data (.parameter p)
      (renderParameter p c encode (data.lookup p.name)) := by
  cases hlookup : data.lookup p.name with
  | none =>
    rw [renderParameter]
    cases hopt : p.optional with
    | true => exact .absent hlookup hopt
    | false => exact .missing hlookup hopt
  | some x =>
    cases x with
    | scalar v =>
      rw [renderParameter, renderScalar]
      split
      case isTrue h => exact .scalar hlookup ((accepted_iff hc _).mpr h)
      case isFalse h => exact .mismatch hlookup ((accepted_iff hc _).not.mpr h)
    | sequence vs =>
      rw [renderParameter, renderSequence]
      cases hrep : p.repeats with
      | false => exact .unexpected hlookup hrep
      | true =>
        by_cases hne : vs = []
        · subst hne
          cases hopt : p.optional with
          | true => exact .emptied hlookup hrep hopt
          | false => exact .emptySequence hlookup hrep hopt
        · have hempty : vs.isEmpty = false := by simpa using hne
          simp only [Bool.not_true, Bool.false_eq_true, if_false, hempty]
          rcases accepts_all_or_first p c encode vs with hall | ⟨us, v, ws, rfl, hus, hv⟩
          · rw [renderElements_eq hne hall]
            exact .sequence hlookup hrep hne fun v hv => (accepted_iff hc _).mpr (hall v hv)
          · rw [renderElements_eq_error hus hv]
            exact .sequenceMismatch hlookup hrep (fun u hu => (accepted_iff hc _).mpr (hus u hu))
              ((accepted_iff hc _).not.mpr hv)

/-- Nothing else is. -/
theorem Contribution.eq_renderParameter {x : Except RenderError Text} (hc : validator p = .ok c)
    (h : Contribution encode data (.parameter p) x) :
    renderParameter p c encode (data.lookup p.name) = x := by
  cases h with
  | absent hlookup hopt => rw [hlookup, renderParameter, if_pos hopt]
  | missing hlookup hopt => rw [hlookup, renderParameter, hopt]; rfl
  | scalar hlookup hv =>
    rw [hlookup, renderParameter, renderScalar]
    simp only [(accepted_iff hc _).mp hv, if_true]
  | mismatch hlookup hv =>
    rw [hlookup, renderParameter, renderScalar]
    exact if_neg ((accepted_iff hc _).not.mp hv)
  | unexpected hlookup hrep => rw [hlookup, renderParameter, renderSequence, hrep]; rfl
  | emptied hlookup hrep hopt => rw [hlookup, renderParameter, renderSequence, hrep, hopt]; rfl
  | emptySequence hlookup hrep hopt =>
    rw [hlookup, renderParameter, renderSequence, hrep, hopt]; rfl
  | @sequence _ vs hlookup hrep hne hall =>
    have hempty : vs.isEmpty = false := by simpa using hne
    rw [hlookup, renderParameter, renderSequence, hrep, hempty]
    exact renderElements_eq hne fun v hv => (accepted_iff hc _).mp (hall v hv)
  | @sequenceMismatch _ us ws v hlookup hrep hus hv =>
    have hempty : (us ++ v :: ws).isEmpty = false := by simp
    rw [hlookup, renderParameter, renderSequence, hrep, hempty]
    exact renderElements_eq_error (fun u hu => (accepted_iff hc _).mp (hus u hu))
      ((accepted_iff hc _).not.mp hv)

end Parameter

section Token

variable {encode : Encoder} {data : Params} {t : Token} {q : Part} {x : Except RenderError Text}

theorem contribution_iff (hq : Part.ofToken t = .ok q) :
    Contribution encode data t x ↔ renderPart encode data q = x := by
  cases t with
  | literal w =>
    rw [← Except.ok.inj hq, renderPart]
    constructor
    · rintro ⟨⟩
      rfl
    · rintro rfl
      exact .literal w
  | parameter p =>
    obtain ⟨c, hc, rfl⟩ := exists_ok_of_map hq
    rw [renderPart]
    constructor
    · exact fun h => h.eq_renderParameter hc
    · rintro rfl
      exact contribution_renderParameter hc

end Token

/-! ### Lists of tokens -/

section Tokens

variable {encode : Encoder} {data : Params}

theorem renderParts_cons_eq_ok {q : Part} {qs : List Part} {w : Text} :
    renderParts encode data (q :: qs) = .ok w ↔
      ∃ u v, renderPart encode data q = .ok u ∧ renderParts encode data qs = .ok v ∧
        w = u ++ v := by
  rw [renderParts]
  cases renderPart encode data q with
  | error e => simp
  | ok u => cases renderParts encode data qs <;> simp [Except.map, eq_comm]

theorem renderParts_cons_eq_error {q : Part} {qs : List Part} {e : RenderError} :
    renderParts encode data (q :: qs) = .error e ↔ renderPart encode data q = .error e ∨
      ∃ u, renderPart encode data q = .ok u ∧ renderParts encode data qs = .error e := by
  rw [renderParts]
  cases renderPart encode data q with
  | error e' => simp
  | ok u => cases renderParts encode data qs <;> simp [Except.map]

variable {ts : List Token} {parts : List Part}

theorem renderParts_eq_error_iff (h : partsOf ts = .ok parts) {e : RenderError} :
    renderParts encode data parts = .error e ↔ ∃ before t after, ts = before ++ t :: after ∧
      (∀ u ∈ before, ∃ w, Contribution encode data u (.ok w)) ∧
        Contribution encode data t (.error e) := by
  induction ts generalizing parts with
  | nil =>
    rw [← Except.ok.inj h, renderParts]
    simp
  | cons t ts ih =>
    obtain ⟨q, qs, hq, hqs, rfl⟩ := partsOf_cons h
    simp only [renderParts_cons_eq_error, ih hqs, ← contribution_iff hq]
    constructor
    · rintro (he | ⟨w, hw, before, u, after, rfl, hbefore, hu⟩)
      · exact ⟨[], t, ts, rfl, nofun, he⟩
      · refine ⟨t :: before, u, after, rfl, ?_, hu⟩
        rintro x (_ | ⟨_, hx⟩)
        · exact ⟨w, hw⟩
        · exact hbefore x hx
    · rintro ⟨before, u, after, hts, hbefore, hu⟩
      cases before with
      | nil =>
        obtain ⟨rfl, rfl⟩ := List.cons.inj hts
        exact Or.inl hu
      | cons x before =>
        obtain ⟨rfl, rfl⟩ := List.cons.inj hts
        obtain ⟨w, hw⟩ := hbefore t List.mem_cons_self
        exact Or.inr ⟨w, hw, before, u, after, rfl,
          fun x hx => hbefore x (List.mem_cons_of_mem t hx), hu⟩

end Tokens

end PathTemplate.Rendering
