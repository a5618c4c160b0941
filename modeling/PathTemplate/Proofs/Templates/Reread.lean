import Mathlib.Data.List.Forall2
import PathTemplate.Json.Encoding
import PathTemplate.Matching.Source
import PathTemplate.Proofs.Reading.TokenItems
import PathTemplate.Rendering.Renderer

/-!
Tokens written as JSON and read again. Nothing in a value names the kind of token or of name that
it stands for, but the kinds have different shapes: texts and numbers for names, texts and fields
for tokens. A parameter can be written in several ways, and from each of them the same parameter is
read.
-/
namespace PathTemplate

namespace Json

theorem char?_eq_some_iff {v : Json} {c : Char} : v.char? = some c ↔ v = .ofChar c := by
  constructor
  · intro h
    unfold char? at h
    split at h
    case _ => exact congrArg ofChar (Option.some.inj h)
    case _ => cases h
  · rintro rfl
    rfl

theorem bool?_eq_some_iff {v : Json} {b : Bool} : v.bool? = some b ↔ v = .bool b := by
  cases v <;> simp [bool?]

theorem str?_eq_some_iff {v : Json} {t : Text} : v.str? = some t ↔ v = .str t := by
  cases v <;> simp [str?]

theorem nullable?_char?_eq_some_iff {v : Json} {l : Option Char} :
    v.nullable? char? = some l ↔ v = orNull .ofChar l := by
  cases l with
  | none => cases v <;> simp [nullable?, orNull]
  | some c => cases v <;> simp [nullable?, orNull, char?_eq_some_iff, ofChar]

/-- A list is read element by element. -/
theorem mapM_eq_some_iff {α : Type} {f : Json → Option α} {vs : List Json} {as : List α} :
    vs.mapM f = some as ↔ List.Forall₂ (fun v a => f v = some a) vs as := by
  induction vs generalizing as with
  | nil => simp [eq_comm]
  | cons v vs ih =>
    simp only [List.mapM_cons, Option.bind_eq_bind, Option.bind_eq_some_iff, Option.pure_def,
      Option.some.injEq, ih, List.forall₂_cons_left_iff]
    constructor
    · rintro ⟨a, ha, as, has, rfl⟩
      exact ⟨a, as, ha, has, rfl⟩
    · rintro ⟨a, as, ha, has, rfl⟩
      exact ⟨a, ha, as, has, rfl⟩

end Json

/-! ### Names -/

def ParamName.Fits : ParamName → Prop
  | index n => n < 2 ^ 64
  | named _ => True

theorem ParamName.ofJson?_eq_some_iff {v : Json} {n : ParamName} :
    ofJson? v = some n ↔ n.Fits ∧ v = n.toJson := by
  have hlimit : Int.pow 2 64 = 2 ^ 64 := rfl
  cases v with
  | int i =>
    rw [ofJson?, hlimit]
    constructor
    · intro h
      split at h
      case isTrue hi =>
        simp only [Bool.and_eq_true, decide_eq_true_eq] at hi
        rw [← Option.some.inj h, Fits, toJson, Int.toNat_of_nonneg hi.1]
        exact ⟨by omega, rfl⟩
      case isFalse => cases h
    · rintro ⟨hn, hi⟩
      cases n with
      | index m =>
        obtain rfl := Json.int.inj hi
        have hm : m < 2 ^ 64 := hn
        rw [if_pos (by simp only [Bool.and_eq_true, decide_eq_true_eq]; omega), Int.toNat_natCast]
      | named t => cases hi
  | str t => cases n <;> simp [ofJson?, toJson, Fits]
  | null | bool | real | arr | obj => cases n <;> simp [ofJson?, toJson]

/-! ### Parameters -/

namespace Parameter

/-- How a parameter may be written: as an object with its fields, and maybe others, or as an array
of its fields in order. Where no character leads it, the field for that may be missing. -/
inductive WrittenAs (p : Parameter) : Json → Prop
  | object {ms : List (Text × Json)} : Json.field? ms "name" = some p.name.toJson →
      (Json.field? ms "prefix").getD .null = Json.orNull .ofChar p.lead →
      Json.field? ms "delimiter" = some (.ofChar p.delimiter) →
      Json.field? ms "optional" = some (.bool p.optional) →
      Json.field? ms "repeat" = some (.bool p.repeats) →
      Json.field? ms "pattern" = some (.str p.pattern) → WrittenAs p (.obj ms)
  | array : WrittenAs p (.arr [p.name.toJson, Json.orNull .ofChar p.lead, .ofChar p.delimiter,
      .bool p.optional, .bool p.repeats, .str p.pattern])

theorem writtenAs_toJson (p : Parameter) : p.WrittenAs p.toJson := by
  apply WrittenAs.object <;> simp [Json.field?, List.lookup_cons]

theorem ofFields?_eq_some_iff {name lead delimiter optional repeats pattern : Json}
    {p : Parameter} : ofFields? name lead delimiter optional repeats pattern = some p ↔
      p.name.Fits ∧ name = p.name.toJson ∧ lead = Json.orNull .ofChar p.lead ∧
        delimiter = .ofChar p.delimiter ∧ optional = .bool p.optional ∧
        repeats = .bool p.repeats ∧ pattern = .str p.pattern := by
  simp only [ofFields?, Option.bind_eq_bind, Option.bind_eq_some_iff, Option.pure_def,
    Option.some.injEq, ParamName.ofJson?_eq_some_iff, Json.nullable?_char?_eq_some_iff,
    Json.char?_eq_some_iff, Json.bool?_eq_some_iff, Json.str?_eq_some_iff]
  constructor
  · rintro ⟨n, ⟨hn, rfl⟩, l, rfl, d, rfl, o, rfl, r, rfl, t, rfl, rfl⟩
    exact ⟨hn, rfl, rfl, rfl, rfl, rfl, rfl⟩
  · rintro ⟨hn, rfl, rfl, rfl, rfl, rfl, rfl⟩
    exact ⟨_, ⟨hn, rfl⟩, _, rfl, _, rfl, _, rfl, _, rfl, _, rfl, rfl⟩

theorem ofJson?_eq_some_iff {v : Json} {p : Parameter} :
    ofJson? v = some p ↔ p.name.Fits ∧ p.WrittenAs v := by
  constructor
  · intro h
    unfold ofJson? at h
    split at h
    case _ ms =>
      simp only [Option.bind_eq_bind, Option.bind_eq_some_iff] at h
      obtain ⟨n, hname, d, hdelimiter, o, hoptional, r, hrepeats, t, hpattern, h⟩ := h
      obtain ⟨hn, rfl, hlead, rfl, rfl, rfl, rfl⟩ := ofFields?_eq_some_iff.mp h
      exact ⟨hn, .object hname hlead hdelimiter hoptional hrepeats hpattern⟩
    case _ =>
      obtain ⟨hn, rfl, rfl, rfl, rfl, rfl, rfl⟩ := ofFields?_eq_some_iff.mp h
      exact ⟨hn, .array⟩
    case _ => cases h
  · rintro ⟨hn, hwritten⟩
    cases hwritten with
    | object hname hlead hdelimiter hoptional hrepeats hpattern =>
      rw [ofJson?, hname, hdelimiter, hoptional, hrepeats, hpattern, hlead]
      exact ofFields?_eq_some_iff.mpr ⟨hn, rfl, rfl, rfl, rfl, rfl, rfl⟩
    | array => exact ofFields?_eq_some_iff.mpr ⟨hn, rfl, rfl, rfl, rfl, rfl, rfl⟩

end Parameter

/-! ### Tokens -/

namespace Token

open Matching Rendering

inductive WrittenAs : Token → Json → Prop
  | literal (t : Text) : WrittenAs (.literal t) (.str t)
  | parameter {p : Parameter} {v : Json} : p.WrittenAs v → WrittenAs (.parameter p) v

theorem writtenAs_toJson (t : Token) : t.WrittenAs t.toJson := by
  cases t with
  | literal t => exact .literal t
  | parameter p => exact .parameter p.writtenAs_toJson

def Fits : Token → Prop
  | literal _ => True
  | parameter p => p.name.Fits

theorem ofJson?_eq_some_iff {v : Json} {t : Token} :
    ofJson? v = some t ↔ t.Fits ∧ t.WrittenAs v := by
  cases v with
  | str w =>
    rw [ofJson?, Option.some.injEq]
    constructor
    · rintro rfl
      exact ⟨trivial, .literal w⟩
    · rintro ⟨-, hw⟩
      cases hw with
      | literal => rfl
      | parameter hp => cases hp
  | _ =>
    simp only [ofJson?, Option.map_eq_some_iff, Parameter.ofJson?_eq_some_iff]
    constructor
    · rintro ⟨p, ⟨hfits, hp⟩, rfl⟩
      exact ⟨hfits, .parameter hp⟩
    · rintro ⟨hfits, hw⟩
      cases hw with
      | parameter hp => exact ⟨_, ⟨hfits, hp⟩, rfl⟩

theorem listOfJson?_eq_some_iff {v : Json} {ts : List Token} :
    listOfJson? v = some ts ↔ ∃ vs, v = .arr vs ∧
      List.Forall₂ (fun v t => t.Fits ∧ t.WrittenAs v) vs ts := by
  cases v with
  | arr vs =>
    simp only [listOfJson?, Json.mapM_eq_some_iff, ofJson?_eq_some_iff, Json.arr.injEq]
    constructor
    · exact fun h => ⟨vs, rfl, h⟩
    · rintro ⟨_, rfl, h⟩
      exact h
  | _ => simp [listOfJson?]

theorem listOfJson?_listToJson {ts : List Token} (h : ∀ t ∈ ts, t.Fits) :
    listOfJson? (listToJson ts) = some ts := by
  refine listOfJson?_eq_some_iff.mpr ⟨_, rfl, List.forall₂_map_left_iff.mpr ?_⟩
  exact List.forall₂_same.mpr fun t ht => ⟨h t ht, t.writtenAs_toJson⟩

theorem fits_of_listOfJson? {v : Json} {ts : List Token} (h : listOfJson? v = some ts) :
    ∀ t ∈ ts, t.Fits := by
  obtain ⟨vs, -, hvs⟩ := listOfJson?_eq_some_iff.mp h
  clear h
  induction hvs with
  | nil => exact nofun
  | cons hv _ ih =>
    rintro t (_ | ⟨_, ht⟩)
    · exact hv.1
    · exact ih t ht

/-- Tokens are read from an array of ways in which they may be written, and from nothing else. What
is written for a list of tokens is read as the same list, so all that is built from tokens can be
built from what was read; and whatever a list has been read from, it can be written and read
again. Numbers and texts are never taken for each other, nor are literals and parameters. -/
theorem list_reread :
    (∀ v ts, listOfJson? v = some ts ↔ ∃ vs, v = .arr vs ∧
      List.Forall₂ (fun v t => t.Fits ∧ t.WrittenAs v) vs ts) ∧
    (∀ ts : List Token, (∀ t ∈ ts, t.Fits) → listOfJson? (listToJson ts) = some ts ∧
      ∀ o, (listOfJson? (listToJson ts)).map (fun us =>
          (tokensSource o us, tokensKeys us, Renderer.ofTokens o us)) =
        some (tokensSource o ts, tokensKeys ts, Renderer.ofTokens o ts)) ∧
    (∀ v ts, listOfJson? v = some ts → listOfJson? (listToJson ts) = some ts) ∧
    (∀ n t, (ParamName.index n).toJson ≠ (ParamName.named t).toJson) ∧
    ∀ t p, (literal t).toJson ≠ (parameter p).toJson := by
  refine ⟨fun v ts => listOfJson?_eq_some_iff, fun ts hts => ?_,
    fun v ts h => listOfJson?_listToJson (fits_of_listOfJson? h), nofun, nofun⟩
  have hread := listOfJson?_listToJson hts
  exact ⟨hread, fun o => by rw [hread, Option.map_some]⟩

/-- A literal, a number and a name that all say seven; one parameter is an object with its fields in
another order and no leading character, one an array. -/
theorem list_reread_sevens :
    listOfJson? (.arr [.str ['7'],
        .object [("pattern", .str ['a']), ("repeat", .bool false), ("optional", .bool false),
          ("note", .null), ("delimiter", .ofChar '/'), ("name", .int 7)],
        .arr [.str ['7'], .ofChar '/', .ofChar '/', .bool true, .bool true, .str ['a']]]) =
      some [literal ['7'], parameter ⟨.index 7, none, '/', false, false, ['a']⟩,
        parameter ⟨.named ['7'], some '/', '/', true, true, ['a']⟩] ∧
    (∀ t ∈ [literal ['7'], parameter ⟨.index 7, none, '/', false, false, ['a']⟩,
        parameter ⟨.named ['7'], some '/', '/', true, true, ['a']⟩], t.Fits) ∧
    listOfJson? (listToJson [literal ['7'], parameter ⟨.index 7, none, '/', false, false, ['a']⟩,
        parameter ⟨.named ['7'], some '/', '/', true, true, ['a']⟩]) =
      some [literal ['7'], parameter ⟨.index 7, none, '/', false, false, ['a']⟩,
        parameter ⟨.named ['7'], some '/', '/', true, true, ['a']⟩] := by
  obtain ⟨-, hwritten, -, -, -⟩ := list_reread
  have hfits : ∀ t ∈ [literal ['7'], parameter ⟨.index 7, none, '/', false, false, ['a']⟩,
      parameter ⟨.named ['7'], some '/', '/', true, true, ['a']⟩], t.Fits := by
    simp [Fits, ParamName.Fits]
  exact ⟨by decide, hfits, (hwritten _ hfits).1⟩

end Token

end PathTemplate
