import PathTemplate.Json.Value
import PathTemplate.Text.Digits

/-!
Reading JSON numbers. Whole numbers of at most 64 bits are kept exactly. Others are computed as
a double from the first digits that fit 64 bits and a power of ten, with one rounding for the
digits and one for each step of scaling.
-/
namespace PathTemplate.Json

open Number

def maxWord : Nat := Nat.pow 2 64 - 1

/-- The double nearest to a product or a quotient; none when it is out of range. -/
def scaleDouble (b : Binary) (k : Int) : Option Binary := do
  let (n, d) := b.ratio
  let p ← Format.round .double (Nat.pow 10 k.natAbs) 1
  let (pn, pd) := p.ratio
  if 0 ≤ k then Format.round .double (n * pn) (d * pd) else Format.round .double (n * pd) (d * pn)

/-- Scales by a power of ten, at most 308 places at a time. `fuel` bounds the steps down. -/
def scaleFrom : Nat → Binary → Int → Option Binary
  | 0, b, _ => some b
  | fuel + 1, b, k =>
    if k.natAbs ≤ 308 then scaleDouble b k
    else if b.mantissa = 0 then some b
    else if 0 ≤ k then none
    else do scaleFrom fuel (← scaleDouble b (-308)) (k + 308)

def zero : Binary := ⟨0, Format.least .double⟩

/-- significand · 10 ^ k as a double. After a few hundred places nothing is left. -/
def doubleOf (significand : Nat) (k : Int) : Option Binary := do
  let b ← Format.round .double significand 1
  if k < -2000 then some zero else scaleFrom 8 b k

/-- The digits of a number that are kept: as many as fit 64 bits. -/
structure Digits where
  significand : Nat := 0
  /-- Digits of the whole part that did not fit. -/
  dropped : Nat := 0
  deriving DecidableEq, Repr

def Digits.wholePart (ds : Text) : Digits :=
  ds.foldl (fun a c =>
    if a.dropped = 0 && a.significand * 10 + Text.digitValue c ≤ maxWord
    then { a with significand := a.significand * 10 + Text.digitValue c }
    else { a with dropped := a.dropped + 1 }) {}

/-- Adds digits behind the point until one does not fit; gives their number too. -/
def fractionDigits (significand : Nat) : Nat → Text → Nat × Nat
  | count, [] => (significand, count)
  | count, c :: cs =>
    if significand * 10 + Text.digitValue c ≤ maxWord
    then fractionDigits (significand * 10 + Text.digitValue c) (count + 1) cs
    else (significand, count)

/-- The digits behind a point, which must not be missing. -/
def fraction? : Text → Option (Text × Text)
  | '.' :: r =>
    let (ds, s) := r.span Char.isDigit
    if ds.isEmpty then none else some (ds, s)
  | r => some ([], r)

/-- The sign and digits of an exponent; none at all if there is no exponent. -/
def exponent? : Text → Option (Option (Bool × Text) × Text)
  | c :: r =>
    if c == 'e' || c == 'E' then
      let (negative, r) := Text.splitSign r
      let (ds, s) := r.span Char.isDigit
      if ds.isEmpty then none else some (some (negative, ds), s)
    else some (none, c :: r)
  | [] => some (none, [])

/-- An exponent beyond 32 bits leaves zero, or is out of range. -/
def withExponent (significand : Nat) (k : Int) : Option (Bool × Text) → Option Binary
  | none => doubleOf significand k
  | some (negative, ds) =>
    let e := Text.decimal ds
    if Nat.pow 2 31 ≤ e then
      if significand != 0 && !negative then none else some zero
    else doubleOf significand (if negative then k - e else k + e)

/-- A number from its parts: whole digits, digits behind the point, exponent. -/
def numberOf (negative : Bool) (whole frac : Text) (e : Option (Bool × Text)) : Option Json :=
  let w := Digits.wholePart whole
  if frac.isEmpty && e.isNone && w.dropped = 0 then
    if !negative then some (.int w.significand)
    else if w.significand = 0 then some (.real true zero)
    else if w.significand ≤ Nat.pow 2 63 then some (.int (-w.significand))
    else (doubleOf w.significand 0).map (.real true)
  else
    let (s, n) := fractionDigits w.significand 0 frac
    (withExponent s (w.dropped - n) e).map (.real negative)

/-- A whole part has no zero in front of other digits. -/
def wholeDigits? (t : Text) : Option (Text × Text) :=
  match t.span Char.isDigit with
  | ([], _) => none
  | ('0' :: _ :: _, _) => none
  | (ds, r) => some (ds, r)

def number (t : Text) : Option (Json × Text) := do
  let (negative, t) := match t with
    | '-' :: r => (true, r)
    | r => (false, r)
  let (whole, r) ← wholeDigits? t
  let (frac, r) ← fraction? r
  let (e, r) ← exponent? r
  return (← numberOf negative whole frac e, r)

end PathTemplate.Json
