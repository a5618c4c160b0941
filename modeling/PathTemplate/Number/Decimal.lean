import PathTemplate.Number.Binary
import PathTemplate.Text.Basic

/-!
Decimal numbers: the fewest digits that round back to a binary number, and how they are written.
-/
namespace PathTemplate.Number

/-- The number digits · 10 ^ exponent. -/
structure Decimal where
  digits : Nat
  exponent : Int
  deriving DecidableEq, Repr

def digitText (n : Nat) : Text := Nat.toDigits 10 n

/-- The greatest power of ten that is at most `num / den`, for positive numbers. -/
def floorLog10 (num den : Nat) : Int :=
  let l : Int :=
    if den ≤ num then ((digitText (num / den)).length : Int) - 1
    else -((digitText (den / num)).length : Int)
  let (n, d) := scaled 10 num den (-(l + 1))
  if d ≤ n then l + 1 else l

/-- The numbers that round to a member of a format lie between `low` and `high`, over `den`; the
ends belong to them when the mantissa is even. -/
structure Interval where
  low : Nat
  middle : Nat
  high : Nat
  den : Nat
  closed : Bool
  deriving DecidableEq, Repr

def Interval.of (f : Format) (b : Binary) : Interval :=
  let below := if b.mantissa = Nat.pow 2 (f.precision - 1) && f.least < b.exponent then 1 else 2
  let (one, den) := scaled 2 1 1 (b.exponent - 2)
  ⟨(4 * b.mantissa - below) * one, 4 * b.mantissa * one, (4 * b.mantissa + 2) * one, den,
    b.mantissa % 2 == 0⟩

/-- Does digits · 10 ^ exponent lie in the interval? -/
def Interval.holds (i : Interval) (d : Decimal) : Bool :=
  let (n, m) := scaled 10 d.digits 1 d.exponent
  if i.closed then i.low * m ≤ n * i.den && n * i.den ≤ i.high * m
  else i.low * m < n * i.den && n * i.den < i.high * m

/-- The nearest point of the interval on the grid of multiples of 10 ^ k. -/
def Interval.onGrid (i : Interval) (k : Int) : Option Decimal :=
  let (n, d) := scaled 10 i.middle i.den (-k)
  let down : Decimal := ⟨n / d, k⟩
  let up : Decimal := ⟨n / d + 1, k⟩
  match i.holds down, i.holds up with
  | true, false => some down
  | false, true => some up
  | true, true => if 2 * (n % d) ≤ d then some down else some up
  | false, false => none

def stripZeros : Nat → Decimal → Decimal
  | 0, d => d
  | n + 1, d => if d.digits % 10 = 0 then stripZeros n ⟨d.digits / 10, d.exponent + 1⟩ else d

/-- Tries grids of more and more digits. -/
def shortestFrom (i : Interval) (top : Int) : Nat → Nat → Decimal
  | 0, n => (i.onGrid (top - n)).getD ⟨0, 0⟩
  | fuel + 1, n =>
    match i.onGrid (top - n) with
    | some d => d
    | none => shortestFrom i top fuel (n + 1)

/-- The decimal number of fewest digits that rounds to `b`, and of these the nearest. -/
def shortest (f : Format) (b : Binary) : Decimal :=
  if b.mantissa = 0 then ⟨0, 0⟩
  else
    let i := Interval.of f b
    stripZeros 20 (shortestFrom i (floorLog10 i.middle i.den) 20 0)

namespace Decimal

/-- The power of ten of the first digit. -/
def order (d : Decimal) : Int := d.exponent + (digitText d.digits).length - 1

/-- Digits with a point where it belongs; a whole number has no point. -/
def positional (d : Decimal) : Text :=
  let ds := digitText d.digits
  if 0 ≤ d.exponent then
    if d.digits = 0 then ['0'] else ds ++ List.replicate d.exponent.toNat '0'
  else
    let places := (-d.exponent).toNat
    if places < ds.length then ds.take (ds.length - places) ++ '.' :: ds.drop (ds.length - places)
    else '0' :: '.' :: List.replicate (places - ds.length) '0' ++ ds

def signed (e : Int) : Text :=
  if e < 0 then '-' :: digitText (-e).toNat else '+' :: digitText e.toNat

/-- One digit, a point if more follow, and the power of ten. -/
def scientific (d : Decimal) : Text :=
  match digitText d.digits with
  | [] => []
  | c :: cs =>
    c :: (if cs.isEmpty then [] else '.' :: cs) ++ 'e' ::
      signed d.order

end Decimal

/-- Reads the decimal digits · 10 ^ exponent as the nearest member of a format. -/
def Format.ofDecimal (f : Format) (d : Decimal) : Option Binary :=
  let (n, m) := scaled 10 d.digits 1 d.exponent
  f.round n m

end PathTemplate.Number
