/-!
Binary floating point in exact arithmetic. A format bounds the bits of a mantissa and the power
of two it is scaled by; a ratio is rounded to the nearest member, and a tie to the even one.
-/
namespace PathTemplate.Number

structure Format where
  /-- The number of bits of a mantissa. -/
  precision : Nat
  /-- The least power of two that scales a mantissa. -/
  least : Int
  /-- The greatest one. -/
  greatest : Int
  deriving DecidableEq, Repr

def Format.single : Format := ⟨24, -149, 104⟩

def Format.double : Format := ⟨53, -1074, 971⟩

/-- The number mantissa · 2 ^ exponent. -/
structure Binary where
  mantissa : Nat
  exponent : Int
  deriving DecidableEq, Repr

/-- `num / den` scaled by a power of the base, as a ratio of natural numbers. -/
def scaled (base : Nat) (num den : Nat) (e : Int) : Nat × Nat :=
  if 0 ≤ e then (num * base.pow e.toNat, den) else (num, den * base.pow (-e).toNat)

/-- The nearest natural number, a tie going to the even one. -/
def roundHalfEven (num den : Nat) : Nat :=
  let q := num / den
  let r := num % den
  if 2 * r < den || (2 * r == den && q % 2 == 0) then q else q + 1

/-- The greatest power of two that is at most `num / den`, for positive numbers. -/
def floorLog2 (num den : Nat) : Int :=
  let l := (Nat.log2 num : Int) - Nat.log2 den
  let (n, d) := scaled 2 num den (-l)
  if d ≤ n then l else l - 1

/-- The member of the format nearest to `num / den`; none if that is beyond its range. -/
def Format.round (f : Format) (num den : Nat) : Option Binary :=
  if num = 0 then some ⟨0, f.least⟩
  else
    let e := max f.least (floorLog2 num den - f.precision + 1)
    let (n, d) := scaled 2 num den (-e)
    let m := roundHalfEven n d
    let b : Binary := if m = Nat.pow 2 f.precision then ⟨m / 2, e + 1⟩ else ⟨m, e⟩
    if f.greatest < b.exponent then none else some b

/-- The number as a ratio. -/
def Binary.ratio (b : Binary) : Nat × Nat := scaled 2 b.mantissa 1 b.exponent

end PathTemplate.Number
