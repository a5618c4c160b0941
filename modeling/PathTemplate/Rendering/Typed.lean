import PathTemplate.Number.Decimal
import PathTemplate.Text.Digits

/-!
Values of scalar types as they are written in paths. A text is read as a value of its type and
written back in the one form that this value has.
-/
namespace PathTemplate.Rendering

open Number

inductive ScalarType
  | text
  | bool
  | char
  | integer (isSigned : Bool) (bits : Nat)
  | float (f : Format)
  deriving DecidableEq, Repr

namespace ScalarType

def named? (name : String) : Option ScalarType :=
  let table : List (String × ScalarType) :=
    [("str", text), ("string", text), ("string_ref", text), ("bool", bool), ("char", char),
     ("i8", integer true 8), ("i16", integer true 16), ("i32", integer true 32),
     ("i64", integer true 64), ("i128", integer true 128), ("isize", integer true 64),
     ("u8", integer false 8), ("u16", integer false 16), ("u32", integer false 32),
     ("u64", integer false 64), ("u128", integer false 128), ("usize", integer false 64),
     ("f32", float .single), ("f64", float .double)]
  table.lookup name

def allDigits (t : Text) : Bool := !t.isEmpty && t.all Char.isDigit

/-- An integer has a sign only if its type has one, but a plus may stand anywhere. -/
def readInteger (isSigned : Bool) (bits : Nat) (t : Text) : Option Text :=
  let (negative, ds) := Text.splitSign t
  if !allDigits ds || (negative && !isSigned) then none
  else
    let n := Text.decimal ds
    let limit := if !isSigned then Nat.pow 2 bits - 1
      else if negative then Nat.pow 2 (bits - 1) else Nat.pow 2 (bits - 1) - 1
    if limit < n then none
    else some (if negative && n != 0 then '-' :: digitText n else digitText n)

/-- Digits with a point among or around them, and an exponent. -/
def readDecimal (t : Text) : Option Decimal := do
  let (mantissa, e) := t.span fun c => c != 'e' && c != 'E'
  let (whole, frac) := mantissa.span (· != '.')
  let digits := whole ++ frac.tail
  if !allDigits digits then none
  else
    let exponent ← match e with
      | [] => some (0 : Int)
      | _ :: r =>
        let (negative, ds) := Text.splitSign r
        if !allDigits ds then none
        else some (if negative then -(Text.decimal ds : Int) else Text.decimal ds)
    return ⟨Text.decimal digits, exponent - frac.tail.length⟩

/-- The nearest member of the format. Exponents far out of range are not computed with. -/
def roundDecimal (f : Format) (d : Decimal) : Option Binary :=
  if d.digits = 0 || d.order < -2000 then some ⟨0, f.least⟩
  else if 2000 < d.order then none
  else f.ofDecimal d

def withSign (negative : Bool) (t : Text) : Text := if negative then '-' :: t else t

/-- Floating-point numbers are written by position, whole numbers without a point. -/
def readFloat (f : Format) (t : Text) : Option Text :=
  let (negative, r) := Text.splitSign t
  let word := String.ofList (r.map Char.toLower)
  if word == "nan" then some "NaN".toList
  else if word == "inf" || word == "infinity" then some (withSign negative "inf".toList)
  else do
    match roundDecimal f (← readDecimal r) with
    | none => return withSign negative "inf".toList
    | some b => return withSign negative (shortest f b).positional

/-- The text of the value that `t` is, in the given type. -/
def read : ScalarType → Text → Option Text
  | text, t => some t
  | bool, t => if t == "true".toList || t == "false".toList then some t else none
  | char, t => if t.length = 1 then some t else none
  | integer isSigned bits, t => readInteger isSigned bits t
  | float f, t => readFloat f t

end ScalarType

end PathTemplate.Rendering
