import PathTemplate.Text.Basic

/-!
Numbers written in digits, with or without a sign in front.
-/
namespace PathTemplate.Text

def digitValue (c : Char) : Nat := c.toNat - 48

def hexValue? (c : Char) : Option Nat :=
  if c.isDigit then some (digitValue c)
  else if 'a' ≤ c && c ≤ 'f' then some (c.toNat - 87)
  else if 'A' ≤ c && c ≤ 'F' then some (c.toNat - 55)
  else none

/-- The number that decimal digits write, zero if there are none. -/
def decimal (t : Text) : Nat := t.foldl (fun n c => 10 * n + digitValue c) 0

/-- The same in another base up to sixteen. Digits are not compared with the base. -/
def number? (base : Nat) (t : Text) : Option Nat :=
  t.foldlM (fun n c => (hexValue? c).map (base * n + ·)) 0

/-- Takes a sign off the front: is it a minus, and what follows? -/
def splitSign : Text → Bool × Text
  | '-' :: r => (true, r)
  | '+' :: r => (false, r)
  | r => (false, r)

end PathTemplate.Text
