import PathTemplate.Json.Value

/-!
Writing JSON: on one line without blanks, or over several lines with an indent of two blanks.
Only quotes, backslashes and control characters are escaped.
-/
namespace PathTemplate.Json

def hexDigits (n : Nat) : Text := Nat.toDigits 16 n

def escapeChar (c : Char) : Text :=
  match c with
  | '"' => ['\\', '"']
  | '\\' => ['\\', '\\']
  | '\x08' => ['\\', 'b']
  | '\x0c' => ['\\', 'f']
  | '\n' => ['\\', 'n']
  | '\r' => ['\\', 'r']
  | '\t' => ['\\', 't']
  | c =>
    if c.toNat < 16 then "\\u000".toList ++ hexDigits c.toNat
    else if c.toNat < 32 then "\\u00".toList ++ hexDigits c.toNat
    else [c]

def quoted (t : Text) : Text := '"' :: t.flatMap escapeChar ++ ['"']

def intText (i : Int) : Text :=
  if i < 0 then '-' :: Number.digitText i.natAbs else Number.digitText i.natAbs

/-- Doubles are written by position when the power of ten of their first digit is between -5 and
15, and then always with a point. -/
def realText (negative : Bool) (b : Number.Binary) : Text :=
  let d := Number.shortest .double b
  let digits :=
    if b.mantissa = 0 then "0.0".toList
    else if -5 ≤ d.order && d.order ≤ 15 then
      if 0 ≤ d.exponent then d.positional ++ ".0".toList else d.positional
    else d.scientific
  if negative then '-' :: digits else digits

mutual

def compact : Json → Text
  | null => "null".toList
  | bool true => "true".toList
  | bool false => "false".toList
  | int i => intText i
  | real negative b => realText negative b
  | str t => quoted t
  | arr vs => '[' :: compactElements vs ++ [']']
  | obj ms => '\x7b' :: compactMembers ms ++ ['\x7d']

def compactElements : List Json → Text
  | [] => []
  | [v] => compact v
  | v :: vs => compact v ++ ',' :: compactElements vs

def compactMembers : List (Text × Json) → Text
  | [] => []
  | [(n, v)] => quoted n ++ ':' :: compact v
  | (n, v) :: ms => quoted n ++ ':' :: compact v ++ ',' :: compactMembers ms

end

def newline (depth : Nat) : Text := '\n' :: List.replicate (2 * depth) ' '

mutual

/-- Writes over several lines; `depth` counts the values around this one. -/
def prettyAt (depth : Nat) : Json → Text
  | arr (v :: vs) => '[' :: prettyElements (depth + 1) (v :: vs) ++ newline depth ++ [']']
  | obj (m :: ms) => '\x7b' :: prettyMembers (depth + 1) (m :: ms) ++ newline depth ++ ['\x7d']
  | v => compact v

def prettyElements (depth : Nat) : List Json → Text
  | [] => []
  | [v] => newline depth ++ prettyAt depth v
  | v :: vs => newline depth ++ prettyAt depth v ++ ',' :: prettyElements depth vs

def prettyMembers (depth : Nat) : List (Text × Json) → Text
  | [] => []
  | [(n, v)] => newline depth ++ quoted n ++ ':' :: ' ' :: prettyAt depth v
  | (n, v) :: ms =>
    newline depth ++ quoted n ++ ':' :: ' ' :: prettyAt depth v ++ ',' :: prettyMembers depth ms

end

def pretty (v : Json) : Text := prettyAt 0 v

end PathTemplate.Json
