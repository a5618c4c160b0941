import PathTemplate.Json.NumberReader

/-!
Reading JSON. Values stand at most 127 deep in each other; of the members of one name the last
counts, and members are kept in the order of their names.
-/
namespace PathTemplate.Json

def isSpace (c : Char) : Bool := c == ' ' || c == '\t' || c == '\n' || c == '\r'

def skipSpace (t : Text) : Text := t.dropWhile isSpace

/-- Four hexadecimal digits. -/
def unit? : Text → Option (Nat × Text)
  | a :: b :: c :: d :: r => do
    return (← Text.number? 16 [a, b, c, d], r)
  | _ => none

/-- A character by its UTF-16 units, after the first u; a surrogate must be half of a pair. -/
def unicodeEscape (t : Text) : Option (Char × Text) := do
  let (n, r) ← unit? t
  if 0xD800 ≤ n && n < 0xDC00 then
    match r with
    | '\\' :: 'u' :: r =>
      let (m, r) ← unit? r
      if 0xDC00 ≤ m && m < 0xE000
      then some (Char.ofNat (0x10000 + (n - 0xD800) * 0x400 + (m - 0xDC00)), r)
      else none
    | _ => none
  else if 0xDC00 ≤ n && n < 0xE000 then none
  else some (Char.ofNat n, r)

def simpleEscape? : Char → Option Char
  | '"' => some '"'
  | '\\' => some '\\'
  | '/' => some '/'
  | 'b' => some '\x08'
  | 'f' => some '\x0c'
  | 'n' => some '\n'
  | 'r' => some '\r'
  | 't' => some '\t'
  | _ => none

/-- One character of a string, which is neither its closing quote nor a control character. -/
def stringChar : Text → Option (Char × Text)
  | '\\' :: 'u' :: r => unicodeEscape r
  | '\\' :: c :: r => (simpleEscape? c).map (·, r)
  | c :: r => if c.toNat < 32 || c == '\\' then none else some (c, r)
  | [] => none

/-- Reads a string after its opening quote. -/
def stringFrom : Nat → Text → Option (Text × Text)
  | 0, _ => none
  | n + 1, t =>
    match t with
    | '"' :: r => some ([], r)
    | t =>
      match stringChar t with
      | none => none
      | some (c, r) => (stringFrom n r).map fun (s, r) => (c :: s, r)

def string (t : Text) : Option (Text × Text) := stringFrom (t.length + 1) t

def word? (w : String) (v : Json) (t : Text) : Option (Json × Text) :=
  if w.toList.isPrefixOf t then some (v, t.drop w.length) else none

mutual

/-- Reads a value. `fuel` bounds the steps, `depth` the values that may stand in each other. -/
def value : Nat → Nat → Text → Option (Json × Text)
  | 0, _, _ => none
  | fuel + 1, depth, t =>
    match skipSpace t with
    | '"' :: r => (string r).map fun (s, r) => (.str s, r)
    | '[' :: r =>
      if depth ≤ 1 then none
      else match skipSpace r with
        | ']' :: r => some (.arr [], r)
        | r => (elements fuel (depth - 1) r).map fun (vs, r) => (.arr vs, r)
    | '\x7b' :: r =>
      if depth ≤ 1 then none
      else match skipSpace r with
        | '\x7d' :: r => some (.obj [], r)
        | r => (members fuel (depth - 1) r).map fun (ms, r) => (.obj (sortedMembers ms), r)
    | 'n' :: r => word? "ull" .null r
    | 't' :: r => word? "rue" (.bool true) r
    | 'f' :: r => word? "alse" (.bool false) r
    | r => number r

def elements : Nat → Nat → Text → Option (List Json × Text)
  | 0, _, _ => none
  | fuel + 1, depth, t =>
    match value fuel depth t with
    | none => none
    | some (v, r) =>
      match skipSpace r with
      | ']' :: r => some ([v], r)
      | ',' :: r => (elements fuel depth r).map fun (vs, r) => (v :: vs, r)
      | _ => none

def members : Nat → Nat → Text → Option (List (Text × Json) × Text)
  | 0, _, _ => none
  | fuel + 1, depth, t =>
    match skipSpace t with
    | '"' :: r =>
      match string r with
      | none => none
      | some (name, r) =>
        match skipSpace r with
        | ':' :: r =>
          match value fuel depth r with
          | none => none
          | some (v, r) =>
            match skipSpace r with
            | '\x7d' :: r => some ([(name, v)], r)
            | ',' :: r => (members fuel depth r).map fun (ms, r) => ((name, v) :: ms, r)
            | _ => none
        | _ => none
    | _ => none

end

/-- Reads a text that holds one value and nothing else. -/
def read (t : Text) : Option Json :=
  match value (2 * t.length + 2) 128 t with
  | some (v, r) => if (skipSpace r).isEmpty then some v else none
  | none => none

end PathTemplate.Json
