import PathTemplate.Json.Value
import PathTemplate.Text.Digits

/-!
The lexical parts of TOML: blanks, comments, line ends, strings and keys. Readers give the rest
of the text, or nothing when the text is not well formed.
-/
namespace PathTemplate.Toml

def isBlank (c : Char) : Bool := c == ' ' || c == '\t'

def skipBlanks (t : Text) : Text := t.dropWhile isBlank

/-- Control characters other than the tab may stand nowhere but in line ends. -/
def isText (c : Char) : Bool := c == '\t' || (32 ≤ c.toNat && c.toNat != 127)

def skipComment : Text → Text
  | '#' :: r => r.dropWhile isText
  | r => r

def lineEnd? : Text → Option Text
  | '\n' :: r => some r
  | '\r' :: '\n' :: r => some r
  | _ => none

/-- Blanks and a comment, then the end of the line or of the text. -/
def endOfLine (t : Text) : Option Text :=
  match skipComment (skipBlanks t) with
  | [] => some []
  | r => lineEnd? r

/-- Skips blanks, comments and line ends. -/
def skipLines : Nat → Text → Text
  | 0, t => t
  | n + 1, t =>
    match lineEnd? (skipComment (skipBlanks t)) with
    | some r => skipLines n r
    | none => skipComment (skipBlanks t)

def scalarOfHex (n : Nat) (t : Text) : Option (Char × Text) := do
  if t.length < n then none
  else
    let v ← Text.number? 16 (t.take n)
    if v.isValidChar then some (Char.ofNat v, t.drop n) else none

/-- Reads what follows a backslash in a quoted string. -/
def escape : Text → Option (Char × Text)
  | 'b' :: r => some ('\x08', r)
  | 't' :: r => some ('\t', r)
  | 'n' :: r => some ('\n', r)
  | 'f' :: r => some ('\x0c', r)
  | 'r' :: r => some ('\r', r)
  | '"' :: r => some ('"', r)
  | '\\' :: r => some ('\\', r)
  | 'u' :: r => scalarOfHex 4 r
  | 'U' :: r => scalarOfHex 8 r
  | _ => none

/-- A string in double quotes, after the first of them. -/
def basicString : Nat → Text → Option (Text × Text)
  | 0, _ => none
  | _ + 1, [] => none
  | _ + 1, '"' :: r => some ([], r)
  | n + 1, '\\' :: r =>
    match escape r with
    | some (c, r) => (basicString n r).map fun (s, r) => (c :: s, r)
    | none => none
  | n + 1, c :: r => if isText c then (basicString n r).map fun (s, r) => (c :: s, r) else none

/-- A string in single quotes, after the first of them. -/
def literalString : Text → Option (Text × Text)
  | [] => none
  | '\'' :: r => some ([], r)
  | c :: r => if isText c then (literalString r).map fun (s, r) => (c :: s, r) else none

/-- The quotes at the end of a string over several lines: three close it, and up to two more in
front of these belong to it. -/
def closing (q : Char) (t : Text) : Option (Text × Text) :=
  let (qs, r) := t.span (· == q)
  if 3 ≤ qs.length && qs.length ≤ 5 then some (qs.drop 3, r) else none

/-- The text after a backslash at the end of a line: blanks and line ends are skipped. -/
def continued (n : Nat) (t : Text) : Option Text := do
  let r ← lineEnd? (skipBlanks t)
  let rec skip : Nat → Text → Text
    | 0, t => t
    | n + 1, t =>
      match lineEnd? (skipBlanks t) with
      | some r => skip n r
      | none => skipBlanks t
  return skip n r

/-- A string over several lines, after its opening quotes. Only in double quotes a backslash has
a meaning. -/
def longString (q : Char) : Nat → Text → Option (Text × Text)
  | 0, _ => none
  | n + 1, t =>
    match lineEnd? t with
    | some r => (longString q n r).map fun (s, r) => ('\n' :: s, r)
    | none =>
      match t with
      | [] => none
      | c :: r =>
        if c = q then
          match closing q (c :: r) with
          | some x => some x
          | none =>
            if (r.take 2).all (· == q) && r.length ≥ 2 then none
            else (longString q n r).map fun (s, r) => (c :: s, r)
        else if c = '\\' && q = '"' then
          match continued n r with
          | some r => longString q n r
          | none =>
            match escape r with
            | some (c, r) => (longString q n r).map fun (s, r) => (c :: s, r)
            | none => none
        else if isText c then (longString q n r).map fun (s, r) => (c :: s, r)
        else none

/-- A line end right after the opening quotes is dropped. -/
def dropFirstLineEnd (t : Text) : Text := (lineEnd? t).getD t

/-- A string value; nothing at all if no quote stands here. -/
def string? (t : Text) : Option (Option (Text × Text)) :=
  match t with
  | '"' :: '"' :: '"' :: r => some (longString '"' (r.length + 1) (dropFirstLineEnd r))
  | '\'' :: '\'' :: '\'' :: r => some (longString '\'' (r.length + 1) (dropFirstLineEnd r))
  | '"' :: r => some (basicString (r.length + 1) r)
  | '\'' :: r => some (literalString r)
  | _ => none

def isBareKeyChar (c : Char) : Bool := c.isAlphanum || c == '_' || c == '-'

def simpleKey (t : Text) : Option (Text × Text) :=
  match t with
  | '"' :: r => basicString (r.length + 1) r
  | '\'' :: r => literalString r
  | r =>
    match r.span isBareKeyChar with
    | ([], _) => none
    | (k, r) => some (k, r)

/-- A key of one or more parts with dots between them. -/
def dottedKey : Nat → Text → Option (List Text × Text)
  | 0, _ => none
  | n + 1, t => do
    let (k, r) ← simpleKey (skipBlanks t)
    match skipBlanks r with
    | '.' :: r =>
      let (ks, r) ← dottedKey n r
      return (k :: ks, r)
    | r => return ([k], r)

end PathTemplate.Toml
