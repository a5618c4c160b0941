import PathTemplate.Toml.Scalar
import PathTemplate.Toml.Table

/-!
Reading TOML documents into values: line by line, headers and pairs of a key and a value.
-/
namespace PathTemplate.Toml

mutual

/-- Reads a value. `fuel` bounds the steps, `depth` the values that may stand in each other. -/
def value : Nat → Nat → Text → Option (Json × Text)
  | 0, _, _ => none
  | fuel + 1, depth, t =>
    match string? t with
    | some r => r.map fun (s, r) => (.str s, r)
    | none =>
      match t with
      | '[' :: r =>
        if depth = 0 then none
        else (elements fuel (depth - 1) (skipLines r.length r)).map fun (vs, r) => (.arr vs, r)
      | '\x7b' :: r =>
        if depth = 0 then none
        else match skipBlanks r with
          | '\x7d' :: r => some (.obj [], r)
          | r => (pairs fuel (depth - 1) [] r).map fun (es, r) => (.obj (entriesToJson es), r)
      | t => scalar t

/-- Elements of an array; a comma may follow the last one. -/
def elements : Nat → Nat → Text → Option (List Json × Text)
  | 0, _, _ => none
  | fuel + 1, depth, t =>
    match t with
    | ']' :: r => some ([], r)
    | t =>
      match value fuel depth t with
      | none => none
      | some (v, r) =>
        match skipLines r.length r with
        | ']' :: r => some ([v], r)
        | ',' :: r =>
          (elements fuel depth (skipLines r.length r)).map fun (vs, r) => (v :: vs, r)
        | _ => none

/-- The pairs of a table in braces, which stands on one line. -/
def pairs : Nat → Nat → Entries → Text → Option (Entries × Text)
  | 0, _, _, _ => none
  | fuel + 1, depth, es, t =>
    match dottedKey (t.length + 1) t with
    | none => none
    | some (key, r) =>
      match r with
      | '=' :: r =>
        match value fuel depth (skipBlanks r) with
        | none => none
        | some (v, r) =>
          match enter key v .defined es with
          | none => none
          | some es =>
            match skipBlanks r with
            | '\x7d' :: r => some (es, r)
            | ',' :: r => pairs fuel depth es r
            | _ => none
      | _ => none

end

/-- How deep values may stand in each other. -/
def maxDepth : Nat := 80

structure Document where
  /-- The table that the last header named. -/
  path : List Text := []
  root : Entries := []

/-- The name in a header, after its opening brackets. -/
def headerName (t : Text) : Option (List Text × Text) := dottedKey (t.length + 1) t

/-- Reads one line, which starts with neither a blank, a comment nor a line end. -/
def line (d : Document) (t : Text) : Option (Document × Text) :=
  match t with
  | '[' :: '[' :: r => do
    let (path, r) ← headerName r
    let ']' :: ']' :: r := r | none
    let root ← openElement path d.root
    return ({ path, root }, ← endOfLine r)
  | '[' :: r => do
    let (path, r) ← headerName r
    let ']' :: r := r | none
    let root ← openTable path d.root
    return ({ path, root }, ← endOfLine r)
  | t => do
    let (key, r) ← dottedKey (t.length + 1) t
    let '=' :: r := r | none
    let (v, r) ← value (2 * r.length + 2) maxDepth (skipBlanks r)
    let root ← enterAt d.path key v d.root
    return ({ d with root }, ← endOfLine r)

def lines : Nat → Document → Text → Option Document
  | 0, _, _ => none
  | n + 1, d, t =>
    match skipLines t.length t with
    | [] => some d
    | r =>
      match line d r with
      | some (d, r) => lines n d r
      | none => none

def byteOrderMark : Char := Char.ofNat 0xFEFF

def dropMark : Text → Text
  | [] => []
  | c :: r => if c = byteOrderMark then r else c :: r

/-- Reads a document: an object of its tables and values. -/
def read (t : Text) : Option Json :=
  let r := dropMark t
  (lines (r.length + 1) {} r).map fun d => .obj (entriesToJson d.root)

end PathTemplate.Toml
