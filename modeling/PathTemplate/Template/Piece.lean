import PathTemplate.Text.Basic

/-!
Templates as written, read in one pass from left to right: escaped characters, marks that stand
for parameters, and plain characters. Every text is a template; what does not begin a mark or an
escape is a plain character.
-/
namespace PathTemplate.Template

inductive Modifier
  | optional
  | oneOrMore
  | zeroOrMore
  deriving DecidableEq, Repr

/-- A parameter as written: a name, a body in parentheses, or both. -/
structure Mark where
  name : Option Text
  body : Option Text
  modifier : Option Modifier
  deriving DecidableEq, Repr

inductive Piece
  | plain (c : Char)
  | escaped (c : Char)
  | mark (m : Mark)
  deriving DecidableEq, Repr

def isNameChar (c : Char) : Bool := c.isAlphanum || c == '_'

/-- Reads to the closing parenthesis. A body holds pairs of a backslash and any character but a
line feed, and no other backslashes or parentheses. -/
def bodyFrom : Text → Option (Text × Text)
  | [] => none
  | ')' :: r => some ([], r)
  | '(' :: _ => none
  | ['\\'] => none
  | '\\' :: c :: r => if c = '\n' then none else (bodyFrom r).map fun (b, s) => ('\\' :: c :: b, s)
  | c :: r => (bodyFrom r).map fun (b, s) => (c :: b, s)

/-- Reads a body that is not empty after its opening parenthesis. -/
def body? (t : Text) : Option (Text × Text) := (bodyFrom t).filter (!·.1.isEmpty)

def modifier : Text → Option Modifier × Text
  | '?' :: r => (some .optional, r)
  | '+' :: r => (some .oneOrMore, r)
  | '*' :: r => (some .zeroOrMore, r)
  | r => (none, r)

/-- The body that starts here, if one does. -/
def bodyAfterName : Text → Option Text × Text
  | '(' :: r =>
    match body? r with
    | some (b, s) => (some b, s)
    | none => (none, '(' :: r)
  | r => (none, r)

def namedMark (name r : Text) : Piece × Text :=
  let (body, r) := bodyAfterName r
  let (m, r) := modifier r
  (.mark ⟨some name, body, m⟩, r)

def anonymousMark (body r : Text) : Piece × Text :=
  let (m, r) := modifier r
  (.mark ⟨none, some body, m⟩, r)

/-- Reads one piece. -/
def piece : Text → Option (Piece × Text)
  | [] => none
  | '\\' :: c :: r => some (if c = '\n' then (.plain '\\', c :: r) else (.escaped c, r))
  | ':' :: r =>
    let (name, s) := r.span isNameChar
    some (if name.isEmpty then (.plain ':', r) else namedMark name s)
  | '(' :: r =>
    match body? r with
    | some (b, s) => some (anonymousMark b s)
    | none => some (.plain '(', r)
  | c :: r => some (.plain c, r)

/-- Every piece takes at least one character, so the length of the text bounds their number. -/
def piecesFrom : Nat → Text → List Piece
  | 0, _ => []
  | n + 1, t =>
    match piece t with
    | none => []
    | some (p, r) => p :: piecesFrom n r

def pieces (t : Text) : List Piece := piecesFrom t.length t

end PathTemplate.Template
