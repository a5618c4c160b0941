import PathTemplate.Expression.Bracket

/-!
Cutting a written expression into lexemes. Every lexeme takes at least one character, so the
length of the text bounds the number of steps.
-/
namespace PathTemplate.Expression

/-- Reads one or more decimal digits. -/
def digits? (t : Text) : Option (Nat × Text) :=
  let (ds, r) := t.span Char.isDigit
  if ds.isEmpty then none else some (Text.decimal ds, r)

def skipBlanks (d : Dialect) (t : Text) : Text :=
  match d with
  | .path => t
  | .segment => t.dropWhile Unicode.isBlank

/-- Reads a number in a count. Only segments may put blanks around it. -/
def bound (d : Dialect) (t : Text) : Option (Nat × Text) :=
  (digits? (skipBlanks d t)).map fun (n, r) => (n, skipBlanks d r)

/-- Reads the lower bound of a count. Only paths may leave it out. -/
def lowerBound (d : Dialect) (t : Text) : Option (Nat × Text) :=
  match d, t with
  | .path, ',' :: _ => some (0, t)
  | _, _ => bound d t

/-- Reads a count after its opening brace. -/
def count? (d : Dialect) (t : Text) : Option (Nat × Option Nat × Text) :=
  match lowerBound d t with
  | some (lo, '}' :: r) => some (lo, some lo, r)
  | some (lo, ',' :: '}' :: r) => some (lo, none, r)
  | some (lo, ',' :: r) =>
    match bound d r with
    | some (hi, '}' :: r) => some (lo, some hi, r)
    | _ => none
  | _ => none

def flag? (d : Dialect) : Char → Option (Option Flag)
  | 'i' => some (some .anyCase)
  | 'm' => some (some .multiLine)
  | 's' => some (some .dotAll)
  | 'U' => some (some .swapGreed)
  | 'x' => some (some .spaced)
  | 'u' => some none
  | 'R' => if d = .segment then some none else none
  | _ => none

/-- May the flags end with this character? In segments something follows the minus sign. -/
def flagsMayEnd (d : Dialect) (seen : List Char) (c : Char) : Bool :=
  !(seen.head? == some '-' && (d == .segment || seen.length == 1)) && !(c == ')' && seen.isEmpty)

/-- The flag that a letter names at this place. In segments no flag is named twice. -/
def flagHere? (d : Dialect) (seen : List Char) (on : Bool) (c : Char) : Option (Option Flag) :=
  if (d == .segment && seen.contains c) || (d == .path && c == 'u' && !on) then none
  else flag? d c

/-- Reads flags up to a colon or a closing parenthesis. -/
def flagsFrom (d : Dialect) (changes : FlagChanges) (seen : List Char) (on : Bool) :
    Text → Option (FlagChanges × Char × Text)
  | [] => none
  | '-' :: r =>
    if on then flagsFrom d changes ('-' :: seen) false r else none
  | c :: r =>
    if c == ':' || c == ')' then
      if flagsMayEnd d seen c then some (changes, c, r) else none
    else match flagHere? d seen on c with
      | none => none
      | some f => flagsFrom d (changes ++ f.toList.map (·, on)) (c :: seen) on r

def flagGroup (d : Dialect) (t : Text) : Option (Lexeme × Text) :=
  match flagsFrom d [] [] true t with
  | some (changes, ':', r) => some (.opening (.plain changes), r)
  | some (changes, _, r) => some (.flags changes, r)
  | none => none

/-- The name of a group in a segment starts with a letter or an underscore. -/
def groupName (d : Dialect) (t : Text) : Option (Lexeme × Text) :=
  match nameUpTo '>' t with
  | some (name, r) =>
    if d = .segment && (name.head?.any fun c => Unicode.isDecimalDigit c) then none
    else some (.opening (.named name), r)
  | none => none

/-- Reads what follows an opening parenthesis and a question mark. -/
def marked (d : Dialect) : Text → Option (Lexeme × Text)
  | 'P' :: '<' :: r => groupName d r
  | 'P' :: '=' :: r =>
    if d = .path then (nameUpTo ')' r).map fun (name, r) => (.again (.name name), r) else none
  | '<' :: '=' :: r => if d = .path then some (.opening (.behind true), r) else none
  | '<' :: '!' :: r => if d = .path then some (.opening (.behind false), r) else none
  | '<' :: r => groupName d r
  | '=' :: r => if d = .path then some (.opening (.ahead true), r) else none
  | '!' :: r => if d = .path then some (.opening (.ahead false), r) else none
  | '>' :: r => if d = .path then some (.opening .atomic, r) else none
  | '#' :: r => if d = .path then (skipComment r).map (.comment, ·) else none
  | r => flagGroup d r

/-- Reads what follows an opening parenthesis. -/
def opening (d : Dialect) : Text → Option (Lexeme × Text)
  | '?' :: r => marked d r
  | r => some (.opening .capture, r)

/-- Reads one lexeme. -/
def lexeme (d : Dialect) : Text → Option (Lexeme × Text)
  | [] => none
  | '.' :: r => some (.dot, r)
  | '^' :: r => some (.caret, r)
  | '$' :: r => some (.dollar, r)
  | '|' :: r => some (.bar, r)
  | ')' :: r => some (.close, r)
  | '*' :: r => some (.star, r)
  | '+' :: r => some (.plus, r)
  | '?' :: r => some (.question, r)
  | '(' :: r => opening d r
  | '[' :: r => (Bracket.set d r).map fun (s, r) => (.set s, r)
  | '\\' :: r => escape d false r
  | '{' :: r =>
    match count? d r with
    | some (lo, hi, s) => some (.count lo hi ('{' :: upTo r s), s)
    | none => if d = .path then some (.char '{' true true, r) else none
  | c :: r => some (.char c true true, r)

def lexemesFrom (d : Dialect) : Nat → Text → Option (List Lexeme)
  | _, [] => some []
  | 0, _ :: _ => none
  | n + 1, t =>
    match lexeme d t with
    | some (x, r) => (lexemesFrom d n r).map (x :: ·)
    | none => none

def lexemes (d : Dialect) (t : Text) : Option (List Lexeme) := lexemesFrom d t.length t

end PathTemplate.Expression
