import PathTemplate.Expression.Lexeme
import PathTemplate.Text.Digits

/-!
What a backslash introduces: characters by name or number, sets by letter or property name,
assertions and references. A reader takes the text after the backslash and gives the rest.
-/
namespace PathTemplate.Expression

def hexNumber? (t : Text) : Option Nat :=
  if t.isEmpty then none
  else Text.number? 16 t

def scalar? (n : Nat) : Option Char := if n.isValidChar then some (Char.ofNat n) else none

/-- Either exactly `n` hexadecimal digits, or up to eight of them in braces. -/
def hexScalar (n : Nat) : Text → Option (Char × Text)
  | '{' :: t =>
    match t.span (· != '}') with
    | (ds, _ :: r) => if ds.length ≤ 8 then do return (← scalar? (← hexNumber? ds), r) else none
    | (_, []) => none
  | t => if n ≤ t.length then do return (← scalar? (← hexNumber? (t.take n)), t.drop n) else none

/-- Property names are compared without case, blanks, hyphens and underscores. -/
def looseName (t : Text) : String :=
  String.ofList ((t.filter fun c => c != ' ' && c != '-' && c != '_').map Char.toLower)

/-- Sets of categories, with the names they go by. -/
def namedCategories : List (List String × List Unicode.Category) :=
  [(["l", "letter"], Unicode.Category.letters),
   (["lu", "uppercaseletter"], [.uppercaseLetter]),
   (["ll", "lowercaseletter"], [.lowercaseLetter]),
   (["lt", "titlecaseletter"], [.titlecaseLetter]),
   (["lc", "casedletter"], [.uppercaseLetter, .lowercaseLetter, .titlecaseLetter]),
   (["lm", "modifierletter"], [.modifierLetter]),
   (["lo", "otherletter"], [.otherLetter]),
   (["m", "mark", "combiningmark"], Unicode.Category.marks),
   (["mn", "nonspacingmark"], [.nonspacingMark]),
   (["mc", "spacingmark"], [.spacingMark]),
   (["me", "enclosingmark"], [.enclosingMark]),
   (["n", "number"], Unicode.Category.numbers),
   (["nd", "decimalnumber", "digit"], [.decimalNumber]),
   (["nl", "letternumber"], [.letterNumber]),
   (["no", "othernumber"], [.otherNumber]),
   (["p", "punctuation", "punct"], Unicode.Category.punctuation),
   (["pc", "connectorpunctuation"], [.connectorPunctuation]),
   (["pd", "dashpunctuation"], [.dashPunctuation]),
   (["ps", "openpunctuation"], [.openPunctuation]),
   (["pe", "closepunctuation"], [.closePunctuation]),
   (["pi", "initialpunctuation"], [.initialPunctuation]),
   (["pf", "finalpunctuation"], [.finalPunctuation]),
   (["po", "otherpunctuation"], [.otherPunctuation]),
   (["s", "symbol"], Unicode.Category.symbols),
   (["sm", "mathsymbol"], [.mathSymbol]),
   (["sc", "currencysymbol"], [.currencySymbol]),
   (["sk", "modifiersymbol"], [.modifierSymbol]),
   (["so", "othersymbol"], [.otherSymbol]),
   (["z", "separator"], Unicode.Category.separators),
   (["zs", "spaceseparator"], [.spaceSeparator]),
   (["zl", "lineseparator"], [.lineSeparator]),
   (["zp", "paragraphseparator"], [.paragraphSeparator]),
   (["cc", "control", "cntrl"], [.control]),
   (["cf", "format"], [.format]),
   (["co", "privateuse"], [.privateUse]),
   (["assigned"], Unicode.Category.all)]

def categoriesNamed? (name : String) : Option (List Unicode.Category) :=
  (namedCategories.find? (·.1.contains name)).map (·.2)

/-- The set with the given property; unknown names have none. -/
def propertyNamed? (t : Text) : Option CharSet :=
  let name := looseName t
  match categoriesNamed? name with
  | some gs => some (.categories gs)
  | none =>
    if name == "any" then some .any
    else if name == "ascii" then some (.range (Char.ofNat 0) (Char.ofNat 127))
    else if name == "whitespace" || name == "wspace" || name == "space" then some .blank
    else if name == "cn" || name == "unassigned" then
      some (.compl (.categories Unicode.Category.all))
    else if name == "c" || name == "other" then
      some (.union (.categories [.control, .format, .privateUse])
        (.compl (.categories Unicode.Category.all)))
    else none

/-- A leading caret takes the complement. -/
def signedProperty? : Text → Option CharSet
  | '^' :: name => (propertyNamed? name).map .compl
  | name => propertyNamed? name

/-- A property by one letter, or by a name in braces. -/
def property : Text → Option (CharSet × Text)
  | '{' :: t =>
    match t.span (· != '}') with
    | (name, _ :: r) => (signedProperty? name).map (·, r)
    | (_, []) => none
  | c :: r => (propertyNamed? [c]).map (·, r)
  | [] => none

def isNameChar (c : Char) : Bool := Unicode.isWord c

/-- A name written before `close`. -/
def nameUpTo (close : Char) (t : Text) : Option (Text × Text) :=
  match t.span isNameChar with
  | (name, c :: r) => if c = close && !name.isEmpty then some (name, r) else none
  | (_, []) => none

/-- The letters that name one character in both dialects. -/
def namedChar? : Char → Option Char
  | 'a' => some '\x07'
  | 'f' => some '\x0c'
  | 'n' => some '\n'
  | 'r' => some '\r'
  | 't' => some '\t'
  | 'v' => some '\x0b'
  | _ => none

/-- The letters that name a set in both dialects. -/
def namedSet? : Char → Option CharSet
  | 'd' => some .digit
  | 'D' => some (.compl .digit)
  | 's' => some .blank
  | 'S' => some (.compl .blank)
  | 'w' => some .word
  | 'W' => some (.compl .word)
  | _ => none

def namedAssertion? : Char → Option Assertion
  | 'A' => some .textStart
  | 'z' => some .textEnd
  | 'b' => some .wordBoundary
  | 'B' => some .notWordBoundary
  | '<' => some .wordStart
  | '>' => some .wordEnd
  | _ => none

def isAsciiAlnum (c : Char) : Bool := c.isAlphanum

/-- The escapes that both dialects read alike, inside brackets and outside. -/
def sharedEscape (folds : Bool) : Text → Option (Lexeme × Text)
  | 'x' :: r => (hexScalar 2 r).map fun (c, r) => (.char c true false, r)
  | 'u' :: r => (hexScalar 4 r).map fun (c, r) => (.char c true false, r)
  | 'U' :: r => (hexScalar 8 r).map fun (c, r) => (.char c true false, r)
  | 'p' :: r => (property r).map fun (s, r) => (.set s, r)
  | 'P' :: r => (property r).map fun (s, r) => (.set (.compl s), r)
  | c :: r =>
    match namedChar? c with
    | some d => some (.char d folds false, r)
    | none => (namedSet? c).map fun s => (.set s, r)
  | [] => none

/-- In the dialect of paths every character but an ASCII letter or digit stands for itself after
a backslash, whatever its case. -/
def pathEscape (bracketed : Bool) : Text → Option (Lexeme × Text)
  | [] => none
  | 'e' :: r => some (.char '\x1b' false false, r)
  | 'h' :: r => some (.set .hexDigit, r)
  | 'H' :: r => some (.set (.compl .hexDigit), r)
  | 'b' :: r => some (if bracketed then .char '\x08' false false else .check .wordBoundary, r)
  | 'G' :: r => if bracketed then none else some (.check .textStart, r)
  | 'k' :: '<' :: r =>
    if bracketed then none
    else (nameUpTo '>' r).map fun (name, r) => (.again (.name name), r)
  | 'k' :: '\'' :: r =>
    if bracketed then none
    else (nameUpTo '\'' r).map fun (name, r) => (.again (.name name), r)
  | c :: r =>
    if c.isDigit then
      if bracketed then none
      else
        let (ds, r) := (c :: r).span Char.isDigit
        some (.again (.number (Text.decimal ds)), r)
    else match sharedEscape false (c :: r) with
      | some x => some x
      | none =>
        match if bracketed then none else namedAssertion? c with
        | some a => some (.check a, r)
        | none => if isAsciiAlnum c then none else some (.char c false false, r)

/-- In the dialect of segments only ASCII characters that are neither letters nor digits stand
for themselves after a backslash. -/
def segmentEscape (bracketed : Bool) : Text → Option (Lexeme × Text)
  | [] => none
  | c :: r =>
    match sharedEscape true (c :: r) with
    | some x => some x
    | none =>
      match namedAssertion? c with
      | some a => if bracketed then none else some (.check a, r)
      | none => if isAsciiAlnum c || 0x80 ≤ c.toNat then none else some (.char c true false, r)

/-- Reads what follows a backslash. -/
def escape (d : Dialect) (bracketed : Bool) (t : Text) : Option (Lexeme × Text) :=
  match d with
  | .path => pathEscape bracketed t
  | .segment => segmentEscape bracketed t

end PathTemplate.Expression
