import PathTemplate.Options
import PathTemplate.Quoting

/-!
The expression that matches the paths of a template, as text. Each parameter becomes one group
that takes its value; what leads it stands outside the group.
-/
namespace PathTemplate.Matching

open Quoting

def parenthesized (t : Text) : Text := '(' :: t ++ [')']

def bundled (t : Text) : Text := "(?:".toList ++ t ++ [')']

def lookingAhead (t : Text) : Text := "(?=".toList ++ t ++ [')']

/-- A value, or values with delimiters between them. -/
def valueSource (p : Parameter) : Text :=
  if p.repeats then
    bundled p.pattern ++ bundled (Quoting.char p.delimiter ++ bundled p.pattern) ++ ['*']
  else p.pattern

def parameterSource (p : Parameter) : Text :=
  let group := parenthesized (valueSource p)
  match p.optional, p.lead with
  | true, none => group ++ ['?']
  | true, some c => bundled (Quoting.char c ++ group) ++ ['?']
  | false, none => group
  | false, some c => Quoting.char c ++ group

def tokenSource : Token → Text
  | .literal t => Quoting.literal t
  | .parameter p => parameterSource p

/-- The terminators and the end of the text, as alternatives. -/
def terminatorSource (o : Options) : Text :=
  Text.join ['|'] (o.endsWith.map Quoting.literal ++ [['$']])

/-- Does the template end with its delimiter, or say nothing at all? -/
def endsDelimited (o : Options) (ts : List Token) : Bool :=
  match ts.getLast? with
  | none => true
  | some (.literal t) => t.getLast? == some o.delimiter
  | some (.parameter _) => false

/-- What follows the tokens: the end, or a terminator in front of it, with a delimiter allowed
before unless the options are strict. -/
def closingSource (o : Options) : Text :=
  (if o.strict then [] else bundled (Quoting.char o.delimiter) ++ ['?']) ++
    if o.endsWith.isEmpty then ['$'] else lookingAhead (terminatorSource o)

/-- What follows the tokens when a path may go on: a delimiter, a terminator or the end. -/
def openSource (o : Options) (ts : List Token) : Text :=
  let d := Quoting.char o.delimiter
  (if o.strict then [] else bundled (d ++ lookingAhead (terminatorSource o)) ++ ['?']) ++
    if endsDelimited o ts then [] else lookingAhead (d ++ '|' :: terminatorSource o)

/-- The expression of a list of tokens, without flags. -/
def tokensSource (o : Options) (ts : List Token) : Text :=
  (if o.fromStart then ['^'] else []) ++ ts.flatMap tokenSource ++
    if o.toEnd then closingSource o else openSource o ts

def tokensKeys (ts : List Token) : List Key := (ts.filterMap Token.parameter?).map Key.ofParameter

end PathTemplate.Matching
