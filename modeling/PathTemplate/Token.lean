import PathTemplate.Text.Basic

/-!
The parts of a template in order: literal texts, and parameters that stand for values. A key is
what a matching expression remembers about one of its groups.
-/
namespace PathTemplate

/-- Parameters without a name of their own are numbered from zero. -/
inductive ParamName
  | index (n : Nat)
  | named (t : Text)
  deriving DecidableEq, Repr

namespace ParamName

/-- The name as text, under which values are looked up. -/
def text : ParamName → Text
  | index n => (toString n).toList
  | named t => t

end ParamName

structure Parameter where
  name : ParamName
  /-- The character in front of the parameter that comes and goes with its value. -/
  lead : Option Char
  /-- What stands between the values of a repeated parameter. -/
  delimiter : Char
  optional : Bool
  repeats : Bool
  /-- The expression that each value has to match. -/
  pattern : Text
  deriving DecidableEq, Repr

def Parameter.leadText (p : Parameter) : Text := p.lead.toList

inductive Token
  | literal (t : Text)
  | parameter (p : Parameter)
  deriving DecidableEq, Repr

def Token.parameter? : Token → Option Parameter
  | literal _ => none
  | parameter p => some p

structure Key where
  name : ParamName
  lead : Option Char
  delimiter : Option Char
  optional : Bool
  repeats : Bool
  pattern : Option Text
  deriving DecidableEq, Repr

namespace Key

def ofParameter (p : Parameter) : Key :=
  ⟨p.name, p.lead, some p.delimiter, p.optional, p.repeats, some p.pattern⟩

/-- The key of a group in an expression that was written by hand. -/
def anonymous (n : Nat) : Key := ⟨.index n, none, none, false, false, none⟩

end Key

end PathTemplate
