import PathTemplate.Percent
import PathTemplate.Token

/-!
The options under which templates are read, rendered and matched.
-/
namespace PathTemplate

/-- Turns a value of a parameter into the text placed in a path. -/
abbrev Encoder := Text → Parameter → Text

structure Options where
  delimiter : Char := '/'
  /-- The characters that may lead a parameter; any may when there is no list. -/
  whitelist : Option Text := none
  /-- A strict expression allows no delimiter after the path. -/
  strict : Bool := false
  fromStart : Bool := true
  toEnd : Bool := true
  /-- What may follow a path besides its end. -/
  endsWith : List Text := []
  sensitive : Bool := false
  encoder : Option Encoder := none

namespace Options

def mayLead (o : Options) (c : Char) : Bool := o.whitelist.all (·.contains c)

/-- Values are percent-encoded unless the options say otherwise. -/
def encode (o : Options) : Encoder := o.encoder.getD fun t _ => Percent.encode t

/-- Adds to the terminators that are there. -/
def addEndsWith (o : Options) (ts : List Text) : Options := { o with endsWith := o.endsWith ++ ts }

end Options

end PathTemplate
