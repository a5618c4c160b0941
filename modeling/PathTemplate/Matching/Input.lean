import PathTemplate.Expression.Compiled
import PathTemplate.Matching.Source
import PathTemplate.Template.Tokens

/-!
What a matcher can be compiled from: a template, an expression written by hand, or a list of
these, of which any may match.
-/
namespace PathTemplate.Matching

open Expression

/-- An expression written by hand, and what it reads as. -/
structure Written where
  source : Text
  compiled : Compiled
  reads : Compiled.read .path source = some compiled
  deriving DecidableEq, Repr

def Written.read (t : Text) : Option Written :=
  match h : Compiled.read .path t with
  | some c => some ⟨t, c, h⟩
  | none => none

def Written.keys (w : Written) : List Key := (List.range w.compiled.groups).map Key.anonymous

inductive Input
  | template (t : Text)
  | written (w : Written)
  | anyOf (is : List Input)

namespace Input

mutual

def source (o : Options) : Input → Text
  | template t => tokensSource o (Template.tokens o t)
  | written w => w.source
  | anyOf is => bundled (Text.join ['|'] (sources o is))

def sources (o : Options) : List Input → List Text
  | [] => []
  | i :: is => source o i :: sources o is

end

mutual

/-- The keys of all parameters and groups, in the order in which they are written. -/
def keys (o : Options) : Input → List Key
  | template t => tokensKeys (Template.tokens o t)
  | written w => w.keys
  | anyOf is => allKeys o is

def allKeys (o : Options) : List Input → List Key
  | [] => []
  | i :: is => keys o i ++ allKeys o is

end

end Input

end PathTemplate.Matching
