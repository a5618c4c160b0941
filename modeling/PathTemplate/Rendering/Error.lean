import PathTemplate.Token

/-!
Why a path could not be rendered, or a renderer not be built.
-/
namespace PathTemplate.Rendering

inductive RenderError
  | unexpectedSequence (name : ParamName)
  | emptySequence (name : ParamName)
  | sequenceMismatch (name : ParamName) (pattern segment : Text)
  | mismatch (name : ParamName) (pattern segment : Text)
  /-- `several` tells whether a sequence was expected. -/
  | missing (name : ParamName) (several : Bool)
  deriving DecidableEq, Repr

namespace RenderError

def name : RenderError → ParamName
  | unexpectedSequence n => n
  | emptySequence n => n
  | sequenceMismatch n _ _ => n
  | mismatch n _ _ => n
  | missing n _ => n

def expected (several : Bool) : String := if several then "a sequence" else "a string"

def quoted (t : Text) : Text := '"' :: t ++ ['"']

def message : RenderError → Text
  | unexpectedSequence n =>
    "expected ".toList ++ quoted n.text ++ " to not repeat, but got a sequence".toList
  | emptySequence n => "expected ".toList ++ quoted n.text ++ " to not be empty".toList
  | sequenceMismatch n p s =>
    "expected all ".toList ++ quoted n.text ++ " to match ".toList ++ quoted p ++
      ", but got ".toList ++ quoted s
  | mismatch n p s =>
    "expected ".toList ++ quoted n.text ++ " to match ".toList ++ quoted p ++
      ", but got ".toList ++ quoted s
  | missing n several =>
    "expected ".toList ++ quoted n.text ++ " to be ".toList ++ (expected several).toList

end RenderError

/-- The pattern of a parameter cannot be read. -/
structure InvalidPattern where
  name : ParamName
  pattern : Text
  deriving DecidableEq, Repr

end PathTemplate.Rendering
