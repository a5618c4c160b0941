import PathTemplate.Rendering.Renderer
import PathTemplate.Text.Quoted

/-!
Options and renderers described field by field, for people to read.
-/
namespace PathTemplate

namespace Describe

def bool (b : Bool) : Text := (if b then "true" else "false").toList

def option {α : Type} (f : α → Text) : Option α → Text
  | none => "None".toList
  | some a => "Some(".toList ++ f a ++ [')']

def list {α : Type} (f : α → Text) (as : List α) : Text :=
  '[' :: Text.join ", ".toList (as.map f) ++ [']']

def record (name : String) (fields : List (String × Text)) (tail : String) : Text :=
  name.toList ++ " \x7b ".toList ++
    Text.join ", ".toList (fields.map fun f => f.1.toList ++ ": ".toList ++ f.2) ++ tail.toList

def call (name : String) (t : Text) : Text := name.toList ++ '(' :: t ++ [')']

end Describe

open Describe

def Options.describe (o : Options) : Text :=
  record "Options"
    [("delimiter", Text.quoteChar o.delimiter), ("whitelist", option Text.quote o.whitelist),
     ("strict", bool o.strict), ("start", bool o.fromStart), ("end", bool o.toEnd),
     ("ends_with", list Text.quote o.endsWith), ("sensitive", bool o.sensitive),
     ("encode", option (fun _ => "\"<custom>\"".toList) o.encoder)] " \x7d"

def ParamName.describe : ParamName → Text
  | index n => call "Index" (toString n).toList
  | named t => call "Named" (Text.quote t)

def Parameter.describe (p : Parameter) : Text :=
  record "Parameter"
    [("name", p.name.describe), ("prefix", option Text.quoteChar p.lead),
     ("delimiter", Text.quoteChar p.delimiter), ("optional", bool p.optional),
     ("repeat", bool p.repeats), ("pattern", Text.quote p.pattern)] " \x7d"

def Token.describe : Token → Text
  | literal t => call "Literal" (Text.quote t)
  | parameter p => call "Parameter" p.describe

/-- The validators and the encoder are left out. -/
def Rendering.Renderer.describe (r : Renderer) : Text :=
  record "Renderer" [("tokens", list Token.describe r.tokens)] ", .. \x7d"

end PathTemplate
