import PathTemplate.Json.Encoding
import PathTemplate.Text.Quoted
import PathTemplate.Toml.Reader
import PathTemplate.Unicode.Category

/-!
Configuration files: TOML documents with a table of options. A file that does not exist, or that
holds nothing but blanks, leaves every option at its default.
-/
namespace PathTemplate.Command

/-- What is found under the name of a file. -/
inductive FileContent
  | missing
  | unreadable
  | content (t : Text)
  deriving DecidableEq, Repr

inductive ConfigError
  | read (path : Text)
  | parse (path : Text)
  deriving DecidableEq, Repr

def ConfigError.message : ConfigError → Text
  | .read p => "Failed to read config file: ".toList ++ Text.quote p
  | .parse p => "Failed to parse config file: ".toList ++ Text.quote p

/-- Keys and tables other than the options are ignored. -/
def parseConfig (t : Text) : Option Options :=
  if t.all Unicode.isBlank then some {}
  else do
    match ← Toml.read t with
    | .obj ms =>
      match Json.field? ms "options" with
      | none => some {}
      | some v => Options.ofJson? v
    | _ => none

def loadConfig (files : Text → FileContent) (path : Text) : Except ConfigError Options :=
  match files path with
  | .missing => .ok {}
  | .unreadable => .error (.read path)
  | .content t =>
    match parseConfig t with
    | some o => .ok o
    | none => .error (.parse path)

end PathTemplate.Command
