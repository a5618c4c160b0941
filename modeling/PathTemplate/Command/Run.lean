import PathTemplate.Command.Arguments
import PathTemplate.Command.Config
import PathTemplate.Json.Reader
import PathTemplate.Matching.Matcher
import PathTemplate.Rendering.Renderer

/-!
Running a command line: what it prints, and with which code it ends. Wrong usage ends with 2,
any other failure with 1 and a message.
-/
namespace PathTemplate.Command

open Matching Rendering

inductive Failure
  | config (e : ConfigError)
  | expression (e : InvalidExpression)
  | pattern (e : InvalidPattern)
  | gaveUp (e : GaveUp)
  | render (e : RenderError)
  | noMatch (template path : Text)
  | dataNotJson
  | dataNotObject
  deriving DecidableEq, Repr

def Failure.message : Failure → Text
  | config e => e.message
  | expression _ => "invalid path expression".toList
  | pattern _ => "invalid pattern for parameter".toList
  | gaveUp _ => "failed to match".toList
  | render e => e.message
  | noMatch template path =>
    RenderError.quoted path ++ " does not match ".toList ++ RenderError.quoted template
  | dataNotJson => "--data is not valid JSON".toList
  | dataNotObject => "--data must be a JSON object".toList

structure Result where
  exit : Nat
  stdout : Text := []
  message : Option Text := none
  deriving DecidableEq, Repr

/-- The match as an object; each name has the first value that it is given. -/
def matchJson (m : PathMatch) : Json :=
  let params := m.values.map fun kv =>
    (kv.1.name.text, Json.orNull .str (m.get kv.1.name.text))
  .object [("index", .int m.index), ("params", .obj (Json.sortedMembers params)),
    ("path", .str m.matched)]

def line (t : Text) : Text := t ++ ['\n']

def runParse (o : Options) (template : Text) : Text :=
  line (Token.listToJson (Template.tokens o template)).pretty

def runRegex (o : Options) (first : Text) (others : List Text) : Except Failure Text := do
  let input : Input :=
    if others.isEmpty then .template first else .anyOf ((first :: others).map .template)
  let m ← (Matcher.compile o input).mapError .expression
  return line m.source ++ if m.keys.isEmpty then [] else line (Key.listToJson m.keys).pretty

def runExec (o : Options) (template path : Text) : Except Failure Text := do
  let m ← (Matcher.compile o (.template template)).mapError .expression
  match ← (m.exec path).mapError .gaveUp with
  | none => throw (.noMatch template path)
  | some found => return line (matchJson found).pretty

/-- The data are read before the template. -/
def runRender (o : Options) (template data : Text) : Except Failure Text := do
  let some v := Json.read data | throw .dataNotJson
  let some params := Params.ofJson? v | throw .dataNotObject
  let r ← (Renderer.compile o template).mapError .pattern
  return line (← (r.render params).mapError .render)

def Task.run (o : Options) : Task → Except Failure Text
  | parse t => .ok (runParse o t)
  | regex t ts => runRegex o t ts
  | exec t p => runExec o t p
  | render t d => runRender o t d

/-- The file that is looked for when none is named: it is called after the program. -/
def defaultConfig (program : Text) : Text := program ++ ".toml".toList

def Invocation.options (program : Text) (files : Text → FileContent) (i : Invocation) :
    Except ConfigError Options :=
  (loadConfig files (i.settings.config.getD (defaultConfig program))).map i.settings.override

/-- The options are settled before anything else is done. -/
def Invocation.run (program : Text) (files : Text → FileContent) (i : Invocation) :
    Except Failure Text := do
  let o ← (i.options program files).mapError .config
  i.task.run o

def run (program : Text) (files : Text → FileContent) (arguments : List Text) : Result :=
  match Invocation.read arguments with
  | none => { exit := 2 }
  | some i =>
    match i.run program files with
    | .ok out => { exit := 0, stdout := out }
    | .error e => { exit := 1, message := some e.message }

end PathTemplate.Command
