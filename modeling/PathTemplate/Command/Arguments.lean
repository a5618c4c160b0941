import PathTemplate.Options

/-!
The arguments of the command line. Options may stand anywhere after the command, with their
value as the next argument or behind an equals sign; two hyphens end them.
-/
namespace PathTemplate.Command

inductive Task
  | parse (template : Text)
  | regex (first : Text) (others : List Text)
  | exec (template path : Text)
  | render (template data : Text)
  deriving DecidableEq, Repr

inductive Action
  | parse
  | regex
  | exec
  | render
  deriving DecidableEq, Repr

def Action.named? (t : Text) : Option Action :=
  let table : List (String × Action) :=
    [("parse", parse), ("regex", regex), ("match", exec), ("render", render)]
  (table.find? (·.1.toList == t)).map (·.2)

/-- Settings that override the configuration. -/
structure Settings where
  config : Option Text := none
  delimiter : Option Char := none
  whitelist : Option Text := none
  strict : Bool := false
  sensitive : Bool := false
  noStart : Bool := false
  noEnd : Bool := false
  endsWith : List Text := []
  data : Option Text := none
  deriving DecidableEq, Repr

/-- Terminators are added to those that are configured; every other setting replaces. -/
def Settings.override (s : Settings) (o : Options) : Options :=
  { o with
    delimiter := s.delimiter.getD o.delimiter
    whitelist := s.whitelist.or o.whitelist
    strict := s.strict || o.strict
    sensitive := s.sensitive || o.sensitive
    fromStart := !s.noStart && o.fromStart
    toEnd := !s.noEnd && o.toEnd
    endsWith := o.endsWith ++ s.endsWith }

structure Invocation where
  task : Task
  settings : Settings
  deriving DecidableEq, Repr

/-- Sets a flag, which may be given once. -/
def setFlag (s : Settings) (name : String) : Option Settings :=
  if name == "strict" && !s.strict then some { s with strict := true }
  else if name == "sensitive" && !s.sensitive then some { s with sensitive := true }
  else if name == "no-start" && !s.noStart then some { s with noStart := true }
  else if name == "no-end" && !s.noEnd then some { s with noEnd := true }
  else none

def isFlag (name : String) : Bool := ["strict", "sensitive", "no-start", "no-end"].contains name

/-- Sets an option that has a value. Only terminators may be given more than once. -/
def setValue (a : Action) (s : Settings) (name : String) (v : Text) : Option Settings :=
  if name == "config" && s.config.isNone && !v.isEmpty then some { s with config := some v }
  else if name == "delimiter" && s.delimiter.isNone then
    match v with
    | [c] => some { s with delimiter := some c }
    | _ => none
  else if name == "whitelist" && s.whitelist.isNone then some { s with whitelist := some v }
  else if name == "ends-with" then some { s with endsWith := s.endsWith ++ [v] }
  else if name == "data" && a = .render && s.data.isNone then some { s with data := some v }
  else none

/-- May an argument be the value of the option before it? -/
def isValue (t : Text) : Bool := t.head? != some '-' || t == ['-']

/-- Reads the arguments after the command; gives the settings and the other arguments. -/
def readArguments (a : Action) : Settings → List Text → Option (Settings × List Text)
  | s, [] => some (s, [])
  | s, ['-', '-'] :: ts => some (s, ts)
  | s, ('-' :: '-' :: t) :: ts =>
    match t.span (· != '=') with
    | (name, '=' :: v) =>
      match setValue a s (String.ofList name) v with
      | some s => readArguments a s ts
      | none => none
    | (name, _) =>
      if isFlag (String.ofList name) then
        match setFlag s (String.ofList name) with
        | some s => readArguments a s ts
        | none => none
      else
        match ts with
        | [] => none
        | v :: ts =>
          if isValue v then
            match setValue a s (String.ofList name) v with
            | some s => readArguments a s ts
            | none => none
          else none
  | s, t :: ts =>
    if isValue t then (readArguments a s ts).map fun (s, us) => (s, t :: us) else none

def taskOf (a : Action) (s : Settings) (ts : List Text) : Option Task :=
  match a, ts with
  | .parse, [t] => some (.parse t)
  | .regex, t :: ts => some (.regex t ts)
  | .exec, [t, p] => some (.exec t p)
  | .render, [t] => some (.render t (s.data.getD "\x7b\x7d".toList))
  | _, _ => none

/-- Reads a whole command line; nothing if it is not used as it should be. -/
def Invocation.read : List Text → Option Invocation
  | [] => none
  | t :: ts => do
    let a ← Action.named? t
    let (s, us) ← readArguments a {} ts
    return ⟨← taskOf a s us, s⟩

end PathTemplate.Command
