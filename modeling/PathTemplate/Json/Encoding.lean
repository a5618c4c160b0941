import PathTemplate.Json.Writer
import PathTemplate.Options
import PathTemplate.Rendering.Params

/-!
Tokens, keys, options and values for rendering as JSON. A token is a string or a parameter; a
parameter and the options may also be written as arrays of their fields in order.
-/
namespace PathTemplate

namespace Json

def bool? : Json → Option Bool
  | bool b => some b
  | _ => none

def str? : Json → Option Text
  | str t => some t
  | _ => none

/-- A string of exactly one character. -/
def char? : Json → Option Char
  | str [c] => some c
  | _ => none

/-- What `f` reads, or nothing for null. -/
def nullable? {α : Type} (f : Json → Option α) : Json → Option (Option α)
  | null => some none
  | v => (f v).map some

def strs? : Json → Option (List Text)
  | arr vs => vs.mapM str?
  | _ => none

def orNull {α : Type} (f : α → Json) : Option α → Json
  | none => null
  | some a => f a

def object (ms : List (String × Json)) : Json := obj (ms.map fun m => (m.1.toList, m.2))

end Json

namespace ParamName

def toJson : ParamName → Json
  | index n => .int n
  | named t => .str t

/-- Numbers of parameters fit 64 bits. -/
def ofJson? : Json → Option ParamName
  | .int i => if 0 ≤ i && i < Int.pow 2 64 then some (.index i.toNat) else none
  | .str t => some (.named t)
  | _ => none

end ParamName

namespace Parameter

def toJson (p : Parameter) : Json :=
  .object [("name", p.name.toJson), ("prefix", Json.orNull .ofChar p.lead),
    ("delimiter", .ofChar p.delimiter), ("optional", .bool p.optional),
    ("repeat", .bool p.repeats), ("pattern", .str p.pattern)]

def ofFields? (name lead delimiter optional repeats pattern : Json) : Option Parameter := do
  return ⟨← ParamName.ofJson? name, ← lead.nullable? Json.char?, ← delimiter.char?,
    ← optional.bool?, ← repeats.bool?, ← pattern.str?⟩

/-- Only the leading character may be missing from an object, and nothing from an array. -/
def ofJson? : Json → Option Parameter
  | .obj ms => do
    ofFields? (← Json.field? ms "name") ((Json.field? ms "prefix").getD .null)
      (← Json.field? ms "delimiter") (← Json.field? ms "optional") (← Json.field? ms "repeat")
      (← Json.field? ms "pattern")
  | .arr [name, lead, delimiter, optional, repeats, pattern] =>
    ofFields? name lead delimiter optional repeats pattern
  | _ => none

end Parameter

namespace Token

def toJson : Token → Json
  | literal t => .str t
  | parameter p => p.toJson

def ofJson? : Json → Option Token
  | .str t => some (.literal t)
  | v => (Parameter.ofJson? v).map .parameter

def listToJson (ts : List Token) : Json := .arr (ts.map toJson)

/-- One token that cannot be read refuses the whole list. -/
def listOfJson? : Json → Option (List Token)
  | .arr vs => vs.mapM ofJson?
  | _ => none

end Token

namespace Key

def toJson (k : Key) : Json :=
  .object [("name", k.name.toJson), ("prefix", Json.orNull .ofChar k.lead),
    ("delimiter", Json.orNull .ofChar k.delimiter), ("optional", .bool k.optional),
    ("repeat", .bool k.repeats), ("pattern", Json.orNull .str k.pattern)]

def listToJson (ks : List Key) : Json := .arr (ks.map toJson)

end Key

namespace Options

def toJson (o : Options) : Json :=
  .object [("delimiter", .ofChar o.delimiter), ("whitelist", Json.orNull .str o.whitelist),
    ("strict", .bool o.strict), ("start", .bool o.fromStart), ("end", .bool o.toEnd),
    ("ends_with", .arr (o.endsWith.map .str)), ("sensitive", .bool o.sensitive)]

/-- A field that is missing takes its default; one that is there must have its type. -/
def orDefault {α : Type} (f : Json → Option α) (a : α) : Option Json → Option α
  | none => some a
  | some v => f v

def ofFields? (delimiter whitelist strict start stop endsWith sensitive : Option Json) :
    Option Options := do
  return {
    delimiter := ← orDefault Json.char? '/' delimiter
    whitelist := ← orDefault (Json.nullable? Json.str?) none whitelist
    strict := ← orDefault Json.bool? false strict
    fromStart := ← orDefault Json.bool? true start
    toEnd := ← orDefault Json.bool? true stop
    endsWith := ← orDefault Json.strs? [] endsWith
    sensitive := ← orDefault Json.bool? false sensitive }

/-- Unknown fields of an object are ignored; an array holds at most the seven fields. -/
def ofJson? : Json → Option Options
  | .obj ms =>
    ofFields? (Json.field? ms "delimiter") (Json.field? ms "whitelist") (Json.field? ms "strict")
      (Json.field? ms "start") (Json.field? ms "end") (Json.field? ms "ends_with")
      (Json.field? ms "sensitive")
  | .arr vs =>
    if vs.length ≤ 7 then ofFields? vs[0]? vs[1]? vs[2]? vs[3]? vs[4]? vs[5]? vs[6]? else none
  | _ => none

end Options

namespace Rendering

/-- The text of a value: a string is its own text, everything else is written as JSON. -/
def jsonText : Json → Text
  | .str t => t
  | v => v.compact

/-- Nulls and objects stand for no value at all. -/
def ParamValue.ofJson? : Json → Option ParamValue
  | .null => none
  | .obj _ => none
  | .arr vs => some (.sequence (vs.map jsonText))
  | v => some (.scalar (jsonText v))

def Params.ofJson? : Json → Option Params
  | .obj ms =>
    some (.ofList (ms.filterMap fun m => (ParamValue.ofJson? m.2).map (m.1, ·)))
  | _ => none

end Rendering

end PathTemplate
