import PathTemplate.Matching.Input

/-!
Matchers: a compiled expression together with the keys of its groups. Key number i belongs to
group i + 1 of the expression.
-/
namespace PathTemplate.Matching

open Expression

structure Matcher where
  source : Text
  keys : List Key
  compiled : Compiled
  deriving DecidableEq, Repr

/-- A match of a path: where it starts in bytes, what it took, and a value for each key. -/
structure PathMatch where
  index : Nat
  matched : Text
  values : List (Key × Option Text)
  deriving DecidableEq, Repr

/-- The first value among the keys of that name. -/
def PathMatch.get (m : PathMatch) (name : Text) : Option Text :=
  (m.values.filter fun kv => kv.1.name.text == name).findSome? (·.2)

/-- The synthesized expression cannot be read. -/
structure InvalidExpression where
  pattern : Text
  deriving DecidableEq, Repr

/-- The search for a match of the path was given up. -/
structure GaveUp where
  path : Text
  deriving DecidableEq, Repr

namespace Matcher

/-- The expression as it is read: case counts only where the options say so. -/
def flagged (o : Options) (source : Text) : Text :=
  if o.sensitive then source else "(?i)".toList ++ source

def build (o : Options) (source : Text) (keys : List Key) : Except InvalidExpression Matcher :=
  match Compiled.read .path (flagged o source) with
  | some c => .ok ⟨source, keys, c⟩
  | none => .error ⟨flagged o source⟩

def ofTokens (o : Options) (ts : List Token) : Except InvalidExpression Matcher :=
  build o (tokensSource o ts) (tokensKeys ts)

/-- An expression written by hand alone is taken as it is. -/
def ofWritten (w : Written) : Matcher := ⟨w.source, w.keys, w.compiled⟩

def compile (o : Options) : Input → Except InvalidExpression Matcher
  | .written w => .ok (ofWritten w)
  | i => build o (i.source o) (i.keys o)

def values (keys : List Key) (groups : List (Option Text)) : List (Key × Option Text) :=
  keys.mapIdx fun i k => (k, groups[i]?.join)

/-- The first match in the path. -/
def exec (m : Matcher) (path : Text) : Except GaveUp (Option PathMatch) :=
  match m.compiled.find path with
  | .found f => .ok (some ⟨f.index, f.matched, values m.keys f.groups⟩)
  | .absent => .ok none
  | .gaveUp => .error ⟨path⟩

def isMatch (m : Matcher) (path : Text) : Except GaveUp Bool := (m.exec path).map Option.isSome

end Matcher

end PathTemplate.Matching
