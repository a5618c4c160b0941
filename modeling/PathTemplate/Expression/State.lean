import PathTemplate.Expression.Basic

/-!
Where a match stands in a text, and what its groups have taken so far.
-/
namespace PathTemplate.Expression

/-- The first `length` characters of `source`. -/
structure Capture where
  source : Text
  length : Nat
  deriving DecidableEq, Repr

def Capture.text (c : Capture) : Text := c.source.take c.length

structure State where
  /-- The characters passed, nearest first. -/
  before : Text
  rest : Text
  /-- The number of characters passed. -/
  pos : Nat
  /-- What each group took last; group 0 is the whole match. -/
  groups : List (Option Capture)
  deriving DecidableEq, Repr

namespace State

/-- This place and all places after it. -/
def placesFrom (groups : List (Option Capture)) : Text → Nat → Text → List State
  | before, pos, [] => [⟨before, [], pos, groups⟩]
  | before, pos, c :: r =>
    ⟨before, c :: r, pos, groups⟩ :: placesFrom groups (c :: before) (pos + 1) r

/-- Every place of a text, with no group taken yet. `groups` counts the groups of the expression
besides the whole match. -/
def places (t : Text) (groups : Nat) : List State :=
  placesFrom (List.replicate (groups + 1) none) [] 0 t

/-- One character further. -/
def next (s : State) : State :=
  match s.rest with
  | [] => s
  | c :: r => { s with before := c :: s.before, rest := r, pos := s.pos + 1 }

/-- Back by `n` characters, if there are so many. -/
def back : Nat → State → Option State
  | 0, s => some s
  | n + 1, s =>
    match s.before with
    | [] => none
    | c :: b => back n { s with before := b, rest := c :: s.rest, pos := s.pos - 1 }

/-- Forward over the given characters, if they stand here. -/
def follow : Text → State → Option State
  | [], s => some s
  | w :: ws, s =>
    match s.rest with
    | [] => none
    | c :: _ => if c = w then follow ws s.next else none

/-- The place of `s` with the groups of `t`. -/
def withGroups (s t : State) : State := { s with groups := t.groups }

/-- Group `i`, opened at `s`, is closed at `t`. -/
def close (i : Nat) (s t : State) : State :=
  { t with groups := t.groups.set i (some ⟨s.rest, t.pos - s.pos⟩) }

/-- The text that group `i` took last. -/
def taken (s : State) (i : Nat) : Option Text := s.groups[i]?.join.map Capture.text

/-- Is `t` further on than `s`? -/
def before? (s t : State) : Bool := s.pos < t.pos

end State

end PathTemplate.Expression
