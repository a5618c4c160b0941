import PathTemplate.Expression.Delegation
import PathTemplate.Expression.Search
import PathTemplate.Expression.Sweep

/-!
Compiled expressions and their first match in a text: the leftmost place where the expression
matches, and there the preferred way.
-/
namespace PathTemplate.Expression

structure Compiled where
  expr : Expr
  groups : Nat
  deriving DecidableEq, Repr

/-- A match: the text before it, the text it took, and what its groups took. -/
structure Match where
  skipped : Text
  matched : Text
  groups : List (Option Text)
  deriving DecidableEq, Repr

namespace Match

/-- The match in the text `t` whose search ended at `s`. -/
def ofState (t : Text) (s : State) : Match :=
  let whole := (s.taken 0).getD []
  { skipped := t.take (s.pos - whole.length)
    matched := whole
    groups := s.groups.tail.map fun g => g.map Capture.text }

/-- Where the match starts, in bytes. -/
def index (m : Match) : Nat := m.skipped.utf8Size

end Match

/-- The search for a match may give up. -/
inductive Outcome
  | found (m : Match)
  | absent
  | gaveUp
  deriving DecidableEq, Repr

namespace Compiled

/-- Reads an expression that is to be searched. Loops of plain parts must allow as many turns as
they ask for. In paths, sets may have to be handed on as they are spelled. -/
def read (d : Dialect) (t : Text) : Option Compiled :=
  match Expression.read d t with
  | none => none
  | some (e, n) =>
    if d = .segment ∨ e.isSettled then
      if e.boundsOk e.isPlain then some ⟨e, n⟩ else none
    else (Delegation.read t).map fun (e, n) => ⟨e, n⟩

def whole (c : Compiled) : Expr := .group 0 c.expr

/-- All matches, preferred ones first: the leftmost place counts most, then the way. -/
def matchStates (c : Compiled) (t : Text) : List State :=
  (State.places t c.groups).flatMap (c.whole.paths c.expr.emptyTurn)

/-- A plain expression never needs to give up. -/
def find (c : Compiled) (t : Text) : Outcome :=
  let places := State.places t c.groups
  if c.expr.isPlain then
    match places.findSome? fun s => (c.whole.sweep s).head? with
    | some s => .found (.ofState t s)
    | none => .absent
  else
    match explore stepLimit (places.map fun s => ([.run c.whole .fails], s)) with
    | .found s => .found (.ofState t s)
    | .absent => .absent
    | .gaveUp => .gaveUp

end Compiled

end PathTemplate.Expression
