import PathTemplate.Expression.State

/-!
All ways in which an expression matches from a given place, the preferred ones first. The first
way is the match; the others are what a search turns to when the rest of an expression fails.
-/
namespace PathTemplate.Expression

abbrev Step := State → List State

/-- What happens to a turn of an unbounded loop that takes nothing. Either it fails, or it is
accepted as the first turn and ends the loop. -/
inductive EmptyTurn
  | fails
  | ends
  deriving DecidableEq, Repr

def Expr.emptyTurn (e : Expr) : EmptyTurn := if e.isPlain then .ends else .fails

namespace Step

/-- More turns before fewer in a greedy loop, fewer before more in a lazy one. -/
def prefer (greedy : Bool) (more : List State) (s : State) : List State :=
  if greedy then more ++ [s] else s :: more

/-- Exactly `n` turns. -/
def times (r : Step) : Nat → Step
  | 0, s => [s]
  | n + 1, s => (r s).flatMap (times r n)

/-- At most `n` turns. -/
def upTo (r : Step) (greedy : Bool) : Nat → Step
  | 0, s => [s]
  | n + 1, s => prefer greedy ((r s).flatMap (upTo r greedy n)) s

/-- Turns that take nothing are left out. -/
def taking (r : Step) : Step := fun s => (r s).filter s.before?

/-- Any number of turns that each take something. The length of the rest bounds them. -/
def star (r : Step) (greedy : Bool) : Step := fun s => upTo (taking r) greedy s.rest.length s

/-- At least one turn; a first turn that takes nothing is the last one. -/
def plus (r : Step) (greedy : Bool) : Step := fun s =>
  (r s).flatMap fun t => if s.before? t then star r greedy t else [t]

/-- At least `lo` turns, without upper bound. -/
def atLeast (et : EmptyTurn) (r : Step) (greedy : Bool) (lo : Nat) : Step := fun s =>
  match et, lo with
  | .fails, lo => (times r lo s).flatMap (star r greedy)
  | .ends, 0 => prefer greedy (plus r greedy s) s
  | .ends, n + 1 => (times r n s).flatMap (plus r greedy)

/-- A loop that asks for more turns than it allows makes as many as it allows. -/
def loop (et : EmptyTurn) (r : Step) (lo : Nat) (hi : Option Nat) (greedy : Bool) : Step :=
  match hi with
  | none => atLeast et r greedy lo
  | some n => fun s => (times r (min lo n) s).flatMap (upTo r greedy (n - lo))

end Step

/-- All ways in which the expression matches from a place, in order of preference. -/
def Expr.paths : Expr → EmptyTurn → Step
  | .empty, _, s => [s]
  | .one set anyCase, _, s =>
    match s.rest with
    | [] => []
    | c :: _ => if set.has anyCase c then [s.next] else []
  | .check a, _, s => if a.holds s.before s.rest then [s] else []
  | .cat a b, et, s => (a.paths et s).flatMap (b.paths et)
  | .alt a b, et, s => a.paths et s ++ b.paths et s
  | .group i e, et, s => (e.paths et s).map (State.close i s)
  | .loop e lo hi greedy, et, s => Step.loop et (e.paths et) lo hi greedy s
  | .ahead true e, _, s => (e.paths e.emptyTurn s).map s.withGroups
  | .ahead false e, _, s => if (e.paths e.emptyTurn s).isEmpty then [s] else []
  | .behind true n e, _, s =>
    match s.back n with
    | none => []
    | some b => (e.paths e.emptyTurn b).map s.withGroups
  | .behind false n e, _, s =>
    match s.back n with
    | none => [s]
    | some b => if (e.paths e.emptyTurn b).isEmpty then [s] else []
  | .atomic e, _, s => (e.paths e.emptyTurn s).take 1
  | .again i, _, s =>
    match s.taken i with
    | none => []
    | some w => (s.follow w).toList

end PathTemplate.Expression
