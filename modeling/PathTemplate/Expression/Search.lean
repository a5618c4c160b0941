import PathTemplate.Expression.Paths

/-!
Searching turn by turn, with a limit on the number of steps. A thread is a place together with
the tasks still to do there; the threads that are left are tried in order. A search that reaches
its limit gives up and says so.
-/
namespace PathTemplate.Expression

inductive Task
  | run (e : Expr) (et : EmptyTurn)
  | times (e : Expr) (et : EmptyTurn) (n : Nat)
  | upTo (e : Expr) (et : EmptyTurn) (greedy : Bool) (n : Nat)
  | star (e : Expr) (et : EmptyTurn) (greedy : Bool)
  /-- The turns of a loop that each take something; at most `n` are left. -/
  | turns (e : Expr) (et : EmptyTurn) (greedy : Bool) (n : Nat)
  | plus (e : Expr) (et : EmptyTurn) (greedy : Bool)
  /-- What follows the first turn of a loop that began at `s`. -/
  | afterFirst (s : State) (e : Expr) (et : EmptyTurn) (greedy : Bool)
  /-- Something must have been taken since `s`. -/
  | took (s : State)
  | close (index : Nat) (s : State)
  /-- Back to the place of `s`, keeping the groups. -/
  | resume (s : State)

abbrev Thread := List Task × State

namespace Task

def either (greedy : Bool) (more : List Task) (s : State) : List Thread :=
  if greedy then [(more, s), ([], s)] else [([], s), (more, s)]

def atLeast (e : Expr) (et : EmptyTurn) (greedy : Bool) (lo : Nat) (s : State) : List Thread :=
  match et, lo with
  | .fails, lo => [([.times e et lo, .star e et greedy], s)]
  | .ends, 0 => either greedy [.plus e et greedy] s
  | .ends, n + 1 => [([.times e et n, .plus e et greedy], s)]

/-- The ways to begin an expression, in order of preference. -/
def unfoldExpr (s : State) (et : EmptyTurn) : Expr → List Thread
  | .cat a b => [([.run a et, .run b et], s)]
  | .alt a b => [([.run a et], s), ([.run b et], s)]
  | .group i e => [([.run e et, .close i s], s)]
  | .loop e lo none greedy => atLeast e et greedy lo s
  | .loop e lo (some n) greedy => [([.times e et (min lo n), .upTo e et greedy (n - lo)], s)]
  | .ahead true e => [([.run e e.emptyTurn, .resume s], s)]
  | .behind true n e =>
    match s.back n with
    | none => []
    | some b => [([.run e e.emptyTurn, .resume s], b)]
  | e => (e.paths et s).map ([], ·)

/-- The ways to begin a task, in order of preference. -/
def unfold (s : State) : Task → List Thread
  | run e et => unfoldExpr s et e
  | times _ _ 0 => [([], s)]
  | times e et (n + 1) => [([.run e et, .times e et n], s)]
  | upTo _ _ _ 0 => [([], s)]
  | upTo e et greedy (n + 1) => either greedy [.run e et, .upTo e et greedy n] s
  | star e et greedy => [([.turns e et greedy s.rest.length], s)]
  | turns _ _ _ 0 => [([], s)]
  | turns e et greedy (n + 1) => either greedy [.run e et, .took s, .turns e et greedy n] s
  | plus e et greedy => [([.run e et, .afterFirst s e et greedy], s)]
  | afterFirst t e et greedy => if t.before? s then [([.star e et greedy], s)] else [([], s)]
  | took t => if t.before? s then [([], s)] else []
  | close i t => [([], State.close i t s)]
  | resume t => [([], t.withGroups s)]

/-- An expression to be searched on its own, the place where that search starts, and whether its
result is kept or its absence is what is wanted. -/
def inner? (s : State) : Task → Option (Expr × State × Bool)
  | run (.ahead false e) _ => some (e, s, false)
  | run (.behind false n e) _ => (s.back n).map (e, ·, false)
  | run (.atomic e) _ => some (e, s, true)
  | _ => none

end Task

inductive Verdict
  | found (s : State)
  | absent
  | gaveUp
  deriving DecidableEq, Repr

/-- Tries the threads in order, for at most the given number of steps. -/
def explore : Nat → List Thread → Verdict
  | 0, _ => .gaveUp
  | _ + 1, [] => .absent
  | _ + 1, ([], s) :: _ => .found s
  | n + 1, (t :: k, s) :: bs =>
    match t.inner? s with
    | none => explore n ((t.unfold s).map (fun (ts, u) => (ts ++ k, u)) ++ bs)
    | some (e, u, kept) =>
      match explore n [([.run e e.emptyTurn], u)], kept with
      | .gaveUp, _ => .gaveUp
      | .found v, true => explore n ((k, v) :: bs)
      | .absent, true => explore n bs
      | .found _, false => explore n bs
      | .absent, false => explore n ((k, s) :: bs)

/-- The number of steps after which a search gives up. Every task that is begun counts here, also
where it succeeds. An engine that counts only the threads that fail, to a million, gives up at
another length of the path: under `/:a` without an end, at half a million letters instead of three
hundred thousand. -/
def stepLimit : Nat := 4000000

end PathTemplate.Expression
