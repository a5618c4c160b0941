import PathTemplate.Expression.Paths

/-!
Plain expressions are searched without going back. What follows a plain expression depends on
the place where it ends alone, so of all ways to reach a place the preferred one is enough, and
a loop that has left a place once need not leave it again.
-/
namespace PathTemplate.Expression

/-- The states found so far, latest first, and the set of their keys as bits. -/
structure Swept where
  found : List State := []
  seen : Nat := 0

namespace Swept

def add (w : Swept) (s : State) : Swept :=
  if w.seen.testBit s.pos then w else ⟨s :: w.found, w.seen ||| 1 <<< s.pos⟩

end Swept

/-- The first state at each place. -/
def firsts (ss : List State) : List State := (ss.foldl Swept.add {}).found.reverse

namespace Step

/-- Exactly `n` turns from any of the given states. -/
def timesOnce (r : Step) : Nat → List State → List State
  | 0, ss => ss
  | n + 1, ss => timesOnce r n (firsts (ss.flatMap r))

/-- At most `n` turns from each of the given states. `key` tells apart the states from which the
loop goes on differently. -/
def upToOnce (r : Step) (greedy : Bool) (key : Nat → State → Nat) :
    Nat → Swept → List State → Swept
  | 0, w, ss => ss.foldl (fun w s =>
      if w.seen.testBit (key 0 s) then w else ⟨s :: w.found, w.seen ||| 1 <<< key 0 s⟩) w
  | n + 1, w, ss => ss.foldl (fun w s =>
      if w.seen.testBit (key (n + 1) s) then w
      else
        let w := { w with seen := w.seen ||| 1 <<< key (n + 1) s }
        if greedy then
          let w := upToOnce r greedy key n w (r s)
          { w with found := s :: w.found }
        else upToOnce r greedy key n { w with found := s :: w.found } (r s)) w

/-- In a loop whose turns all take something, the place alone decides how it goes on. -/
def starOnce (r : Step) (greedy : Bool) (s : State) : List State :=
  (upToOnce (taking r) greedy (fun _ t => t.pos) s.rest.length {} [s]).found.reverse

def plusOnce (r : Step) (greedy : Bool) (s : State) : List State :=
  firsts ((r s).flatMap fun t => if s.before? t then starOnce r greedy t else [t])

/-- In a loop of at most `n` turns, the place and the number of turns left decide. -/
def limitedOnce (r : Step) (greedy : Bool) (n : Nat) (s : State) : List State :=
  let width := s.pos + s.rest.length + 1
  firsts (upToOnce r greedy (fun k t => k * width + t.pos) n {} [s]).found.reverse

def loopOnce (r : Step) (lo : Nat) (hi : Option Nat) (greedy : Bool) (s : State) : List State :=
  match hi, lo with
  | none, 0 => firsts (prefer greedy (plusOnce r greedy s) s)
  | none, n + 1 => firsts ((timesOnce r n [s]).flatMap (plusOnce r greedy))
  | some n, lo => firsts ((timesOnce r (min lo n) [s]).flatMap (limitedOnce r greedy (n - lo)))

end Step

/-- The preferred way to each place that a plain expression reaches. -/
def Expr.sweep : Expr → Step
  | .cat a b, s => firsts ((a.sweep s).flatMap b.sweep)
  | .alt a b, s => firsts (a.sweep s ++ b.sweep s)
  | .group i e, s => (e.sweep s).map (State.close i s)
  | .loop e lo hi greedy, s => Step.loopOnce e.sweep lo hi greedy s
  | e, s => e.paths .ends s

end PathTemplate.Expression
