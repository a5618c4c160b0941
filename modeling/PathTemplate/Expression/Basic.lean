import PathTemplate.Expression.CharSet
import PathTemplate.Text.Basic

/-!
Regular expressions after reading: flags are resolved and groups are numbered from one.
An expression is plain when it holds no assertion about words, no look-around, no atomic part
and no reference back; plain expressions are searched without any limit.
-/
namespace PathTemplate.Expression

inductive Assertion
  | textStart
  | textEnd
  | lineStart
  | lineEnd
  | wordBoundary
  | notWordBoundary
  | wordStart
  | wordEnd
  deriving DecidableEq, Repr

namespace Assertion

def wordAt : Text → Bool
  | [] => false
  | c :: _ => Unicode.isWord c

/-- Does the assertion hold between `before`, nearest character first, and `rest`? -/
def holds (before rest : Text) : Assertion → Bool
  | textStart => before.isEmpty
  | textEnd => rest.isEmpty
  | lineStart => before.head?.all (· == '\n')
  | lineEnd => rest.head?.all (· == '\n')
  | wordBoundary => wordAt before != wordAt rest
  | notWordBoundary => wordAt before == wordAt rest
  | wordStart => !wordAt before && wordAt rest
  | wordEnd => wordAt before && !wordAt rest

def aboutWords : Assertion → Bool
  | wordBoundary | notWordBoundary | wordStart | wordEnd => true
  | _ => false

end Assertion

inductive Expr
  | empty
  | one (set : CharSet) (anyCase : Bool)
  | check (a : Assertion)
  | cat (a b : Expr)
  | alt (a b : Expr)
  | group (index : Nat) (e : Expr)
  /-- At least `lo` and at most `hi` turns of `e`; no upper bound when `hi` is `none`. -/
  | loop (e : Expr) (lo : Nat) (hi : Option Nat) (greedy : Bool)
  /-- `e` must match, or must not match, from here on; nothing is taken. -/
  | ahead (wanted : Bool) (e : Expr)
  /-- `e` must match, or must not match, the `width` characters before this place. -/
  | behind (wanted : Bool) (width : Nat) (e : Expr)
  /-- The first way in which `e` matches, and no other. -/
  | atomic (e : Expr)
  /-- The text that group `index` took last. -/
  | again (index : Nat)
  deriving DecidableEq, Repr

namespace Expr

def isPlain : Expr → Bool
  | empty => true
  | one _ _ => true
  | check a => !a.aboutWords
  | cat a b => a.isPlain && b.isPlain
  | alt a b => a.isPlain && b.isPlain
  | group _ e => e.isPlain
  | loop e _ _ _ => e.isPlain
  | ahead _ _ => false
  | behind _ _ _ => false
  | atomic _ => false
  | again _ => false

/-- The number of characters that every match takes, where that number is fixed. -/
def width? : Expr → Option Nat
  | empty => some 0
  | one _ _ => some 1
  | check _ => some 0
  | cat a b => do return (← a.width?) + (← b.width?)
  | alt a b => do
    let m ← a.width?
    let n ← b.width?
    if m = n then some m else none
  | group _ e => e.width?
  | loop e lo hi _ => do
    let n ← e.width?
    if hi = some lo then some (lo * n) else none
  | ahead _ _ => some 0
  | behind _ _ _ => some 0
  | atomic e => e.width?
  | again _ => none

/-- No loop of a plain part asks for more turns than it allows. A part that is not plain is
searched turn by turn, and there such a loop makes as many turns as it allows. -/
def boundsOk (plain : Bool) : Expr → Bool
  | cat a b => a.boundsOk plain && b.boundsOk plain
  | alt a b => a.boundsOk plain && b.boundsOk plain
  | group _ e => e.boundsOk plain
  | loop e lo hi _ => (!plain || hi.all (lo ≤ ·)) && e.boundsOk plain
  | ahead _ e => e.boundsOk e.isPlain
  | behind _ _ e => e.boundsOk e.isPlain
  | atomic e => e.boundsOk e.isPlain
  | _ => true

/-- Is every set known? -/
def isSettled : Expr → Bool
  | one s _ => !s.isSpelled
  | cat a b => a.isSettled && b.isSettled
  | alt a b => a.isSettled && b.isSettled
  | group _ e => e.isSettled
  | loop e _ _ _ => e.isSettled
  | ahead _ e => e.isSettled
  | behind _ _ e => e.isSettled
  | atomic e => e.isSettled
  | _ => true

end Expr

end PathTemplate.Expression
