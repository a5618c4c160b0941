import PathTemplate.Expression.Basic
import PathTemplate.Text.Basic

/-!
The units of written expressions, and the two dialects they are written in. The dialect of paths
knows look-around, atomic parts and references back; the dialect of segments knows none of these.
-/
namespace PathTemplate.Expression

inductive Dialect
  | path
  | segment
  deriving DecidableEq, Repr

/-- How deep groups may stand in each other. -/
def Dialect.depth : Dialect → Nat
  | .path => 63
  | .segment => 250

inductive Flag
  | anyCase
  | multiLine
  | dotAll
  | swapGreed
  | spaced
  deriving DecidableEq, Repr

structure Flags where
  anyCase : Bool := false
  multiLine : Bool := false
  dotAll : Bool := false
  swapGreed : Bool := false
  spaced : Bool := false
  deriving DecidableEq, Repr

def Flags.set (fs : Flags) : Flag × Bool → Flags
  | (.anyCase, b) => { fs with anyCase := b }
  | (.multiLine, b) => { fs with multiLine := b }
  | (.dotAll, b) => { fs with dotAll := b }
  | (.swapGreed, b) => { fs with swapGreed := b }
  | (.spaced, b) => { fs with spaced := b }

abbrev FlagChanges := List (Flag × Bool)

def Flags.apply (fs : Flags) (cs : FlagChanges) : Flags := cs.foldl Flags.set fs

inductive Reference
  | number (n : Nat)
  | name (t : Text)
  deriving DecidableEq, Repr

inductive Opening
  | capture
  | named (name : Text)
  | plain (changes : FlagChanges)
  | ahead (wanted : Bool)
  | behind (wanted : Bool)
  | atomic
  deriving DecidableEq, Repr

inductive Lexeme
  /-- A character for itself. `folds` says whether the case flag reaches it, and `bare` whether
  it was written without a backslash. -/
  | char (c : Char) (folds bare : Bool)
  | set (s : CharSet)
  | dot
  | caret
  | dollar
  | check (a : Assertion)
  | bar
  | opening (o : Opening)
  | close
  | flags (changes : FlagChanges)
  | comment
  | star
  | plus
  | question
  /-- A count in braces, with the text it was written as. -/
  | count (lo : Nat) (hi : Option Nat) (written : Text)
  | again (r : Reference)
  deriving Repr

end PathTemplate.Expression
