import PathTemplate.Text.Basic
import PathTemplate.Unicode.CaseClass
import PathTemplate.Unicode.Category

/-!
Sets of characters, as expressions write them. When case does not count, a character belongs to
a set written by ranges if some character of its case class does; the operations on sets are
applied to the widened ranges, so a complement never lets a case variant back in.
-/
namespace PathTemplate.Expression

open Unicode

inductive CharSet
  | empty
  | range (lo hi : Char)
  | digit
  | word
  | blank
  | categories (gs : List Category)
  | union (a b : CharSet)
  | inter (a b : CharSet)
  | diff (a b : CharSet)
  | symmDiff (a b : CharSet)
  | compl (a : CharSet)
  /-- What is written in brackets, not read yet. Until then nothing is known to belong to it. -/
  | spelled (w : Text)
  deriving DecidableEq, Repr

namespace CharSet

/-- The characters that stand for `c`: its case class, or `c` alone when case counts. -/
def variants (anyCase : Bool) (c : Char) : List Char := if anyCase then caseClass c else [c]

def has (anyCase : Bool) : CharSet → Char → Bool
  | empty, _ => false
  | range lo hi, c => (variants anyCase c).any fun d => lo ≤ d && d ≤ hi
  | digit, c => isDecimalDigit c
  | word, c => isWord c
  | blank, c => isBlank c
  | categories gs, c => (variants anyCase c).any fun d => gs.any (·.holds d)
  | union a b, c => a.has anyCase c || b.has anyCase c
  | inter a b, c => a.has anyCase c && b.has anyCase c
  | diff a b, c => a.has anyCase c && !b.has anyCase c
  | symmDiff a b, c => a.has anyCase c != b.has anyCase c
  | compl a, c => !a.has anyCase c
  | spelled _, _ => false

def isSpelled : CharSet → Bool
  | spelled _ => true
  | _ => false

def single (c : Char) : CharSet := range c c

def any : CharSet := compl empty

def notNewline : CharSet := compl (single '\n')

def hexDigit : CharSet := union (union (range '0' '9') (range 'A' 'F')) (range 'a' 'f')

/-- The set or its complement. -/
def signed (negated : Bool) (s : CharSet) : CharSet := if negated then compl s else s

theorem has_compl (anyCase : Bool) (s : CharSet) (c : Char) :
    (compl s).has anyCase c = !s.has anyCase c := rfl

end CharSet

end PathTemplate.Expression
