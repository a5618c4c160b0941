import PathTemplate.Expression.Sequence
import PathTemplate.Quoting

/-!
Sets in brackets: single characters, ranges, escapes, named ASCII classes, sets inside sets, and
the operators for intersection, difference and symmetric difference, which bind weaker than
juxtaposition and group to the left.

Segments read a set by this grammar. Paths look for its end alone, by counting brackets, leave out
comments, and let segments read the text up to there. Where a bracket that opens nothing is counted,
as in `[!-[]`, the two do not agree on where a set ends.
-/
namespace PathTemplate.Expression

/-- The part of `t` in front of its tail `r`. -/
def upTo (t r : Text) : Text := t.take (t.length - r.length)

@[simp] theorem upTo_append (v r : Text) : upTo (v ++ r) r = v := by simp [upTo]

/-- Skips a comment to the parenthesis that closes it; a backslash hides the next character. -/
def skipComment : Text → Option Text
  | [] => none
  | ')' :: r => some r
  | '\\' :: _ :: r => skipComment r
  | _ :: r => skipComment r

namespace Bracket

open Expression

inductive Operator
  | inter
  | diff
  | symmDiff

def Operator.apply : Operator → CharSet → CharSet → CharSet
  | inter => .inter
  | diff => .diff
  | symmDiff => .symmDiff

/-- The set read so far: `pending` waits for its right operand, `items` collects that operand. -/
structure Draft where
  negated : Bool
  pending : Option (CharSet × Operator) := none
  items : CharSet := .empty

def Draft.add (p : Draft) (s : CharSet) : Draft := { p with items := .union p.items s }

def Draft.operand (p : Draft) : CharSet :=
  match p.pending with
  | none => p.items
  | some (a, op) => op.apply a p.items

def Draft.operator (p : Draft) (op : Operator) : Draft :=
  { p with pending := some (p.operand, op), items := .empty }

def Draft.finish (p : Draft) : CharSet := CharSet.signed p.negated p.operand

/-- The classes that may stand in brackets by name. -/
def namedClasses : List (String × CharSet) :=
  let alpha := CharSet.union (.range 'A' 'Z') (.range 'a' 'z')
  let digits := CharSet.range '0' '9'
  [("alnum", .union alpha digits), ("alpha", alpha),
   ("ascii", .range (Char.ofNat 0) (Char.ofNat 127)),
   ("blank", .union (.single '\t') (.single ' ')),
   ("cntrl", .union (.range (Char.ofNat 0) (Char.ofNat 31)) (.single (Char.ofNat 127))),
   ("digit", digits), ("graph", .range '!' '~'), ("lower", .range 'a' 'z'),
   ("print", .range ' ' '~'),
   ("punct", .union (.union (.range '!' '/') (.range ':' '@'))
     (.union (.range '[' '\x60') (.range '\x7b' '~'))),
   ("space", .union (.range '\t' '\r') (.single ' ')),
   ("upper", .range 'A' 'Z'), ("word", .union (.union alpha digits) (.single '_')),
   ("xdigit", .hexDigit)]

def asciiClass? (name : Text) : Option CharSet :=
  (namedClasses.find? (·.1.toList == name)).map (·.2)

/-- Reads the name of a class, and the colon and the bracket that end it. -/
def className (t : Text) : Option (CharSet × Text) :=
  match t.span (· != ':') with
  | (name, ':' :: ']' :: r) => (asciiClass? name).map (·, r)
  | _ => none

/-- Reads a named class after its opening bracket, if it is one that starts there. -/
def namedClass : Text → Option (CharSet × Text)
  | ':' :: '^' :: r => (className r).map fun p => (.compl p.1, p.2)
  | ':' :: r => className r
  | _ => none

inductive Item
  | char (c : Char)
  | set (s : CharSet)

def Item.toSet : Item → CharSet
  | char c => .single c
  | set s => s

def item (d : Dialect) : Text → Option (Item × Text)
  | [] => none
  | '\\' :: r =>
    match escape d true r with
    | some (.char c _ _, r) => some (.char c, r)
    | some (.set s, r) => some (.set s, r)
    | _ => none
  | c :: r => some (.char c, r)

/-- Does a hyphen that starts this text join two ends of a range? -/
def joinsRange : Text → Bool
  | '-' :: ']' :: _ => false
  | '-' :: '-' :: _ => false
  | '-' :: _ :: _ => true
  | _ => false

/-- The characters from one item to another. -/
def Item.rangeTo? : Item → Item → Option CharSet
  | char lo, char hi => if lo ≤ hi then some (.range lo hi) else none
  | _, _ => none

/-- An item, or a range of characters when a hyphen follows the first item. -/
def rangeOrItem (d : Dialect) (t : Text) : Option (CharSet × Text) := do
  let (a, r) ← item d t
  if joinsRange r then
    let (b, r) ← item d r.tail
    (a.rangeTo? b).map (·, r)
  else some (a.toSet, r)

/-- The hyphens at the start of a set stand for themselves. -/
def leadingHyphens (p : Draft) : Text → Draft × Text
  | '-' :: r => leadingHyphens (p.add (.single '-')) r
  | r => (p, r)

/-- A closing bracket that comes first stands for itself. -/
def first (p : Draft) : Text → Draft × Text
  | ']' :: r => (p.add (.single ']'), r)
  | r => leadingHyphens p r

/-- What stands right after the opening bracket: a caret, hyphens, and, if there is no hyphen, a
closing bracket that stands for itself. -/
def start : Text → Draft × Text
  | '^' :: r => first { negated := true } r
  | r => first { negated := false } r

/-- Reads a set to its closing bracket. `fuel` bounds the number of items. -/
def body (d : Dialect) : Nat → Draft → Text → Option (CharSet × Text)
  | 0, _, _ => none
  | _ + 1, _, [] => none
  | _ + 1, p, ']' :: r => some (p.finish, r)
  | n + 1, p, '&' :: '&' :: r => body d n (p.operator .inter) r
  | n + 1, p, '-' :: '-' :: r => body d n (p.operator .diff) r
  | n + 1, p, '~' :: '~' :: r => body d n (p.operator .symmDiff) r
  | n + 1, p, '[' :: r =>
    match namedClass r with
    | some (s, r) => body d n (p.add s) r
    | none =>
      let (q, r) := start r
      match body d n q r with
      | some (s, r) => body d n (p.add s) r
      | none => none
  | n + 1, p, c :: r =>
    match rangeOrItem d (c :: r) with
    | some (s, r) => body d n (p.add s) r
    | none => none

/-- Reads a set after its opening bracket. -/
def read (d : Dialect) (t : Text) : Option (CharSet × Text) :=
  let (p, r) := start t
  body d (t.length + 1) p r

/-! ### Sets cut by counting brackets -/

/-- A set that a backslash introduces, as paths hand it on. -/
def escapedSet : Text → Text
  | ['h'] => "[0-9A-Fa-f]".toList
  | ['H'] => "[^0-9A-Fa-f]".toList
  | w => '\\' :: w

/-- What a backslash introduces in brackets, as paths hand it on: characters are quoted. -/
def escaped (t : Text) : Option (Text × Text) :=
  match escape .path true t with
  | some (.char c _ _, r) => some (Quoting.char c, r)
  | some (.set _, r) => some (escapedSet (upTo t r), r)
  | _ => none

/-- Cuts a set behind its closing bracket. `deep` counts the brackets that are open besides its
own, and `fuel` bounds the number of characters. -/
def spellFrom : Nat → Nat → Text → Option (Text × Text)
  | 0, _, _ => none
  | _ + 1, _, [] => none
  | n + 1, deep, '\\' :: r =>
    match escaped r with
    | some (w, r) => (spellFrom n deep r).map fun p => (w ++ p.1, p.2)
    | none => none
  | n + 1, deep, '(' :: '?' :: '#' :: r =>
    match skipComment r with
    | some r => spellFrom n deep r
    | none => none
  | n + 1, deep, '[' :: r => (spellFrom n (deep + 1) r).map fun p => ('[' :: p.1, p.2)
  | _ + 1, 0, ']' :: r => some ([']'], r)
  | n + 1, deep + 1, ']' :: r => (spellFrom n deep r).map fun p => (']' :: p.1, p.2)
  | n + 1, deep, c :: r => (spellFrom n deep r).map fun p => (c :: p.1, p.2)

/-- What stands for itself at the start of a set: a closing bracket is not counted there. -/
def lead : Text → Text × Text
  | '^' :: ']' :: r => (['^', ']'], r)
  | ']' :: r => ([']'], r)
  | r => ([], r)

/-- Cuts a set after its opening bracket. -/
def spell (t : Text) : Option (Text × Text) :=
  let (v, r) := lead t
  (spellFrom (r.length + 1) 0 r).map fun p => (v ++ p.1, p.2)

/-- The set that is written both ways, if both ways say the same. -/
def agreed (v w : Text) : Option CharSet :=
  match read .path v, read .segment w with
  | some (s, []), some (s', []) => if s = s' then some s else none
  | _, _ => none

/-- Reads a set after its opening bracket. In paths it is known by its spelling alone, unless the
text it was cut from and its spelling both say what it is. -/
def set (d : Dialect) (t : Text) : Option (CharSet × Text) :=
  match d with
  | .path =>
    (spell t).map fun p => ((agreed (upTo t p.2) p.1).getD (.spelled ('[' :: p.1)), p.2)
  | .segment => read .segment t

end Bracket

end PathTemplate.Expression
