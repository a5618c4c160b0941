import PathTemplate.Expression.Scan

/-!
Assembling lexemes into an expression. The builder keeps the branch it is in, and below it the
groups that are still open. A quantifier changes the item before it, so an item remembers
whether it may still be quantified.
-/
namespace PathTemplate.Expression

/-- What a quantifier after an item may do: a fresh item can be repeated, a counted one can be
made lazy or atomic, a lazy one can be made atomic, and a sealed one is finished. -/
inductive Stage
  | fresh
  | counted
  | lazied
  | sealed
  deriving DecidableEq, Repr

structure Item where
  expr : Expr
  repeatable : Bool := true
  stage : Stage := .fresh
  deriving DecidableEq, Repr

/-- Items that follow each other. `done` joins all but the last one; items that are the empty
expression are dropped when they are joined. -/
structure Branch where
  done : Option Item := none
  last : Option Item := none
  deriving DecidableEq, Repr

namespace Branch

/-- One item for two that follow each other. -/
def join : Option Item → Item → Option Item
  | a, ⟨.empty, _, _⟩ => a
  | none, i => some i
  | some a, i => some { expr := .cat a.expr i.expr }

/-- All items joined to one. -/
def joined (b : Branch) : Option Item :=
  match b.last with
  | none => b.done
  | some i => join b.done i

def expr (b : Branch) : Expr :=
  match b.joined with
  | none => .empty
  | some i => i.expr

def push (b : Branch) (i : Item) : Branch := ⟨b.joined, some i⟩

/-- May the branch as a whole be repeated? A branch of one item may if that item may. -/
def repeatable (b : Branch) : Bool := b.joined.any (·.repeatable)

end Branch

structure Frame where
  kind : Opening
  /-- The number of the group that the frame captures. -/
  index : Option Nat
  /-- The flags outside. -/
  outer : Flags
  /-- The alternatives before the current one, latest first. -/
  alternatives : List Expr := []
  branch : Branch := {}
  deriving DecidableEq, Repr

structure Builder where
  flags : Flags := {}
  /-- The number of groups opened so far. -/
  groups : Nat := 0
  /-- The names of groups, latest first. -/
  names : List (Text × Nat) := []
  /-- The numbers referred to so far. -/
  referred : List Nat := []
  /-- Has a reference been written as a bare number? -/
  numbered : Bool := false
  /-- In a comment up to the end of the line. -/
  inComment : Bool := false
  frame : Frame
  /-- The frames around the current one, innermost first. -/
  outer : List Frame := []
  deriving DecidableEq, Repr

namespace Builder

def init : Builder := { frame := { kind := .plain [], index := none, outer := {} } }

def setBranch (b : Builder) (r : Branch) : Builder :=
  { b with frame := { b.frame with branch := r } }

def push (b : Builder) (i : Item) : Builder := b.setBranch (b.frame.branch.push i)

def replaceLast (b : Builder) (i : Item) : Builder :=
  b.setBranch { b.frame.branch with last := some i }

def one (b : Builder) (s : CharSet) (folds : Bool) : Builder :=
  b.push { expr := .one s (b.flags.anyCase && folds) }

/-- Ends the current alternative. -/
def bar (b : Builder) : Builder :=
  { b with frame := { b.frame with
      alternatives := b.frame.branch.expr :: b.frame.alternatives, branch := {} } }

def quantified (b : Builder) (i : Item) (lo : Nat) (hi : Option Nat) : Builder :=
  b.replaceLast { expr := .loop i.expr lo hi (!b.flags.swapGreed), stage := .counted }

/-- Turns the loop of a counted item from greedy to lazy, or back. -/
def flipGreed : Expr → Expr
  | .loop e lo hi g => .loop e lo hi (!g)
  | e => e

/-- Applies a quantifier. Paths allow one per item, segments any number. -/
def quantify (d : Dialect) (b : Builder) (lo : Nat) (hi : Option Nat) : Option Builder :=
  match b.frame.branch.last with
  | none => none
  | some i =>
    if !i.repeatable then none
    else if d = .path && i.stage ≠ .fresh then none
    else if d = .segment && hi.any (· < lo) then none
    else some (b.quantified i lo hi)

/-- A question mark after a quantifier makes it lazy. -/
def question (d : Dialect) (b : Builder) : Option Builder :=
  match b.frame.branch.last with
  | some ⟨e, r, .counted⟩ =>
    some (b.replaceLast ⟨flipGreed e, r, if d = .path then .lazied else .fresh⟩)
  | _ => b.quantify d 0 (some 1)

/-- In paths a plus sign after a quantifier makes it atomic. -/
def plus (d : Dialect) (b : Builder) : Option Builder :=
  match d, b.frame.branch.last with
  | .path, some ⟨e, r, .counted⟩ | .path, some ⟨e, r, .lazied⟩ =>
    some (b.replaceLast ⟨.atomic e, r, .sealed⟩)
  | _, _ => b.quantify d 1 none

/-- A count that has nothing to repeat is text in paths, and refused in segments. -/
def count (d : Dialect) (b : Builder) (lo : Nat) (hi : Option Nat) (written : Text) :
    Option Builder :=
  match d, b.frame.branch.last with
  | .path, none => some (written.foldl (fun b c => b.one (.single c) true) b)
  | .path, some i =>
    if i.stage = .fresh then b.quantify .path lo hi
    else some (written.foldl (fun b c => b.one (.single c) true) b)
  | .segment, _ => b.quantify .segment lo hi

/-- Opens a group. Flags in front of the colon hold inside. In segments no name is used twice. -/
def openGroup (d : Dialect) (b : Builder) (o : Opening) : Option Builder :=
  if d.depth ≤ b.outer.length then none
  else
    let outer := b.frame :: b.outer
    match o with
    | .capture =>
      some { b with
        groups := b.groups + 1, outer
        frame := { kind := o, index := some (b.groups + 1), outer := b.flags } }
    | .named name =>
      if d = .segment && b.names.any (·.1 == name) then none
      else some { b with
        groups := b.groups + 1, names := (name, b.groups + 1) :: b.names, outer,
        frame := { kind := o, index := some (b.groups + 1), outer := b.flags } }
    | .plain changes =>
      some { b with
        flags := b.flags.apply changes, outer
        frame := { kind := o, index := none, outer := b.flags } }
    | _ => some { b with outer, frame := { kind := o, index := none, outer := b.flags } }

/-- The alternatives of a frame, in order. -/
def alternatives (f : Frame) : List Expr := (f.branch.expr :: f.alternatives).reverse

def altAll : List Expr → Expr
  | [] => .empty
  | e :: es => es.foldl .alt e

def catAll : List Expr → Expr
  | [] => .empty
  | e :: es => es.foldl .cat e

/-- Looking back needs to know how far. Alternatives may differ in width, each having its own. -/
def lookBehind (wanted : Bool) (es : List Expr) : Option Expr :=
  match (altAll es).width? with
  | some n => some (.behind wanted n (altAll es))
  | none => do
    let parts ← es.mapM fun e => (e.width?).map fun n => .behind wanted n e
    return if wanted then altAll parts else catAll parts

/-- The item that a closed frame leaves behind. Groups that only hold other items together are
repeatable if what they hold is. -/
def closed (d : Dialect) (f : Frame) : Option Item :=
  let es := alternatives f
  match f.kind, f.index with
  | .plain _, _ =>
    some { expr := altAll es, repeatable := d = .segment || es.length > 1 || f.branch.repeatable }
  | .ahead wanted, _ => some { expr := .ahead wanted (altAll es), repeatable := false }
  | .behind wanted, _ => (lookBehind wanted es).map ({ expr := ·, repeatable := false })
  | .atomic, _ => some { expr := .atomic (altAll es) }
  | _, some i => some { expr := .group i (altAll es) }
  | _, none => none

/-- References by number and groups with names exclude each other in paths. This is found out
where a group, or the whole expression, without alternatives ends. -/
def mixesReferences (b : Builder) : Bool :=
  b.frame.alternatives.isEmpty && b.numbered && !b.names.isEmpty

/-- Does a group of this kind give back the flags it found when it closes? In paths only those do
that capture nothing and assert nothing. -/
def givesBack (d : Dialect) : Opening → Bool
  | .plain _ => true
  | _ => d = .segment

/-- Closes the innermost group. -/
def closeGroup (d : Dialect) (b : Builder) : Option Builder :=
  match b.outer with
  | [] => none
  | f :: fs =>
    if d = .path && b.mixesReferences then none
    else match closed d b.frame with
      | none => none
      | some i =>
        let flags := if givesBack d b.frame.kind then b.frame.outer else b.flags
        some (push { b with flags, frame := f, outer := fs } i)

def refer (b : Builder) (n : Nat) : Builder :=
  push { b with referred := n :: b.referred } { expr := .again n }

/-- A name stands for the latest group of that name, opened before; failing that, a name that is
a number stands for the group of that number. -/
def again (b : Builder) : Reference → Option Builder
  | .number n => some { b.refer n with numbered := true }
  | .name t =>
    match b.names.find? (·.1 == t) with
    | some (_, n) => some (b.refer n)
    | none => if t.all Char.isDigit then some (b.refer (Text.decimal t)) else none

def isSpacing (c : Char) : Bool := c == ' ' || c == '\t' || c == '\n' || c == '\r'

/-- Is a character written in the set, by itself or as the end of a range, that counts for nothing
or begins a comment where blanks do not count? -/
def hidesSpacing : CharSet → Bool
  | .range lo hi => [lo, hi].any fun c => isSpacing c || c == '#'
  | .union a b | .inter a b | .diff a b | .symmDiff a b => hidesSpacing a || hidesSpacing b
  | .compl a => hidesSpacing a
  | .spelled w => w.any fun c => isSpacing c || c == '#'
  | _ => false

def char (b : Builder) (c : Char) (folds bare : Bool) : Builder :=
  if b.flags.spaced && bare && isSpacing c then b
  else if b.flags.spaced && bare && c == '#' then { b with inComment := true }
  else b.one (.single c) folds

/-- Where blanks do not count, a set has been cut at the wrong place if a comment begins in it. It
is not read then. -/
def set (b : Builder) (s : CharSet) : Option Builder :=
  if b.flags.spaced && hidesSpacing s then none else some (b.one s true)

/-- Leaves out what is in a comment. A set or another comment may hold the end of the line, and is
not read there. -/
def leaveOut (b : Builder) : Lexeme → Option Builder
  | .char '\n' _ _ => some { b with inComment := false }
  | .set _ => none
  | .comment => none
  | _ => some b

def step (d : Dialect) (b : Builder) (x : Lexeme) : Option Builder :=
  if b.inComment then b.leaveOut x
  else match x with
    | .char c folds bare => some (b.char c folds bare)
    | .set s => b.set s
    | .dot => some (b.one (if b.flags.dotAll then .any else .notNewline) false)
    | .caret =>
      some (b.push { expr := .check (if b.flags.multiLine then .lineStart else .textStart)
                     repeatable := d = .segment })
    | .dollar =>
      some (b.push { expr := .check (if b.flags.multiLine then .lineEnd else .textEnd)
                     repeatable := d = .segment })
    | .check a => some (b.push { expr := .check a, repeatable := d = .segment })
    | .bar => some b.bar
    | .opening o => b.openGroup d o
    | .close => b.closeGroup d
    | .flags changes =>
      some (push { b with flags := b.flags.apply changes } { expr := .empty, repeatable := false })
    | .comment => some b
    | .star => b.quantify d 0 none
    | .plus => b.plus d
    | .question => b.question d
    | .count lo hi written => b.count d lo hi written
    | .again r => b.again r

/-- The whole expression: every group is closed and every reference has its group. -/
def finish (d : Dialect) (b : Builder) : Option (Expr × Nat) :=
  if !b.outer.isEmpty || (d = .path && b.mixesReferences) then none
  else if b.referred.all fun n => 1 ≤ n && n ≤ b.groups then
    some (altAll (alternatives b.frame), b.groups)
  else none

end Builder

/-- Reads a written expression: the expression and the number of its groups. -/
def read (d : Dialect) (t : Text) : Option (Expr × Nat) := do
  let xs ← lexemes d t
  let b ← xs.foldlM (Builder.step d) Builder.init
  b.finish d

end PathTemplate.Expression
