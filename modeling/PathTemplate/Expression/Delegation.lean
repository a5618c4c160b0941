import PathTemplate.Expression.Assembly

/-!
Expressions with sets that are known by their spelling only. A plain expression is written out
again and read, as a whole, in the dialect of segments, and so is every longest run of plain items
of fixed width at either end of a sequence, and every set besides. The text that is read there may
turn out to be something else than a set, with groups of its own. A run is matched in its first
way only, and no group in it keeps its number unless it was counted before.
-/
namespace PathTemplate.Expression

namespace Expr

/-- The numbers of the groups written in the expression. A group of number 0 only holds its items
together. -/
def groupNumbers : Expr → List Nat
  | cat a b => a.groupNumbers ++ b.groupNumbers
  | alt a b => a.groupNumbers ++ b.groupNumbers
  | group i e => if i = 0 then e.groupNumbers else i :: e.groupNumbers
  | loop e _ _ _ => e.groupNumbers
  | ahead _ e => e.groupNumbers
  | behind _ _ e => e.groupNumbers
  | atomic e => e.groupNumbers
  | _ => []

/-- Gives the groups the numbers of the list, in order, and leaves out groups beyond its end. -/
def numbered (ns : List Nat) : Expr → Expr
  | cat a b => cat (a.numbered ns) (b.numbered ns)
  | alt a b => alt (a.numbered ns) (b.numbered ns)
  | group i e =>
    match ns[i - 1]? with
    | some n => group n (e.numbered ns)
    | none => e.numbered ns
  | loop e lo hi greedy => loop (e.numbered ns) lo hi greedy
  | ahead wanted e => ahead wanted (e.numbered ns)
  | behind wanted n e => behind wanted n (e.numbered ns)
  | atomic e => atomic (e.numbered ns)
  | e => e

end Expr

namespace Delegation

/-! ### Writing expressions -/

def enclosedIf (b : Bool) (t : Text) : Text := if b then "(?:".toList ++ t ++ [')'] else t

def setText : CharSet → Text
  | .spelled w => w
  | .range c _ => Quoting.char c
  | .compl .empty => "(?s:.)".toList
  | _ => ['.']

def assertionText : Assertion → Text
  | .lineStart => "(?m:^)".toList
  | .lineEnd => "(?m:$)".toList
  | .textEnd => ['$']
  | _ => ['^']

def countText (lo : Nat) : Option Nat → Text
  | some hi =>
    if lo = 0 ∧ hi = 1 then ['?']
    else if lo = hi then '{' :: lo.repr.toList ++ ['}']
    else '{' :: lo.repr.toList ++ ',' :: hi.repr.toList ++ ['}']
  | none =>
    if lo = 0 then ['*'] else if lo = 1 then ['+'] else '{' :: lo.repr.toList ++ [',', '}']

/-- Writes a plain expression. Alternatives bind weakest, with 0, then sequences, with 1, and loops,
with 2; what binds weaker than `tight` is enclosed. A set is written as it is spelled, even where
that is no single item. -/
def written (tight : Nat) : Expr → Text
  | .one s anyCase => if anyCase then "(?i:".toList ++ setText s ++ [')'] else setText s
  | .check a => assertionText a
  | .cat a b =>
    let first := match a with | .cat _ _ => written 1 a | _ => written 2 a
    enclosedIf (1 < tight) (first ++ written 2 b)
  | .alt a b =>
    let first := match a with | .alt _ _ => written 0 a | _ => written 1 a
    enclosedIf (0 < tight) (first ++ '|' :: written 1 b)
  | .group i e => if i = 0 then written tight e else '(' :: written 0 e ++ [')']
  | .loop e lo hi greedy =>
    enclosedIf (2 < tight) (written 3 e ++ countText lo hi ++ if greedy then [] else ['?'])
  | _ => []

/-! ### Handing on -/

/-- Can the expression be handed on? Not if its groups are referred to. -/
def isEasy (refs : List Nat) (e : Expr) : Bool :=
  e.isPlain && e.groupNumbers.all fun n => !refs.contains n

def readDelegate (t : Text) : Option (Expr × Nat) :=
  (Expression.read .segment t).filter fun (e, _) => e.boundsOk e.isPlain

/-- What a run of items is read as when it is handed on. -/
def delegate (es : List Expr) : Option Expr :=
  (readDelegate (es.flatMap (written 1))).map fun (e, _) =>
    .atomic (e.numbered (es.flatMap Expr.groupNumbers))

/-- What is made of a part of an expression. In a search that goes back, parts are handed on only
where they stand at the end of a sequence. -/
structure Replacement where
  /-- Of the expression itself, if it is not handed on as a whole. -/
  inner : (back : Bool) → Option Expr
  /-- The items of a sequence, each with what is made of it inside the sequence. -/
  items : List (Expr × Option Expr)

def Replacement.whole (refs : List Nat) (e : Expr) (r : Replacement) (back : Bool) : Option Expr :=
  if !back && isEasy refs e then delegate [e] else r.inner back

def run (es : List Expr) : Option (List Expr) :=
  if es.isEmpty then some [] else (delegate es).map ([·])

/-- The runs at both ends of a sequence are handed on. At its end a width is not needed if the
search does not go back. -/
def sequence (refs : List Nat) (items : List (Expr × Option Expr)) (back : Bool) : Option Expr := do
  let fixed := fun e : Expr => isEasy refs e && e.width?.isSome
  let first := items.takeWhile fun i => fixed i.1
  let others := items.drop first.length
  let easy := others.reverse.takeWhile fun i => if back then fixed i.1 else isEasy refs i.1
  let last := easy.reverse
  let middle := others.take (others.length - last.length)
  return Builder.catAll ((← run (first.map (·.1))) ++ (← middle.mapM (·.2)) ++
    (← run (last.map (·.1))))

def replacement (refs : List Nat) : Expr → Replacement
  | .cat a b =>
    let r := replacement refs a
    let front := match a with | .cat _ _ => r.items | _ => [(a, r.whole refs a true)]
    let items := front ++ [(b, (replacement refs b).whole refs b true)]
    { inner := sequence refs items, items }
  | .alt a b =>
    let r := replacement refs a
    let first := match a with | .alt _ _ => r.inner | _ => r.whole refs a
    { inner := fun back => do
        return .alt (← first back) (← (replacement refs b).whole refs b back)
      items := [] }
  | .group i e =>
    { inner := fun back => ((replacement refs e).whole refs e back).map fun f =>
        if i = 0 then f else .group i f
      items := [] }
  | .loop e lo hi greedy =>
    { inner := fun back =>
        ((replacement refs e).whole refs e (back || lo != 0 || hi != some 1)).map
          (.loop · lo hi greedy)
      items := [] }
  | .ahead wanted e =>
    { inner := fun _ => ((replacement refs e).whole refs e false).map (.ahead wanted), items := [] }
  | .behind wanted n e =>
    { inner := fun _ => ((replacement refs e).whole refs e false).map (.behind wanted n)
      items := [] }
  | .atomic e =>
    { inner := fun _ => ((replacement refs e).whole refs e false).map .atomic, items := [] }
  | .one s anyCase => { inner := fun _ => delegate [.one s anyCase], items := [] }
  | e => { inner := fun _ => some e, items := [] }

/-! ### Reading -/

/-- A lexeme of the text `t` in front of `r`, with its set as it is spelled. -/
def spelled (t r : Text) : Lexeme → Lexeme
  | .set _ =>
    match t with
    | '[' :: t => .set (.spelled ('[' :: ((Bracket.spell t).map (·.1)).getD []))
    | _ => .set (.spelled (Bracket.escapedSet (upTo t.tail r)))
  | x => x

def lexemesFrom : Nat → Text → Option (List Lexeme)
  | _, [] => some []
  | 0, _ :: _ => none
  | n + 1, t =>
    match lexeme .path t with
    | some (x, r) => (lexemesFrom n r).map (spelled t r x :: ·)
    | none => none

/-- Marks the item that a group without a number has left behind. -/
def bundle (b : Builder) : Builder :=
  match b.frame.branch.last with
  | some i => if i.expr = .empty then b else b.replaceLast { i with expr := .group 0 i.expr }
  | none => b

def step (b : Builder) (x : Lexeme) : Option Builder :=
  (b.step .path x).map fun c =>
    match x, b.inComment, b.frame.kind with
    | .close, false, .plain _ => bundle c
    | _, _, _ => c

/-- Reads an expression whose sets are handed on as they are spelled. -/
def read (t : Text) : Option (Expr × Nat) := do
  let xs ← lexemesFrom t.length t
  let b ← xs.foldlM step Builder.init
  let (e, n) ← b.finish .path
  if e.isPlain then readDelegate (written 0 e)
  else ((replacement b.referred e).whole b.referred e true).map (·, n)

end Delegation

end PathTemplate.Expression
