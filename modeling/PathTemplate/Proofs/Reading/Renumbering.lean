import Mathlib.Data.List.Basic
import PathTemplate.Expression.Assembly

/-!
Expressions with other numbers for their groups. How wide an expression is, whether it is plain and
what a closed frame leaves behind does not depend on the numbers.
-/
namespace PathTemplate.Expression

def Expr.renumber (f : Nat → Nat) : Expr → Expr
  | empty => .empty
  | one s a => .one s a
  | check x => .check x
  | cat a b => .cat (a.renumber f) (b.renumber f)
  | alt a b => .alt (a.renumber f) (b.renumber f)
  | group i e => .group (f i) (e.renumber f)
  | loop e lo hi greedy => .loop (e.renumber f) lo hi greedy
  | ahead wanted e => .ahead wanted (e.renumber f)
  | behind wanted n e => .behind wanted n (e.renumber f)
  | atomic e => .atomic (e.renumber f)
  | again i => .again (f i)

def Item.renumber (f : Nat → Nat) (i : Item) : Item := { i with expr := i.expr.renumber f }

def Branch.renumber (f : Nat → Nat) (r : Branch) : Branch :=
  ⟨r.done.map (Item.renumber f), r.last.map (Item.renumber f)⟩

variable {f : Nat → Nat}

theorem Expr.isPlain_renumber (e : Expr) : (e.renumber f).isPlain = e.isPlain := by
  induction e with
  | cat a b iha ihb => rw [renumber, isPlain, isPlain, iha, ihb]
  | alt a b iha ihb => rw [renumber, isPlain, isPlain, iha, ihb]
  | group i e ih => exact ih
  | loop e lo hi greedy ih => exact ih
  | _ => rfl

theorem Expr.isSettled_renumber (e : Expr) : (e.renumber f).isSettled = e.isSettled := by
  induction e with
  | cat a b iha ihb => rw [renumber, isSettled, isSettled, iha, ihb]
  | alt a b iha ihb => rw [renumber, isSettled, isSettled, iha, ihb]
  | group i e ih => exact ih
  | loop e lo hi greedy ih => exact ih
  | ahead wanted e ih => exact ih
  | behind wanted n e ih => exact ih
  | atomic e ih => exact ih
  | _ => rfl

theorem Expr.width?_renumber (e : Expr) : (e.renumber f).width? = e.width? := by
  induction e with
  | cat a b iha ihb => rw [renumber, width?, width?, iha, ihb]
  | alt a b iha ihb => rw [renumber, width?, width?, iha, ihb]
  | group i e ih => exact ih
  | loop e lo hi greedy ih => rw [renumber, width?, width?, ih]
  | atomic e ih => exact ih
  | _ => rfl

theorem Branch.renumber_joined (r : Branch) :
    (r.renumber f).joined = r.joined.map (Item.renumber f) := by
  obtain ⟨done, last⟩ := r
  cases last with
  | none => rfl
  | some i =>
    obtain ⟨e, q, g⟩ := i
    cases done <;> cases e <;> rfl

theorem Branch.renumber_push (r : Branch) (i : Item) :
    (r.push i).renumber f = (r.renumber f).push (i.renumber f) := by
  rw [push, push, renumber_joined]
  rfl

theorem Branch.renumber_expr (r : Branch) : (r.renumber f).expr = r.expr.renumber f := by
  rw [expr, expr, renumber_joined]
  cases r.joined <;> rfl

theorem Branch.renumber_repeatable (r : Branch) : (r.renumber f).repeatable = r.repeatable := by
  rw [repeatable, repeatable, renumber_joined]
  cases r.joined <;> rfl

namespace Builder

theorem renumber_flipGreed (e : Expr) : (flipGreed e).renumber f = flipGreed (e.renumber f) := by
  cases e <;> rfl

private theorem renumber_foldl {c : Expr → Expr → Expr}
    (hc : ∀ e e', (c e e').renumber f = c (e.renumber f) (e'.renumber f)) (es : List Expr)
    (e : Expr) : (es.foldl c e).renumber f = (es.map (Expr.renumber f)).foldl c (e.renumber f) := by
  induction es generalizing e with
  | nil => rfl
  | cons e' es ih => rw [List.foldl_cons, ih, hc, List.map_cons, List.foldl_cons]

theorem renumber_altAll (es : List Expr) :
    (altAll es).renumber f = altAll (es.map (Expr.renumber f)) := by
  cases es with
  | nil => rfl
  | cons e es => exact renumber_foldl (c := .alt) (fun _ _ => rfl) es e

theorem renumber_catAll (es : List Expr) :
    (catAll es).renumber f = catAll (es.map (Expr.renumber f)) := by
  cases es with
  | nil => rfl
  | cons e es => exact renumber_foldl (c := .cat) (fun _ _ => rfl) es e

theorem lookBehind_renumber (wanted : Bool) (es : List Expr) :
    lookBehind wanted (es.map (Expr.renumber f)) =
      (lookBehind wanted es).map (Expr.renumber f) := by
  have hparts : ((es.map (Expr.renumber f)).mapM fun e : Expr =>
      (e.width?).map fun n => Expr.behind wanted n e) =
      (es.mapM fun e : Expr => (e.width?).map fun n => Expr.behind wanted n e).map
        (List.map (Expr.renumber f)) := by
    induction es with
    | nil => rfl
    | cons e es ih =>
      rw [List.map_cons, List.mapM_cons, List.mapM_cons, ih, Expr.width?_renumber]
      cases e.width? with
      | none => rfl
      | some n =>
        cases es.mapM fun e : Expr => (e.width?).map fun n => Expr.behind wanted n e <;> rfl
  rw [lookBehind, lookBehind, ← renumber_altAll, Expr.width?_renumber, hparts]
  cases (altAll es).width? with
  | some n => rfl
  | none =>
    cases es.mapM fun e : Expr => (e.width?).map fun n => Expr.behind wanted n e with
    | none => rfl
    | some parts =>
      cases wanted with
      | true => exact congrArg some (renumber_altAll parts).symm
      | false => exact congrArg some (renumber_catAll parts).symm

end Builder

/-! ### Frames -/

def Frame.renumber (f : Nat → Nat) (fr : Frame) : Frame :=
  { fr with
    index := fr.index.map f
    alternatives := fr.alternatives.map (Expr.renumber f)
    branch := fr.branch.renumber f }

namespace Builder

theorem alternatives_renumber (fr : Frame) :
    alternatives (fr.renumber f) = (alternatives fr).map (Expr.renumber f) := by
  simp [alternatives, Frame.renumber, Branch.renumber_expr]

theorem closed_renumber (fr : Frame) :
    closed .path (fr.renumber f) = (closed .path fr).map (Item.renumber f) := by
  have hes := alternatives_renumber (f := f) fr
  have hrepeatable : (fr.renumber f).branch.repeatable = fr.branch.repeatable :=
    Branch.renumber_repeatable fr.branch
  have hkind : (fr.renumber f).kind = fr.kind := rfl
  have hindex : (fr.renumber f).index = fr.index.map f := rfl
  rw [closed, closed, hes, hrepeatable, hkind, hindex, List.length_map, ← renumber_altAll]
  cases fr.kind with
  | plain changes => rfl
  | ahead wanted => rfl
  | behind wanted =>
    simp only [lookBehind_renumber]
    cases lookBehind wanted (alternatives fr) <;> rfl
  | atomic => rfl
  | capture => cases fr.index <;> rfl
  | named name => cases fr.index <;> rfl

end Builder

/-! ### Numbers that occur -/

/-- All groups of the expression, and all it refers to, are among the first `n`. -/
def Expr.KeepsTo (n : Nat) (e : Expr) : Prop :=
  ∀ f : Nat → Nat, (∀ i, 1 ≤ i → i ≤ n → f i = i) → e.renumber f = e

namespace Expr.KeepsTo

variable {n i : Nat} {e e' : Expr}

theorem cat (h : (Expr.cat e e').KeepsTo n) : e.KeepsTo n ∧ e'.KeepsTo n :=
  ⟨fun f hf => (Expr.cat.inj (h f hf)).1, fun f hf => (Expr.cat.inj (h f hf)).2⟩

theorem alt (h : (Expr.alt e e').KeepsTo n) : e.KeepsTo n ∧ e'.KeepsTo n :=
  ⟨fun f hf => (Expr.alt.inj (h f hf)).1, fun f hf => (Expr.alt.inj (h f hf)).2⟩

theorem loop {lo : Nat} {hi : Option Nat} {greedy : Bool}
    (h : (Expr.loop e lo hi greedy).KeepsTo n) : e.KeepsTo n :=
  fun f hf => (Expr.loop.inj (h f hf)).1

theorem ahead {wanted : Bool} (h : (Expr.ahead wanted e).KeepsTo n) : e.KeepsTo n :=
  fun f hf => (Expr.ahead.inj (h f hf)).2

theorem behind {wanted : Bool} {m : Nat} (h : (Expr.behind wanted m e).KeepsTo n) :
    e.KeepsTo n := fun f hf => (Expr.behind.inj (h f hf)).2.2

theorem atomic (h : (Expr.atomic e).KeepsTo n) : e.KeepsTo n :=
  fun f hf => Expr.atomic.inj (h f hf)

/-- A number that is not fixed is none of the expression. -/
private theorem bounds (h : ∀ f : Nat → Nat, (∀ j, 1 ≤ j → j ≤ n → f j = j) → f i = i) :
    1 ≤ i ∧ i ≤ n := by
  by_contra hi
  have hfixed := h (fun j => if 1 ≤ j ∧ j ≤ n then j else j + 1) fun j h1 hn => if_pos ⟨h1, hn⟩
  simp [hi] at hfixed

theorem group (h : (Expr.group i e).KeepsTo n) : (1 ≤ i ∧ i ≤ n) ∧ e.KeepsTo n :=
  ⟨bounds fun f hf => (Expr.group.inj (h f hf)).1, fun f hf => (Expr.group.inj (h f hf)).2⟩

theorem again (h : (Expr.again i).KeepsTo n) : 1 ≤ i ∧ i ≤ n :=
  bounds fun f hf => Expr.again.inj (h f hf)

end Expr.KeepsTo

end PathTemplate.Expression
