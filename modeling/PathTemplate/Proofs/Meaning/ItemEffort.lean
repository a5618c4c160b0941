import Mathlib.Data.List.Induction
import PathTemplate.Proofs.Reading.Compiling
import PathTemplate.Proofs.Search.Effort

/-!
What items spend. The items of an expression are tasks one after the other, so what an expression
spends is what its items spend, and one step for each of them. Single characters and checks are done
in one step, and from these follows what a look-ahead for texts spends.
-/
namespace PathTemplate.Expression

open State Step Expression.Task

def itemsWays (is : List Item) (et : EmptyTurn) : Step :=
  Step.inTurn (is.map fun i => i.expr.paths et)

section Ways

variable (i : Item) (is js : List Item) (et : EmptyTurn) (s : State)

theorem itemsWays_cons : itemsWays (i :: is) et s = (i.expr.paths et s).flatMap (itemsWays is et) :=
  rfl

theorem itemsWays_single : itemsWays [i] et s = i.expr.paths et s := by
  rw [itemsWays_cons]
  exact List.flatMap_singleton' _

theorem itemsWays_append :
    itemsWays (is ++ js) et s = (itemsWays is et s).flatMap (itemsWays js et) := by
  rw [itemsWays, List.map_append, inTurn_append]
  rfl

end Ways

/-! ### Tasks -/

def tasks (et : EmptyTurn) (is : List Item) : List Task := is.map fun i => .run i.expr et

theorem allWays_tasks (et : EmptyTurn) (is : List Item) (s : State) :
    allWays (tasks et is) s = itemsWays is et s := by
  induction is generalizing s with
  | nil => rfl
  | cons i is ih => exact List.flatMap_congr fun r _ => ih r

theorem tasks_append (et : EmptyTurn) (is js : List Item) :
    tasks et (is ++ js) = tasks et is ++ tasks et js := List.map_append

namespace Branch

private theorem join_of_ne {i : Item} (h : i.expr ≠ .empty) (b : Option Item) :
    join b i = some (match b with
      | none => i
      | some j => { expr := .cat j.expr i.expr }) := by
  obtain ⟨e, r, g⟩ := i
  cases e with
  | empty => exact absurd rfl h
  | _ => cases b <;> rfl

theorem expr_ofItems_single {i : Item} (hi : i.expr ≠ .empty) : (ofItems [i]).expr = i.expr := by
  rw [expr, show (ofItems [i]).joined = join none i from rfl, join_of_ne hi]

/-- Items that are not empty are put in a row. -/
theorem expr_ofItems_snoc {is : List Item} {i : Item} (hne : is ≠ [])
    (h : ∀ j ∈ is, j.expr ≠ .empty) (hi : i.expr ≠ .empty) :
    (ofItems (is ++ [i])).expr = .cat (ofItems is).expr i.expr := by
  obtain ⟨j, hj⟩ : ∃ j, (ofItems is).joined = some j := by
    rcases List.eq_nil_or_concat is with rfl | ⟨js, j, rfl⟩
    · exact absurd rfl hne
    · rw [ofItems, List.concat_eq_append, List.foldl_append]
      exact ⟨_, join_of_ne (h j (by simp)) _⟩
  have hpush : (ofItems (is ++ [i])).joined = join (ofItems is).joined i := by
    rw [ofItems, List.foldl_append]
    rfl
  rw [expr, hpush, join_of_ne hi, hj, expr, hj]

end Branch

/-- A sequence spends one step for each of its items besides what they spend. -/
theorem spends_ofItems {c : Nat} {et : EmptyTurn} {is : List Item} {ts : List Task} {s : State}
    (hne : ∀ i ∈ is, i.expr ≠ .empty) (h : Spends c (tasks et is ++ ts) s) :
    Spends (c + is.length + 1) (.run (Branch.ofItems is).expr et :: ts) s := by
  induction is using List.reverseRecOn generalizing ts with
  | nil =>
    refine ((Spends.empty et s).append_of_le (n := 1) (d := c) (fun r hr => ?_) ?_).mono (by omega)
    · obtain rfl : r = s := by simpa [allWays_single, ways, Expr.paths] using hr
      exact h
    · simp [allWays_single, ways, Expr.paths]
  | append_singleton is i ih =>
    rw [tasks, List.map_append, List.append_assoc] at h
    rcases List.eq_nil_or_concat is with rfl | ⟨js, j, hjs⟩
    · have hfirst : Spends c (.run i.expr et :: ts) s := h
      rw [List.nil_append, Branch.expr_ofItems_single (hne i (by simp))]
      exact hfirst.mono (Nat.le_add_right c 2)
    · have hrow := ih (fun j hj => hne j (List.mem_append_left _ hj)) h
      rw [Branch.expr_ofItems_snoc (by simp [hjs]) (fun j hj => hne j (List.mem_append_left _ hj))
        (hne i (by simp))]
      refine (Spends.unfolded rfl rfl hrow).mono ?_
      rw [List.length_append, List.length_singleton]
      omega

/-- Alternatives spend what they all spend together. -/
theorem spends_altAll {et : EmptyTurn} {es : List Expr} {cs : List Nat} {s : State}
    (h : List.Forall₂ (fun e c => Spends c [.run e et] s) es cs) (hne : es ≠ []) :
    Spends (cs.sum + es.length) [.run (Builder.altAll es) et] s := by
  cases h with
  | nil => exact absurd rfl hne
  | @cons e c es cs he hes =>
    have hfold : ∀ {e : Expr} {c : Nat}, Spends c [.run e et] s →
        Spends (c + (cs.sum + es.length)) [.run (es.foldl Expr.alt e) et] s := by
      clear he hne
      induction hes with
      | nil => exact fun h => h
      | cons hf _ ih =>
        intro e c he
        refine (ih (he.alt hf)).mono ?_
        rw [List.sum_cons, List.length_cons]
        omega
    refine (hfold he).mono ?_
    rw [List.sum_cons, List.length_cons]
    omega

structure Item.Brief (i : Item) : Prop where
  spends : ∀ et s, Spends 1 [.run i.expr et] s
  single : ∀ et s, (i.expr.paths et s).length ≤ 1
  nonempty : i.expr ≠ .empty

theorem brief_char (a : Bool) (c : Char) : (charItem a c).Brief :=
  ⟨Spends.one _ _, fun et s => length_paths_one_le _ _ et s, nofun⟩

theorem brief_check (d : Dialect) (x : Assertion) : (checkItem d x).Brief := by
  refine ⟨Spends.check x, fun et s => ?_, nofun⟩
  rw [checkItem, Expr.paths]
  split <;> simp

section Brief

variable {et : EmptyTurn} {is : List Item} {s : State}

theorem length_briefs_le (h : ∀ i ∈ is, i.Brief) (s : State) : (itemsWays is et s).length ≤ 1 := by
  induction is generalizing s with
  | nil => exact Nat.le_refl 1
  | cons i is ih =>
    exact Step.length_flatMap_le ((h i List.mem_cons_self).single et)
      (ih fun j hj => h j (List.mem_cons_of_mem i hj)) s

theorem spends_briefs (h : ∀ i ∈ is, i.Brief) (s : State) :
    Spends is.length (tasks et is) s := by
  induction is generalizing s with
  | nil => exact .nil s
  | cons i is ih =>
    have hi := h i List.mem_cons_self
    refine ((hi.spends et s).append_of_le (n := 1) (d := is.length)
      (fun r _ => ih (fun j hj => h j (List.mem_cons_of_mem i hj)) r) ?_).mono ?_
    · rw [allWays_single]
      exact hi.single et s
    · rw [List.length_cons]
      omega

def lookWeight (as : List Alternative) : Nat := (as.map fun q => 2 * q.2.length + 3).sum + 1

variable {as : List Alternative} (hne : as ≠ []) (h : ∀ q ∈ as, ∀ i ∈ q.2, i.Brief)

include hne h

private theorem length_alternatives_le (et : EmptyTurn) (s : State) :
    ((Builder.altAll (alternativeExprs as)).paths et s).length ≤ as.length := by
  rw [Builder.paths_altAll (by simpa [alternativeExprs] using hne), List.length_flatMap]
  clear hne
  induction as with
  | nil => exact Nat.le_refl 0
  | cons q as ih =>
    have hq : ((Branch.ofItems q.2).expr.paths et s).length ≤ 1 := by
      rw [Branch.paths_ofItems]
      exact length_briefs_le (h q List.mem_cons_self) s
    have hrest := ih fun q' hq' => h q' (List.mem_cons_of_mem q hq')
    rw [alternativeExprs, List.map_cons, List.map_cons, List.sum_cons, List.length_cons]
    exact (Nat.add_le_add hq hrest).trans (Nat.le_of_eq (Nat.add_comm 1 _))

theorem length_aheadItem_le (et : EmptyTurn) (s : State) :
    ((aheadItem (alternativeExprs as)).expr.paths et s).length ≤ as.length := by
  rw [aheadItem, Expr.paths, List.length_map]
  exact length_alternatives_le hne h _ s

theorem spends_aheadItem (et : EmptyTurn) (s : State) :
    Spends (lookWeight as) [.run (aheadItem (alternativeExprs as)).expr et] s := by
  have hcosts : ∀ et, List.Forall₂ (fun e c => Spends c [.run e et] s) (alternativeExprs as)
      (as.map fun q => 2 * q.2.length + 1) := by
    intro et
    clear hne
    induction as with
    | nil => exact .nil
    | cons q as ih =>
      have hbriefs : Spends q.2.length (tasks et q.2 ++ []) s := by
        rw [List.append_nil]
        exact spends_briefs (h q List.mem_cons_self) s
      have hitems := spends_ofItems
        (fun i hi => (h q List.mem_cons_self i hi).nonempty) hbriefs
      rw [← Nat.two_mul] at hitems
      exact .cons hitems (ih fun q' hq' => h q' (List.mem_cons_of_mem q hq'))
  have hall := spends_altAll (hcosts (Builder.altAll (alternativeExprs as)).emptyTurn)
    (by simpa [alternativeExprs] using hne)
  refine (hall.ahead (length_alternatives_le hne h _ s)).mono ?_
  have hsum : (as.map fun q => 2 * q.2.length + 3).sum =
      (as.map fun q => 2 * q.2.length + 1).sum + 2 * as.length := by
    clear hne h hall hcosts
    induction as with
    | nil => rfl
    | cons q as ih =>
      simp only [List.map_cons, List.sum_cons, List.length_cons, ih]
      omega
  rw [lookWeight, hsum, alternativeExprs, List.length_map]
  omega

end Brief

end PathTemplate.Expression
