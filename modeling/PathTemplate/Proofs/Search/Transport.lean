import Mathlib.Data.List.Basic
import PathTemplate.Proofs.Reading.Reads
import PathTemplate.Proofs.Search.EmptyTurns

/-!
Matching at another position and with other groups. What an expression does at a place depends on
the text around the place alone, so its ways from there are those from any other state with the
same text around it, moved along.
-/
namespace PathTemplate.Expression

namespace State

def moved (n : Nat) (g : List (Option Capture) → List (Option Capture)) (s : State) : State :=
  { s with pos := s.pos + n, groups := g s.groups }

variable {n : Nat} {g : List (Option Capture) → List (Option Capture)}

@[simp] theorem moved_before (s : State) : (s.moved n g).before = s.before := rfl

@[simp] theorem moved_rest (s : State) : (s.moved n g).rest = s.rest := rfl

@[simp] theorem before?_moved (s t : State) :
    (s.moved n g).before? (t.moved n g) = s.before? t := by
  simp [before?, moved]

theorem next_moved (s : State) : (s.moved n g).next = s.next.moved n g := by
  obtain ⟨b, r, p, gs⟩ := s
  cases r with
  | nil => rfl
  | cons c r => simp [next, moved, Nat.add_right_comm]

theorem close_moved {i j : Nat} (hg : ∀ gs c, g (gs.set i c) = (g gs).set j c) (s t : State) :
    State.close j (s.moved n g) (t.moved n g) = (State.close i s t).moved n g := by
  simp [State.close, moved, hg, Nat.add_sub_add_right]

/-- Every state is the one at the beginning with the same text around it, moved along. -/
theorem eq_moved (s : State) :
    s = moved s.pos (fun _ => s.groups) ⟨s.before, s.rest, 0, []⟩ := by
  simp [moved]

end State

open State

/-! ### Other states -/

structure State.Keeps (φ : State → State) : Prop where
  before? : ∀ s t, (φ s).before? (φ t) = s.before? t
  length_rest : ∀ s, (φ s).rest.length = s.rest.length

theorem State.keeps_moved (n : Nat) (g : List (Option Capture) → List (Option Capture)) :
    State.Keeps (State.moved n g) := ⟨before?_moved, fun _ => rfl⟩

namespace Step

/-- `r'` does at the image of a state what `r` does at the state itself. -/
def Along (φ : State → State) (r r' : Step) : Prop := ∀ s, r' (φ s) = (r s).map φ

namespace Along

variable {φ : State → State} {r r' a a' b b' : Step}

theorem stay : Along φ (fun s => [s]) fun s => [s] := fun _ => rfl

theorem flatMap (ha : Along φ a a') (hb : Along φ b b') :
    Along φ (fun s => (a s).flatMap b) fun s => (a' s).flatMap b' := by
  intro s
  simp only [ha s, List.flatMap_map, List.map_flatMap]
  exact List.flatMap_congr fun t _ => hb t

theorem append (ha : Along φ a a') (hb : Along φ b b') :
    Along φ (fun s => a s ++ b s) fun s => a' s ++ b' s := by
  intro s
  simp only [ha s, hb s, List.map_append]

theorem prefer (h : Along φ r r') (greedy : Bool) :
    Along φ (fun s => Step.prefer greedy (r s) s) fun s => Step.prefer greedy (r' s) s := by
  intro s
  cases greedy <;> simp [Step.prefer, h s]

theorem times (h : Along φ r r') (m : Nat) : Along φ (Step.times r m) (Step.times r' m) := by
  induction m with
  | zero => exact stay
  | succ m ih => exact h.flatMap ih

theorem upTo (h : Along φ r r') (greedy : Bool) (m : Nat) :
    Along φ (Step.upTo r greedy m) (Step.upTo r' greedy m) := by
  induction m with
  | zero => exact stay
  | succ m ih => exact (h.flatMap ih).prefer greedy

variable (hφ : State.Keeps φ)

include hφ

theorem taking (h : Along φ r r') : Along φ (Step.taking r) (Step.taking r') := by
  intro s
  simp [Step.taking, h s, List.filter_map, Function.comp_def, hφ.before?]

theorem star (h : Along φ r r') (greedy : Bool) :
    Along φ (Step.star r greedy) (Step.star r' greedy) := by
  intro s
  rw [Step.star, Step.star, hφ.length_rest]
  exact (h.taking hφ).upTo greedy s.rest.length s

theorem plus (h : Along φ r r') (greedy : Bool) :
    Along φ (Step.plus r greedy) (Step.plus r' greedy) := by
  intro s
  simp only [Step.plus, h s, List.flatMap_map, List.map_flatMap, hφ.before?]
  refine List.flatMap_congr fun t _ => ?_
  split
  · exact h.star hφ greedy t
  · rfl

theorem atLeast (h : Along φ r r') (et : EmptyTurn) (greedy : Bool) (lo : Nat) :
    Along φ (Step.atLeast et r greedy lo) (Step.atLeast et r' greedy lo) := by
  cases et with
  | fails => exact (h.times lo).flatMap (h.star hφ greedy)
  | ends =>
    cases lo with
    | zero => exact (h.plus hφ greedy).prefer greedy
    | succ m => exact (h.times m).flatMap (h.plus hφ greedy)

theorem loop (h : Along φ r r') (et : EmptyTurn) (lo : Nat) (hi : Option Nat) (greedy : Bool) :
    Along φ (Step.loop et r lo hi greedy) (Step.loop et r' lo hi greedy) := by
  cases hi with
  | none => exact h.atLeast hφ et greedy lo
  | some m => exact (h.times (min lo m)).flatMap (h.upTo greedy (m - lo))

omit hφ

section Inner

variable {e e' : Expr} (h : Along φ (e.paths e.emptyTurn) (e'.paths e'.emptyTurn))
  (et et' : EmptyTurn)

include h

theorem ahead (hgroups : ∀ s t, (φ s).withGroups (φ t) = φ (s.withGroups t)) (wanted : Bool) :
    Along φ ((Expr.ahead wanted e).paths et) ((Expr.ahead wanted e').paths et') := by
  intro s
  cases wanted with
  | true =>
    simp only [Expr.paths, h s, List.map_map]
    exact List.map_congr_left fun t _ => hgroups s t
  | false =>
    simp only [Expr.paths, h s, List.isEmpty_map]
    split <;> rfl

theorem behind (hgroups : ∀ s t, (φ s).withGroups (φ t) = φ (s.withGroups t))
    (hback : ∀ n s, (φ s).back n = (s.back n).map φ) (wanted : Bool) (n : Nat) :
    Along φ ((Expr.behind wanted n e).paths et) ((Expr.behind wanted n e').paths et') := by
  intro s
  cases wanted with
  | true =>
    simp only [Expr.paths, hback]
    cases s.back n with
    | none => rfl
    | some b =>
      simp only [Option.map_some, h b, List.map_map]
      exact List.map_congr_left fun t _ => hgroups s t
  | false =>
    simp only [Expr.paths, hback]
    cases s.back n with
    | none => rfl
    | some b =>
      simp only [Option.map_some, h b, List.isEmpty_map]
      split <;> rfl

theorem atomic : Along φ ((Expr.atomic e).paths et) ((Expr.atomic e').paths et') := by
  intro s
  simp only [Expr.paths, h s, List.map_take]

end Inner

end Along

def Carries (n : Nat) (g : List (Option Capture) → List (Option Capture)) (r r' : Step) : Prop :=
  ∀ s, r' (s.moved n g) = (r s).map (State.moved n g)

namespace Carries

variable {n : Nat} {g : List (Option Capture) → List (Option Capture)} {r r' a a' b b' : Step}

theorem flatMap (ha : Carries n g a a') (hb : Carries n g b b') :
    Carries n g (fun s => (a s).flatMap b) fun s => (a' s).flatMap b' := Along.flatMap ha hb

theorem append (ha : Carries n g a a') (hb : Carries n g b b') :
    Carries n g (fun s => a s ++ b s) fun s => a' s ++ b' s := Along.append ha hb

theorem loop (h : Carries n g r r') (et : EmptyTurn) (lo : Nat) (hi : Option Nat) (greedy : Bool) :
    Carries n g (Step.loop et r lo hi greedy) (Step.loop et r' lo hi greedy) :=
  Along.loop (keeps_moved n g) h et lo hi greedy

end Carries

end Step

/-! ### Expressions -/

/-- `e'` does at a moved place what `e` does at the place itself, whatever happens to empty turns
here and there. -/
def Expr.Carries (n : Nat) (g : List (Option Capture) → List (Option Capture)) (e e' : Expr) :
    Prop :=
  ∀ et et', Step.Carries n g (e.paths et) (e'.paths et')

def Expr.Mobile (e : Expr) : Prop := ∀ n g, e.Carries n g e

def Expr.Consumes (e : Expr) : Prop := ∀ et, Step.Consumes (e.paths et)

theorem Expr.consumes_one (s : CharSet) (a : Bool) : (Expr.one s a).Consumes := by
  intro et s' t ht
  cases hr : s'.rest with
  | nil => simp [Expr.paths, hr] at ht
  | cons c r =>
    simp only [Expr.paths, hr] at ht
    split at ht
    · rw [List.mem_singleton.mp ht]
      simp [State.next, hr]
    · simp at ht

namespace Expr.Carries

variable {n : Nat} {g : List (Option Capture) → List (Option Capture)} {e e' f f' : Expr}

theorem empty : Carries n g .empty .empty := fun _ _ _ => rfl

theorem one (s : CharSet) (a : Bool) : Carries n g (.one s a) (.one s a) := by
  intro et et' s'
  cases hr : s'.rest with
  | nil => simp [Expr.paths, hr]
  | cons c r =>
    simp only [Expr.paths, moved_rest, hr, next_moved]
    split <;> rfl

theorem check (x : Assertion) : Carries n g (.check x) (.check x) := by
  intro et et' s
  simp only [Expr.paths, moved_before, moved_rest]
  split
  case isTrue h => simp [h]
  case isFalse h => simp [h]

theorem cat (he : Carries n g e e') (hf : Carries n g f f') : Carries n g (.cat e f) (.cat e' f') :=
  fun et et' => (he et et').flatMap (hf et et')

theorem alt (he : Carries n g e e') (hf : Carries n g f f') : Carries n g (.alt e f) (.alt e' f') :=
  fun et et' => (he et et').append (hf et et')

theorem group (h : Carries n g e e') {i j : Nat} (hg : ∀ gs c, g (gs.set i c) = (g gs).set j c) :
    Carries n g (.group i e) (.group j e') := by
  intro et et' s
  simp only [Expr.paths, h et et' s, List.map_map]
  exact List.map_congr_left fun t _ => close_moved hg s t

theorem loop (h : Carries n g e e') (lo : Nat) (hi : Option Nat) (greedy : Bool)
    (hc : hi = none → e.Consumes ∧ e'.Consumes) :
    Carries n g (.loop e lo hi greedy) (.loop e' lo hi greedy) := by
  intro et et' s
  have hloop := (h et et').loop .fails lo hi greedy s
  simp only [Expr.paths]
  cases hi with
  | some m => exact hloop
  | none =>
    obtain ⟨hc, hc'⟩ := hc rfl
    rw [Step.loop_eq_fails (forward_paths e et) (hc et) et,
      Step.loop_eq_fails (forward_paths e' et') (hc' et') et']
    exact hloop

theorem ahead (h : Carries n g e e') : Carries n g (.ahead true e) (.ahead true e') :=
  fun et et' => Step.Along.ahead (h _ _) et et' (fun _ _ => rfl) true

theorem atomic (h : Carries n g e e') : Carries n g (.atomic e) (.atomic e') :=
  fun et et' => Step.Along.atomic (h _ _) et et'

end Expr.Carries

theorem Expr.Mobile.optional {e : Expr} (h : e.Mobile) : (Expr.loop e 0 (some 1) true).Mobile :=
  fun n g => (h n g).loop 0 (some 1) true nofun

/-! ### Items -/

private theorem paths_ofItems_cons (i : Item) (is : List Item) (et : EmptyTurn) :
    (Branch.ofItems (i :: is)).expr.paths et =
      fun s => (i.expr.paths et s).flatMap ((Branch.ofItems is).expr.paths et) := by
  rw [Branch.paths_ofItems, Branch.paths_ofItems]
  rfl

theorem Expr.Consumes.ofItems {i : Item} (h : i.expr.Consumes) (is : List Item) :
    (Branch.ofItems (i :: is)).expr.Consumes := by
  intro et s t ht
  rw [paths_ofItems_cons] at ht
  obtain ⟨u, hu, ht⟩ := List.mem_flatMap.mp ht
  exact Nat.lt_of_lt_of_le (h et s u hu) ((forward_paths _ et).pos_le ht)

theorem Expr.Carries.ofItems {n : Nat} {g : List (Option Capture) → List (Option Capture)}
    {is js : List Item} (h : List.Forall₂ (fun i j => Expr.Carries n g i.expr j.expr) is js) :
    Expr.Carries n g (Branch.ofItems is).expr (Branch.ofItems js).expr := by
  induction h with
  | nil => exact .empty
  | cons hi _ ih =>
    intro et et'
    rw [paths_ofItems_cons, paths_ofItems_cons]
    exact (hi et et').flatMap (ih et et')

end PathTemplate.Expression
