import Mathlib.Data.List.Basic
import PathTemplate.Proofs.Search.Place

/-!
Turns of a loop that take nothing. Where every turn takes something, it does not matter what happens
to those that do not. Elsewhere it may matter to what the groups hold, but not to the places that
a loop reaches, so plain expressions reach the same places either way.
-/
namespace PathTemplate.Expression

open State

namespace Step

def Consumes (r : Step) : Prop := ∀ s, ∀ t ∈ r s, s.pos < t.pos

section Consumes

variable {r : Step}

private theorem length_lt (hf : Forward r) (hc : Consumes r) {s t : State} (ht : t ∈ r s) :
    t.rest.length < s.rest.length := by
  obtain ⟨w, hw⟩ := hf s t ht
  have hpos := hc s t ht
  rw [hw.pos] at hpos
  rw [hw.rest, List.length_append]
  omega

theorem taking_eq (hc : Consumes r) : Step.taking r = r := by
  funext s
  exact List.filter_eq_self.mpr fun t ht => (before?_iff s t).mpr (hc s t ht)

/-- At the end of the text there are no turns. -/
private theorem upTo_of_rest (hf : Forward r) (hc : Consumes r) (greedy : Bool) {s : State}
    (hs : s.rest.length = 0) (k : Nat) : Step.upTo r greedy k s = [s] := by
  have hnil : r s = [] := by
    refine List.eq_nil_iff_forall_not_mem.mpr fun t ht => ?_
    have := length_lt hf hc ht
    omega
  cases k with
  | zero => rfl
  | succ k => cases greedy <;> simp [Step.upTo, Step.prefer, hnil]

/-- Turns beyond the length of the rest change nothing. -/
private theorem upTo_enough (hf : Forward r) (hc : Consumes r) (greedy : Bool) {k m : Nat}
    {s : State} (hk : s.rest.length ≤ k) (hm : s.rest.length ≤ m) :
    Step.upTo r greedy k s = Step.upTo r greedy m s := by
  induction k generalizing m s with
  | zero => rw [upTo_of_rest hf hc greedy (by omega), upTo_of_rest hf hc greedy (by omega)]
  | succ k ih =>
    cases m with
    | zero => rw [upTo_of_rest hf hc greedy (by omega), upTo_of_rest hf hc greedy (by omega)]
    | succ m =>
      have hturns :
          (r s).flatMap (Step.upTo r greedy k) = (r s).flatMap (Step.upTo r greedy m) := by
        refine List.flatMap_congr fun t ht => ?_
        have hlt := length_lt hf hc ht
        exact ih (by omega) (by omega)
      rw [Step.upTo, Step.upTo, hturns]

end Consumes

theorem consumes_taking (r : Step) : Consumes (Step.taking r) :=
  fun s t ht => ((mem_taking r s t).mp ht).2

/-- Any number of turns are none, or one that takes something and any number more. -/
theorem star_eq {r : Step} (hf : Forward r) (greedy : Bool) (s : State) :
    Step.star r greedy s = Step.prefer greedy ((taking r s).flatMap (Step.star r greedy)) s := by
  have henough : ∀ {t : State} {k : Nat}, t.rest.length ≤ k →
      Step.star r greedy t = Step.upTo (taking r) greedy k t :=
    fun hk => upTo_enough hf.taking (consumes_taking r) greedy (Nat.le_refl _) hk
  have hturns : (taking r s).flatMap (Step.upTo (taking r) greedy s.rest.length) =
      (taking r s).flatMap (Step.star r greedy) := by
    refine List.flatMap_congr fun t ht => (henough ?_).symm
    exact Nat.le_of_lt (length_lt hf.taking (consumes_taking r) ht)
  rw [henough (Nat.le_succ s.rest.length), Step.upTo, hturns]

theorem times_succ (r : Step) (n : Nat) (s : State) :
    Step.times r (n + 1) s = (Step.times r n s).flatMap r := by
  induction n generalizing s with
  | zero => simp [Step.times]
  | succ n ih =>
    rw [Step.times, Step.times, List.flatMap_assoc]
    exact List.flatMap_congr fun t _ => ih t

section Consumes

variable {r : Step}

theorem plus_eq (hc : Consumes r) (greedy : Bool) :
    Step.plus r greedy = fun s => (r s).flatMap (Step.star r greedy) := by
  funext s
  exact List.flatMap_congr fun t ht => if_pos ((before?_iff s t).mpr (hc s t ht))

/-- Where every turn takes something, it does not matter what happens to an empty turn. -/
theorem loop_ends_eq (hf : Forward r) (hc : Consumes r) (lo : Nat) (hi : Option Nat)
    (greedy : Bool) : Step.loop .ends r lo hi greedy = Step.loop .fails r lo hi greedy := by
  funext s
  cases hi with
  | some m => rfl
  | none =>
    cases lo with
    | zero =>
      simp only [Step.loop, Step.atLeast, Step.times, List.flatMap_singleton, plus_eq hc]
      have hstar := star_eq hf greedy s
      rw [taking_eq hc] at hstar
      exact hstar.symm
    | succ n =>
      simp only [Step.loop, Step.atLeast, plus_eq hc, times_succ, List.flatMap_assoc]

theorem loop_eq_fails (hf : Forward r) (hc : Consumes r) (et : EmptyTurn) (lo : Nat)
    (hi : Option Nat) (greedy : Bool) :
    Step.loop et r lo hi greedy = Step.loop .fails r lo hi greedy := by
  cases et with
  | fails => rfl
  | ends => exact loop_ends_eq hf hc lo hi greedy

end Consumes

/-! ### Turns that may take nothing -/

section Reaches

variable {txt : Text} {r : Step}

/-- Places reached from the very same state are reached from every state there. -/
theorem Reaches.of_here {a b : Step} (hb : Uniform txt b)
    (h : ∀ s, s.StandsIn txt → ∀ u ∈ a s, ∃ v ∈ b s, v.pos = u.pos) : Reaches txt a b := by
  intro s t hs ht hp u hu
  obtain ⟨v, hv, hvp⟩ := h s hs u hu
  obtain ⟨w, hw, hwp⟩ := hb s t hs ht hp v hv
  exact ⟨w, hw, hwp.trans hvp⟩

variable (hf : Forward r)

include hf

theorem mem_star (greedy : Bool) (s t : State) : t ∈ Step.star r greedy s ↔
    t = s ∨ ∃ u ∈ r s, s.pos < u.pos ∧ t ∈ Step.star r greedy u := by
  rw [star_eq hf, mem_prefer, List.mem_flatMap, or_comm]
  simp only [mem_taking, and_assoc]

/-- The turns behind the first one go on from where it ended. -/
private theorem mem_flatMap_star_of_mem_plus {greedy : Bool} {s t : State}
    (ht : t ∈ Step.plus r greedy s) : t ∈ (r s).flatMap (Step.star r greedy) := by
  obtain ⟨u, hu, ht⟩ := List.mem_flatMap.mp ht
  refine List.mem_flatMap.mpr ⟨u, hu, ?_⟩
  split at ht
  · exact ht
  · exact (mem_star hf greedy u t).mpr (Or.inl (List.mem_singleton.mp ht))

variable (hr : Uniform txt r)

include hr

/-- A first turn that takes nothing can be left out if another one follows. -/
private theorem exists_mem_plus {greedy : Bool} {s u : State} (hs : s.StandsIn txt)
    (hu : u ∈ (r s).flatMap (Step.star r greedy)) : ∃ v ∈ Step.plus r greedy s, v.pos = u.pos := by
  obtain ⟨t, ht, hu⟩ := List.mem_flatMap.mp hu
  have hstands := hf.standsIn hs ht
  have hle := hf.pos_le ht
  have hgoes : ∀ t ∈ r s, s.pos < t.pos → ∀ v ∈ Step.star r greedy t,
      v ∈ Step.plus r greedy s := by
    intro t ht hlt v hv
    refine List.mem_flatMap.mpr ⟨t, ht, ?_⟩
    rwa [if_pos ((before?_iff s t).mpr hlt)]
  by_cases hlt : s.pos < t.pos
  · exact ⟨u, hgoes t ht hlt u hu, rfl⟩
  · have hp : t.pos = s.pos := by omega
    rcases (mem_star hf greedy t u).mp hu with rfl | ⟨w, hw, htw, hu⟩
    · refine ⟨u, List.mem_flatMap.mpr ⟨u, ht, ?_⟩, rfl⟩
      rw [if_neg (fun h => hlt ((before?_iff s u).mp h))]
      exact List.mem_singleton_self u
    · obtain ⟨w', hw', hwp⟩ := hr t s hstands hs hp w hw
      obtain ⟨v, hv, hvp⟩ := hr.star hf hf greedy w w' (hf.standsIn hstands hw)
        (hf.standsIn hs hw') hwp.symm u hu
      exact ⟨v, hgoes w' hw' (by omega) v hv, hvp⟩

theorem reaches_fails (lo : Nat) (greedy : Bool) :
    Reaches txt (Step.atLeast .ends r greedy lo) (Step.atLeast .fails r greedy lo) := by
  have hstar := hr.star hf hf greedy
  refine .of_here (hr.atLeast hf hf .fails greedy lo) fun s hs u hu => ?_
  cases lo with
  | zero =>
    simp only [Step.atLeast, Step.times, List.flatMap_singleton]
    rcases (mem_prefer greedy _ s u).mp hu with hu | rfl
    · obtain ⟨t, ht, hu⟩ := List.mem_flatMap.mp (mem_flatMap_star_of_mem_plus hf hu)
      by_cases hlt : s.pos < t.pos
      · exact ⟨u, (mem_star hf greedy s u).mpr (Or.inr ⟨t, ht, hlt, hu⟩), rfl⟩
      · have hle := hf.pos_le ht
        exact hstar t s (hf.standsIn hs ht) hs (by omega) u hu
    · exact ⟨u, (mem_star hf greedy u u).mpr (Or.inl rfl), rfl⟩
  | succ n =>
    simp only [Step.atLeast, times_succ, List.flatMap_assoc]
    obtain ⟨t, ht, hu⟩ := List.mem_flatMap.mp hu
    exact ⟨u, List.mem_flatMap.mpr ⟨t, ht, mem_flatMap_star_of_mem_plus hf hu⟩, rfl⟩

theorem reaches_ends (lo : Nat) (greedy : Bool) :
    Reaches txt (Step.atLeast .fails r greedy lo) (Step.atLeast .ends r greedy lo) := by
  refine .of_here (hr.atLeast hf hf .ends greedy lo) fun s hs u hu => ?_
  cases lo with
  | zero =>
    simp only [Step.atLeast, Step.times, List.flatMap_singleton] at hu
    refine ⟨u, (mem_prefer greedy _ s u).mpr ?_, rfl⟩
    rcases (mem_star hf greedy s u).mp hu with rfl | ⟨t, ht, hlt, hu⟩
    · exact Or.inr rfl
    · refine Or.inl (List.mem_flatMap.mpr ⟨t, ht, ?_⟩)
      rwa [if_pos ((before?_iff s t).mpr hlt)]
  | succ n =>
    simp only [Step.atLeast, times_succ, List.flatMap_assoc] at hu
    obtain ⟨t, ht, hu⟩ := List.mem_flatMap.mp hu
    obtain ⟨v, hv, hvp⟩ := exists_mem_plus hf hr ((hf.times n).standsIn hs ht) hu
    exact ⟨v, List.mem_flatMap.mpr ⟨t, ht, hv⟩, hvp⟩

/-- Whatever happens to empty turns, a loop reaches the same places. -/
theorem reaches_loop (et et' : EmptyTurn) (lo : Nat) (hi : Option Nat) (greedy : Bool) :
    Reaches txt (Step.loop et r lo hi greedy) (Step.loop et' r lo hi greedy) := by
  have hsame := hr.loop hf hf et lo hi greedy
  cases hi with
  | some m => exact hsame
  | none =>
    cases et <;> cases et' with
    | fails => first | exact hsame | exact reaches_fails hf hr lo greedy
    | ends => first | exact hsame | exact reaches_ends hf hr lo greedy

end Reaches

end Step

namespace Expr

open Step

/-- Plain expressions do not look at groups, and what happens to empty turns does not matter to the
places that they reach. -/
theorem reaches_paths (txt : Text) (e : Expr) (h : e.isPlain = true) (et et' : EmptyTurn) :
    Reaches txt (e.paths et) (e.paths et') := by
  induction e generalizing et et' with
  | empty => exact uniform_stay txt
  | one set anyCase =>
    intro s t hs ht hp u hu
    have hrest := (hs.eq_of_pos ht hp).2
    simp only [paths, hrest] at hu ⊢
    split at hu
    case _ => simp at hu
    case _ c r hr =>
      split at hu
      case isTrue hc =>
        rw [List.mem_singleton] at hu
        refine ⟨t.next, by simp [hc], ?_⟩
        simp [hu, next, hrest, hr, hp]
      case isFalse => simp at hu
  | check a =>
    intro s t hs ht hp u hu
    obtain ⟨hbefore, hrest⟩ := hs.eq_of_pos ht hp
    simp only [paths, hbefore, hrest] at hu ⊢
    split at hu
    case isTrue hc =>
      rw [List.mem_singleton] at hu
      exact ⟨t, by simp [hc], by rw [hu, hp]⟩
    case isFalse => simp at hu
  | cat a b iha ihb =>
    simp only [isPlain, Bool.and_eq_true] at h
    exact (iha h.1 et et').flatMap (forward_paths a et) (forward_paths a et') (ihb h.2 et et')
  | alt a b iha ihb =>
    simp only [isPlain, Bool.and_eq_true] at h
    exact (iha h.1 et et').append (ihb h.2 et et')
  | group i e ih =>
    intro s t hs ht hp u hu
    obtain ⟨x, hx, rfl⟩ := List.mem_map.mp hu
    obtain ⟨v, hv, hvp⟩ := ih h et et' s t hs ht hp x hx
    exact ⟨_, List.mem_map.mpr ⟨v, hv, rfl⟩, hvp⟩
  | loop e lo hi greedy ih =>
    have hf := forward_paths e et'
    exact ((ih h et et').loop (forward_paths e et) hf et lo hi greedy).trans
      (reaches_loop hf (ih h et' et') et et' lo hi greedy)
  | ahead wanted e => simp [isPlain] at h
  | behind wanted n e => simp [isPlain] at h
  | atomic e => simp [isPlain] at h
  | again i => simp [isPlain] at h

theorem uniform_paths (txt : Text) (e : Expr) (h : e.isPlain = true) :
    Uniform txt (e.paths .ends) := reaches_paths txt e h .ends .ends

end Expr

end PathTemplate.Expression
