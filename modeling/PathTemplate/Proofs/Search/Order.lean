import PathTemplate.Proofs.Search.EmptyTurns
import PathTemplate.Proofs.Search.Transport

/-!
In which order the places come that an expression reaches. Lazy runs go further and further, and
what is left out greedily goes back. The first way through two steps is the first way through the
second one from the first place where there is any.
-/
namespace PathTemplate.Expression

section First

variable {α β : Type} {R : α → α → Prop}

/-- The first member of a list comes before every other one. -/
theorem eq_or_rel_of_head? {l : List α} {q x : α} (hl : l.Pairwise R) (hq : l.head? = some q)
    (hx : x ∈ l) : x = q ∨ R q x := by
  cases l with
  | nil => cases hq
  | cons y l =>
    obtain rfl : y = q := Option.some.inj hq
    rcases List.mem_cons.mp hx with rfl | hx
    · exact Or.inl rfl
    · exact Or.inr ((List.pairwise_cons.mp hl).1 x hx)

/-- What comes first of all comes from the first member that has anything. -/
theorem exists_head?_of_flatMap {l : List α} {f : α → List β} {q : β} {x : α}
    (hl : l.Pairwise R) (hq : (l.flatMap f).head? = some q) (hx : x ∈ l) (hne : f x ≠ []) :
    ∃ r ∈ l, (f r).head? = some q ∧ (x = r ∨ R r x) := by
  rw [List.head?_flatMap] at hq
  obtain ⟨early, r, late, rfl, hr, hnone⟩ := List.findSome?_eq_some_iff.mp hq
  refine ⟨r, by simp, hr, ?_⟩
  rcases List.mem_append.mp hx with hx | hx
  · exact absurd (List.head?_eq_none_iff.mp (hnone x hx)) hne
  · exact eq_or_rel_of_head? (List.pairwise_append.mp hl).2.1 rfl hx

end First

namespace Step

def Ascends (r : Step) : Prop := ∀ s, (r s).Pairwise fun t u => t.pos < u.pos

def Descends (r : Step) : Prop := ∀ s, (r s).Pairwise fun t u => u.pos ≤ t.pos

def Wide (n : Nat) (r : Step) : Prop := ∀ s, ∀ t ∈ r s, t.pos = s.pos + n

section Wide

variable {a b r : Step} {n m : Nat}

theorem wide_stay : Wide 0 fun s => [s] := by
  intro s t ht
  rw [List.mem_singleton.mp ht, Nat.add_zero]

theorem Wide.flatMap (ha : Wide n a) (hb : Wide m b) :
    Wide (n + m) fun s => (a s).flatMap b := by
  intro s t ht
  obtain ⟨u, hu, ht⟩ := List.mem_flatMap.mp ht
  rw [hb u t ht, ha s u hu, Nat.add_assoc]

theorem Wide.descends (h : Wide n r) : Descends r := by
  intro s
  refine List.pairwise_of_forall_mem_list fun t ht u hu => ?_
  exact Nat.le_of_eq ((h s u hu).trans (h s t ht).symm)

/-- What is taken rather than left out comes first. -/
theorem Wide.descends_optional (h : Wide n r) (et : EmptyTurn) :
    Descends (Step.loop et r 0 (some 1) true) := by
  intro s
  have hways : Step.loop et r 0 (some 1) true s = r s ++ [s] := by
    simp [Step.loop, Step.times, Step.upTo, Step.prefer]
  rw [hways]
  refine List.pairwise_append.mpr ⟨h.descends s, List.pairwise_singleton _ s, ?_⟩
  intro t ht u hu
  rw [List.mem_singleton.mp hu, h s t ht]
  exact Nat.le_add_right s.pos n

theorem Descends.flatMap (ha : Descends a) (hb : Wide 0 b) :
    Descends fun s => (a s).flatMap b := by
  intro s
  refine List.pairwise_flatMap.mpr ⟨fun t _ => hb.descends t, (ha s).imp ?_⟩
  intro t u htu x hx y hy
  rwa [hb t x hx, hb u y hy]

end Wide

section Ascends

variable {a b r : Step}

theorem length_flatMap_le {n : Nat} (ha : ∀ s, (a s).length ≤ 1) (hb : ∀ s, (b s).length ≤ n)
    (s : State) : ((a s).flatMap b).length ≤ n := by
  have hone := ha s
  match hways : a s with
  | [] => simp
  | [t] => simpa using hb t
  | t :: u :: l => simp [hways] at hone

/-- A step with one way at most goes before one that ascends. -/
theorem Ascends.after (ha : ∀ s, (a s).length ≤ 1) (hb : Ascends b) :
    Ascends fun s => (a s).flatMap b := by
  intro s
  have hone := ha s
  match hways : a s with
  | [] => simp [hways]
  | [t] => simpa [hways] using hb t
  | t :: u :: l => simp [hways] at hone

theorem Ascends.group (h : Ascends r) (i : Nat) : Ascends fun s => (r s).map (State.close i s) :=
  fun s => List.pairwise_map.mpr (h s)

/-- Fewer turns of a lazy loop come before more. -/
private theorem ascends_turns (hone : ∀ s, (r s).length ≤ 1) (n : Nat) (s : State) :
    (Step.upTo (Step.taking r) false n s).Pairwise (fun t u => t.pos < u.pos) ∧
      ∀ t ∈ Step.upTo (Step.taking r) false n s, s.pos ≤ t.pos := by
  induction n generalizing s with
  | zero =>
    refine ⟨List.pairwise_singleton _ s, fun t ht => ?_⟩
    exact Nat.le_of_eq (congrArg State.pos (List.mem_singleton.mp ht).symm)
  | succ n ih =>
    have hturn : (Step.taking r s).length ≤ 1 :=
      Nat.le_trans (List.length_filter_le _ _) (hone s)
    rw [Step.upTo, Step.prefer, if_neg Bool.false_ne_true]
    rcases hways : Step.taking r s with _ | ⟨t, l⟩
    · simp
    · obtain rfl : l = [] := by
        rw [hways, List.length_cons] at hturn
        exact List.length_eq_zero_iff.mp (by omega)
      have hlt : s.pos < t.pos := ((mem_taking r s t).mp (hways ▸ List.mem_singleton_self t)).2
      rw [List.flatMap_singleton]
      refine ⟨List.pairwise_cons.mpr ⟨fun u hu => ?_, (ih t).1⟩, fun u hu => ?_⟩
      · exact Nat.lt_of_lt_of_le hlt ((ih t).2 u hu)
      · rcases List.mem_cons.mp hu with rfl | hu
        · exact Nat.le_refl _
        · exact Nat.le_of_lt (Nat.lt_of_lt_of_le hlt ((ih t).2 u hu))

/-- Places that go further and further are no more than there are up to the last one. -/
private theorem length_add_le {rs : List State} (hrs : rs.Pairwise fun t u => t.pos < u.pos)
    (n m : Nat) (hle : ∀ t ∈ rs, n ≤ t.pos ∧ t.pos ≤ m) (hnm : n ≤ m + 1) :
    rs.length + n ≤ m + 1 := by
  induction rs generalizing n with
  | nil => simpa using hnm
  | cons t rs ih =>
    obtain ⟨hfirst, hrest⟩ := List.pairwise_cons.mp hrs
    obtain ⟨ht, ht'⟩ := hle t List.mem_cons_self
    have hlater := ih hrest (t.pos + 1)
      (fun u hu => ⟨hfirst u hu, (hle u (List.mem_cons_of_mem t hu)).2⟩) (by omega)
    rw [List.length_cons]
    omega

/-- A step that ascends has no more ways than the rest of the text has places. -/
theorem Ascends.length_le (h : Ascends r) (hf : Forward r) (s : State) :
    (r s).length ≤ s.rest.length + 1 := by
  have hle : ∀ t ∈ r s, s.pos ≤ t.pos ∧ t.pos ≤ s.pos + s.rest.length := by
    intro t ht
    obtain ⟨w, hw⟩ := hf s t ht
    rw [hw.pos, hw.rest, List.length_append]
    omega
  have := length_add_le (h s) s.pos (s.pos + s.rest.length) hle (by omega)
  omega

end Ascends

end Step

open Step

section Expressions

variable (x : CharSet) (anyCase : Bool) (et : EmptyTurn)

theorem length_paths_one_le (s : State) : ((Expr.one x anyCase).paths et s).length ≤ 1 := by
  rw [Expr.paths]
  split
  · exact Nat.zero_le 1
  · split <;> simp

theorem wide_one : Wide 1 ((Expr.one x anyCase).paths et) := by
  intro s t ht
  obtain ⟨b, _ | ⟨c, w⟩, p, gs⟩ := s
  · cases ht
  · simp only [Expr.paths] at ht
    split at ht
    · rw [List.mem_singleton.mp ht]
      rfl
    · cases ht

theorem wide_check (y : Assertion) : Wide 0 ((Expr.check y).paths et) := by
  intro s t ht
  rw [Expr.paths] at ht
  split at ht
  · exact wide_stay s t ht
  · cases ht

theorem wide_ahead (e : Expr) : Wide 0 ((Expr.ahead true e).paths et) := by
  intro s t ht
  obtain ⟨u, -, rfl⟩ := List.mem_map.mp ht
  rfl

/-- A lazy run of characters goes further and further. -/
theorem ascends_run : Ascends ((Expr.loop (.one x anyCase) 1 none false).paths et) := by
  have hloop : (Expr.loop (.one x anyCase) 1 none false).paths et = fun s =>
      ((Expr.one x anyCase).paths et s).flatMap
        (Step.star ((Expr.one x anyCase).paths et) false) := by
    have hfails := Step.loop_eq_fails (Expr.forward_paths (.one x anyCase) et)
      (Expr.consumes_one x anyCase et) et 1 none false
    refine hfails.trans (funext fun s => ?_)
    simp only [Step.loop, Step.atLeast, Step.times, List.flatMap_singleton']
  rw [hloop]
  exact Ascends.after (length_paths_one_le x anyCase et)
    fun s => (ascends_turns (length_paths_one_le x anyCase et) s.rest.length s).1

end Expressions

end PathTemplate.Expression
