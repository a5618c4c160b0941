import PathTemplate.Proofs.Search.EmptyTurns
import PathTemplate.Proofs.Search.LoopKeys

/-!
A sweep lists the preferred way to each place that a plain expression reaches, and no other.
-/
namespace PathTemplate.Expression

open State

namespace Step

variable {r : Step}

section Agree

variable {txt : Text} {r' : Step} (hf : Forward r') (hu : Uniform txt r')
  (h : ∀ s, s.StandsIn txt → r s = firsts (r' s))

include hf h in
theorem inside_of_eq_firsts : Inside txt r := by
  intro s t hs ht
  rw [h s hs] at ht
  exact hf.inside txt s t hs (mem_of_mem_firsts ht)

include hu h in
theorem uniform_of_eq_firsts : Uniform txt r := by
  intro s t hs ht hp u hmem
  rw [h s hs] at hmem
  obtain ⟨v, hv, hvp⟩ := hu s t hs ht hp u (mem_of_mem_firsts hmem)
  obtain ⟨v', hv', hvp'⟩ := exists_mem_firsts hv
  exact ⟨v', by rw [h t ht]; exact hv', by omega⟩

include h in
theorem firsts_of_eq_firsts {s : State} (hs : s.StandsIn txt) : firsts (r s) = firsts (r' s) := by
  rw [h s hs, firsts_firsts]

theorem firsts_prefer_congr {as bs : List State} (hab : firsts as = firsts bs) (greedy : Bool)
    (s : State) : firsts (prefer greedy as s) = firsts (prefer greedy bs s) := by
  cases greedy with
  | true => exact firsts_append_congr hab rfl
  | false => exact firsts_append_congr (rfl : firsts [s] = firsts [s]) hab

include hf hu h in
theorem firsts_upTo_congr (greedy : Bool) (n : Nat) {s : State} (hs : s.StandsIn txt) :
    firsts (upTo r greedy n s) = firsts (upTo r' greedy n s) := by
  induction n generalizing s with
  | zero => rfl
  | succ n ih =>
    refine firsts_prefer_congr ?_ greedy s
    exact firsts_flatMap_congr (hu.upTo hf hf greedy n) (fun t ht => ih ht)
      (fun t ht => (inside_of_eq_firsts hf h s t hs ht).1) (fun t ht => hf.standsIn hs ht)
      (firsts_of_eq_firsts h hs)

include h in
theorem taking_eq_firsts {s : State} (hs : s.StandsIn txt) :
    taking r s = firsts (taking r' s) := by
  rw [taking, taking, h s hs, firsts_eq, firsts_eq]
  generalize 0 = seen
  -- A place is either taken up by all its states or by none.
  induction r' s generalizing seen with
  | nil => rfl
  | cons t ts ih =>
    rw [fresh, List.filter_cons]
    by_cases hb : s.before? t = true
    · rw [if_pos hb, fresh]
      split
      · exact ih seen
      · rw [List.filter_cons, if_pos hb, ih]
    · rw [if_neg hb]
      split
      · exact ih seen
      · rw [List.filter_cons, if_neg hb, ih, fresh_mark]
        intro hmem
        obtain ⟨u, hu, hup⟩ := List.mem_map.mp hmem
        rw [List.mem_filter, State.before?_iff] at hu
        rw [State.before?_iff] at hb
        omega

include hf hu h in
theorem firsts_starOnce (greedy : Bool) {s : State} (hs : s.StandsIn txt) :
    firsts (starOnce r greedy s) = firsts (star r' greedy s) := by
  rw [starOnce_eq (inside_of_eq_firsts hf h) (uniform_of_eq_firsts hu h) hs, firsts_firsts]
  exact firsts_upTo_congr hf.taking hu.taking (fun t ht => taking_eq_firsts h ht) greedy _ hs

include hf hu h in
theorem plusOnce_eq (greedy : Bool) {s : State} (hs : s.StandsIn txt) :
    plusOnce r greedy s = firsts (plus r' greedy s) := by
  have hcont : Uniform txt fun t => if s.before? t then star r' greedy t else [t] := by
    intro t u ht hu' hp
    have hsame : s.before? t = s.before? u := by simp [State.before?, hp]
    simp only [hsame]
    split
    · exact hu.star hf hf greedy t u ht hu' hp
    · exact uniform_stay txt t u ht hu' hp
  refine firsts_flatMap_congr hcont (fun t ht => ?_)
    (fun t ht => (inside_of_eq_firsts hf h s t hs ht).1) (fun t ht => hf.standsIn hs ht)
    (firsts_of_eq_firsts h hs)
  split
  · exact firsts_starOnce hf hu h greedy ht
  · rfl

include hf hu h in
theorem firsts_timesOnce (n : Nat) {ss : List State} (hss : ∀ s ∈ ss, s.StandsIn txt) :
    (∀ s ∈ timesOnce r n ss, s.StandsIn txt) ∧
      firsts (timesOnce r n ss) = firsts (ss.flatMap (times r' n)) := by
  induction n generalizing ss with
  | zero =>
    refine ⟨hss, ?_⟩
    rw [timesOnce, show times r' 0 = fun s => [s] from rfl, List.flatMap_singleton']
  | succ n ih =>
    have hmid : ∀ t ∈ ss.flatMap r, t.StandsIn txt := by
      intro t ht
      obtain ⟨s, hs, ht⟩ := List.mem_flatMap.mp ht
      exact (inside_of_eq_firsts hf h s t (hss s hs) ht).1
    have hmid' : ∀ t ∈ ss.flatMap r', t.StandsIn txt := by
      intro t ht
      obtain ⟨s, hs, ht⟩ := List.mem_flatMap.mp ht
      exact hf.standsIn (hss s hs) ht
    have heq : firsts (ss.flatMap r) = firsts (ss.flatMap r') :=
      firsts_flatMap_congr hu (fun t ht => firsts_of_eq_firsts h ht) hss hss rfl
    obtain ⟨hstands, hfirsts⟩ := ih fun t ht => hmid t (mem_of_mem_firsts ht)
    refine ⟨hstands, ?_⟩
    rw [timesOnce, hfirsts, show times r' (n + 1) = fun s => (r' s).flatMap (times r' n) from rfl,
      ← List.flatMap_assoc]
    exact firsts_flatMap_congr (hu.times hf hf n) (fun _ _ => rfl)
      (fun t ht => hmid t (mem_of_mem_firsts ht)) hmid' (by rw [firsts_firsts, heq])

include hf hu h in
theorem loopOnce_eq (lo : Nat) (hi : Option Nat) (greedy : Bool) {s : State}
    (hs : s.StandsIn txt) : loopOnce r lo hi greedy s = firsts (loop .ends r' lo hi greedy s) := by
  have hone : ∀ t ∈ [s], t.StandsIn txt := by simpa using hs
  have htimes : ∀ n, firsts (timesOnce r n [s]) = firsts (times r' n s) := by
    intro n
    simpa using (firsts_timesOnce hf hu h n hone).2
  have hstands : ∀ n, ∀ t ∈ timesOnce r n [s], t.StandsIn txt := fun n =>
    (firsts_timesOnce hf hu h n hone).1
  cases hi with
  | none =>
    cases lo with
    | zero =>
      exact firsts_prefer_congr (by rw [plusOnce_eq hf hu h greedy hs, firsts_firsts]) greedy s
    | succ n =>
      exact firsts_flatMap_congr (hu.plus hf hf greedy)
        (fun t ht => by rw [plusOnce_eq hf hu h greedy ht, firsts_firsts]) (hstands n)
        (fun t ht => (hf.times n).standsIn hs ht) (htimes n)
  | some n =>
    have hinside := inside_of_eq_firsts hf h
    have huniform := uniform_of_eq_firsts hu h
    refine firsts_flatMap_congr (hu.upTo hf hf greedy (n - lo)) (fun t ht => ?_)
      (hstands (min lo n)) (fun t ht => (hf.times (min lo n)).standsIn hs ht) (htimes (min lo n))
    rw [limitedOnce_eq hinside huniform ht, firsts_firsts]
    exact firsts_upTo_congr hf hu h greedy (n - lo) ht

end Agree

end Step

/-- A sweep lists the preferred way to each place that the expression reaches. -/
theorem Expr.sweep_eq_firsts {txt : Text} {e : Expr} (he : e.isPlain = true) {s : State}
    (hs : s.StandsIn txt) : e.sweep s = firsts (e.paths .ends s) := by
  induction e generalizing s with
  | empty => exact (firsts_singleton s).symm
  | one set anyCase =>
    simp only [sweep, paths]
    split
    · rfl
    · split
      · exact (firsts_singleton _).symm
      · rfl
  | check a =>
    simp only [sweep, paths]
    split
    · exact (firsts_singleton s).symm
    · rfl
  | cat a b iha ihb =>
    simp only [isPlain, Bool.and_eq_true] at he
    refine firsts_flatMap_congr (uniform_paths txt b he.2)
      (fun t ht => by rw [ihb he.2 ht, firsts_firsts]) (fun t ht => ?_)
      (fun t ht => (forward_paths a .ends).standsIn hs ht) (by rw [iha he.1 hs, firsts_firsts])
    rw [iha he.1 hs] at ht
    exact (forward_paths a .ends).standsIn hs (mem_of_mem_firsts ht)
  | alt a b iha ihb =>
    simp only [isPlain, Bool.and_eq_true] at he
    exact firsts_append_congr (by rw [iha he.1 hs, firsts_firsts])
      (by rw [ihb he.2 hs, firsts_firsts])
  | group i e ih =>
    rw [sweep, ih he hs]
    have hpos : ∀ t, (State.close i s t).pos = t.pos := fun _ => rfl
    exact (firsts_map hpos _).symm
  | loop e lo hi greedy ih =>
    exact Step.loopOnce_eq (forward_paths e .ends) (uniform_paths txt e he)
      (fun t ht => ih he ht) lo hi greedy hs
  | ahead wanted e => simp [isPlain] at he
  | behind wanted n e => simp [isPlain] at he
  | atomic e => simp [isPlain] at he
  | again i => simp [isPlain] at he

end PathTemplate.Expression
