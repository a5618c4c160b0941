import PathTemplate.Expression.Sweep
import PathTemplate.Proofs.Search.Place

/-!
Sets of numbers kept as bits, and the elements of a list that bring a key for the first time.
Keeping the first state at each place is a congruence for steps in sequence: it may be done
anywhere in between without changing what is first in the end.
-/
namespace PathTemplate.Expression

def mark (seen k : Nat) : Nat := seen ||| 1 <<< k

def markAll (seen : Nat) (ks : List Nat) : Nat := ks.foldl mark seen

theorem testBit_mark (seen k j : Nat) :
    (mark seen k).testBit j = (seen.testBit j || decide (k = j)) := by
  rw [mark, Nat.testBit_or, Nat.shiftLeft_eq, Nat.one_mul, Nat.testBit_two_pow]

theorem testBit_markAll (seen : Nat) (ks : List Nat) (j : Nat) :
    (markAll seen ks).testBit j = (seen.testBit j || decide (j ∈ ks)) := by
  induction ks generalizing seen with
  | nil => simp [markAll]
  | cons k ks ih =>
    have h := ih (mark seen k)
    rw [testBit_mark, Bool.or_assoc] at h
    refine h.trans ?_
    by_cases hk : k = j
    · simp [hk]
    · simp [hk, Ne.symm hk]

theorem markAll_append (seen : Nat) (ks js : List Nat) :
    markAll seen (ks ++ js) = markAll (markAll seen ks) js := List.foldl_append

theorem markAll_congr {seen : Nat} {ks js : List Nat} (h : ∀ j, j ∈ ks ↔ j ∈ js) :
    markAll seen ks = markAll seen js := by
  apply Nat.eq_of_testBit_eq
  intro j
  simp only [testBit_markAll, h j]

theorem markAll_eq_self {seen : Nat} {ks : List Nat} (h : ∀ k ∈ ks, seen.testBit k = true) :
    markAll seen ks = seen := by
  apply Nat.eq_of_testBit_eq
  intro j
  rw [testBit_markAll]
  by_cases hj : j ∈ ks
  · simp [h j hj]
  · simp [hj]

theorem mark_eq_self {seen k : Nat} (h : seen.testBit k = true) : mark seen k = seen := by
  apply Nat.eq_of_testBit_eq
  intro j
  rw [testBit_mark]
  by_cases hj : k = j
  · simp [← hj, h]
  · simp [hj]

section Fresh

variable {α : Type} (key : α → Nat)

/-- The elements whose key is neither in the set nor the key of an earlier element. -/
def fresh : Nat → List α → List α
  | _, [] => []
  | seen, a :: as =>
    if seen.testBit (key a) then fresh seen as else a :: fresh (mark seen (key a)) as

theorem fresh_append (seen : Nat) (as bs : List α) :
    fresh key seen (as ++ bs) =
      fresh key seen as ++ fresh key (markAll seen (as.map key)) bs := by
  induction as generalizing seen with
  | nil => rfl
  | cons a as ih =>
    simp only [List.cons_append, fresh, List.map_cons]
    by_cases ha : seen.testBit (key a) = true
    · rw [if_pos ha, if_pos ha, ih, markAll, markAll, List.foldl_cons, mark_eq_self ha]
    · rw [if_neg ha, if_neg ha, ih, List.cons_append]
      rfl

theorem fresh_eq_nil {seen : Nat} {as : List α} (h : ∀ a ∈ as, seen.testBit (key a) = true) :
    fresh key seen as = [] := by
  induction as with
  | nil => rfl
  | cons a as ih =>
    rw [fresh, if_pos (h a List.mem_cons_self)]
    exact ih fun b hb => h b (List.mem_cons_of_mem a hb)

/-- Marking keys that do not occur changes nothing. -/
theorem fresh_mark {seen k : Nat} {as : List α} (h : k ∉ as.map key) :
    fresh key (mark seen k) as = fresh key seen as := by
  induction as generalizing seen with
  | nil => rfl
  | cons a as ih =>
    simp only [List.map_cons, List.mem_cons, not_or] at h
    have hbit : (mark seen k).testBit (key a) = seen.testBit (key a) := by
      simp [testBit_mark, h.1]
    have hswap : mark (mark seen k) (key a) = mark (mark seen (key a)) k := by
      simp only [mark, Nat.or_assoc, Nat.or_comm (1 <<< k)]
    rw [fresh, fresh, hbit, hswap, ih h.2, ih h.2]

theorem mem_of_mem_fresh {seen : Nat} {as : List α} {a : α} (h : a ∈ fresh key seen as) :
    a ∈ as := by
  induction as generalizing seen with
  | nil => exact h
  | cons b as ih =>
    rw [fresh] at h
    split at h
    · exact List.mem_cons_of_mem b (ih h)
    · rcases List.mem_cons.mp h with h | h
      · exact h ▸ List.mem_cons_self
      · exact List.mem_cons_of_mem b (ih h)

/-- Every key that is not in the set is still brought by some element. -/
theorem mem_map_fresh (seen : Nat) (as : List α) (k : Nat) :
    k ∈ (fresh key seen as).map key ↔ k ∈ as.map key ∧ seen.testBit k = false := by
  induction as generalizing seen with
  | nil => simp [fresh]
  | cons a as ih =>
    rw [fresh]
    split
    case isTrue ha =>
      rw [ih, List.map_cons, List.mem_cons]
      constructor
      · exact fun h => ⟨Or.inr h.1, h.2⟩
      · rintro ⟨h | h, hk⟩
        · rw [h, ha] at hk
          cases hk
        · exact ⟨h, hk⟩
    case isFalse ha =>
      rw [Bool.not_eq_true] at ha
      rw [List.map_cons, List.mem_cons, ih, testBit_mark, List.map_cons, List.mem_cons]
      by_cases hk : key a = k
      · simp [← hk, ha]
      · simp [hk, Ne.symm hk]

/-- Keys that agree wherever `q` agrees may first be thinned out by `q`. -/
theorem fresh_fresh {q : α → Nat} {as : List α} (hq : ∀ a ∈ as, ∀ b ∈ as, q a = q b → key a = key b)
    (seen : Nat) : fresh key seen (fresh q 0 as) = fresh key seen as := by
  suffices ∀ thin, (∀ a ∈ as, thin.testBit (q a) = true → seen.testBit (key a) = true) →
      fresh key seen (fresh q thin as) = fresh key seen as from
    this 0 (by simp)
  induction as generalizing seen with
  | nil => intro _ _; rfl
  | cons a as ih =>
    intro thin hthin
    have hq' : ∀ b ∈ as, ∀ c ∈ as, q b = q c → key b = key c := fun b hb c hc =>
      hq b (List.mem_cons_of_mem a hb) c (List.mem_cons_of_mem a hc)
    have htail : ∀ b ∈ as, thin.testBit (q b) = true → seen.testBit (key b) = true :=
      fun b hb => hthin b (List.mem_cons_of_mem a hb)
    by_cases ha : seen.testBit (key a) = true
    · -- The element is dropped in the end, whether or not it is dropped now.
      have hgo : ∀ b ∈ as, (mark thin (q a)).testBit (q b) = true →
          seen.testBit (key b) = true := by
        intro b hb h
        rw [testBit_mark, Bool.or_eq_true, decide_eq_true_eq] at h
        rcases h with h | h
        · exact htail b hb h
        · rw [← hq a List.mem_cons_self b (List.mem_cons_of_mem a hb) h]
          exact ha
      rw [fresh, fresh, if_pos ha]
      split
      · exact ih hq' seen thin htail
      · rw [fresh, if_pos ha]
        exact ih hq' seen _ hgo
    · have hnot : ¬ thin.testBit (q a) = true := fun h => ha (hthin a List.mem_cons_self h)
      rw [fresh, fresh, if_neg ha, if_neg hnot, fresh, if_neg ha]
      congr 1
      apply ih hq'
      intro b hb h
      rw [testBit_mark, Bool.or_eq_true, decide_eq_true_eq] at h ⊢
      rcases h with h | h
      · exact Or.inl (htail b hb h)
      · exact Or.inr (hq a List.mem_cons_self b (List.mem_cons_of_mem a hb) h)

theorem fresh_map {β : Type} (f : β → α) (seen : Nat) (bs : List β) :
    fresh key seen (bs.map f) = (fresh (fun b => key (f b)) seen bs).map f := by
  induction bs generalizing seen with
  | nil => rfl
  | cons b bs ih =>
    rw [List.map_cons, fresh, fresh]
    split
    · exact ih seen
    · rw [ih, List.map_cons]

theorem fresh_congr {q : α → Nat} {as : List α} (h : ∀ a ∈ as, key a = q a) (seen : Nat) :
    fresh key seen as = fresh q seen as := by
  induction as generalizing seen with
  | nil => rfl
  | cons a as ih =>
    have hrest := ih fun b hb => h b (List.mem_cons_of_mem a hb)
    rw [fresh, fresh, h a List.mem_cons_self, hrest, hrest]

end Fresh

/-! ### The first state at each place -/

theorem foldl_add (w : Swept) (ss : List State) :
    ss.foldl Swept.add w =
      ⟨(fresh State.pos w.seen ss).reverse ++ w.found, markAll w.seen (ss.map State.pos)⟩ := by
  induction ss generalizing w with
  | nil => rfl
  | cons s ss ih =>
    rw [List.foldl_cons, ih, fresh, List.map_cons, markAll, markAll, List.foldl_cons, Swept.add]
    by_cases hs : w.seen.testBit s.pos = true
    · rw [if_pos hs, if_pos hs, mark_eq_self hs]
    · rw [if_neg hs, if_neg hs]
      simp [mark]

theorem firsts_eq (ss : List State) : firsts ss = fresh State.pos 0 ss := by
  rw [firsts, foldl_add]
  simp

theorem head?_firsts (ss : List State) : (firsts ss).head? = ss.head? := by
  cases ss with
  | nil => rfl
  | cons s ss =>
    rw [firsts_eq, fresh, if_neg (by simp)]
    rfl

theorem firsts_singleton (s : State) : firsts [s] = [s] := by
  rw [firsts_eq, fresh, if_neg (by simp)]
  rfl

theorem firsts_firsts (ss : List State) : firsts (firsts ss) = firsts ss := by
  rw [firsts_eq, firsts_eq]
  exact fresh_fresh State.pos (fun _ _ _ _ h => h) 0

theorem mem_of_mem_firsts {ss : List State} {s : State} (h : s ∈ firsts ss) : s ∈ ss := by
  rw [firsts_eq] at h
  exact mem_of_mem_fresh State.pos h

theorem exists_mem_firsts {ss : List State} {s : State} (h : s ∈ ss) :
    ∃ t ∈ firsts ss, t.pos = s.pos := by
  have hk := (mem_map_fresh State.pos 0 ss s.pos).mpr ⟨List.mem_map_of_mem h, by simp⟩
  rw [← firsts_eq] at hk
  exact List.mem_map.mp hk

theorem firsts_map {f : State → State} (hf : ∀ s, (f s).pos = s.pos) (ss : List State) :
    firsts (ss.map f) = (firsts ss).map f := by
  rw [firsts_eq, firsts_eq, fresh_map]
  simp only [hf]

private theorem fresh_append_firsts (seen : Nat) (as bs : List State) :
    fresh State.pos seen (as ++ bs) = fresh State.pos seen (firsts as ++ bs) := by
  have hset : markAll seen (as.map State.pos) = markAll seen ((firsts as).map State.pos) := by
    apply markAll_congr
    intro j
    rw [firsts_eq, mem_map_fresh]
    simp
  rw [fresh_append, fresh_append, hset, firsts_eq, fresh_fresh State.pos (fun _ _ _ _ h => h)]

theorem firsts_append_congr {as bs cs ds : List State} (h : firsts as = firsts bs)
    (h' : firsts cs = firsts ds) : firsts (as ++ cs) = firsts (bs ++ ds) := by
  have hset : markAll 0 ((firsts bs).map State.pos) = markAll 0 (bs.map State.pos) := by
    apply markAll_congr
    intro j
    rw [firsts_eq, mem_map_fresh]
    simp
  have hc : ∀ seen, fresh State.pos seen cs = fresh State.pos seen ds := by
    intro seen
    have hcs := fresh_append_firsts seen cs []
    have hds := fresh_append_firsts seen ds []
    rw [List.append_nil, List.append_nil] at hcs hds
    rw [hcs, hds, h']
  rw [firsts_eq, firsts_eq, fresh_append_firsts, h, ← fresh_append_firsts, fresh_append,
    fresh_append, hc]

/-- States with the same first ones reach the same places. -/
private theorem markAll_pos_congr {ss ss' : List State} (h : firsts ss = firsts ss') (seen : Nat) :
    markAll seen (ss.map State.pos) = markAll seen (ss'.map State.pos) := by
  apply markAll_congr
  intro j
  have h1 := mem_map_fresh State.pos 0 ss j
  have h2 := mem_map_fresh State.pos 0 ss' j
  rw [← firsts_eq] at h1 h2
  rw [h] at h1
  simpa using h1.symm.trans h2

/-- A step with the same first states as a uniform one reaches the same places from the same
place. -/
private theorem pos_mem_of_firsts {txt : Text} {r r' : Step} (hr : Step.Uniform txt r')
    (h : ∀ s, s.StandsIn txt → firsts (r s) = firsts (r' s)) {s t : State} (hs : s.StandsIn txt)
    (ht : t.StandsIn txt) (hp : s.pos = t.pos) :
    ∀ j ∈ (r s).map State.pos, j ∈ (r t).map State.pos := by
  intro j hj
  obtain ⟨u, hu, rfl⟩ := List.mem_map.mp hj
  obtain ⟨u', hu', hpu⟩ := exists_mem_firsts hu
  rw [h s hs] at hu'
  obtain ⟨v, hv, hpv⟩ := hr s t hs ht hp u' (mem_of_mem_firsts hu')
  obtain ⟨v', hv', hpv'⟩ := exists_mem_firsts hv
  rw [← h t ht] at hv'
  exact List.mem_map.mpr ⟨v', mem_of_mem_firsts hv', by omega⟩

/-- What follows a step depends on the place it reached alone, so the first state at each place is
enough to go on from. -/
theorem firsts_flatMap {txt : Text} {r r' : Step} (hr : Step.Uniform txt r')
    (h : ∀ s, s.StandsIn txt → firsts (r s) = firsts (r' s)) {ss : List State}
    (hss : ∀ s ∈ ss, s.StandsIn txt) :
    firsts (ss.flatMap r) = firsts ((firsts ss).flatMap r') := by
  rw [firsts_eq, firsts_eq, firsts_eq]
  -- The places of `seen` hold those that are reached from the states at the places of `from_`.
  suffices ∀ seen from_, (∀ s ∈ ss, from_.testBit s.pos = true →
      ∀ j ∈ (r s).map State.pos, seen.testBit j = true) →
      fresh State.pos seen (ss.flatMap r) =
        fresh State.pos seen ((fresh State.pos from_ ss).flatMap r') from
    this 0 0 (by simp)
  induction ss with
  | nil => intro _ _ _; rfl
  | cons s ss ih =>
    intro seen from_ hdone
    obtain ⟨hs, hss⟩ := List.forall_mem_cons.mp hss
    rw [List.flatMap_cons, fresh]
    by_cases hp : from_.testBit s.pos = true
    · have hseen := hdone s List.mem_cons_self hp
      rw [if_pos hp, fresh_append,
        fresh_eq_nil State.pos fun t ht => hseen _ (List.mem_map_of_mem ht),
        markAll_eq_self hseen, List.nil_append]
      exact ih hss seen from_ fun t ht => hdone t (List.mem_cons_of_mem s ht)
    · rw [if_neg hp, List.flatMap_cons, fresh_append_firsts, h s hs, ← fresh_append_firsts,
        fresh_append, fresh_append]
      congr 1
      -- The places reached from `s` are marked together with the place of `s` itself.
      rw [← markAll_pos_congr (h s hs)]
      apply ih hss
      intro t ht hpt j hj
      rw [testBit_mark, Bool.or_eq_true, decide_eq_true_eq] at hpt
      rw [testBit_markAll, Bool.or_eq_true, decide_eq_true_eq]
      rcases hpt with hpt | hpt
      · exact Or.inl (hdone t (List.mem_cons_of_mem s ht) hpt j hj)
      · exact Or.inr (pos_mem_of_firsts hr h (hss t ht) hs hpt.symm j hj)

theorem firsts_flatMap_congr {txt : Text} {r r' : Step} (hr : Step.Uniform txt r')
    (h : ∀ s, s.StandsIn txt → firsts (r s) = firsts (r' s)) {ss ss' : List State}
    (hss : ∀ s ∈ ss, s.StandsIn txt) (hss' : ∀ s ∈ ss', s.StandsIn txt)
    (heq : firsts ss = firsts ss') : firsts (ss.flatMap r) = firsts (ss'.flatMap r') := by
  rw [firsts_flatMap hr h hss, heq, ← firsts_flatMap hr (fun _ _ => rfl) hss']

end PathTemplate.Expression
