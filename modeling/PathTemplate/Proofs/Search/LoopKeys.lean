import PathTemplate.Proofs.Search.Pruning

/-!
The two kinds of key by which loops are pruned. When every turn takes something, the place alone
decides how a loop goes on; in a loop of limited length, the place and the number of turns left.
-/
namespace PathTemplate.Expression

open State

namespace Step

variable {r : Step} {greedy : Bool}

def Inside (txt : Text) (r : Step) : Prop :=
  ∀ s t, s.StandsIn txt → t ∈ r s → t.StandsIn txt ∧ s.pos ≤ t.pos

theorem Forward.inside (hr : Forward r) (txt : Text) : Inside txt r :=
  fun _ _ hs ht => ⟨hr.standsIn hs ht, hr.pos_le ht⟩

theorem Inside.taking {txt : Text} (hr : Inside txt r) : Inside txt (Step.taking r) :=
  fun s t hs ht => hr s t hs ((mem_taking r s t).mp ht).1

section Star

variable {txt : Text} (hf : Inside txt r) (hu : Uniform txt r)

def Enough (txt : Text) (n : Nat) (s : State) : Prop := s.StandsIn txt ∧ s.rest.length ≤ n

include hf in
theorem enough_taking {n : Nat} {s t : State} (hs : Enough txt (n + 1) s) (ht : t ∈ taking r s) :
    Enough txt n t := by
  have hstands := (hf.taking s t hs.1 ht).1
  have hlt := ((mem_taking r s t).mp ht).2
  have h1 := hs.1.length
  have h2 := hstands.length
  have h3 := hs.2
  exact ⟨hstands, by omega⟩

include hf in
theorem pos_le_of_mem_keys {n : Nat} {s : State} (hs : Enough txt n s) {k : Nat}
    (hk : k ∈ keys (taking r) greedy (fun _ t => t.pos) n s) : s.pos ≤ k := by
  induction n generalizing s with
  | zero =>
    simp only [keys, tagged, List.map_cons, List.map_nil, List.mem_singleton] at hk
    omega
  | succ n ih =>
    rcases (mem_keys_succ ..).mp hk with hk | ⟨t, ht, hk⟩
    · omega
    · have hle := ih (enough_taking hf hs ht) hk
      have hlt := ((mem_taking r s t).mp ht).2
      omega

include hf hu in
/-- With enough turns left the place alone decides which places are listed. -/
theorem keys_taking_subset {n m : Nat} {s t : State} (hs : Enough txt n s) (ht : Enough txt m t)
    (hp : s.pos = t.pos) {k : Nat} (hk : k ∈ keys (taking r) greedy (fun _ t => t.pos) n s) :
    k ∈ keys (taking r) greedy (fun _ t => t.pos) m t := by
  have hself := key_mem_keys (taking r) greedy (fun _ t => t.pos) m t
  induction n generalizing s m t with
  | zero =>
    simp only [keys, tagged, List.map_cons, List.map_nil, List.mem_singleton] at hk
    rw [hk, hp]
    exact hself
  | succ n ih =>
    rcases (mem_keys_succ ..).mp hk with hk | ⟨u, hu', hk⟩
    · rw [hk, hp]
      exact hself
    · obtain ⟨v, hv, hvp⟩ := hu.taking s t hs.1 ht.1 hp u hu'
      cases m with
      | zero =>
        have h1 := ht.1.length
        have h2 := (hf.taking t v ht.1 hv).1.length
        have h3 := ((mem_taking r t v).mp hv).2
        have h4 := ht.2
        omega
      | succ m =>
        have hv' := enough_taking hf ht hv
        refine (mem_keys_succ ..).mpr (Or.inr ⟨v, hv, ?_⟩)
        exact ih (enough_taking hf hs hu') hv' hvp.symm hk (key_mem_keys ..)

include hf hu in
theorem telling_taking (greedy : Bool) :
    Telling (taking r) greedy (fun _ t => t.pos) (Enough txt) where
  child _ _ _ hs ht := enough_taking hf hs ht
  apart n s t hs ht hk := by
    have hle := pos_le_of_mem_keys hf (enough_taking hf hs ht) hk
    have hlt := ((mem_taking r s t).mp ht).2
    omega
  known n s m t hs ht hk k hmem := by
    induction n generalizing s with
    | zero =>
      simp only [keys, tagged, List.map_cons, List.map_nil, List.mem_singleton] at hk
      exact keys_taking_subset hf hu ht hs hk hmem
    | succ n ih =>
      rcases (mem_keys_succ ..).mp hk with hk | ⟨u, hu', hk⟩
      · exact keys_taking_subset hf hu ht hs hk hmem
      · exact (mem_keys_succ ..).mpr (Or.inr ⟨u, hu', ih u (enough_taking hf hs hu') hk⟩)

theorem fst_of_mem_tagged_pos {r : Step} {n : Nat} {s : State} {x : Nat × State}
    (hx : x ∈ tagged r greedy (fun _ t => t.pos) n s) : x.1 = x.2.pos := by
  induction n generalizing s with
  | zero =>
    simp only [tagged, List.mem_singleton] at hx
    rw [hx]
  | succ n ih =>
    rcases (mem_tagged_succ ..).mp hx with rfl | ⟨t, _, hx⟩
    · rfl
    · exact ih hx

include hf hu in
theorem starOnce_eq {s : State} (hs : s.StandsIn txt) (greedy : Bool) :
    starOnce r greedy s = firsts (star r greedy s) := by
  have hk := telling_taking hf hu greedy
  rw [starOnce, upToOnce_start hk ⟨hs, Nat.le_refl _⟩, star,
    ← map_snd_tagged (taking r) greedy fun _ t => t.pos, firsts_eq, fresh_map]
  rw [fresh_congr Prod.fst fun x hx => fst_of_mem_tagged_pos hx]

end Star

section Limited

variable {txt : Text} (hf : Inside txt r) (hu : Uniform txt r)

private theorem eq_of_key_eq {a b w p q : Nat} (hp : p < w) (hq : q < w)
    (h : a * w + p = b * w + q) : a = b ∧ p = q := by
  rcases Nat.lt_trichotomy a b with hab | hab | hab
  · have := Nat.mul_le_mul_right w hab
    rw [Nat.succ_mul] at this
    omega
  · subst hab
    omega
  · have := Nat.mul_le_mul_right w hab
    rw [Nat.succ_mul] at this
    omega

def turnKey (txt : Text) (k : Nat) (t : State) : Nat := k * (txt.length + 1) + t.pos

theorem turnKey_inj {m n : Nat} {s t : State} (hs : s.StandsIn txt) (ht : t.StandsIn txt)
    (h : turnKey txt m s = turnKey txt n t) : m = n ∧ s.pos = t.pos := by
  have h1 := hs.length
  have h2 := ht.length
  exact eq_of_key_eq (by omega) (by omega) h

include hf in
theorem turnKey_of_mem_keys {n : Nat} {s : State} (hs : s.StandsIn txt) {k : Nat}
    (hk : k ∈ keys r greedy (turnKey txt) n s) :
    ∃ m t, m ≤ n ∧ t.StandsIn txt ∧ k = turnKey txt m t := by
  induction n generalizing s with
  | zero =>
    simp only [keys, tagged, List.map_cons, List.map_nil, List.mem_singleton] at hk
    exact ⟨0, s, Nat.le_refl 0, hs, hk⟩
  | succ n ih =>
    rcases (mem_keys_succ ..).mp hk with hk | ⟨t, ht, hk⟩
    · exact ⟨n + 1, s, Nat.le_refl _, hs, hk⟩
    · obtain ⟨m, u, hm, hu, hk⟩ := ih (hf s t hs ht).1 hk
      exact ⟨m, u, Nat.le_succ_of_le hm, hu, hk⟩

include hf hu in
theorem keys_turns_subset {n : Nat} {s t : State} (hs : s.StandsIn txt) (ht : t.StandsIn txt)
    (hp : s.pos = t.pos) {k : Nat} (hk : k ∈ keys r greedy (turnKey txt) n s) :
    k ∈ keys r greedy (turnKey txt) n t := by
  induction n generalizing s t with
  | zero =>
    simp only [keys, tagged, List.map_cons, List.map_nil, List.mem_singleton, turnKey] at hk ⊢
    omega
  | succ n ih =>
    rcases (mem_keys_succ ..).mp hk with hk | ⟨u, hu', hk⟩
    · refine (mem_keys_succ ..).mpr (Or.inl ?_)
      rw [hk, turnKey, turnKey, hp]
    · obtain ⟨v, hv, hvp⟩ := hu s t hs ht hp u hu'
      exact (mem_keys_succ ..).mpr
        (Or.inr ⟨v, hv, ih (hf s u hs hu').1 (hf t v ht hv).1 hvp.symm hk⟩)

include hf hu in
theorem telling_turns (greedy : Bool) :
    Telling r greedy (turnKey txt) (fun _ s => s.StandsIn txt) where
  child _ s t hs ht := (hf s t hs ht).1
  apart n s t hs ht hk := by
    obtain ⟨m, u, hm, hu', heq⟩ := turnKey_of_mem_keys hf (hf s t hs ht).1 hk
    have := (turnKey_inj hs hu' heq).1
    omega
  known n s m t hs ht hk k hmem := by
    induction n generalizing s with
    | zero =>
      simp only [keys, tagged, List.map_cons, List.map_nil, List.mem_singleton] at hk
      obtain ⟨rfl, hp⟩ := turnKey_inj ht hs hk
      exact keys_turns_subset hf hu ht hs hp hmem
    | succ n ih =>
      rcases (mem_keys_succ ..).mp hk with hk | ⟨u, hu', hk⟩
      · obtain ⟨rfl, hp⟩ := turnKey_inj ht hs hk
        exact keys_turns_subset hf hu ht hs hp hmem
      · exact (mem_keys_succ ..).mpr (Or.inr ⟨u, hu', ih u (hf s u hs hu').1 hk⟩)

include hf in
theorem mem_tagged_turns {n : Nat} {s : State} (hs : s.StandsIn txt) {x : Nat × State}
    (hx : x ∈ tagged r greedy (turnKey txt) n s) :
    x.2.StandsIn txt ∧ ∃ m, x.1 = turnKey txt m x.2 := by
  induction n generalizing s with
  | zero =>
    simp only [tagged, List.mem_singleton] at hx
    subst hx
    exact ⟨hs, 0, rfl⟩
  | succ n ih =>
    rcases (mem_tagged_succ ..).mp hx with rfl | ⟨t, ht, hx⟩
    · exact ⟨hs, n + 1, rfl⟩
    · exact ih (hf s t hs ht).1 hx

include hf hu in
theorem limitedOnce_eq {s : State} (hs : s.StandsIn txt) (greedy : Bool) (n : Nat) :
    limitedOnce r greedy n s = firsts (upTo r greedy n s) := by
  have hwidth : (fun k (t : State) => k * (s.pos + s.rest.length + 1) + t.pos) = turnKey txt := by
    rw [hs.length]
    rfl
  rw [limitedOnce, hwidth]
  refine firsts_upToOnce (telling_turns hf hu greedy) hs fun x hx y hy h => ?_
  obtain ⟨hx', m, hm⟩ := mem_tagged_turns hf hs hx
  obtain ⟨hy', k, hk⟩ := mem_tagged_turns hf hs hy
  exact (turnKey_inj hx' hy' (hm.symm.trans (h.trans hk))).2

end Limited

end Step

end PathTemplate.Expression
