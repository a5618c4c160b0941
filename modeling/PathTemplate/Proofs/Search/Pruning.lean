import PathTemplate.Proofs.Search.Fresh

/-!
A loop that has entered a state does not enter it again under the same key. The states it lists
are those of the unpruned loop, each key once.
-/
namespace PathTemplate.Expression

namespace Step

/-- The states that a loop of at most `n` turns lists, each with the key under which it enters. -/
def tagged (r : Step) (greedy : Bool) (key : Nat → State → Nat) : Nat → State → List (Nat × State)
  | 0, s => [(key 0 s, s)]
  | n + 1, s =>
    let more := (r s).flatMap (tagged r greedy key n)
    if greedy then more ++ [(key (n + 1) s, s)] else (key (n + 1) s, s) :: more

theorem map_snd_tagged (r : Step) (greedy : Bool) (key : Nat → State → Nat) (n : Nat) (s : State) :
    (tagged r greedy key n s).map Prod.snd = upTo r greedy n s := by
  induction n generalizing s with
  | zero => rfl
  | succ n ih =>
    cases greedy <;> simp [tagged, upTo, prefer, List.map_flatMap, ih]

theorem mem_tagged_succ (r : Step) (greedy : Bool) (key : Nat → State → Nat) (n : Nat) (s : State)
    (x : Nat × State) : x ∈ tagged r greedy key (n + 1) s ↔
      x = (key (n + 1) s, s) ∨ ∃ t ∈ r s, x ∈ tagged r greedy key n t := by
  cases greedy <;> simp [tagged, or_comm]

def keys (r : Step) (greedy : Bool) (key : Nat → State → Nat) (n : Nat) (s : State) : List Nat :=
  (tagged r greedy key n s).map Prod.fst

theorem key_mem_keys (r : Step) (greedy : Bool) (key : Nat → State → Nat) (n : Nat) (s : State) :
    key n s ∈ keys r greedy key n s := by
  cases n with
  | zero => simp [keys, tagged]
  | succ n => cases greedy <;> simp [keys, tagged]

theorem mem_keys_succ (r : Step) (greedy : Bool) (key : Nat → State → Nat) (n : Nat) (s : State)
    (k : Nat) : k ∈ keys r greedy key (n + 1) s ↔
      k = key (n + 1) s ∨ ∃ t ∈ r s, k ∈ keys r greedy key n t := by
  simp only [keys, List.mem_map, mem_tagged_succ]
  constructor
  · rintro ⟨x, h | ⟨t, ht, hx⟩, rfl⟩
    · exact Or.inl (by rw [h])
    · exact Or.inr ⟨t, ht, x, hx, rfl⟩
  · rintro (rfl | ⟨t, ht, x, hx, rfl⟩)
    · exact ⟨_, Or.inl rfl, rfl⟩
    · exact ⟨x, Or.inr ⟨t, ht, hx⟩, rfl⟩

/-- What makes a key tell apart the states from which a loop goes on differently: no state is
entered from itself, and whatever is entered under a known key enters known keys alone. -/
structure Telling (r : Step) (greedy : Bool) (key : Nat → State → Nat)
    (ok : Nat → State → Prop) : Prop where
  child : ∀ n s t, ok (n + 1) s → t ∈ r s → ok n t
  apart : ∀ n s t, ok (n + 1) s → t ∈ r s → key (n + 1) s ∉ keys r greedy key n t
  known : ∀ n s m t, ok n s → ok m t → key m t ∈ keys r greedy key n s →
    ∀ k ∈ keys r greedy key m t, k ∈ keys r greedy key n s

end Step

open Step

namespace Swept

def extend (w : Swept) (xs : List (Nat × State)) : Swept :=
  ⟨((fresh Prod.fst w.seen xs).map Prod.snd).reverse ++ w.found,
    markAll w.seen (xs.map Prod.fst)⟩

theorem extend_append (w : Swept) (xs ys : List (Nat × State)) :
    w.extend (xs ++ ys) = (w.extend xs).extend ys := by
  simp [extend, fresh_append, markAll_append]

theorem extend_of_seen {w : Swept} {xs : List (Nat × State)}
    (h : ∀ x ∈ xs, w.seen.testBit x.1 = true) : w.extend xs = w := by
  have hk : ∀ k ∈ xs.map Prod.fst, w.seen.testBit k = true := by
    intro k hk
    obtain ⟨x, hx, rfl⟩ := List.mem_map.mp hk
    exact h x hx
  rw [extend, fresh_eq_nil Prod.fst h, markAll_eq_self hk]
  rfl

theorem extend_single {w : Swept} {k : Nat} (s : State) (h : ¬ w.seen.testBit k = true) :
    w.extend [(k, s)] = ⟨s :: w.found, mark w.seen k⟩ := by
  simp [extend, fresh, h, markAll]

theorem extend_after {w : Swept} {k : Nat} {s : State} {xs : List (Nat × State)}
    (h : ¬ w.seen.testBit k = true) :
    Swept.extend ⟨s :: w.found, mark w.seen k⟩ xs = w.extend ((k, s) :: xs) := by
  simp [extend, fresh, h, markAll]

/-- A state may be marked before those in front of it, if they do not come under its key. -/
theorem extend_before {w : Swept} {k : Nat} {s : State} {xs : List (Nat × State)}
    (h : ¬ w.seen.testBit k = true) (hk : k ∉ xs.map Prod.fst) :
    (⟨s :: (Swept.extend ⟨w.found, mark w.seen k⟩ xs).found,
      (Swept.extend ⟨w.found, mark w.seen k⟩ xs).seen⟩ : Swept) = w.extend (xs ++ [(k, s)]) := by
  have hnew : ¬ (markAll w.seen (xs.map Prod.fst)).testBit k = true := by
    rw [testBit_markAll, Bool.or_eq_true, decide_eq_true_eq, not_or]
    exact ⟨h, hk⟩
  have hmarks : markAll (mark w.seen k) (xs.map Prod.fst) =
      mark (markAll w.seen (xs.map Prod.fst)) k := by
    apply Nat.eq_of_testBit_eq
    intro j
    simp only [testBit_mark, testBit_markAll, Bool.or_assoc, Bool.or_comm (decide (_ = j))]
  rw [extend_append, extend_single s hnew]
  simp only [extend, fresh_mark Prod.fst hk, hmarks]

/-- Every known key, unless it is one of those still open, brings only known keys. -/
def Closed (r : Step) (greedy : Bool) (key : Nat → State → Nat) (ok : Nat → State → Prop)
    (still : Nat → Prop) (w : Swept) : Prop :=
  ∀ m t, ok m t → w.seen.testBit (key m t) = true → ¬ still (key m t) →
    ∀ k ∈ keys r greedy key m t, w.seen.testBit k = true

variable {r : Step} {greedy : Bool} {key : Nat → State → Nat} {ok : Nat → State → Prop}

theorem seen_extend_tagged (w : Swept) (n : Nat) (s : State) :
    (w.extend (tagged r greedy key n s)).seen = markAll w.seen (keys r greedy key n s) := rfl

theorem closed_extend (hk : Telling r greedy key ok) {still : Nat → Prop} {w : Swept}
    (hw : w.Closed r greedy key ok still) {n : Nat} {s : State} (hs : ok n s) :
    (w.extend (tagged r greedy key n s)).Closed r greedy key ok still := by
  intro m t ht hseen hstill k hmem
  rw [seen_extend_tagged, testBit_markAll, Bool.or_eq_true, decide_eq_true_eq] at hseen ⊢
  rcases hseen with hseen | hseen
  · exact Or.inl (hw m t ht hseen hstill k hmem)
  · exact Or.inr (hk.known n s m t hs ht hseen k hmem)

private theorem visit_all (hk : Telling r greedy key ok) {still : Nat → Prop} {n : Nat}
    (visit : Swept → State → Swept)
    (hv : ∀ w s, ok n s → w.Closed r greedy key ok still →
      (∀ k ∈ keys r greedy key n s, ¬ still k) → visit w s = w.extend (tagged r greedy key n s))
    (w : Swept) (ss : List State) (hss : ∀ s ∈ ss, ok n s)
    (hw : w.Closed r greedy key ok still)
    (hstill : ∀ s ∈ ss, ∀ k ∈ keys r greedy key n s, ¬ still k) :
    ss.foldl visit w = w.extend (ss.flatMap (tagged r greedy key n)) := by
  induction ss generalizing w with
  | nil => rfl
  | cons s ss ih =>
    rw [List.foldl_cons, List.flatMap_cons, extend_append,
      hv w s (hss s List.mem_cons_self) hw (hstill s List.mem_cons_self)]
    exact ih (w.extend (tagged r greedy key n s))
      (fun t ht => hss t (List.mem_cons_of_mem s ht))
      (closed_extend hk hw (hss s List.mem_cons_self))
      (fun t ht => hstill t (List.mem_cons_of_mem s ht))

end Swept

namespace Step

open Swept

variable {r : Step} {greedy : Bool} {key : Nat → State → Nat} {ok : Nat → State → Prop}

/-- The pruned loop lists the states of the unpruned one, each key once. The keys in `still` belong
to states whose turns are being tried at the moment; they are not met again. -/
theorem upToOnce_eq (hk : Telling r greedy key ok) (n : Nat) (still : Nat → Prop) (w : Swept)
    (ss : List State) (hss : ∀ s ∈ ss, ok n s) (hw : w.Closed r greedy key ok still)
    (hstill : ∀ s ∈ ss, ∀ k ∈ keys r greedy key n s, ¬ still k) :
    upToOnce r greedy key n w ss = w.extend (ss.flatMap (tagged r greedy key n)) := by
  induction n generalizing still w ss with
  | zero =>
    rw [upToOnce]
    refine visit_all hk _ ?_ w ss hss hw hstill
    intro w s _ _ _
    by_cases h : w.seen.testBit (key 0 s) = true
    · rw [if_pos h]
      exact (extend_of_seen (by simpa [tagged] using h)).symm
    · rw [if_neg h]
      exact (extend_single s h).symm
  | succ n ih =>
    rw [upToOnce]
    refine visit_all hk _ ?_ w ss hss hw hstill
    intro w s hs hw hstill
    by_cases h : w.seen.testBit (key (n + 1) s) = true
    · have hself := key_mem_keys r greedy key (n + 1) s
      rw [if_pos h]
      refine (extend_of_seen ?_).symm
      intro x hx
      exact hw (n + 1) s hs h (hstill _ hself) x.1 (List.mem_map_of_mem hx)
    · -- The key of `s` is open while its turns are tried.
      have hopen : ∀ found, (Swept.mk found (mark w.seen (key (n + 1) s))).Closed r greedy key ok
          (fun k => still k ∨ k = key (n + 1) s) := by
        intro found m t ht hseen hnot k hmem
        rw [not_or] at hnot
        simp only [testBit_mark, Bool.or_eq_true, decide_eq_true_eq] at hseen ⊢
        rcases hseen with hseen | hseen
        · exact Or.inl (hw m t ht hseen hnot.1 k hmem)
        · exact absurd hseen.symm hnot.2
      have hchild : ∀ t ∈ r s, ok n t := fun t ht => hk.child n s t hs ht
      have hfree : ∀ t ∈ r s, ∀ k ∈ keys r greedy key n t, ¬ (still k ∨ k = key (n + 1) s) := by
        intro t ht k hmem hor
        rcases hor with hor | hor
        · exact hstill k ((mem_keys_succ r greedy key n s k).mpr (Or.inr ⟨t, ht, hmem⟩)) hor
        · exact hk.apart n s t hs ht (hor ▸ hmem)
      have hnew : key (n + 1) s ∉ ((r s).flatMap (tagged r greedy key n)).map Prod.fst := by
        intro hmem
        obtain ⟨x, hx, hxk⟩ := List.mem_map.mp hmem
        obtain ⟨t, ht, hx⟩ := List.mem_flatMap.mp hx
        exact hk.apart n s t hs ht (hxk ▸ List.mem_map_of_mem hx)
      have hsub := fun found => ih (fun k => still k ∨ k = key (n + 1) s)
        ⟨found, mark w.seen (key (n + 1) s)⟩ (r s) hchild (hopen found) hfree
      rw [if_neg h]
      cases greedy with
      | true =>
        rw [if_pos rfl]
        refine Eq.trans ?_ (extend_before h hnew)
        exact congrArg (fun v : Swept => (⟨s :: v.found, v.seen⟩ : Swept)) (hsub w.found)
      | false =>
        rw [if_neg Bool.false_ne_true]
        exact (hsub (s :: w.found)).trans (extend_after h)

/-- A loop that begins with nothing found. -/
theorem upToOnce_start (hk : Telling r greedy key ok) {n : Nat} {s : State} (hs : ok n s) :
    (upToOnce r greedy key n {} [s]).found.reverse =
      (fresh Prod.fst 0 (tagged r greedy key n s)).map Prod.snd := by
  rw [upToOnce_eq hk n (fun _ => False) {} [s] (by simpa using hs)]
  · simp [extend]
  · intro m t _ h
    simp at h
  · intro _ _ _ _ h
    exact h

/-- The first state at each place among those of a loop, when its keys tell places apart. -/
theorem firsts_upToOnce (hk : Telling r greedy key ok) {n : Nat} {s : State} (hs : ok n s)
    (hp : ∀ x ∈ tagged r greedy key n s, ∀ y ∈ tagged r greedy key n s,
      x.1 = y.1 → x.2.pos = y.2.pos) :
    firsts (upToOnce r greedy key n {} [s]).found.reverse = firsts (upTo r greedy n s) := by
  rw [upToOnce_start hk hs, ← map_snd_tagged r greedy key, firsts_eq, firsts_eq, fresh_map,
    fresh_map, fresh_fresh (fun x : Nat × State => x.2.pos) hp]

end Step

end PathTemplate.Expression
