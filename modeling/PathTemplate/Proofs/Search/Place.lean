import PathTemplate.Expression.Paths

/-!
Places of one text. Every step goes forward through the text. Of two steps one may reach the places
that the other one reaches, whatever the groups hold; a step is uniform when that is so of the step
and itself.
-/
namespace PathTemplate.Expression

namespace State

structure StandsIn (txt : Text) (s : State) : Prop where
  whole : s.before.reverse ++ s.rest = txt
  count : s.pos = s.before.length

/-- The characters of `w` lie between the two states. -/
structure Passes (s : State) (w : Text) (t : State) : Prop where
  rest : s.rest = w ++ t.rest
  before : t.before = w.reverse ++ s.before
  pos : t.pos = s.pos + w.length

theorem passes_self (s : State) : s.Passes [] s := ⟨rfl, rfl, rfl⟩

theorem Passes.trans {s t u : State} {v w : Text} (h : s.Passes v t) (h' : t.Passes w u) :
    s.Passes (v ++ w) u := by
  refine ⟨?_, ?_, ?_⟩
  · rw [h.rest, h'.rest, List.append_assoc]
  · rw [h'.before, h.before, List.reverse_append, List.append_assoc]
  · rw [h'.pos, h.pos, List.length_append, Nat.add_assoc]

theorem Passes.standsIn {txt : Text} {s t : State} {w : Text} (h : s.Passes w t)
    (hs : s.StandsIn txt) : t.StandsIn txt := by
  refine ⟨?_, ?_⟩
  · rw [← hs.whole, h.rest, h.before]
    simp
  · rw [h.pos, h.before, hs.count, List.length_append, List.length_reverse, Nat.add_comm]

theorem Passes.pos_le {s t : State} {w : Text} (h : s.Passes w t) : s.pos ≤ t.pos := by
  rw [h.pos]
  exact Nat.le_add_right _ _

theorem passes_next {s : State} {c : Char} {r : Text} (h : s.rest = c :: r) :
    s.Passes [c] s.next := by
  refine ⟨?_, ?_, ?_⟩ <;> simp [next, h]

theorem passes_follow {w : Text} {s t : State} (h : s.follow w = some t) : s.Passes w t := by
  induction w generalizing s with
  | nil =>
    rw [Option.some.inj h]
    exact passes_self t
  | cons c w ih =>
    cases hr : s.rest with
    | nil => simp [follow, hr] at h
    | cons d r =>
      by_cases hc : d = c
      · subst d
        simp only [follow, hr, if_pos] at h
        exact (passes_next hr).trans (ih h)
      · simp [follow, hr, hc] at h

/-- In one text the number of characters passed decides the place. -/
theorem StandsIn.eq_of_pos {txt : Text} {s t : State} (hs : s.StandsIn txt) (ht : t.StandsIn txt)
    (h : s.pos = t.pos) : s.before = t.before ∧ s.rest = t.rest := by
  have hlen : s.before.reverse.length = t.before.reverse.length := by
    rw [List.length_reverse, List.length_reverse, ← hs.count, ← ht.count, h]
  obtain ⟨h1, h2⟩ := List.append_inj (hs.whole.trans ht.whole.symm) hlen
  exact ⟨List.reverse_inj.mp h1, h2⟩

theorem StandsIn.length {txt : Text} {s : State} (hs : s.StandsIn txt) :
    s.pos + s.rest.length = txt.length := by
  rw [← hs.whole, List.length_append, List.length_reverse, hs.count]

theorem before?_iff (s t : State) : s.before? t = true ↔ s.pos < t.pos := by
  simp [before?]

end State

open State

namespace Step

def Forward (r : Step) : Prop := ∀ s t, t ∈ r s → ∃ w, s.Passes w t

/-- The places that `r` reaches from a place `r'` reaches from there too. -/
def Reaches (txt : Text) (r r' : Step) : Prop :=
  ∀ s t, s.StandsIn txt → t.StandsIn txt → s.pos = t.pos →
    ∀ u ∈ r s, ∃ v ∈ r' t, v.pos = u.pos

def Uniform (txt : Text) (r : Step) : Prop := Reaches txt r r

theorem Forward.standsIn {r : Step} (hr : Forward r) {txt : Text} {s t : State}
    (hs : s.StandsIn txt) (ht : t ∈ r s) : t.StandsIn txt := by
  obtain ⟨w, hw⟩ := hr s t ht
  exact hw.standsIn hs

theorem Forward.pos_le {r : Step} (hr : Forward r) {s t : State} (ht : t ∈ r s) :
    s.pos ≤ t.pos := by
  obtain ⟨w, hw⟩ := hr s t ht
  exact hw.pos_le

theorem forward_stay : Forward fun s => [s] := by
  intro s t ht
  rw [List.mem_singleton] at ht
  exact ⟨[], ht ▸ passes_self s⟩

theorem uniform_stay (txt : Text) : Uniform txt fun s => [s] := by
  intro s t _ _ hp u hu
  rw [List.mem_singleton] at hu
  exact ⟨t, List.mem_singleton_self t, by rw [hu, hp]⟩

theorem Forward.flatMap {a b : Step} (ha : Forward a) (hb : Forward b) :
    Forward fun s => (a s).flatMap b := by
  intro s t ht
  obtain ⟨u, hu, ht⟩ := List.mem_flatMap.mp ht
  obtain ⟨v, hv⟩ := ha s u hu
  obtain ⟨w, hw⟩ := hb u t ht
  exact ⟨v ++ w, hv.trans hw⟩

theorem Reaches.trans {txt : Text} {a b c : Step} (h : Reaches txt a b) (h' : Reaches txt b c) :
    Reaches txt a c := by
  intro s t hs ht hp u hu
  obtain ⟨v, hv, hvp⟩ := h s t hs ht hp u hu
  obtain ⟨w, hw, hwp⟩ := h' t t ht ht rfl v hv
  exact ⟨w, hw, hwp.trans hvp⟩

theorem Reaches.flatMap {txt : Text} {a a' b b' : Step} (hf : Forward a) (hf' : Forward a')
    (ha : Reaches txt a a') (hb : Reaches txt b b') :
    Reaches txt (fun s => (a s).flatMap b) fun s => (a' s).flatMap b' := by
  intro s t hs ht hp u hu
  obtain ⟨s', hs', hu⟩ := List.mem_flatMap.mp hu
  obtain ⟨t', ht', hp'⟩ := ha s t hs ht hp s' hs'
  obtain ⟨v, hv, hvp⟩ :=
    hb s' t' (hf.standsIn hs hs') (hf'.standsIn ht ht') hp'.symm u hu
  exact ⟨v, List.mem_flatMap.mpr ⟨t', ht', hv⟩, hvp⟩

theorem Forward.append {a b : Step} (ha : Forward a) (hb : Forward b) :
    Forward fun s => a s ++ b s := by
  intro s t ht
  rcases List.mem_append.mp ht with h | h
  · exact ha s t h
  · exact hb s t h

theorem Reaches.append {txt : Text} {a a' b b' : Step} (ha : Reaches txt a a')
    (hb : Reaches txt b b') : Reaches txt (fun s => a s ++ b s) fun s => a' s ++ b' s := by
  intro s t hs ht hp u hu
  rcases List.mem_append.mp hu with h | h
  · obtain ⟨v, hv, hvp⟩ := ha s t hs ht hp u h
    exact ⟨v, List.mem_append_left _ hv, hvp⟩
  · obtain ⟨v, hv, hvp⟩ := hb s t hs ht hp u h
    exact ⟨v, List.mem_append_right _ hv, hvp⟩

theorem mem_prefer (greedy : Bool) (more : List State) (s t : State) :
    t ∈ prefer greedy more s ↔ t ∈ more ∨ t = s := by
  cases greedy <;> simp [prefer, or_comm]

theorem Forward.prefer {r : Step} (hr : Forward r) (greedy : Bool) :
    Forward fun s => Step.prefer greedy (r s) s := by
  intro s t ht
  rcases (mem_prefer greedy _ s t).mp ht with h | h
  · exact hr s t h
  · exact ⟨[], h ▸ passes_self s⟩

theorem Reaches.prefer {txt : Text} {r r' : Step} (hr : Reaches txt r r') (greedy : Bool) :
    Reaches txt (fun s => Step.prefer greedy (r s) s) fun s => Step.prefer greedy (r' s) s := by
  intro s t hs ht hp u hu
  rcases (mem_prefer greedy _ s u).mp hu with h | h
  · obtain ⟨v, hv, hvp⟩ := hr s t hs ht hp u h
    exact ⟨v, (mem_prefer greedy _ t v).mpr (Or.inl hv), hvp⟩
  · exact ⟨t, (mem_prefer greedy _ t t).mpr (Or.inr rfl), by rw [h, hp]⟩

theorem Forward.times {r : Step} (hr : Forward r) (n : Nat) : Forward (Step.times r n) := by
  induction n with
  | zero => exact forward_stay
  | succ n ih => exact hr.flatMap ih

theorem Reaches.times {txt : Text} {r r' : Step} (hf : Forward r) (hf' : Forward r')
    (hr : Reaches txt r r') (n : Nat) : Reaches txt (Step.times r n) (Step.times r' n) := by
  induction n with
  | zero => exact uniform_stay txt
  | succ n ih => exact hr.flatMap hf hf' ih

theorem Forward.upTo {r : Step} (hr : Forward r) (greedy : Bool) (n : Nat) :
    Forward (Step.upTo r greedy n) := by
  induction n with
  | zero => exact forward_stay
  | succ n ih => exact (hr.flatMap ih).prefer greedy

theorem Reaches.upTo {txt : Text} {r r' : Step} (hf : Forward r) (hf' : Forward r')
    (hr : Reaches txt r r') (greedy : Bool) (n : Nat) :
    Reaches txt (Step.upTo r greedy n) (Step.upTo r' greedy n) := by
  induction n with
  | zero => exact uniform_stay txt
  | succ n ih => exact (hr.flatMap hf hf' ih).prefer greedy

theorem mem_taking (r : Step) (s t : State) : t ∈ taking r s ↔ t ∈ r s ∧ s.pos < t.pos := by
  simp [taking, before?_iff]

theorem Forward.taking {r : Step} (hr : Forward r) : Forward (Step.taking r) :=
  fun s t ht => hr s t ((mem_taking r s t).mp ht).1

theorem Reaches.taking {txt : Text} {r r' : Step} (hr : Reaches txt r r') :
    Reaches txt (Step.taking r) (Step.taking r') := by
  intro s t hs ht hp u hu
  obtain ⟨hu, hlt⟩ := (mem_taking r s u).mp hu
  obtain ⟨v, hv, hvp⟩ := hr s t hs ht hp u hu
  exact ⟨v, (mem_taking r' t v).mpr ⟨hv, by omega⟩, hvp⟩

theorem Forward.star {r : Step} (hr : Forward r) (greedy : Bool) : Forward (Step.star r greedy) :=
  fun s t ht => (hr.taking.upTo greedy s.rest.length) s t ht

theorem Reaches.star {txt : Text} {r r' : Step} (hf : Forward r) (hf' : Forward r')
    (hr : Reaches txt r r') (greedy : Bool) :
    Reaches txt (Step.star r greedy) (Step.star r' greedy) := by
  intro s t hs ht hp
  simp only [Step.star, (hs.eq_of_pos ht hp).2]
  exact hr.taking.upTo hf.taking hf'.taking greedy t.rest.length s t hs ht hp

theorem Forward.plus {r : Step} (hr : Forward r) (greedy : Bool) :
    Forward (Step.plus r greedy) := by
  intro s t ht
  obtain ⟨u, hu, ht⟩ := List.mem_flatMap.mp ht
  obtain ⟨v, hv⟩ := hr s u hu
  split at ht
  · obtain ⟨w, hw⟩ := hr.star greedy u t ht
    exact ⟨v ++ w, hv.trans hw⟩
  · rw [List.mem_singleton] at ht
    exact ⟨v, ht ▸ hv⟩

theorem Reaches.plus {txt : Text} {r r' : Step} (hf : Forward r) (hf' : Forward r')
    (hr : Reaches txt r r') (greedy : Bool) :
    Reaches txt (Step.plus r greedy) (Step.plus r' greedy) := by
  intro s t hs ht hp u hu
  obtain ⟨s', hs', hu⟩ := List.mem_flatMap.mp hu
  obtain ⟨t', ht', hp'⟩ := hr s t hs ht hp s' hs'
  have stands := hf.standsIn hs hs'
  have stands' := hf'.standsIn ht ht'
  simp only [Step.plus, List.mem_flatMap]
  split at hu
  case isTrue hlt =>
    obtain ⟨v, hv, hvp⟩ := hr.star hf hf' greedy s' t' stands stands' hp'.symm u hu
    refine ⟨v, ⟨t', ht', ?_⟩, hvp⟩
    rw [before?_iff] at hlt
    rwa [if_pos ((before?_iff t t').mpr (by omega))]
  case isFalse hlt =>
    rw [List.mem_singleton] at hu
    refine ⟨t', ⟨t', ht', ?_⟩, by rw [hu, hp']⟩
    rw [before?_iff] at hlt
    rw [if_neg (fun h => hlt (by rw [before?_iff] at h; omega))]
    exact List.mem_singleton_self t'

theorem Forward.atLeast {r : Step} (hr : Forward r) (et : EmptyTurn) (greedy : Bool) (lo : Nat) :
    Forward (Step.atLeast et r greedy lo) := by
  cases et with
  | fails => exact (hr.times lo).flatMap (hr.star greedy)
  | ends =>
    cases lo with
    | zero => exact (hr.plus greedy).prefer greedy
    | succ n => exact (hr.times n).flatMap (hr.plus greedy)

theorem Reaches.atLeast {txt : Text} {r r' : Step} (hf : Forward r) (hf' : Forward r')
    (hr : Reaches txt r r') (et : EmptyTurn) (greedy : Bool) (lo : Nat) :
    Reaches txt (Step.atLeast et r greedy lo) (Step.atLeast et r' greedy lo) := by
  cases et with
  | fails => exact (hr.times hf hf' lo).flatMap (hf.times lo) (hf'.times lo) (hr.star hf hf' greedy)
  | ends =>
    cases lo with
    | zero => exact (hr.plus hf hf' greedy).prefer greedy
    | succ n =>
      exact (hr.times hf hf' n).flatMap (hf.times n) (hf'.times n) (hr.plus hf hf' greedy)

theorem Forward.loop {r : Step} (hr : Forward r) (et : EmptyTurn) (lo : Nat) (hi : Option Nat)
    (greedy : Bool) : Forward (Step.loop et r lo hi greedy) := by
  cases hi with
  | none => exact hr.atLeast et greedy lo
  | some n => exact (hr.times (min lo n)).flatMap (hr.upTo greedy (n - lo))

theorem Reaches.loop {txt : Text} {r r' : Step} (hf : Forward r) (hf' : Forward r')
    (hr : Reaches txt r r') (et : EmptyTurn) (lo : Nat) (hi : Option Nat) (greedy : Bool) :
    Reaches txt (Step.loop et r lo hi greedy) (Step.loop et r' lo hi greedy) := by
  cases hi with
  | none => exact hr.atLeast hf hf' et greedy lo
  | some n =>
    exact (hr.times hf hf' (min lo n)).flatMap (hf.times (min lo n)) (hf'.times (min lo n))
      (hr.upTo hf hf' greedy (n - lo))

end Step

open Step

namespace Expr

private theorem forward_kept {f : State → List State} (hf : ∀ s, ∀ t ∈ f s, s.Passes [] t) :
    Forward f := fun s t ht => ⟨[], hf s t ht⟩

/-- No expression goes back. -/
theorem forward_paths (e : Expr) (et : EmptyTurn) : Forward (e.paths et) := by
  induction e generalizing et with
  | empty => exact forward_stay
  | one set anyCase =>
    intro s t ht
    cases hr : s.rest with
    | nil => simp [paths, hr] at ht
    | cons c r =>
      simp only [paths, hr] at ht
      split at ht
      · rw [List.mem_singleton] at ht
        exact ⟨[c], ht ▸ passes_next hr⟩
      · simp at ht
  | check a =>
    refine forward_kept fun s t ht => ?_
    simp only [paths] at ht
    split at ht
    · rw [List.mem_singleton] at ht
      exact ht ▸ passes_self s
    · simp at ht
  | cat a b iha ihb => exact (iha et).flatMap (ihb et)
  | alt a b iha ihb => exact (iha et).append (ihb et)
  | group i e ih =>
    intro s t ht
    obtain ⟨u, hu, rfl⟩ := List.mem_map.mp ht
    obtain ⟨w, hw⟩ := ih et s u hu
    exact ⟨w, ⟨hw.rest, hw.before, hw.pos⟩⟩
  | loop e lo hi greedy ih => exact (ih et).loop et lo hi greedy
  | ahead wanted e =>
    refine forward_kept fun s t ht => ?_
    cases wanted with
    | true =>
      obtain ⟨u, _, rfl⟩ := List.mem_map.mp ht
      exact ⟨rfl, rfl, rfl⟩
    | false =>
      simp only [paths] at ht
      split at ht
      · rw [List.mem_singleton] at ht
        exact ht ▸ passes_self s
      · simp at ht
  | behind wanted n e =>
    refine forward_kept fun s t ht => ?_
    cases wanted with
    | true =>
      simp only [paths] at ht
      split at ht
      · simp at ht
      · obtain ⟨u, _, rfl⟩ := List.mem_map.mp ht
        exact ⟨rfl, rfl, rfl⟩
    | false =>
      simp only [paths] at ht
      split at ht
      · rw [List.mem_singleton] at ht
        exact ht ▸ passes_self s
      · split at ht
        · rw [List.mem_singleton] at ht
          exact ht ▸ passes_self s
        · simp at ht
  | atomic e ih =>
    intro s t ht
    exact ih e.emptyTurn s t (List.mem_of_mem_take ht)
  | again i =>
    intro s t ht
    simp only [paths] at ht
    split at ht
    case _ => simp at ht
    case _ w _ =>
      rw [Option.mem_toList] at ht
      exact ⟨w, passes_follow ht⟩

end Expr

end PathTemplate.Expression
