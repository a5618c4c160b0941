import PathTemplate.Proofs.Meaning.Languages

/-!
What the groups of an expression hold after a match. A relation between the text that is passed,
the texts before and after it, and the values of the groups that are met on the way says both which
matches there are and what they capture.
-/
namespace PathTemplate.Expression

open State

def State.texts (s : State) : List (Option Text) := s.groups.map (Option.map Capture.text)

theorem State.texts_congr {s t : State} (h : t.groups = s.groups) : t.texts = s.texts := by
  rw [State.texts, h, State.texts]

theorem State.texts_close {s t : State} {w : Text} (hs : s.Passes w t) (i : Nat) :
    (State.close i s t).texts = t.texts.set i (some w) := by
  have htake : (⟨s.rest, t.pos - s.pos⟩ : Capture).text = w := by
    simp [Capture.text, hs.rest, hs.pos]
  simp [State.texts, State.close, List.map_set, htake]

/-- Writes the values into the groups from number `i` on. A group without a value keeps what it
holds. -/
def fill (i : Nat) : List (Option Text) → List (Option Text) → List (Option Text)
  | [], gs => gs
  | none :: vs, gs => fill (i + 1) vs gs
  | some v :: vs, gs => fill (i + 1) vs (gs.set i (some v))

theorem fill_append (i : Nat) (vs ws gs : List (Option Text)) :
    fill i (vs ++ ws) gs = fill (i + vs.length) ws (fill i vs gs) := by
  induction vs generalizing i gs with
  | nil => rfl
  | cons v vs ih =>
    cases v with
    | none | some =>
      simp only [List.cons_append, fill, ih, List.length_cons, Nat.add_assoc, Nat.add_comm 1]

theorem fill_replicate_none (i k : Nat) (gs : List (Option Text)) :
    fill i (List.replicate k none) gs = gs := by
  induction k generalizing i with
  | zero => rfl
  | succ k ih => exact ih (i + 1)

/-- Groups that hold nothing hold the values when they have been filled. -/
theorem fill_within (gs vs hs : List (Option Text)) :
    fill gs.length vs (gs ++ (List.replicate vs.length none ++ hs)) = gs ++ (vs ++ hs) := by
  induction vs generalizing gs with
  | nil => rfl
  | cons v vs ih =>
    have hnext := ih (gs ++ [v])
    rw [List.length_append, List.length_singleton, List.append_assoc, List.append_assoc] at hnext
    rw [List.length_cons, List.replicate_succ, List.cons_append]
    cases v with
    | none => exact hnext
    | some v =>
      rw [fill, List.set_append_right _ _ (Nat.le_refl _), Nat.sub_self, List.set_cons_zero]
      exact hnext

namespace Step

/-- Before a text and after it, nearest character first, the step passes the texts of the relation,
and gives the `k` groups from number `i` on the values that belong to them. -/
structure Captures (r : Step) (i k : Nat) (R : Text → Text → Text → List (Option Text) → Prop) :
    Prop where
  length : ∀ b w u vs, R b w u vs → vs.length = k
  sound : ∀ s t, t ∈ r s → ∃ w vs, R s.before w t.rest vs ∧ s.Passes w t ∧
    t.texts = fill i vs s.texts
  complete : ∀ s w u vs, R s.before w u vs → s.rest = w ++ u →
    ∃ t ∈ r s, s.Passes w t ∧ t.texts = fill i vs s.texts

namespace Captures

variable {r a b : Step} {i k l : Nat} {R Q : Text → Text → Text → List (Option Text) → Prop}
  {K : Text → Text → Text → Prop}

theorem congr (h : Captures r i k R) (hR : ∀ b w u vs, R b w u vs ↔ Q b w u vs) :
    Captures r i k Q := by
  have : R = Q := by
    funext b w u vs
    exact propext (hR b w u vs)
  rwa [this] at h

theorem ofLocal (h : Local r K) (i : Nat) :
    Captures r i 0 fun b w u vs => K b w u ∧ vs = [] := by
  refine ⟨?_, ?_, ?_⟩
  · intro b w u vs hR
    rw [hR.2]
    rfl
  · intro s t ht
    obtain ⟨w, hw, hs, hg⟩ := (h s t).mp ht
    exact ⟨w, [], ⟨hw, rfl⟩, hs, texts_congr hg⟩
  · intro s w u vs hR hrest
    have hpast := passes_past hrest
    refine ⟨s.past w u, (h s _).mpr ⟨w, hR.1, hpast, rfl⟩, hpast, ?_⟩
    rw [hR.2]
    rfl

/-- A group holds the text that its inside passed. -/
theorem group (h : Local r K) (i : Nat) :
    Captures (fun s => (r s).map (State.close i s)) i 1
      fun b w u vs => K b w u ∧ vs = [some w] := by
  refine ⟨?_, ?_, ?_⟩
  · intro b w u vs hR
    rw [hR.2]
    rfl
  · intro s t ht
    obtain ⟨u, hu, rfl⟩ := List.mem_map.mp ht
    obtain ⟨w, hw, hs, hg⟩ := (h s u).mp hu
    refine ⟨w, [some w], ⟨hw, rfl⟩, ⟨hs.rest, hs.before, hs.pos⟩, ?_⟩
    rw [State.texts_close hs, texts_congr hg]
    rfl
  · intro s w u vs hR hrest
    have hpast := passes_past hrest
    have hmem := (h s _).mpr ⟨w, hR.1, hpast, rfl⟩
    refine ⟨_, List.mem_map.mpr ⟨_, hmem, rfl⟩, ⟨hpast.rest, hpast.before, hpast.pos⟩, ?_⟩
    rw [hR.2, State.texts_close hpast]
    rfl

theorem flatMap (ha : Captures a i k R) (hb : Captures b (i + k) l Q) :
    Captures (fun s => (a s).flatMap b) i (k + l) fun b w u vs =>
      ∃ w₁ vs₁ w₂ vs₂, R b w₁ (w₂ ++ u) vs₁ ∧ Q (w₁.reverse ++ b) w₂ u vs₂ ∧
        w = w₁ ++ w₂ ∧ vs = vs₁ ++ vs₂ := by
  refine ⟨?_, ?_, ?_⟩
  · intro b w u vs hR
    obtain ⟨w₁, vs₁, w₂, vs₂, h₁, h₂, -, rfl⟩ := hR
    rw [List.length_append, ha.length _ _ _ _ h₁, hb.length _ _ _ _ h₂]
  · intro s t ht
    obtain ⟨u, hu, ht⟩ := List.mem_flatMap.mp ht
    obtain ⟨w₁, vs₁, h₁, hs₁, hf₁⟩ := ha.sound s u hu
    obtain ⟨w₂, vs₂, h₂, hs₂, hf₂⟩ := hb.sound u t ht
    rw [hs₂.rest] at h₁
    rw [hs₁.before] at h₂
    refine ⟨_, _, ⟨w₁, vs₁, w₂, vs₂, h₁, h₂, rfl, rfl⟩, hs₁.trans hs₂, ?_⟩
    rw [fill_append, ha.length _ _ _ _ h₁, hf₂, hf₁]
  · intro s w u vs hR hrest
    obtain ⟨w₁, vs₁, w₂, vs₂, h₁, h₂, rfl, rfl⟩ := hR
    rw [List.append_assoc] at hrest
    obtain ⟨t, ht, hs, hf⟩ := ha.complete s w₁ (w₂ ++ u) vs₁ h₁ hrest
    have hrest' : t.rest = w₂ ++ u := List.append_cancel_left (hs.rest.symm.trans hrest)
    rw [← hs.before] at h₂
    obtain ⟨t', ht', hs', hf'⟩ := hb.complete t w₂ u vs₂ h₂ hrest'
    refine ⟨t', List.mem_flatMap.mpr ⟨t, ht, ht'⟩, hs.trans hs', ?_⟩
    rw [fill_append, ha.length _ _ _ _ h₁, hf', hf]

/-- What is left out gives its groups no value. -/
theorem optional (h : Captures r i k R) (et : EmptyTurn) (greedy : Bool) :
    Captures (Step.loop et r 0 (some 1) greedy) i k fun b w u vs =>
      R b w u vs ∨ w = [] ∧ vs = List.replicate k none := by
  have hmem : ∀ s t, t ∈ Step.loop et r 0 (some 1) greedy s ↔ t ∈ r s ∨ t = s := by
    intro s t
    simp [Step.loop, Step.times, Step.upTo, mem_prefer]
  refine ⟨?_, ?_, ?_⟩
  · intro b w u vs hR
    rcases hR with hR | ⟨-, rfl⟩
    · exact h.length b w u vs hR
    · exact List.length_replicate
  · intro s t ht
    rcases (hmem s t).mp ht with ht | rfl
    · obtain ⟨w, vs, hR, hs, hf⟩ := h.sound s t ht
      exact ⟨w, vs, Or.inl hR, hs, hf⟩
    · exact ⟨[], _, Or.inr ⟨rfl, rfl⟩, passes_self t, (fill_replicate_none i k _).symm⟩
  · intro s w u vs hR hrest
    rcases hR with hR | ⟨rfl, rfl⟩
    · obtain ⟨t, ht, hs, hf⟩ := h.complete s w u vs hR hrest
      exact ⟨t, (hmem s t).mpr (Or.inl ht), hs, hf⟩
    · exact ⟨s, (hmem s s).mpr (Or.inr rfl), passes_self s, (fill_replicate_none i k _).symm⟩

end Captures

end Step

/-! ### Items -/

def Fills (is : List Item) (i k : Nat)
    (R : Text → Text → Text → List (Option Text) → Prop) : Prop :=
  ∀ et, Step.Captures (Step.inTurn (is.map fun j => j.expr.paths et)) i k R

namespace Fills

variable {is js : List Item} {i k l : Nat} {R Q : Text → Text → Text → List (Option Text) → Prop}

theorem congr (h : Fills is i k R) (hR : ∀ b w u vs, R b w u vs ↔ Q b w u vs) : Fills is i k Q :=
  fun et => (h et).congr hR

theorem ofLocal {K : Text → Text → Text → Prop}
    (h : ∀ et, Step.Local (Step.inTurn (is.map fun j => j.expr.paths et)) K) (i : Nat) :
    Fills is i 0 fun b w u vs => K b w u ∧ vs = [] := fun et => .ofLocal (h et) i

theorem ofSpells {l : Language Char} (h : Spells is l) (i : Nat) :
    Fills is i 0 fun _ w _ vs => w ∈ l ∧ vs = [] := ofLocal h i

theorem single {j : Item} (h : ∀ et, Step.Captures (j.expr.paths et) i k R) : Fills [j] i k R := by
  intro et
  rw [List.map_singleton, Step.inTurn_single]
  exact h et

theorem captures {j : Item} (h : Fills [j] i k R) (et : EmptyTurn) :
    Step.Captures (j.expr.paths et) i k R := by
  have := h et
  rwa [List.map_singleton, Step.inTurn_single] at this

theorem group {c : Content} {K : Text → Text → Text → Prop}
    (h : ∀ et, Step.Local (c.expr.paths et) K) (i : Nat) :
    Fills [groupItem i c] i 1 fun b w u vs => K b w u ∧ vs = [some w] :=
  single fun et => .group (h et) i

theorem append (h : Fills is i k R) (h' : Fills js (i + k) l Q) :
    Fills (is ++ js) i (k + l) fun b w u vs =>
      ∃ w₁ vs₁ w₂ vs₂, R b w₁ (w₂ ++ u) vs₁ ∧ Q (w₁.reverse ++ b) w₂ u vs₂ ∧
        w = w₁ ++ w₂ ∧ vs = vs₁ ++ vs₂ := by
  intro et
  have heq : Step.inTurn ((is ++ js).map fun j => j.expr.paths et) = fun s =>
      (Step.inTurn (is.map fun j => j.expr.paths et) s).flatMap
        (Step.inTurn (js.map fun j => j.expr.paths et)) := by
    funext s
    rw [List.map_append, Step.inTurn_append]
  rw [heq]
  exact (h et).flatMap (h' et)

theorem bundled (h : Fills is i k R) (d : Dialect) : Fills [bundledItem d is] i k R := by
  refine single fun et => ?_
  have := h et
  rwa [← Branch.paths_ofItems] at this

theorem optional {j : Item} (h : Fills [j] i k R) :
    Fills [loopItem j (some 1)] i k fun b w u vs =>
      R b w u vs ∨ w = [] ∧ vs = List.replicate k none :=
  single fun et => (h.captures et).optional et true

end Fills

end PathTemplate.Expression
