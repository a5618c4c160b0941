import PathTemplate.Proofs.Meaning.Captures

/-!
The preferred way of a step. Where the way on from the preferred way of a part never fails, it is
the preferred way of the whole, and nothing is given back. Where there is one way only, it is the
preferred one.
-/
namespace PathTemplate.Expression

open State

namespace Step

/-- The preferred way from `s` passes `w` and gives the groups from number `i` on the values. -/
def Prefers (r : Step) (s : State) (w : Text) (i : Nat) (vs : List (Option Text)) : Prop :=
  ∃ t, (r s).head? = some t ∧ s.Passes w t ∧ t.texts = fill i vs s.texts

namespace Prefers

variable {r a b : Step} {s : State} {w w' : Text} {i k : Nat} {vs vs' : List (Option Text)}
  {R : Text → Text → Text → List (Option Text) → Prop}

/-- What follows has to go on from the preferred way, wherever that ends. -/
theorem flatMap (ha : Prefers a s w i vs)
    (hb : ∀ t, s.Passes w t → Prefers b t w' (i + vs.length) vs') :
    Prefers (fun s => (a s).flatMap b) s (w ++ w') i (vs ++ vs') := by
  obtain ⟨t, ht, hs, hf⟩ := ha
  obtain ⟨u, hu, hs', hf'⟩ := hb t hs
  obtain ⟨ts, hts⟩ := List.head?_eq_some_iff.mp ht
  refine ⟨u, ?_, hs.trans hs', by rw [hf', hf, fill_append]⟩
  simp only [hts, List.flatMap_cons, List.head?_append, hu, Option.some_or]

theorem first (ha : Prefers a s w i vs) : Prefers (fun s => a s ++ b s) s w i vs := by
  obtain ⟨t, ht, hs⟩ := ha
  exact ⟨t, by simp only [List.head?_append, ht, Option.some_or], hs⟩

/-- The second alternative is taken where the first one fails. -/
theorem second (ha : a s = []) (hb : Prefers b s w i vs) :
    Prefers (fun s => a s ++ b s) s w i vs := by
  obtain ⟨t, ht, hs⟩ := hb
  exact ⟨t, by simp only [ha, List.nil_append, ht], hs⟩

theorem group (h : Prefers r s w i []) :
    Prefers (fun s => (r s).map (State.close i s)) s w i [some w] := by
  obtain ⟨t, ht, hs, hf⟩ := h
  refine ⟨State.close i s t, by simp only [List.head?_map, ht, Option.map_some],
    ⟨hs.rest, hs.before, hs.pos⟩, ?_⟩
  rw [texts_close hs, hf]
  rfl

private theorem optional_eq (r : Step) (et : EmptyTurn) :
    Step.loop et r 0 (some 1) true = fun s => r s ++ [s] := by
  funext s
  simp [Step.loop, Step.times, Step.upTo, Step.prefer]

theorem optional (h : Prefers r s w i vs) (et : EmptyTurn) :
    Prefers (Step.loop et r 0 (some 1) true) s w i vs := by
  rw [optional_eq]
  exact h.first

/-- What may be left out is left out where it fails. -/
theorem absent (h : r s = []) (et : EmptyTurn) (i k : Nat) :
    Prefers (Step.loop et r 0 (some 1) true) s [] i (List.replicate k none) := by
  rw [optional_eq]
  exact second h ⟨s, rfl, passes_self s, (fill_replicate_none i k _).symm⟩

/-- Groups in front that hold no value. -/
theorem behind (k : Nat) (h : Prefers r s w (i + k) vs) :
    Prefers r s w i (List.replicate k none ++ vs) := by
  obtain ⟨t, ht, hs, hf⟩ := h
  exact ⟨t, ht, hs, by rw [fill_append, fill_replicate_none, List.length_replicate, hf]⟩

/-- Groups at the end that hold no value. -/
theorem before (k : Nat) (h : Prefers r s w i vs) :
    Prefers r s w i (vs ++ List.replicate k none) := by
  obtain ⟨t, ht, hs, hf⟩ := h
  exact ⟨t, ht, hs, by rw [fill_append, fill_replicate_none, hf]⟩

/-- Where there is one way only, it is preferred. -/
theorem ofCaptures (h : Captures r i k R) {u : Text} (hR : R s.before w u vs)
    (hrest : s.rest = w ++ u)
    (honly : ∀ w' u' vs', R s.before w' u' vs' → s.rest = w' ++ u' → w' = w ∧ vs' = vs) :
    Prefers r s w i vs := by
  obtain ⟨t, ht, -⟩ := h.complete s w u vs hR hrest
  cases hr : r s with
  | nil => simp [hr] at ht
  | cons q qs =>
    obtain ⟨w', vs', hR', hs, hf⟩ := h.sound s q (by rw [hr]; exact List.mem_cons_self)
    obtain ⟨rfl, rfl⟩ := honly w' q.rest vs' hR' hs.rest
    exact ⟨q, by rw [hr]; rfl, hs, hf⟩

end Prefers

/-- Where there is no way, a step fails. -/
theorem Captures.eq_nil {r : Step} {i k : Nat} {R : Text → Text → Text → List (Option Text) → Prop}
    (h : Captures r i k R) {s : State} (hR : ∀ w u vs, s.rest = w ++ u → ¬ R s.before w u vs) :
    r s = [] := by
  refine List.eq_nil_iff_forall_not_mem.mpr fun t ht => ?_
  obtain ⟨w, vs, hw, hs, -⟩ := h.sound s t ht
  exact hR w t.rest vs hs.rest hw

/-- At least one turn is one turn and any number more. -/
theorem oneOrMore_eq {r : Step} (hf : Forward r) (hc : Consumes r) (et : EmptyTurn)
    (greedy : Bool) :
    Step.loop et r 1 none greedy = fun s => (r s).flatMap (Step.star r greedy) := by
  rw [loop_eq_fails hf hc]
  funext s
  simp [Step.loop, Step.atLeast, Step.times]

end Step

/-! ### Characters -/

section Characters

variable {S : CharSet} {a : Bool} {s : State}

theorem prefers_one {c : Char} {u : Text} (hr : s.rest = c :: u) (hc : S.has a c = true)
    (et : EmptyTurn) (i : Nat) : Step.Prefers ((Expr.one S a).paths et) s [c] i [] := by
  refine ⟨s.next, by simp [Expr.paths, hr, hc], passes_next hr, texts_congr ?_⟩
  simp [State.next, hr]

theorem paths_one_eq_nil (h : ∀ c ∈ s.rest.head?, S.has a c = false) (et : EmptyTurn) :
    (Expr.one S a).paths et s = [] := by
  cases hr : s.rest with
  | nil => simp [Expr.paths, hr]
  | cons c u => simp [Expr.paths, hr, h c (by simp [hr])]

private theorem paths_run (S : CharSet) (a : Bool) (et : EmptyTurn) :
    (Expr.loop (.one S a) 1 none true).paths et = fun s =>
      ((Expr.one S a).paths et s).flatMap (Step.star ((Expr.one S a).paths et) true) :=
  Step.oneOrMore_eq (Expr.forward_paths (.one S a) et) (Expr.consumes_one S a et) et true

/-- A run of characters is taken as far as it goes. -/
theorem prefers_run {w u : Text} (hne : w ≠ []) (hr : s.rest = w ++ u)
    (hw : ∀ c ∈ w, S.has a c = true) (hu : ∀ c ∈ u.head?, S.has a c = false) (et : EmptyTurn)
    (i : Nat) : Step.Prefers ((Expr.loop (.one S a) 1 none true).paths et) s w i [] := by
  have hconsumes : Step.Consumes ((Expr.one S a).paths et) := Expr.consumes_one S a et
  have hforward := Expr.forward_paths (.one S a) et
  have hstar : ∀ (w : Text) (s : State), s.rest = w ++ u → (∀ c ∈ w, S.has a c = true) →
      Step.Prefers (Step.star ((Expr.one S a).paths et) true) s w i [] := by
    intro w
    induction w with
    | nil =>
      intro s hr _
      have hnil : (Expr.one S a).paths et s = [] := by
        refine paths_one_eq_nil (fun c hc => hu c ?_) et
        rwa [hr] at hc
      refine ⟨s, ?_, passes_self s, rfl⟩
      rw [Step.star_eq hforward, Step.taking, hnil]
      rfl
    | cons c w ih =>
      intro s hr hw
      have hmore := (prefers_one (i := i) hr (hw c List.mem_cons_self) et).flatMap fun t ht => ih t
        (List.append_cancel_left (ht.rest.symm.trans hr))
        fun d hd => hw d (List.mem_cons_of_mem c hd)
      obtain ⟨t, ht, hs⟩ := hmore.first (b := fun s => [s])
      refine ⟨t, ?_, hs⟩
      rwa [Step.star_eq hforward, Step.taking_eq hconsumes]
  obtain ⟨c, w, rfl⟩ := List.exists_cons_of_ne_nil hne
  have hrun := (prefers_one (i := i) hr (hw c List.mem_cons_self) et).flatMap fun t ht => hstar w t
    (List.append_cancel_left (ht.rest.symm.trans hr)) fun d hd => hw d (List.mem_cons_of_mem c hd)
  rwa [paths_run]

theorem paths_run_eq_nil (h : ∀ c ∈ s.rest.head?, S.has a c = false) (et : EmptyTurn) :
    (Expr.loop (.one S a) 1 none true).paths et s = [] := by
  simp only [paths_run, paths_one_eq_nil h, List.flatMap_nil]

end Characters

end PathTemplate.Expression
