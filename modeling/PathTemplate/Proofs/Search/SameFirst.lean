import PathTemplate.Proofs.Reading.Compiling
import PathTemplate.Proofs.Search.Place

/-!
Lists of states that differ in repetitions only. Whatever is looked for in them, the same state is
found first, and that stays so when a search goes on from each of the states.
-/
namespace PathTemplate.Expression

/-- Whatever is looked for, both lists give the same first result. -/
def SameFirst (ss ts : List State) : Prop :=
  ∀ p : State → Option State, ss.findSome? p = ts.findSome? p

namespace SameFirst

variable {ss ss' ts ts' : List State}

theorem refl (ss : List State) : SameFirst ss ss := fun _ => rfl

theorem head? (h : SameFirst ss ts) : ss.head? = ts.head? := by
  have hfirst : ∀ us : List State, us.findSome? some = us.head? := by
    intro us
    cases us <;> rfl
  rw [← hfirst, ← hfirst, h]

theorem append (h : SameFirst ss ts) (h' : SameFirst ss' ts') :
    SameFirst (ss ++ ss') (ts ++ ts') := by
  intro p
  rw [List.findSome?_append, List.findSome?_append, h, h']

theorem flatMap (h : SameFirst ss ts) {f g : Step} (hfg : ∀ s, SameFirst (f s) (g s)) :
    SameFirst (ss.flatMap f) (ts.flatMap g) := by
  intro p
  have hfind : ∀ (us : List State) (k : Step), (us.flatMap k).findSome? p =
      us.findSome? fun s => (k s).findSome? p := by
    intro us k
    induction us with
    | nil => rfl
    | cons u us ih =>
      rw [List.flatMap_cons, List.findSome?_append, ih, List.findSome?_cons]
      cases (k u).findSome? p <;> rfl
  rw [hfind, hfind, h, funext fun s => hfg s p]

/-- One state, however often it is listed. -/
theorem of_all_eq {s : State} (hss : ∀ t ∈ ss, t = s) (hts : ∀ t ∈ ts, t = s)
    (h : (∃ t, t ∈ ss) ↔ ∃ t, t ∈ ts) : SameFirst ss ts := by
  intro p
  cases ss with
  | nil =>
    cases ts with
    | nil => rfl
    | cons t ts => exact absurd (h.mpr ⟨t, List.mem_cons_self⟩) (by simp)
  | cons s' ss =>
    cases ts with
    | nil => exact absurd (h.mp ⟨s', List.mem_cons_self⟩) (by simp)
    | cons t ts =>
      have hfound : ∀ us : List State, (∀ u ∈ us, u = s) → us ≠ [] → us.findSome? p = p s := by
        intro us hus hne
        induction us with
        | nil => exact absurd rfl hne
        | cons u us ih =>
          rw [List.findSome?_cons, hus u List.mem_cons_self]
          cases us with
          | nil => cases p s <;> rfl
          | cons v us =>
            rw [ih (fun w hw => hus w (List.mem_cons_of_mem u hw)) nofun]
            cases p s <;> rfl
      rw [hfound _ hss nofun, hfound _ hts nofun]

end SameFirst

structure FindAlike (is js : List Item) : Prop where
  isPlain : (is.all fun i => i.expr.isPlain) = js.all fun j => j.expr.isPlain
  finds : ∀ et s, SameFirst (Step.inTurn (is.map fun i => i.expr.paths et) s)
    (Step.inTurn (js.map fun i => i.expr.paths et) s)

namespace FindAlike

variable {is is' js js' : List Item}

theorem refl (is : List Item) : FindAlike is is := ⟨rfl, fun _ _ => .refl _⟩

theorem append (h : FindAlike is js) (h' : FindAlike is' js') :
    FindAlike (is ++ is') (js ++ js') where
  isPlain := by rw [List.all_append, List.all_append, h.isPlain, h'.isPlain]
  finds et s := by
    rw [List.map_append, List.map_append, Step.inTurn_append, Step.inTurn_append]
    exact (h.finds et s).flatMap (h'.finds et)

theorem isPlain_ofItems (h : FindAlike is js) :
    (Branch.ofItems is).expr.isPlain = (Branch.ofItems js).expr.isPlain := by
  have hall : ∀ is, (Branch.ofItems is).expr.isPlain = is.all fun i => i.expr.isPlain :=
    all_ofItems rfl fun _ _ => rfl
  rw [hall, hall, h.isPlain]

theorem paths_ofItems (h : FindAlike is js) (et : EmptyTurn) (s : State) :
    SameFirst ((Branch.ofItems is).expr.paths et s) ((Branch.ofItems js).expr.paths et s) := by
  rw [Branch.paths_ofItems, Branch.paths_ofItems]
  exact h.finds et s

theorem bundled (h : FindAlike is js) (d : Dialect) :
    FindAlike [bundledItem d is] [bundledItem d js] where
  isPlain := congrArg (· && true) h.isPlain_ofItems
  finds et s := by
    rw [List.map_singleton, List.map_singleton, Step.inTurn_single, Step.inTurn_single]
    exact h.paths_ofItems et s

theorem optional {i j : Item} (h : FindAlike [i] [j]) :
    FindAlike [loopItem i (some 1)] [loopItem j (some 1)] where
  isPlain := h.isPlain
  finds et s := by
    have hloop : ∀ r : Step, Step.loop et r 0 (some 1) true s = r s ++ [s] := by
      intro r
      simp [Step.loop, Step.times, Step.upTo, Step.prefer]
    have hi := h.finds et s
    rw [List.map_singleton, List.map_singleton, Step.inTurn_single, Step.inTurn_single] at hi ⊢
    simp only [loopItem, Expr.paths, hloop]
    exact hi.append (.refl [s])

end FindAlike

end PathTemplate.Expression
