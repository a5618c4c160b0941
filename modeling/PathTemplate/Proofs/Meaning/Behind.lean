import PathTemplate.Proofs.Meaning.Alternatives
import PathTemplate.Proofs.Reading.Renumbering

/-!
Expressions behind other groups. An expression that keeps to its own groups does behind the groups
of others what it does by itself.
-/
namespace PathTemplate.Expression

namespace State

variable {g : List (Option Capture) → List (Option Capture)}

theorem back_moved (n : Nat) (s : State) :
    (s.moved 0 g).back n = (s.back n).map (moved 0 g) := by
  induction n generalizing s with
  | zero => rfl
  | succ n ih =>
    obtain ⟨b, r, p, gs⟩ := s
    cases b with
    | nil => rfl
    | cons c b => exact ih ⟨b, c :: r, p - 1, gs⟩

theorem follow_moved (w : Text) (s : State) :
    (s.moved 0 g).follow w = (s.follow w).map (moved 0 g) := by
  induction w generalizing s with
  | nil => rfl
  | cons c w ih =>
    obtain ⟨b, r, p, gs⟩ := s
    cases r with
    | nil => rfl
    | cons d r =>
      simp only [follow, moved]
      split
      · exact ih ⟨d :: b, r, p + 1, gs⟩
      · rfl

/-- A group of its own has taken the same where groups stand before it. -/
theorem taken_narrow {k n i : Nat} (h1 : 1 ≤ i) (hn : i ≤ n) (s : State) :
    (s.moved 0 (narrow k n)).taken i = s.taken (k + i) := by
  obtain ⟨j, rfl⟩ : ∃ j, i = j + 1 := ⟨i - 1, by omega⟩
  have hget : (narrow k n s.groups)[j + 1]? = s.groups[k + (j + 1)]? := by
    rw [narrow, List.getElem?_cons_succ, List.getElem?_take, if_pos (by omega), List.getElem?_drop]
    congr 1
    omega
  exact congrArg (fun x : Option (Option Capture) => x.join.map Capture.text) hget

end State

/-- Behind `k` other groups an expression does what it does by itself. -/
theorem Expr.KeepsTo.along {n : Nat} {e : Expr} (h : e.KeepsTo n) (k : Nat) (et : EmptyTurn) :
    Step.Along (State.moved 0 (narrow k n)) ((e.renumber (k + ·)).paths et) (e.paths et) := by
  have hkeeps : State.Keeps (State.moved 0 (narrow k n)) := State.keeps_moved 0 (narrow k n)
  have hinner : ∀ {e : Expr}, (∀ et, Step.Along (State.moved 0 (narrow k n))
      ((e.renumber (k + ·)).paths et) (e.paths et)) → Step.Along (State.moved 0 (narrow k n))
      ((e.renumber (k + ·)).paths (e.renumber (k + ·)).emptyTurn) (e.paths e.emptyTurn) := by
    intro e he
    rw [emptyTurn, emptyTurn, isPlain_renumber]
    exact he _
  induction e generalizing et with
  | empty => exact fun _ => rfl
  | one s a => exact Expr.Carries.one s a et et
  | check x => exact Expr.Carries.check x et et
  | cat a b iha ihb => exact (iha h.cat.1 et).flatMap (ihb h.cat.2 et)
  | alt a b iha ihb => exact (iha h.alt.1 et).append (ihb h.alt.2 et)
  | group i e ih =>
    obtain ⟨⟨h1, -⟩, he⟩ := h.group
    obtain ⟨j, rfl⟩ : ∃ j, i = j + 1 := ⟨i - 1, by omega⟩
    intro s
    simp only [renumber, paths, ih he et s, List.map_map]
    exact List.map_congr_left fun t _ => State.close_moved (narrow_set k n j) s t
  | loop e lo hi greedy ih => exact (ih h.loop et).loop hkeeps et lo hi greedy
  | ahead wanted e ih => exact (hinner (ih h.ahead)).ahead et et (fun _ _ => rfl) wanted
  | behind wanted m e ih =>
    exact (hinner (ih h.behind)).behind et et (fun _ _ => rfl) State.back_moved wanted m
  | atomic e ih => exact (hinner (ih h.atomic)).atomic et et
  | again i =>
    intro s
    simp only [renumber, paths, State.taken_narrow h.again.1 h.again.2]
    cases s.taken (k + i) with
    | none => rfl
    | some w =>
      simp only [State.follow_moved]
      cases s.follow w <;> rfl

end PathTemplate.Expression
