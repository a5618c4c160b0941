import PathTemplate.Proofs.Search.Effort

/-!
Searches that are given up. Where a lazy run goes on and on, with nothing to be found behind any of
its turns, each turn spends the same number of steps. So a long run spends all there are.
-/
namespace PathTemplate.Expression

open Expression.Task

def Fails (d : Nat) (b : Thread) : Prop := ∀ n bs, explore (n + d) (b :: bs) = explore n bs

section Turns

variable (et : EmptyTurn) {set : CharSet} {a : Bool} {d : Nat} {k : List Task}
  {gs : List (Option Capture)}

/-- A turn of a lazy run spends three steps besides those of what follows the run. -/
theorem explore_turn {c : Char} {b r : Text} {p m : Nat} (hc : set.has a c = true)
    (hk : Fails d (k, ⟨b, c :: r, p, gs⟩)) (n : Nat) (bs : List Thread) :
    explore (n + (d + 3)) ((.turns (.one set a) et false (m + 1) :: k, ⟨b, c :: r, p, gs⟩) :: bs) =
      explore n ((.turns (.one set a) et false m :: k, ⟨c :: b, r, p + 1, gs⟩) :: bs) := by
  have hone : (Task.run (.one set a) et).unfold ⟨b, c :: r, p, gs⟩ =
      [([], ⟨c :: b, r, p + 1, gs⟩)] := by
    simp only [unfold, unfoldExpr, Expr.paths, if_pos hc]
    rfl
  have htook : (Task.took ⟨b, c :: r, p, gs⟩).unfold ⟨c :: b, r, p + 1, gs⟩ =
      [([], ⟨c :: b, r, p + 1, gs⟩)] := by
    rw [unfold, State.before?, if_pos (by simp)]
  calc
    _ = explore (n + 2 + d) ((k, ⟨b, c :: r, p, gs⟩) :: (.run (.one set a) et ::
        .took ⟨b, c :: r, p, gs⟩ :: .turns (.one set a) et false m :: k,
          ⟨b, c :: r, p, gs⟩) :: bs) := by
      rw [show n + (d + 3) = n + 2 + d + 1 by omega]
      rfl
    _ = explore (n + 1 + 1) ((.run (.one set a) et :: .took ⟨b, c :: r, p, gs⟩ ::
        .turns (.one set a) et false m :: k, ⟨b, c :: r, p, gs⟩) :: bs) := hk _ _
    _ = explore (n + 1) ((.took ⟨b, c :: r, p, gs⟩ :: .turns (.one set a) et false m :: k,
        ⟨c :: b, r, p + 1, gs⟩) :: bs) := by
      rw [explore_unfold rfl, hone]
      rfl
    _ = _ := by
      rw [explore_unfold rfl, htook]
      rfl

/-- A lazy run that finds nothing behind any of its turns spends as many steps on each. -/
theorem explore_turns {w : Text} (hw : ∀ c ∈ w, set.has a c = true)
    (hk : ∀ b c r p, c ∈ w → Fails d (k, ⟨b, c :: r, p, gs⟩)) (n m p : Nat) (b r : Text)
    (bs : List Thread) :
    explore (n + w.length * (d + 3))
        ((.turns (.one set a) et false (w.length + m) :: k, ⟨b, w ++ r, p, gs⟩) :: bs) =
      explore n ((.turns (.one set a) et false m :: k,
        ⟨w.reverse ++ b, r, p + w.length, gs⟩) :: bs) := by
  induction w generalizing b p with
  | nil => simp
  | cons c w ih =>
    have hrest := ih (fun x hx => hw x (List.mem_cons_of_mem c hx))
      (fun b x r p hx => hk b x r p (List.mem_cons_of_mem c hx)) (p + 1) (c :: b)
    rw [List.length_cons, Nat.succ_mul, ← Nat.add_assoc, Nat.add_right_comm w.length]
    refine (explore_turn et (hw c List.mem_cons_self) (hk b c (w ++ r) p List.mem_cons_self)
      (n + w.length * (d + 3)) bs).trans (hrest.trans ?_)
    rw [List.reverse_cons, List.append_assoc, List.singleton_append, Nat.add_right_comm p,
      Nat.add_assoc p]

end Turns

/-! ### Segments -/

section Segments

variable (f g : Expr)

def inSegment : Expr := .one (.compl (.union .empty (.range '/' '/'))) false

def segmentThen : Compiled :=
  ⟨.cat (.cat (.cat (.cat (.check .textStart) (.one (.range '/' '/') false))
    (.group 1 (.loop inSegment 1 none false))) f) g, 1⟩

def afterSegment (s t : State) : List Task :=
  [.close 1 s, .run f .fails, .run g .fails, .close 0 t]

/-- The first character of the segment must be there, and each further one is a turn. -/
theorem explore_segmentThen (u : Text) (n : Nat) (bs : List Thread) :
    explore (n + 13) (([.run (segmentThen f g).whole .fails],
        State.between [] ('/' :: 'x' :: u) 1) :: bs) =
      explore n ((.turns inSegment .fails false u.length :: afterSegment f g
        ⟨['/'], 'x' :: u, 1, [none, none]⟩ (State.between [] ('/' :: 'x' :: u) 1),
          ⟨['x', '/'], u, 2, [none, none]⟩) :: bs) := rfl

variable {f g} {d : Nat}
  (hfails : ∀ s t b r p gs, Fails d (afterSegment f g s t, ⟨b, 'x' :: r, p, gs⟩))

include hfails

/-- All steps are spent within the segment. -/
theorem explore_inSegment (s t : State) (n m p : Nat) (b r : Text) (gs : List (Option Capture))
    (bs : List Thread) : explore (n * (d + 3)) ((.turns inSegment .fails false (n + m) ::
      afterSegment f g s t, ⟨b, List.replicate n 'x' ++ r, p, gs⟩) :: bs) = .gaveUp := by
  have hset : ∀ c ∈ List.replicate n 'x',
      (CharSet.compl (.union .empty (.range '/' '/'))).has false c = true := by
    intro c hc
    rw [List.eq_of_mem_replicate hc]
    rfl
  have hturns := explore_turns .fails hset (k := afterSegment f g s t)
    (fun b c r p hc => List.eq_of_mem_replicate hc ▸ hfails s t b r p gs) 0 m p b r bs
  rw [List.length_replicate, Nat.zero_add] at hturns
  exact hturns

/-- A search gives up on a long segment if nothing is found that ends within it. -/
theorem find_segmentThen_gaveUp {n : Nat} (hplain : (segmentThen f g).expr.isPlain = false)
    (hn : stepLimit ≤ n * (d + 3)) (r : Text) :
    (segmentThen f g).find ('/' :: 'x' :: (List.replicate n 'x' ++ r)) = .gaveUp := by
  obtain ⟨ss, hss⟩ := State.exists_places_eq ('/' :: 'x' :: (List.replicate n 'x' ++ r)) 1
  have hsearch : explore stepLimit (([.run (segmentThen f g).whole .fails],
      State.between [] ('/' :: 'x' :: (List.replicate n 'x' ++ r)) 1) ::
        ss.map fun s => ([.run (segmentThen f g).whole .fails], s)) = .gaveUp := by
    refine gaveUp_of_le (m := n * (d + 3) + 13) ?_ (Nat.le_add_right_of_le hn)
    rw [explore_segmentThen, List.length_append, List.length_replicate]
    exact explore_inSegment hfails _ _ n r.length 2 _ r _ _
  rw [Compiled.find, if_neg (by rw [hplain]; exact Bool.false_ne_true),
    show (segmentThen f g).groups = 1 from rfl, hss, List.map_cons, hsearch]

end Segments

end PathTemplate.Expression
