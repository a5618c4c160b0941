import Mathlib.Algebra.GroupWithZero.Nat
import PathTemplate.Proofs.Search.FirstMatch
import PathTemplate.Proofs.Search.Order

/-!
How many steps a search needs. All that a thread comes to is found out in a number of steps that
does not depend on what is searched after it, so the steps of the parts of a search can be added up,
and a search whose sum is within the limit does not give up.
-/
namespace PathTemplate.Expression

open Expression.Task

/-- More steps change nothing about a search that does not give up. -/
theorem explore_mono {n m : Nat} {bs : List Thread} (h : explore n bs ≠ .gaveUp) (hle : n ≤ m) :
    explore m bs = explore n bs := by
  induction n generalizing m bs with
  | zero => exact absurd rfl h
  | succ n ih =>
    obtain ⟨m, rfl⟩ : ∃ k, m = k + 1 := ⟨m - 1, by omega⟩
    have hnm : n ≤ m := by omega
    match bs with
    | [] => rfl
    | ([], s) :: bs => rfl
    | (t :: k, s) :: bs =>
      rw [explore] at h ⊢
      rw [explore]
      cases hi : t.inner? s with
      | none =>
        simp only [hi] at h ⊢
        exact ih h hnm
      | some x =>
        obtain ⟨e, u, kept⟩ := x
        simp only [hi] at h ⊢
        have hinner : explore n [([.run e e.emptyTurn], u)] ≠ .gaveUp := by
          intro hg
          simp [hg] at h
        rw [ih hinner hnm]
        cases hv : explore n [([.run e e.emptyTurn], u)] with
        | gaveUp => exact absurd hv hinner
        | found v | absent =>
          simp only [hv] at h ⊢
          cases kept <;> exact ih h hnm

/-- A search that gives up does so with fewer steps too. -/
theorem gaveUp_of_le {n m : Nat} {bs : List Thread} (h : explore m bs = .gaveUp) (hle : n ≤ m) :
    explore n bs = .gaveUp := by
  by_contra hne
  exact hne ((explore_mono hne hle).symm.trans h)

/-- A task that is not searched on its own is unfolded in one step. -/
theorem explore_unfold {t : Task} {s : State} (hi : t.inner? s = none) (n : Nat) (k : List Task)
    (bs : List Thread) : explore (n + 1) ((t :: k, s) :: bs) =
      explore n ((t.unfold s).map (fun (ts, u) => (ts ++ k, u)) ++ bs) := by
  rw [explore, hi]

/-- With `c` steps more, the second search gives up no earlier than the first. -/
def Follows (c : Nat) (bs bs' : List Thread) : Prop :=
  ∀ m, explore m bs ≠ .gaveUp → explore (m + c) bs' ≠ .gaveUp

/-- What is searched first does not matter. -/
theorem Follows.behind {c : Nat} {bs bs' : List Thread} (h : Follows c bs bs')
    (ths : List Thread) : Follows c (ths ++ bs) (ths ++ bs') := by
  intro m
  induction m generalizing ths with
  | zero => exact fun hne => absurd rfl hne
  | succ m ih =>
    intro hne
    match ths with
    | [] => exact h _ hne
    | ([], s) :: ths =>
      rw [Nat.add_right_comm]
      nofun
    | (t :: k, s) :: ths =>
      rw [List.cons_append] at hne ⊢
      rw [Nat.add_right_comm, explore]
      rw [explore] at hne
      cases hi : t.inner? s with
      | none =>
        simp only [hi, ← List.append_assoc] at hne ⊢
        exact ih _ hne
      | some x =>
        obtain ⟨e, u, kept⟩ := x
        simp only [hi] at hne ⊢
        have hinner : explore m [([.run e e.emptyTurn], u)] ≠ .gaveUp := by
          intro hg
          simp [hg] at hne
        rw [explore_mono hinner (Nat.le_add_right m c)]
        cases hv : explore m [([.run e e.emptyTurn], u)] with
        | gaveUp => exact absurd hv hinner
        | found v =>
          simp only [hv] at hne ⊢
          cases kept with
          | true => exact ih ((k, v) :: ths) hne
          | false => exact ih ths hne
        | absent =>
          simp only [hv] at hne ⊢
          cases kept with
          | true => exact ih ths hne
          | false => exact ih ((k, s) :: ths) hne

/-! ### What tasks spend -/

/-- All ways to do the tasks are found out in `c` steps, whatever is to be done behind them and
whatever is searched afterwards. -/
def Spends (c : Nat) (ts : List Task) (s : State) : Prop :=
  ∀ k bs, Follows c ((allWays ts s).map (fun r => (k, r)) ++ bs) ((ts ++ k, s) :: bs)

namespace Spends

variable {c d c' : Nat} {t : Task} {ts us : List Task} {s u u' : State}

theorem nil (s : State) : Spends 0 [] s := fun _ _ _ h => h

theorem mono (h : Spends c ts s) (hle : c ≤ d) : Spends d ts s := by
  intro k bs m hm
  have hc := h k bs m hm
  rwa [explore_mono hc (by omega)]

/-- Threads that are searched one after the other spend the sum. -/
private theorem threads (ths : List Thread) {f : Thread → Nat}
    (h : ∀ b ∈ ths, Spends (f b) b.1 b.2) (k : List Task) (bs : List Thread) :
    Follows (ths.map f).sum ((ths.flatMap Thread.ends).map (fun r => (k, r)) ++ bs)
      (ths.map (fun (ts, u) => (ts ++ k, u)) ++ bs) := by
  induction ths with
  | nil => exact fun _ hm => hm
  | cons b ths ih =>
    intro m hm
    have hrest := ih fun b' hb' => h b' (List.mem_cons_of_mem b hb')
    rw [List.flatMap_cons, List.map_append, List.append_assoc] at hm
    have hfirst := h b List.mem_cons_self k _ _ (hrest.behind _ m hm)
    rwa [Nat.add_assoc, Nat.add_comm _ (f b)] at hfirst

/-- A task that is unfolded spends one step more than what it is unfolded to. -/
theorem step (hi : t.inner? s = none) {f : Thread → Nat}
    (h : ∀ b ∈ t.unfold s, Spends (f b) b.1 b.2) :
    Spends (((t.unfold s).map f).sum + 1) [t] s := by
  intro k bs m hm
  rw [allWays_single, ← ends_unfold s t hi] at hm
  rw [← Nat.add_assoc, List.singleton_append, explore_unfold hi]
  exact threads _ h k bs m hm

/-- What follows a task that is unfolded in one way follows what it is unfolded to. -/
theorem unfolded (hi : t.inner? s = none) (hu : t.unfold s = [(us, u)])
    (h : Spends c (us ++ ts) u) : Spends (c + 1) (t :: ts) s := by
  have hways : t.ways s = allWays us u := by
    rw [← ends_unfold s t hi, hu]
    exact List.append_nil _
  intro k bs m hm
  rw [allWays, hways, ← allWays_append] at hm
  rw [← Nat.add_assoc, List.cons_append, explore_unfold hi, hu]
  have hall := h k bs m hm
  rwa [List.append_assoc] at hall

theorem single (hi : t.inner? s = none) (hu : t.unfold s = [(ts, u)]) (h : Spends c ts u) :
    Spends (c + 1) [t] s := unfolded hi hu (by rwa [List.append_nil])

theorem pair (hi : t.inner? s = none) (hu : t.unfold s = [(ts, u), (us, u')])
    (h : Spends c ts u) (h' : Spends d us u') : Spends (c + d + 1) [t] s := by
  intro k bs m hm
  rw [allWays_single, ← ends_unfold s t hi, hu] at hm
  rw [← Nat.add_assoc, List.singleton_append, explore_unfold hi, hu]
  simp only [List.flatMap_cons, List.flatMap_nil, List.append_nil, List.map_append,
    List.append_assoc] at hm
  have hsecond := (h' k bs).behind _ m hm
  have hfirst := h k _ _ hsecond
  rwa [Nat.add_assoc, Nat.add_comm d c] at hfirst

/-- What comes next is done from every state that is reached. -/
theorem append {f : State → Nat} (h : Spends c ts s)
    (h' : ∀ r ∈ allWays ts s, Spends (f r) us r) :
    Spends (c + ((allWays ts s).map f).sum) (ts ++ us) s := by
  intro k bs m hm
  have hthreads := threads ((allWays ts s).map fun r => (us, r)) (f := fun b => f b.2)
    (by
      intro b hb
      obtain ⟨r, hr, rfl⟩ := List.mem_map.mp hb
      exact h' r hr) k bs m
  rw [List.flatMap_map, List.map_map, List.map_map] at hthreads
  rw [allWays_append] at hm
  have hall := h (us ++ k) bs _ (hthreads hm)
  rwa [Nat.add_assoc, Nat.add_comm _ c, ← List.append_assoc] at hall

theorem append_of_le {n : Nat} (h : Spends c ts s) (h' : ∀ r ∈ allWays ts s, Spends d us r)
    (hn : (allWays ts s).length ≤ n) : Spends (c + n * d) (ts ++ us) s := by
  refine (append h h').mono (Nat.add_le_add_left ?_ c)
  rw [List.map_const', List.sum_replicate_nat]
  exact Nat.mul_le_mul_right d hn

/-! ### Expressions -/

variable {a b e : Expr} {et : EmptyTurn}

/-- An expression that is not unfolded any further spends one step. -/
theorem atom (hi : (Task.run e et).inner? s = none)
    (hu : unfoldExpr s et e = (e.paths et s).map fun r => ([], r)) :
    Spends 1 [.run e et] s := by
  have hstep := step (t := .run e et) (f := fun _ => 0) hi (by
    intro b hb
    rw [unfold, hu] at hb
    obtain ⟨r, -, rfl⟩ := List.mem_map.mp hb
    exact nil r)
  exact hstep.mono (by simp)

theorem one (x : CharSet) (anyCase : Bool) (et : EmptyTurn) (s : State) :
    Spends 1 [.run (.one x anyCase) et] s := atom rfl rfl

theorem check (x : Assertion) (et : EmptyTurn) (s : State) : Spends 1 [.run (.check x) et] s :=
  atom rfl rfl

theorem empty (et : EmptyTurn) (s : State) : Spends 1 [.run .empty et] s := atom rfl rfl

theorem cat (h : Spends c [.run a et, .run b et] s) : Spends (c + 1) [.run (.cat a b) et] s :=
  single rfl rfl h

theorem alt (h : Spends c [.run a et] s) (h' : Spends d [.run b et] s) :
    Spends (c + d + 1) [.run (.alt a b) et] s := pair rfl rfl h h'

private theorem allWays_run (e : Expr) (et : EmptyTurn) (s : State) :
    allWays [.run e et] s = e.paths et s := allWays_single _ s

theorem group {n : Nat} (i : Nat) (h : Spends c [.run e et] s) (hn : (e.paths et s).length ≤ n) :
    Spends (c + n + 1) [.run (.group i e) et] s := by
  have hclose : ∀ r, Spends 1 [.close i s] r := fun r => single rfl rfl (nil _)
  have hall := append_of_le (n := n) h (fun r _ => hclose r) (by rwa [allWays_run])
  rw [Nat.mul_one] at hall
  exact single rfl rfl hall

theorem ahead {n : Nat} (h : Spends c [.run e e.emptyTurn] s)
    (hn : (e.paths e.emptyTurn s).length ≤ n) :
    Spends (c + n + 1) [.run (.ahead true e) et] s := by
  have hresume : ∀ r, Spends 1 [.resume s] r := fun r => single rfl rfl (nil _)
  have hall := append_of_le (n := n) h (fun r _ => hresume r) (by rwa [allWays_run])
  rw [Nat.mul_one] at hall
  exact single rfl rfl hall

/-- What may be left out. -/
theorem optional {n : Nat} (h : Spends c [.run e et] s) (hn : (e.paths et s).length ≤ n) :
    Spends (c + n + 3) [.run (.loop e 0 (some 1) true) et] s := by
  have hlast : ∀ r, Spends 1 [.upTo e et true 0] r := fun r => single rfl rfl (nil _)
  have hturn := append_of_le (n := n) h (fun r _ => hlast r) (by rwa [allWays_run])
  rw [Nat.mul_one] at hturn
  have hturns := pair (t := .upTo e et true 1) rfl rfl hturn (nil s)
  have hnone := single (t := .times e et 0) (s := s) rfl rfl (nil s)
  have hall :
      Spends (0 + 1 + 1 * (c + n + 0 + 1)) ([Task.times e et 0] ++ [Task.upTo e et true 1]) s := by
    refine append_of_le hnone (fun r hr => ?_) (by simp [allWays_single, ways, Step.times])
    obtain rfl : r = s := by simpa [allWays_single, ways, Step.times] using hr
    simpa using hturns
  exact (single (t := .run (.loop e 0 (some 1) true) et) rfl rfl hall).mono (by omega)

end Spends

/-! ### Runs of characters -/

section Runs

variable (x : CharSet) (anyCase : Bool)

private theorem length_rest_one_le {et : EmptyTurn} {s r : State}
    (hr : r ∈ (Expr.one x anyCase).paths et s) : r.rest.length ≤ s.rest.length := by
  obtain ⟨b, _ | ⟨c, w⟩, p, gs⟩ := s
  · cases hr
  · simp only [Expr.paths] at hr
    split at hr
    · rw [List.mem_singleton.mp hr]
      exact Nat.le_succ _
    · cases hr

private theorem spends_took (s r : State) : Spends 1 [.took s] r := by
  have hstep := Spends.step (t := .took s) (s := r) (f := fun _ => 0) rfl (by
    intro b hb
    rw [Task.unfold] at hb
    split at hb
    · rw [List.mem_singleton.mp hb]
      exact .nil r
    · cases hb)
  exact hstep.mono (by simp)

private theorem length_took_le (s r : State) : (allWays [.took s] r).length ≤ 1 := by
  simp only [allWays_single, Task.ways]
  split <;> simp

private theorem spends_turns (greedy : Bool) (n : Nat) (s : State) :
    Spends (3 * n + 1) [.turns (.one x anyCase) .fails greedy n] s := by
  induction n generalizing s with
  | zero => exact .single rfl rfl (.nil s)
  | succ n ih =>
    have htook : ∀ r, Spends (1 + 1 * (3 * n + 1))
        ([Task.took s] ++ [Task.turns (.one x anyCase) .fails greedy n]) r :=
      fun r => (spends_took s r).append_of_le (fun q _ => ih q) (length_took_le s r)
    have hturn := Spends.append_of_le (n := 1) (Spends.one x anyCase .fails s) (fun r _ => htook r)
      (by rw [allWays_single]; exact length_paths_one_le x anyCase .fails s)
    rw [Nat.one_mul] at hturn
    cases greedy with
    | false => exact (Spends.pair rfl rfl (.nil s) hturn).mono (by omega)
    | true => exact (Spends.pair rfl rfl hturn (.nil s)).mono (by omega)

/-- A run of characters spends three steps on each character of the rest, and some more. -/
theorem spends_run (s : State) :
    Spends (3 * s.rest.length + 6) [.run (.loop (.one x anyCase) 1 none false) .fails] s := by
  have hlast : ∀ r, Spends 1 [.times (.one x anyCase) .fails 0] r :=
    fun r => .single rfl rfl (.nil r)
  have hfirst := Spends.single (t := .times (.one x anyCase) .fails 1) rfl rfl
    ((Spends.one x anyCase .fails s).append_of_le (n := 1) (fun r _ => hlast r)
      (by rw [allWays_single]; exact length_paths_one_le x anyCase .fails s))
  have hways : allWays [.times (.one x anyCase) .fails 1] s =
      (Expr.one x anyCase).paths .fails s := by
    simp [allWays_single, Task.ways, Step.times]
  have hstar : ∀ r ∈ allWays [.times (.one x anyCase) .fails 1] s,
      Spends (3 * s.rest.length + 2) [.star (.one x anyCase) .fails false] r := by
    intro r hr
    rw [hways] at hr
    refine (Spends.single rfl rfl (spends_turns x anyCase false r.rest.length r)).mono ?_
    have := length_rest_one_le x anyCase hr
    omega
  have hall := hfirst.append_of_le (n := 1) hstar
    (by rw [hways]; exact length_paths_one_le x anyCase .fails s)
  exact (Spends.single rfl rfl hall).mono (by omega)

end Runs

/-! ### Searches -/

/-- A search is not given up if what the expression spends at the start of the text is within the
limit and there is a match. -/
theorem Compiled.find_ne_gaveUp_of_spends (c : Compiled) (t : Text) {n : Nat} {r : State}
    (h : Spends n [.run c.expr .fails] (State.between [] t c.groups))
    (hr : r ∈ c.expr.paths c.expr.emptyTurn (State.between [] t c.groups))
    (hn : n + 3 ≤ stepLimit) : c.find t ≠ .gaveUp := by
  by_cases hplain : c.expr.isPlain = true
  · exact c.find_ne_gaveUp hplain t
  · rw [Expr.emptyTurn, if_neg hplain] at hr
    obtain ⟨q, rs, hrs⟩ := List.exists_cons_of_ne_nil (List.ne_nil_of_mem hr)
    obtain ⟨ss, hss⟩ := State.exists_places_eq t c.groups
    have hfound : ∀ bs, explore 2
        ((allWays [.run c.expr .fails] (State.between [] t c.groups)).map
          (fun r => ([Task.close 0 (State.between [] t c.groups)], r)) ++ bs) ≠ .gaveUp := by
      intro bs
      rw [allWays_single, ways, hrs, List.map_cons, List.cons_append, explore_unfold rfl]
      exact Verdict.noConfusion
    have hwhole : ∀ bs, explore stepLimit
        (([.run c.whole .fails], State.between [] t c.groups) :: bs) ≠ .gaveUp := by
      intro bs
      have hall := h [.close 0 (State.between [] t c.groups)] bs 2 (hfound bs)
      have hgroup : explore (2 + n + 1)
          (([.run c.whole .fails], State.between [] t c.groups) :: bs) ≠ .gaveUp := by
        rwa [explore_unfold rfl]
      rwa [explore_mono hgroup (by omega)]
    have hsearch := hwhole (ss.map fun s => ([.run c.whole .fails], s))
    rw [find, if_neg hplain, hss, List.map_cons]
    split <;> simp_all

end PathTemplate.Expression
