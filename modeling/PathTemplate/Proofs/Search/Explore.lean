import Mathlib.Data.List.Basic
import PathTemplate.Expression.Search

/-!
What a thread comes to: all ways in which its tasks can be done one after the other. Taking one
step of a thread keeps these ways and their order, so a search that does not give up ends with the
first of them.
-/
namespace PathTemplate.Expression

namespace Task

def ways : Task → Step
  | run e et => e.paths et
  | times e et n => Step.times (e.paths et) n
  | upTo e et greedy n => Step.upTo (e.paths et) greedy n
  | star e et greedy => Step.star (e.paths et) greedy
  | turns e et greedy n => Step.upTo (Step.taking (e.paths et)) greedy n
  | plus e et greedy => Step.plus (e.paths et) greedy
  | afterFirst s e et greedy => fun t =>
    if s.before? t then Step.star (e.paths et) greedy t else [t]
  | took s => fun t => if s.before? t then [t] else []
  | close i s => fun t => [State.close i s t]
  | resume s => fun t => [s.withGroups t]

def allWays : List Task → Step
  | [], s => [s]
  | t :: ts, s => (t.ways s).flatMap (allWays ts)

theorem allWays_append (ts us : List Task) (s : State) :
    allWays (ts ++ us) s = (allWays ts s).flatMap (allWays us) := by
  induction ts generalizing s with
  | nil => simp [allWays]
  | cons t ts ih =>
    simp only [List.cons_append, allWays, List.flatMap_assoc]
    exact List.flatMap_congr fun u _ => ih u

theorem allWays_single (t : Task) (s : State) : allWays [t] s = t.ways s := by
  simp [allWays]

end Task

open Expression.Task

def Thread.ends (b : Thread) : List State := allWays b.1 b.2

namespace Task

private theorem flatMap_if {α β : Type} (p : α → Bool) (f : α → List β) (as : List α) :
    as.flatMap (fun a => if p a then f a else []) = (as.filter p).flatMap f := by
  induction as with
  | nil => rfl
  | cons a as ih =>
    rw [List.flatMap_cons, List.filter_cons, ih]
    split <;> simp

theorem ends_either (greedy : Bool) (more : List Task) (s : State) :
    (either greedy more s).flatMap Thread.ends = Step.prefer greedy (allWays more s) s := by
  cases greedy <;> simp [either, Thread.ends, Step.prefer, allWays]

theorem ends_atLeast (e : Expr) (et : EmptyTurn) (greedy : Bool) (lo : Nat) (s : State) :
    (atLeast e et greedy lo s).flatMap Thread.ends =
      Step.atLeast et (e.paths et) greedy lo s := by
  cases et with
  | fails => simp [atLeast, Thread.ends, allWays, ways, Step.atLeast]
  | ends =>
    cases lo with
    | zero =>
      rw [atLeast, ends_either, allWays_single]
      rfl
    | succ n => simp [atLeast, Thread.ends, allWays, ways, Step.atLeast]

/-- Only tasks that are not searched on their own are unfolded. -/
theorem ends_unfoldExpr (s : State) (et : EmptyTurn) (e : Expr) (h : (run e et).inner? s = none) :
    (unfoldExpr s et e).flatMap Thread.ends = e.paths et s := by
  cases e with
  | cat a b => simp [unfoldExpr, Thread.ends, allWays, ways, Expr.paths]
  | alt a b => simp [unfoldExpr, Thread.ends, allWays, ways, Expr.paths]
  | group i e =>
    simp only [unfoldExpr, Thread.ends, allWays, ways, Expr.paths, List.flatMap_cons,
      List.flatMap_nil, List.append_nil]
    exact List.map_eq_flatMap.symm
  | loop e lo hi greedy =>
    cases hi with
    | none => exact ends_atLeast e et greedy lo s
    | some n => simp [unfoldExpr, Thread.ends, allWays, ways, Expr.paths, Step.loop]
  | ahead wanted e =>
    cases wanted with
    | true =>
      simp only [unfoldExpr, Thread.ends, allWays, ways, Expr.paths, List.flatMap_cons,
        List.flatMap_nil, List.append_nil]
      exact List.map_eq_flatMap.symm
    | false => simp [inner?] at h
  | behind wanted n e =>
    cases wanted with
    | true =>
      cases hb : s.back n with
      | none => simp [unfoldExpr, Expr.paths, hb]
      | some b =>
        simp only [unfoldExpr, hb, Thread.ends, allWays, ways, Expr.paths, List.flatMap_cons,
          List.flatMap_nil, List.append_nil]
        exact List.map_eq_flatMap.symm
    | false =>
      cases hb : s.back n with
      | none => simp [unfoldExpr, Expr.paths, hb, Thread.ends, allWays]
      | some b => simp [inner?, hb] at h
  | atomic e => simp [inner?] at h
  | _ => simp [unfoldExpr, Thread.ends, allWays, List.flatMap_map]

/-- Unfolding a task keeps its ways and their order. -/
theorem ends_unfold (s : State) (t : Task) (h : t.inner? s = none) :
    (t.unfold s).flatMap Thread.ends = t.ways s := by
  cases t with
  | run e et => exact ends_unfoldExpr s et e h
  | times e et n =>
    cases n <;> simp [unfold, Thread.ends, allWays, ways, Step.times]
  | upTo e et greedy n =>
    cases n with
    | zero => simp [unfold, Thread.ends, allWays, ways, Step.upTo]
    | succ n =>
      rw [unfold, ends_either]
      simp [allWays, ways, Step.upTo]
  | star e et greedy => simp [unfold, Thread.ends, allWays, ways, Step.star]
  | turns e et greedy n =>
    cases n with
    | zero => simp [unfold, Thread.ends, allWays, ways, Step.upTo]
    | succ n =>
      rw [unfold, ends_either]
      simp only [allWays, ways, Step.upTo, Step.taking, List.flatMap_singleton']
      congr 1
      rw [← flatMap_if]
      exact List.flatMap_congr fun u _ => by split <;> simp
  | plus e et greedy => simp [unfold, Thread.ends, allWays, ways, Step.plus]
  | afterFirst r e et greedy =>
    simp only [unfold, ways]
    split <;> simp [Thread.ends, allWays, ways]
  | took r =>
    simp only [unfold, ways]
    split <;> simp [Thread.ends, allWays]
  | close i r => simp [unfold, Thread.ends, allWays, ways]
  | resume r => simp [unfold, Thread.ends, allWays, ways]

end Task

theorem ends_cons (t : Task) (k : List Task) (s : State) (h : t.inner? s = none) :
    ((t.unfold s).map fun (ts, u) => (ts ++ k, u)).flatMap Thread.ends =
      Thread.ends (t :: k, s) := by
  rw [List.flatMap_map, Thread.ends, allWays, ← ends_unfold s t h, List.flatMap_assoc]
  exact List.flatMap_congr fun b _ => allWays_append b.1 k b.2

/-- What an expression that is searched on its own contributes, by the first way of that search. -/
theorem ways_of_inner {t : Task} {s u : State} {e : Expr} {kept : Bool}
    (h : t.inner? s = some (e, u, kept)) :
    t.ways s = match (e.paths e.emptyTurn u).head?, kept with
      | some v, true => [v]
      | none, true => []
      | some _, false => []
      | none, false => [s] := by
  cases t with
  | run f et =>
    cases f with
    | ahead wanted f =>
      cases wanted with
      | true => simp [inner?] at h
      | false =>
        simp only [inner?, Option.some.injEq, Prod.mk.injEq] at h
        obtain ⟨rfl, rfl, rfl⟩ := h
        cases hp : f.paths f.emptyTurn s <;> simp [ways, Expr.paths, hp]
    | behind wanted n f =>
      cases wanted with
      | true => simp [inner?] at h
      | false =>
        cases hb : s.back n with
        | none => simp [inner?, hb] at h
        | some b =>
          simp only [inner?, hb, Option.map_some, Option.some.injEq, Prod.mk.injEq] at h
          obtain ⟨rfl, rfl, rfl⟩ := h
          cases hp : f.paths f.emptyTurn b <;> simp [ways, Expr.paths, hb, hp]
    | atomic f =>
      simp only [inner?, Option.some.injEq, Prod.mk.injEq] at h
      obtain ⟨rfl, rfl, rfl⟩ := h
      cases hp : f.paths f.emptyTurn s <;> simp [ways, Expr.paths, hp]
    | _ => simp [inner?] at h
  | _ => simp [inner?] at h

def Verdict.ofWays (ss : List State) : Verdict :=
  match ss.head? with
  | some s => .found s
  | none => .absent

theorem Verdict.ofWays_eq_found {ss : List State} {s : State} :
    Verdict.ofWays ss = .found s ↔ ss.head? = some s := by
  cases ss <;> simp [Verdict.ofWays]

theorem Verdict.ofWays_eq_absent {ss : List State} :
    Verdict.ofWays ss = .absent ↔ ss.head? = none := by
  cases ss <;> simp [Verdict.ofWays]

/-- A search that does not give up ends with the first way. -/
theorem explore_eq (n : Nat) (bs : List Thread) (h : explore n bs ≠ .gaveUp) :
    explore n bs = .ofWays (bs.flatMap Thread.ends) := by
  induction n generalizing bs with
  | zero => simp [explore] at h
  | succ n ih =>
    match bs with
    | [] => rfl
    | ([], s) :: bs => simp [explore, Verdict.ofWays, Thread.ends, allWays]
    | (t :: k, s) :: bs =>
      rw [List.flatMap_cons]
      rw [explore] at h ⊢
      cases hi : t.inner? s with
      | none =>
        simp only [hi] at h ⊢
        rw [ih _ h, List.flatMap_append, ends_cons t k s hi]
      | some x =>
        obtain ⟨e, u, kept⟩ := x
        simp only [hi] at h ⊢
        have hin := ih [([.run e e.emptyTurn], u)]
        have hends : [(([.run e e.emptyTurn], u) : Thread)].flatMap Thread.ends =
            e.paths e.emptyTurn u := by
          simp [Thread.ends, allWays, ways]
        rw [hends] at hin
        have hways : Thread.ends (t :: k, s) = (t.ways s).flatMap (allWays k) := rfl
        rw [hways, ways_of_inner hi]
        cases hv : explore n [([.run e e.emptyTurn], u)] with
        | gaveUp => simp [hv] at h
        | found v =>
          have hhead : (e.paths e.emptyTurn u).head? = some v :=
            Verdict.ofWays_eq_found.mp ((hin (by simp [hv])).symm.trans hv)
          cases kept with
          | true =>
            simp only [hv, hhead] at h ⊢
            rw [ih _ h]
            simp [Thread.ends]
          | false =>
            simp only [hv, hhead] at h ⊢
            rw [ih _ h]
            simp
        | absent =>
          have hhead : (e.paths e.emptyTurn u).head? = none :=
            Verdict.ofWays_eq_absent.mp ((hin (by simp [hv])).symm.trans hv)
          cases kept with
          | true =>
            simp only [hv, hhead] at h ⊢
            rw [ih _ h]
            simp
          | false =>
            simp only [hv, hhead] at h ⊢
            rw [ih _ h]
            simp [Thread.ends]

end PathTemplate.Expression
