import PathTemplate.Matching.Matcher
import PathTemplate.Proofs.Search.Explore
import PathTemplate.Proofs.Search.Sweep

/-!
Both searches find the first of all matches: the one at the leftmost place, and there the
preferred way. A plain expression is searched without giving up.
-/
namespace PathTemplate.Expression

/-- The place between `u` and `v`, where none of `n` groups has taken anything. -/
def State.between (u v : Text) (n : Nat) : State :=
  ⟨u.reverse, v, u.length, List.replicate (n + 1) none⟩

theorem State.between_standsIn (u v : Text) (n : Nat) :
    (State.between u v n).StandsIn (u ++ v) := by
  refine ⟨?_, ?_⟩
  · simp [State.between]
  · simp [State.between]

private theorem mem_placesFrom (gs : List (Option Capture)) (before : Text) (pos : Nat)
    (t : Text) (s : State) :
    s ∈ State.placesFrom gs before pos t ↔
      ∃ u v, t = u ++ v ∧ s = ⟨u.reverse ++ before, v, pos + u.length, gs⟩ := by
  induction t generalizing before pos with
  | nil =>
    simp only [State.placesFrom, List.mem_singleton]
    constructor
    · rintro rfl
      exact ⟨[], [], rfl, rfl⟩
    · rintro ⟨u, v, h, rfl⟩
      obtain ⟨rfl, rfl⟩ := List.append_eq_nil_iff.mp h.symm
      rfl
  | cons c t ih =>
    rw [State.placesFrom, List.mem_cons, ih]
    constructor
    · rintro (rfl | ⟨u, v, rfl, rfl⟩)
      · exact ⟨[], c :: t, rfl, rfl⟩
      · refine ⟨c :: u, v, rfl, ?_⟩
        simp [Nat.add_assoc, Nat.add_comm 1]
    · rintro ⟨u, v, h, rfl⟩
      cases u with
      | nil => exact Or.inl (by rw [List.nil_append] at h; rw [h]; rfl)
      | cons d u =>
        simp only [List.cons_append, List.cons.injEq] at h
        refine Or.inr ⟨u, v, h.2, ?_⟩
        simp [h.1, Nat.add_assoc, Nat.add_comm 1]

/-- The places of a text are its divisions into two parts. -/
theorem State.mem_places (t : Text) (n : Nat) (s : State) :
    s ∈ State.places t n ↔ ∃ u v, t = u ++ v ∧ s = State.between u v n := by
  simp [State.places, mem_placesFrom, State.between]

/-- The first place of a text has all of it ahead. -/
theorem State.exists_places_eq (t : Text) (n : Nat) :
    ∃ ss, State.places t n = State.between [] t n :: ss := by
  unfold State.places
  cases t with
  | nil => exact ⟨[], rfl⟩
  | cons x t => exact ⟨_, rfl⟩

/-- Further places of a text have more bytes before them. -/
theorem State.pairwise_places (t : Text) (n : Nat) :
    (State.places t n).Pairwise fun s s' => s.before.utf8Size < s'.before.utf8Size := by
  have hfrom : ∀ (t before : Text) (pos : Nat),
      (State.placesFrom (List.replicate (n + 1) none) before pos t).Pairwise
        fun s s' => s.before.utf8Size < s'.before.utf8Size := by
    intro t
    induction t with
    | nil => exact fun _ _ => List.pairwise_singleton _ _
    | cons c t ih =>
      intro before pos
      refine List.pairwise_cons.mpr ⟨fun s hs => ?_, ih _ _⟩
      obtain ⟨u, v, -, rfl⟩ := (mem_placesFrom _ _ _ _ s).mp hs
      have hpos := Char.utf8Size_pos c
      simp only [Text.utf8Size, Text.utf8Size_append]
      omega
  exact hfrom t [] 0

def Outcome.first (t : Text) (ss : List State) : Outcome :=
  match ss.head? with
  | some s => .found (.ofState t s)
  | none => .absent

theorem Outcome.first_ne_gaveUp (t : Text) (ss : List State) : Outcome.first t ss ≠ .gaveUp := by
  cases ss <;> simp [Outcome.first]

namespace Compiled

theorem find_of_isPlain (c : Compiled) (h : c.expr.isPlain = true) (t : Text) :
    c.find t = .first t (c.matchStates t) := by
  have hhead : ∀ s ∈ State.places t c.groups,
      (c.whole.sweep s).head? = (c.whole.paths c.expr.emptyTurn s).head? := by
    intro s hs
    obtain ⟨u, v, rfl, rfl⟩ := (State.mem_places t c.groups s).mp hs
    have hwhole : c.whole.isPlain = true := h
    rw [Expr.sweep_eq_firsts hwhole (State.between_standsIn u v c.groups), head?_firsts,
      Expr.emptyTurn, if_pos h]
  have hall : ∀ ss : List State, (∀ s ∈ ss, s ∈ State.places t c.groups) →
      ss.findSome? (fun s => (c.whole.sweep s).head?) =
        (ss.flatMap (c.whole.paths c.expr.emptyTurn)).head? := by
    intro ss hss
    rw [List.head?_flatMap]
    induction ss with
    | nil => rfl
    | cons s ss ih =>
      rw [List.findSome?_cons, List.findSome?_cons, hhead s (hss s List.mem_cons_self),
        ih fun u hu => hss u (List.mem_cons_of_mem s hu)]
  simp only [find, h, if_true, hall _ fun s hs => hs]
  rfl

theorem find_ne_gaveUp (c : Compiled) (h : c.expr.isPlain = true) (t : Text) :
    c.find t ≠ .gaveUp := by
  rw [find_of_isPlain c h]
  exact Outcome.first_ne_gaveUp t _

/-- A search that does not give up finds the first of all matches. -/
theorem find_eq (c : Compiled) (t : Text) (h : c.find t ≠ .gaveUp) :
    c.find t = .first t (c.matchStates t) := by
  by_cases hp : c.expr.isPlain = true
  · exact find_of_isPlain c hp t
  · have hends : ((State.places t c.groups).map fun s =>
        (([.run c.whole .fails], s) : Thread)).flatMap Thread.ends = c.matchStates t := by
      rw [List.flatMap_map, matchStates, Expr.emptyTurn, if_neg hp]
      exact List.flatMap_congr fun s _ => Task.allWays_single _ s
    have hexplore := explore_eq stepLimit
      ((State.places t c.groups).map fun s => ([.run c.whole .fails], s))
    rw [hends] at hexplore
    simp only [find, if_neg hp] at h ⊢
    split
    case _ s hs =>
      rw [Outcome.first, Verdict.ofWays_eq_found.mp ((hexplore (by simp [hs])).symm.trans hs)]
    case _ hs =>
      rw [Outcome.first, Verdict.ofWays_eq_absent.mp ((hexplore (by simp [hs])).symm.trans hs)]
    case _ hs => simp [hs] at h

theorem mem_matchStates (c : Compiled) (t : Text) (s : State) :
    s ∈ c.matchStates t ↔ ∃ u v r, t = u ++ v ∧
      r ∈ c.expr.paths c.expr.emptyTurn (State.between u v c.groups) ∧
        s = State.close 0 (State.between u v c.groups) r := by
  simp only [matchStates, List.mem_flatMap, State.mem_places]
  constructor
  · rintro ⟨_, ⟨u, v, ht, rfl⟩, hs⟩
    obtain ⟨r, hr, rfl⟩ := List.mem_map.mp hs
    exact ⟨u, v, r, ht, hr, rfl⟩
  · rintro ⟨u, v, r, ht, hr, rfl⟩
    exact ⟨_, ⟨u, v, ht, rfl⟩, List.mem_map.mpr ⟨r, hr, rfl⟩⟩

/-- There is a match if the expression matches anywhere. -/
theorem exists_mem_matchStates (c : Compiled) (t : Text) : (∃ s, s ∈ c.matchStates t) ↔
    ∃ u v, t = u ++ v ∧
      ∃ r, r ∈ c.expr.paths c.expr.emptyTurn (State.between u v c.groups) := by
  simp only [mem_matchStates]
  constructor
  · rintro ⟨-, u, v, r, ht, hr, -⟩
    exact ⟨u, v, ht, r, hr⟩
  · rintro ⟨u, v, ht, r, hr⟩
    exact ⟨_, u, v, r, ht, hr, rfl⟩

/-- The first of all matches is the preferred one at the first place where there is any. -/
theorem head?_matchStates_eq (c : Compiled) (t : Text) :
    (c.matchStates t).head? = (State.places t c.groups).findSome? fun s =>
      (c.expr.paths c.expr.emptyTurn s).head?.map (State.close 0 s) := by
  rw [matchStates, List.head?_flatMap]
  exact congrArg (List.findSome? · _) (funext fun s => List.head?_map)

/-- The preferred match at the very start of the text comes before all others. -/
theorem head?_matchStates_of_head? (c : Compiled) (t : Text) {q : State}
    (h : (c.expr.paths c.expr.emptyTurn (State.between [] t c.groups)).head? = some q) :
    (c.matchStates t).head? = some (State.close 0 (State.between [] t c.groups) q) := by
  obtain ⟨ss, hss⟩ := State.exists_places_eq t c.groups
  rw [head?_matchStates_eq, hss, List.findSome?_cons, h]
  rfl

/-- A match at the very start of the text comes before all matches further on. -/
theorem head?_matchStates (c : Compiled) (t : Text) {r : State}
    (h : r ∈ c.expr.paths c.expr.emptyTurn (State.between [] t c.groups)) :
    ∃ q ∈ c.expr.paths c.expr.emptyTurn (State.between [] t c.groups),
      (c.matchStates t).head? = some (State.close 0 (State.between [] t c.groups) q) := by
  cases hp : c.expr.paths c.expr.emptyTurn (State.between [] t c.groups) with
  | nil => simp [hp] at h
  | cons q qs =>
    exact ⟨q, List.mem_cons_self, c.head?_matchStates_of_head? t (by rw [hp]; rfl)⟩

end Compiled

end PathTemplate.Expression

namespace PathTemplate.Matching.Matcher

open Expression

/-- With a value for every key, the values are told off against the keys. -/
theorem values_eq_zip {keys : List Key} {vs : List (Option Text)} (h : vs.length = keys.length) :
    values keys vs = keys.zip vs := by
  refine List.ext_getElem? fun i => ?_
  rw [values, List.getElem?_mapIdx, List.zip, List.getElem?_zipWith]
  by_cases hi : i < keys.length
  · rw [List.getElem?_eq_getElem hi, List.getElem?_eq_getElem (h ▸ hi)]
    rfl
  · rw [List.getElem?_eq_none (Nat.le_of_not_lt hi)]
    rfl

def pathMatch (m : Matcher) (path : Text) (s : State) : PathMatch :=
  let f := Match.ofState path s
  ⟨f.index, f.matched, values m.keys f.groups⟩

/-- A matcher that does not give up answers with the first of all matches. -/
theorem exec_eq (m : Matcher) (path : Text) (h : m.exec path ≠ .error ⟨path⟩) :
    m.exec path = .ok ((m.compiled.matchStates path).head?.map (m.pathMatch path)) := by
  have hne : m.compiled.find path ≠ .gaveUp := by
    intro hf
    exact h (by rw [exec, hf])
  rw [exec, m.compiled.find_eq path hne, Outcome.first]
  cases (m.compiled.matchStates path).head? with
  | none => rfl
  | some s => rfl

/-- A matcher of a plain expression never gives up. -/
theorem exec_of_isPlain (m : Matcher) (h : m.compiled.expr.isPlain = true) (path : Text) :
    m.exec path = .ok ((m.compiled.matchStates path).head?.map (m.pathMatch path)) := by
  apply exec_eq
  have hfind := m.compiled.find_ne_gaveUp h path
  rw [exec]
  split
  case _ => simp
  case _ => simp
  case _ hf => exact absurd hf hfind

theorem exec_ne_error_of_isMatch {m : Matcher} {path : Text}
    (h : m.isMatch path ≠ .error ⟨path⟩) : m.exec path ≠ .error ⟨path⟩ := by
  intro he
  rw [isMatch, he] at h
  exact h rfl

/-- A matcher that does not give up says whether there is a match at all. -/
theorem isMatch_eq_true_iff {m : Matcher} {path : Text} (h : m.isMatch path ≠ .error ⟨path⟩) :
    m.isMatch path = .ok true ↔ ∃ s, s ∈ m.compiled.matchStates path := by
  rw [isMatch, exec_eq m path (exec_ne_error_of_isMatch h)]
  cases hs : m.compiled.matchStates path with
  | nil => simp [Except.map]
  | cons s ss => simp [Except.map]

end PathTemplate.Matching.Matcher
