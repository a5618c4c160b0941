import PathTemplate.Expression.Compiled
import PathTemplate.Quoting

/-!
Reading as a judgement: from one builder and a text to another builder and the text that is left.
Each lexeme is cut with the text that really follows it, so readings compose.
-/
namespace PathTemplate.Expression

inductive Reads (d : Dialect) : Builder → Text → Builder → Text → Prop
  | stop (b : Builder) (t : Text) : Reads d b t b t
  | more {b b' c : Builder} {t r u : Text} {x : Lexeme} :
      lexeme d t = some (x, r) → r.length < t.length → b.step d x = some b' →
      Reads d b' r c u → Reads d b t c u

namespace Reads

variable {d : Dialect}

theorem trans {b b' c : Builder} {t r u : Text} (h : Reads d b t b' r) (h' : Reads d b' r c u) :
    Reads d b t c u := by
  induction h with
  | stop => exact h'
  | more hx hlt hs _ ih => exact .more hx hlt hs (ih h')

theorem one {b b' : Builder} {t r : Text} {x : Lexeme} (hx : lexeme d t = some (x, r))
    (hlt : r.length < t.length) (hs : b.step d x = some b') : Reads d b t b' r :=
  .more hx hlt hs (.stop b' r)

private theorem lexemes_foldlM {b c : Builder} {t u : Text} (h : Reads d b t c u) (hu : u = [])
    (n : Nat) (hn : t.length ≤ n) :
    ∃ xs, lexemesFrom d n t = some xs ∧ xs.foldlM (Builder.step d) b = some c := by
  induction h generalizing n with
  | stop b t =>
    subst hu
    exact ⟨[], by cases n <;> rfl, rfl⟩
  | @more b b' c t r u x hx hlt hs hr ih =>
    cases n with
    | zero => omega
    | succ n =>
      obtain ⟨xs, hxs, hfold⟩ := ih hu n (by omega)
      refine ⟨x :: xs, ?_, ?_⟩
      · cases t with
        | nil => simp at hlt
        | cons a t => simp only [lexemesFrom, hx, hxs, Option.map_some]
      · rw [List.foldlM_cons, hs]
        exact hfold

/-- What is read to its end is read as the builder says. -/
theorem read_eq {b : Builder} {t : Text} (h : Reads d Builder.init t b []) :
    Expression.read d t = b.finish d := by
  obtain ⟨xs, hxs, hfold⟩ := lexemes_foldlM h rfl t.length (Nat.le_refl _)
  rw [Expression.read, lexemes, hxs, Option.bind_eq_bind, Option.bind_some, hfold]
  rfl

/-- There is one way to read a text. -/
theorem rest {b b' c : Builder} {t r : Text} (h : Reads d b t b' r) (h' : Reads d b t c []) :
    Reads d b' r c [] := by
  induction h with
  | stop => exact h'
  | more hx hlt hs _ ih =>
    cases h' with
    | stop => simp at hlt
    | more hx' _ hs' h' =>
      rw [hx] at hx'
      obtain ⟨rfl, rfl⟩ := Prod.mk.inj (Option.some.inj hx')
      rw [hs] at hs'
      obtain rfl := Option.some.inj hs'
      exact ih h'

theorem unique {b c c' : Builder} {t : Text} (h : Reads d b t c []) (h' : Reads d b t c' []) :
    c = c' := by
  cases h.rest h' with
  | stop => rfl
  | more hx _ _ _ => cases hx

end Reads

def Readable (d : Dialect) (b : Builder) (t : Text) : Prop := ∃ c, Reads d b t c []

/-- What can be read to its end takes the step of its first lexeme. -/
theorem Readable.step {d : Dialect} {b : Builder} {t r : Text} {x : Lexeme} (h : Readable d b t)
    (hx : lexeme d t = some (x, r)) : ∃ b', b.step d x = some b' ∧ Readable d b' r := by
  obtain ⟨c, h⟩ := h
  cases h with
  | stop => cases hx
  | more hy _ hs hr =>
    rw [hx] at hy
    obtain ⟨rfl, rfl⟩ := Prod.mk.inj (Option.some.inj hy)
    exact ⟨_, hs, c, hr⟩

/-- There is room for `deep` more groups in each other, or else the text is known to be read. -/
def Room (d : Dialect) (b : Builder) (deep : Nat) (t : Text) : Prop :=
  b.outer.length + deep ≤ d.depth ∨ Readable d b t

namespace Room

variable {d : Dialect} {b b' : Builder} {deep deep' : Nat} {t r : Text} {x : Lexeme}

theorem weaken (h : Room d b deep' t) (hle : deep ≤ deep') : Room d b deep t :=
  h.imp_left fun hd => by omega

/-- Behind what is read there is as much room as before. -/
theorem rest (h : Room d b deep t) (hr : Reads d b t b' r) (ho : b'.outer = b.outer) :
    Room d b' deep r := by
  rcases h with hd | ⟨c, hc⟩
  · exact .inl (by rw [ho]; exact hd)
  · exact .inr ⟨c, hr.rest hc⟩

/-- Inside a parenthesis there is less room. -/
theorem inside (h : Room d b (deep + 1) t) (hx : lexeme d t = some (x, r))
    (hs : b.step d x = some b') (ho : b'.outer.length = b.outer.length + 1) :
    Room d b' deep r := by
  rcases h with hd | hr
  · exact .inl (by omega)
  · obtain ⟨c, hc, hr⟩ := hr.step hx
    rw [hs] at hc
    exact .inr (Option.some.inj hc ▸ hr)

/-- With room a parenthesis can be opened. -/
theorem lt_depth (h : Room d b (deep + 1) t) {o : Opening} (hx : lexeme d t = some (.opening o, r))
    (hs : b.step d (.opening o) = b.openGroup d o) : b.outer.length < d.depth := by
  rcases h with hd | hr
  · omega
  · obtain ⟨c, hc, -⟩ := hr.step hx
    rw [hs, Builder.openGroup] at hc
    refine Nat.lt_of_not_le fun hfull => ?_
    rw [if_pos hfull] at hc
    cases hc

end Room

/-! ### Items in a branch -/

namespace Step

def inTurn : List Step → Step
  | [], s => [s]
  | r :: rs, s => (r s).flatMap (inTurn rs)

theorem inTurn_append (rs qs : List Step) (s : State) :
    inTurn (rs ++ qs) s = (inTurn rs s).flatMap (inTurn qs) := by
  induction rs generalizing s with
  | nil => simp [inTurn]
  | cons r rs ih =>
    have hrest : inTurn (rs ++ qs) = fun u => (inTurn rs u).flatMap (inTurn qs) := funext ih
    rw [List.cons_append, inTurn, inTurn, hrest, List.flatMap_assoc]

theorem inTurn_single (r : Step) : inTurn [r] = r := by
  funext s
  simp [inTurn]

end Step

namespace Branch

def ofItems (is : List Item) : Branch := is.foldl push {}

theorem paths_push (b : Branch) (i : Item) (et : EmptyTurn) (s : State) :
    (b.push i).expr.paths et s = (b.expr.paths et s).flatMap (i.expr.paths et) := by
  obtain ⟨e, r, g⟩ := i
  have hlast : (b.push ⟨e, r, g⟩).joined = join b.joined ⟨e, r, g⟩ := rfl
  rw [expr, hlast, expr]
  cases b.joined <;> cases e <;> simp [join, Expr.paths]

theorem paths_ofItems (is : List Item) (et : EmptyTurn) :
    (ofItems is).expr.paths et = Step.inTurn (is.map fun i => i.expr.paths et) := by
  have h : ∀ b : Branch, ∀ s, (is.foldl push b).expr.paths et s =
      (b.expr.paths et s).flatMap (Step.inTurn (is.map fun i => i.expr.paths et)) := by
    induction is with
    | nil => intro b s; simp [Step.inTurn]
    | cons i is ih =>
      intro b s
      simp only [List.foldl_cons, ih, paths_push, List.flatMap_assoc, List.map_cons]
      rfl
  funext s
  rw [ofItems, h]
  simp [expr, joined, Expr.paths]

/-- What may be repeated may be repeated with whatever follows it. -/
theorem repeatable_ofItems_pair {i : Item} (hi : i.expr ≠ .empty) (hr : i.repeatable = true)
    (j : Item) : (ofItems [i, j]).repeatable = true := by
  obtain ⟨e, r, g⟩ := i
  obtain ⟨f, q, k⟩ := j
  have hjoin : (ofItems [⟨e, r, g⟩, ⟨f, q, k⟩]).joined =
      join (join none ⟨e, r, g⟩) ⟨f, q, k⟩ := rfl
  rw [repeatable, hjoin]
  cases e <;> cases f <;> simp_all [join]

theorem repeatable_ofItems_single {i : Item} (hi : i.expr ≠ .empty) :
    (ofItems [i]).repeatable = i.repeatable := by
  obtain ⟨e, r, g⟩ := i
  have hjoin : (ofItems [⟨e, r, g⟩]).joined = join none ⟨e, r, g⟩ := rfl
  rw [repeatable, hjoin]
  cases e <;> simp_all [join]

structure Holds (P : Expr → Prop) (b : Branch) : Prop where
  done : ∀ i, b.done = some i → P i.expr
  last : ∀ i, b.last = some i → P i.expr

namespace Holds

variable {P : Expr → Prop} {b : Branch} {i : Item}

theorem empty : Holds P {} := ⟨nofun, nofun⟩

theorem joined (hcat : ∀ e f, P e → P f → P (.cat e f)) (h : b.Holds P) :
    ∀ i, b.joined = some i → P i.expr := by
  intro i hi
  rw [Branch.joined] at hi
  cases hlast : b.last with
  | none =>
    rw [hlast] at hi
    exact h.done i hi
  | some j =>
    have hj := h.last j hlast
    obtain ⟨e, r, g⟩ := j
    rw [hlast] at hi
    cases hdone : b.done with
    | none =>
      rw [hdone] at hi
      cases e <;> first | cases hi; exact hj | cases hi
    | some k =>
      have hk := h.done k hdone
      rw [hdone] at hi
      cases e <;> cases hi <;> first | exact hk | exact hcat _ _ hk hj

theorem expr (hempty : P .empty) (hcat : ∀ e f, P e → P f → P (.cat e f)) (h : b.Holds P) :
    P b.expr := by
  rw [Branch.expr]
  cases hj : b.joined with
  | none => exact hempty
  | some i => exact h.joined hcat i hj

theorem push (hcat : ∀ e f, P e → P f → P (.cat e f)) (h : b.Holds P) (hi : P i.expr) :
    (b.push i).Holds P :=
  ⟨h.joined hcat, fun _ hj => Option.some.inj hj ▸ hi⟩

theorem replaceLast (h : b.Holds P) (hi : P i.expr) : Holds P { b with last := some i } :=
  ⟨h.done, fun _ hj => Option.some.inj hj ▸ hi⟩

end Holds

end Branch

/-- What holds of all alternatives holds of them together. -/
theorem Builder.holds_altAll {P : Expr → Prop} (hempty : P .empty)
    (halt : ∀ e f, P e → P f → P (.alt e f)) {es : List Expr} (h : ∀ e ∈ es, P e) :
    P (altAll es) := by
  have hfold : ∀ (es : List Expr) (e : Expr), P e → (∀ f ∈ es, P f) → P (es.foldl Expr.alt e) := by
    intro es
    induction es with
    | nil => exact fun e he _ => he
    | cons f es ih =>
      intro e he hes
      exact ih _ (halt e f he (hes f List.mem_cons_self)) fun g hg =>
        hes g (List.mem_cons_of_mem f hg)
  cases es with
  | nil => exact hempty
  | cons e es =>
    exact hfold es e (h e List.mem_cons_self) fun f hf => h f (List.mem_cons_of_mem e hf)

/-- Alternatives are tried in order. -/
theorem Builder.paths_altAll {es : List Expr} (hes : es ≠ []) (et : EmptyTurn) (s : State) :
    (altAll es).paths et s = es.flatMap fun e => e.paths et s := by
  have hfold : ∀ (es : List Expr) (e : Expr), (es.foldl Expr.alt e).paths et s =
      e.paths et s ++ es.flatMap fun f => f.paths et s := by
    intro es
    induction es with
    | nil => simp
    | cons f es ih =>
      intro e
      rw [List.foldl_cons, ih, Expr.paths, List.flatMap_cons, List.append_assoc]
  cases es with
  | nil => exact absurd rfl hes
  | cons e es => rw [altAll, hfold, List.flatMap_cons]

end PathTemplate.Expression
