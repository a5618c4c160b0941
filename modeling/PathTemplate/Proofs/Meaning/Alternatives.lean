import PathTemplate.Proofs.Meaning.Paths
import PathTemplate.Proofs.Reading.Lists

/-!
Templates as alternatives of one expression. A template does behind the groups of others what it
does by itself, so the first match of a list at a place is the first match there of the first
template that has one.
-/
namespace PathTemplate.Expression

/-- The `n` groups behind the first `k`, with the group of the whole match in front. -/
def narrow (k n : Nat) (gs : List (Option Capture)) : List (Option Capture) :=
  none :: (gs.drop (k + 1)).take n

theorem narrow_set (k n j : Nat) (gs : List (Option Capture)) (c : Option Capture) :
    narrow k n (gs.set (k + j + 1) c) = (narrow k n gs).set (j + 1) c := by
  have hdrop : (gs.set (k + j + 1) c).drop (k + 1) = (gs.drop (k + 1)).set j c := by
    rw [List.drop_set, if_neg (by omega)]
    congr 1
    omega
  rw [narrow, narrow, hdrop, List.set_cons_succ, List.take_set]

private theorem narrow_replicate {k n m : Nat} (h : k + n ≤ m) :
    narrow k n (List.replicate (m + 1) none) = List.replicate (n + 1) none := by
  rw [narrow, List.drop_replicate, List.take_replicate, List.replicate_succ]
  congr 2
  omega

private theorem placesFrom_map (g : List (Option Capture) → List (Option Capture))
    (gs : List (Option Capture)) (before : Text) (pos : Nat) (t : Text) :
    State.placesFrom (g gs) before pos t =
      (State.placesFrom gs before pos t).map (State.moved 0 g) := by
  induction t generalizing before pos with
  | nil => rfl
  | cons c t ih =>
    rw [State.placesFrom, State.placesFrom, ih]
    rfl

/-- The places of a text are the same for fewer groups. -/
theorem State.places_narrow (t : Text) {k n m : Nat} (h : k + n ≤ m) :
    State.places t n = (State.places t m).map (State.moved 0 (narrow k n)) := by
  rw [State.places, ← narrow_replicate h, placesFrom_map, State.places]

theorem State.moved_between (u v : Text) {k n m : Nat} (h : k + n ≤ m) :
    (State.between u v m).moved 0 (narrow k n) = State.between u v n := by
  rw [State.between, State.between, ← narrow_replicate h]
  rfl

end PathTemplate.Expression

namespace PathTemplate.Matching

open Expression State

/-! ### Templates behind other groups -/

section Carries

variable {n k : Nat} {g : List (Option Capture) → List (Option Capture)} (a : Bool)

private def CarriedBy (n : Nat) (g : List (Option Capture) → List (Option Capture))
    (is js : List Item) : Prop :=
  List.Forall₂ (fun i j => Expr.Carries n g i.expr j.expr) is js

private theorem carried_of_mobile {is : List Item} (h : Throughout Expr.Mobile is) :
    CarriedBy n g is is :=
  List.forall₂_same.mpr fun i hi => h i hi n g

variable (hg : ∀ j gs c, g (gs.set (k + j + 1) c) = (g gs).set (j + 1) c)

include hg

private theorem carried_parameterItems (m : Nat) (p : Parameter) :
    CarriedBy n g (parameterItems a (k + m) p) (parameterItems a m p) := by
  have hgroup : Expr.Carries n g (groupItem (k + m + 1) (valueContent a p)).expr
      (groupItem (m + 1) (valueContent a p)).expr :=
    (mobile_valueContent a p n g).group (hg m)
  have hchar : ∀ c, Expr.Carries n g (charItem a c).expr (charItem a c).expr := fun c => .one _ _
  have hled : ∀ c, CarriedBy n g [charItem a c, groupItem (k + m + 1) (valueContent a p)]
      [charItem a c, groupItem (m + 1) (valueContent a p)] :=
    fun c => .cons (hchar c) (.cons hgroup .nil)
  unfold parameterItems
  cases p.optional <;> cases p.lead with
  | none =>
    first
      | exact .cons hgroup .nil
      | exact .cons (hgroup.loop 0 (some 1) true nofun) .nil
  | some c =>
    first
      | exact hled c
      | exact .cons ((Expr.Carries.ofItems (hled c)).loop 0 (some 1) true nofun) .nil

private theorem carried_tokensItems (m : Nat) (ts : List Token) :
    CarriedBy n g (tokensItems a (k + m) ts) (tokensItems a m ts) := by
  induction ts generalizing m with
  | nil => exact .nil
  | cons t ts ih =>
    cases t with
    | literal t =>
      have hchars := carried_of_mobile (n := n) (g := g)
        (Throughout.chars (throughAhead_mobile a).toInherited t)
      exact List.rel_append hchars (ih m)
    | parameter p => exact List.rel_append (carried_parameterItems a hg m p) (ih (m + 1))

private theorem carried_expressionItems (o : Options) (ts : List Token) :
    CarriedBy n g (expressionItems a o k ts) (expressionItems a o 0 ts) := by
  have hstart : Throughout Expr.Mobile
      (if o.fromStart then [checkItem .path .textStart] else []) := by
    split
    · exact .check (throughAhead_mobile a).toInherited .path rfl
    · exact .nil
  have hend := throughout_endingItems o (throughAhead_mobile a) ts
  exact List.rel_append (List.rel_append (carried_of_mobile hstart) (carried_tokensItems a hg 0 ts))
    (carried_of_mobile hend)

end Carries

def groupCount (o : Options) (t : Text) : Nat := (parameters (Template.tokens o t)).length

def templateExpr (a : Bool) (o : Options) (k : Nat) (t : Text) : Expr :=
  (Branch.ofItems (expressionItems a o k (Template.tokens o t))).expr

theorem carries_templateExpr (a : Bool) (o : Options) (k : Nat) (t : Text) :
    Expr.Carries 0 (narrow k (groupCount o t)) (templateExpr a o k t) (templateExpr a o 0 t) :=
  .ofItems (carried_expressionItems a (narrow_set k _) o _)

/-- A match of a template behind `k` of `n` groups fills the groups of the template and no
others. -/
theorem texts_of_mem_paths {a : Bool} {o : Options} {k n : Nat} {t : Text} {et : EmptyTurn}
    {u v : Text} {r : State} (hk : k + groupCount o t ≤ n)
    (hr : r ∈ (templateExpr a o k t).paths et (State.between u v n)) :
    ∃ (w : Text) (vs : List (Option Text)), vs.length = groupCount o t ∧
      (State.between u v n).Passes w r ∧ r.texts = none :: (List.replicate k none ++ (vs ++
        List.replicate (n - k - groupCount o t) none)) := by
  have hfills := fills_expressionItems a o k (Template.tokens o t) et
  rw [← Branch.paths_ofItems] at hfills
  obtain ⟨w, vs, hw, hs, hf⟩ := hfills.sound _ r hr
  have hlen : vs.length = groupCount o t := hfills.length _ _ _ _ hw
  refine ⟨w, vs, hlen, hs, ?_⟩
  have hgroups : List.replicate (n + 1) (none : Option Text) = List.replicate (k + 1) none ++
      (List.replicate vs.length none ++ List.replicate (n - k - groupCount o t) none) := by
    rw [← List.replicate_add, ← List.replicate_add, hlen]
    congr 1
    omega
  have hfill := fill_within (List.replicate (k + 1) none) vs
    (List.replicate (n - k - groupCount o t) none)
  rw [List.length_replicate] at hfill
  rw [hf, texts_between, hgroups, hfill, List.replicate_succ, List.cons_append]

/-! ### Lists -/

/-- The templates of a list, each with the number of groups before its own. -/
def located (o : Options) (k : Nat) : List Text → List (Nat × Text)
  | [] => []
  | t :: ts => (k, t) :: located o (k + groupCount o t) ts

theorem located_append (o : Options) (k : Nat) (ts us : List Text) :
    located o k (ts ++ us) = located o k ts ++ located o (k + (ts.map (groupCount o)).sum) us := by
  induction ts generalizing k with
  | nil => rfl
  | cons t ts ih =>
    rw [List.cons_append, located, ih, located, List.map_cons, List.sum_cons, ← Nat.add_assoc]
    rfl

/-- An input tries its templates in the order in which they are written. -/
theorem paths_fragment {i : Input} (h : i.Templates) (a : Bool) (o : Options) (k : Nat)
    (et : EmptyTurn) (s : State) :
    (Branch.ofItems ((i.fragment a o).items k)).expr.paths et s =
      (located o k i.leaves).flatMap fun l => (templateExpr a o l.1 l.2).paths et s := by
  induction h generalizing k with
  | template t => simp [Input.leaves, located, Input.fragment, templateExpr]
  | @anyOf is hne htemplates ih =>
    have hfragments : ∀ (js : List Input) (k : Nat), (∀ j ∈ js, j ∈ is) →
        ((Fragment.exprs k (js.map (Input.fragment a o))).flatMap fun e => e.paths et s) =
          (located o k (js.flatMap Input.leaves)).flatMap
            fun l => (templateExpr a o l.1 l.2).paths et s := by
      intro js
      induction js with
      | nil => exact fun _ _ => rfl
      | cons j js ihs =>
        intro k hjs
        have hj := hjs j List.mem_cons_self
        have hrest :=
          ihs (k + (j.fragment a o).groups) fun x hx => hjs x (List.mem_cons_of_mem j hx)
        rw [List.map_cons, Fragment.exprs, List.flatMap_cons, List.flatMap_cons, located_append,
          List.flatMap_append, ih j hj, hrest, (htemplates j hj).groups_fragment]
        rfl
    have hfs : Input.fragments a o is ≠ [] := by simpa [Input.fragments_eq] using hne
    obtain ⟨f, fs, hlist⟩ := List.exists_cons_of_ne_nil hfs
    have hexpr : (Branch.ofItems (((Input.anyOf is).fragment a o).items k)).expr.paths et s =
        (Fragment.exprs k (Input.fragments a o is)).flatMap fun e => e.paths et s := by
      rw [Branch.paths_ofItems, Input.fragment, List.map_singleton, Step.inTurn_single]
      simp only [enclosedItem, Content.expr]
      rw [Builder.paths_altAll (Content.exprs_ne_nil _), hlist, Fragment.exprs_content]
    rw [hexpr, Input.fragments_eq, Input.leaves, Input.allLeaves_eq]
    exact hfragments is k fun j hj => hj

end PathTemplate.Matching
