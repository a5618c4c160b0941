import Mathlib.Computability.Language
import PathTemplate.Proofs.Meaning.CaseVariants
import PathTemplate.Proofs.Reading.Grouping
import PathTemplate.Proofs.Search.Transport

/-!
Steps that pass a text depending on the text around it, and among them those that pass the texts of
a language. Parts of an expression without assertions and groups can be understood by the texts they
take, whatever stands around these texts.
-/
namespace PathTemplate.Expression

open scoped Computability
open State

namespace State

def past (s : State) (w u : Text) : State := ⟨w.reverse ++ s.before, u, s.pos + w.length, s.groups⟩

theorem passes_past {s : State} {w u : Text} (h : s.rest = w ++ u) : s.Passes w (s.past w u) :=
  ⟨h, rfl, rfl⟩

theorem Passes.eq {s t t' : State} {w : Text} (h : s.Passes w t) (h' : s.Passes w t')
    (hg : t.groups = t'.groups) : t = t' := by
  have hrest : t.rest = t'.rest := List.append_cancel_left (h.rest.symm.trans h'.rest)
  have hbefore : t.before = t'.before := h.before.trans h'.before.symm
  have hpos : t.pos = t'.pos := h.pos.trans h'.pos.symm
  obtain ⟨b, r, p, g⟩ := t
  obtain ⟨b', r', p', g'⟩ := t'
  simp only at hrest hbefore hpos hg
  rw [hrest, hbefore, hpos, hg]

/-- Between two parts of a text lies a place. -/
theorem Passes.split {s t : State} {v w : Text} (h : s.Passes (v ++ w) t) :
    ∃ u, s.Passes v u ∧ u.Passes w t ∧ u.groups = s.groups := by
  refine ⟨s.past v (w ++ t.rest), passes_past ?_, ⟨rfl, ?_, ?_⟩, rfl⟩
  · rw [h.rest, List.append_assoc]
  · rw [h.before, List.reverse_append, List.append_assoc]
    rfl
  · rw [h.pos, List.length_append, ← Nat.add_assoc]
    rfl

theorem Passes.length_le {s t : State} {w : Text} (h : s.Passes w t) :
    w.length ≤ s.rest.length := by
  rw [h.rest, List.length_append]
  exact Nat.le_add_right _ _

end State

namespace Step

/-- Whether the step passes a text depends on what stands before it, nearest character first, and
what follows it. All groups are left alone. -/
def Local (r : Step) (K : Text → Text → Text → Prop) : Prop :=
  ∀ s t, t ∈ r s ↔ ∃ w, K s.before w t.rest ∧ s.Passes w t ∧ t.groups = s.groups

variable {r a b : Step} {l m : Language Char}

/-- What a step passes between two texts can be said in one way only. -/
theorem Local.iff {K L : Text → Text → Text → Prop} (h : Local r K) (h' : Local r L)
    (b w u : Text) : K b w u ↔ L b w u := by
  have hsub : ∀ {K L : Text → Text → Text → Prop}, Local r K → Local r L → K b w u → L b w u := by
    intro K L hK hL hw
    have hpast : State.Passes ⟨b, w ++ u, 0, []⟩ w _ := passes_past rfl
    obtain ⟨v, hv, hs, -⟩ := (hL _ _).mp ((hK _ _).mpr ⟨w, hw, hpast, rfl⟩)
    have hvw : v = w := List.append_cancel_right (hs.rest.symm.trans hpast.rest)
    exact hvw ▸ hv
  exact ⟨hsub h h', hsub h' h⟩

def Accepts (r : Step) (l : Language Char) : Prop := Local r fun _ w _ => w ∈ l

theorem accepts_stay : Accepts (fun s => [s]) 1 := by
  intro s t
  rw [List.mem_singleton]
  constructor
  · rintro rfl
    exact ⟨[], rfl, passes_self t, rfl⟩
  · rintro ⟨w, rfl, hw, hg⟩
    exact hw.eq (passes_self s) hg

theorem Accepts.flatMap (ha : Accepts a l) (hb : Accepts b m) :
    Accepts (fun s => (a s).flatMap b) (l * m) := by
  intro s t
  simp only [List.mem_flatMap, ha s, hb _ t]
  constructor
  · rintro ⟨u, ⟨v, hv, hsv, hg⟩, w, hw, huw, hg'⟩
    exact ⟨v ++ w, Language.append_mem_mul hv hw, hsv.trans huw, hg'.trans hg⟩
  · rintro ⟨_, ⟨v, hv, w, hw, rfl⟩, hs, hg⟩
    obtain ⟨u, hsv, huw, hgu⟩ := hs.split
    exact ⟨u, ⟨v, hv, hsv, hgu⟩, w, hw, huw, hg.trans hgu.symm⟩

theorem Accepts.append (ha : Accepts a l) (hb : Accepts b m) :
    Accepts (fun s => a s ++ b s) (l + m) := by
  intro s t
  rw [List.mem_append, ha s t, hb s t, ← exists_or]
  exact exists_congr fun w => (or_and_right).symm

theorem Accepts.prefer (h : Accepts r l) (greedy : Bool) :
    Accepts (fun s => Step.prefer greedy (r s) s) (1 + l) := by
  intro s t
  rw [mem_prefer, h s t]
  constructor
  · rintro (⟨w, hw, hs⟩ | rfl)
    · exact ⟨w, Or.inr hw, hs⟩
    · exact ⟨[], Or.inl rfl, passes_self t, rfl⟩
  · rintro ⟨w, rfl | hw, hs, hg⟩
    · exact Or.inr (hs.eq (passes_self s) hg)
    · exact Or.inl ⟨w, hw, hs, hg⟩

/-! ### Loops -/

def turns (l : Language Char) (n : Nat) : Language Char :=
  {w | ∃ ws : List Text, w = ws.flatten ∧ ws.length ≤ n ∧ ∀ v ∈ ws, v ∈ l}

theorem turns_zero : turns l 0 = 1 := by
  ext w
  constructor
  · rintro ⟨ws, rfl, hlen, -⟩
    rw [List.length_eq_zero_iff.mp (Nat.le_zero.mp hlen)]
    rfl
  · rintro rfl
    exact ⟨[], rfl, Nat.le_refl 0, nofun⟩

theorem turns_succ (n : Nat) : turns l (n + 1) = 1 + l * turns l n := by
  ext w
  constructor
  · rintro ⟨ws, rfl, hlen, hws⟩
    cases ws with
    | nil => exact Or.inl rfl
    | cons v ws =>
      refine Or.inr (Language.append_mem_mul (hws v List.mem_cons_self) ⟨ws, rfl, ?_, ?_⟩)
      · simpa using hlen
      · exact fun u hu => hws u (List.mem_cons_of_mem v hu)
  · rintro (rfl | ⟨v, hv, _, ⟨ws, rfl, hlen, hws⟩, rfl⟩)
    · exact ⟨[], rfl, Nat.zero_le _, nofun⟩
    · refine ⟨v :: ws, rfl, by simpa using hlen, ?_⟩
      intro u hu
      rcases List.mem_cons.mp hu with rfl | hu
      · exact hv
      · exact hws u hu

theorem Accepts.upTo (h : Accepts r l) (greedy : Bool) (n : Nat) :
    Accepts (Step.upTo r greedy n) (turns l n) := by
  induction n with
  | zero =>
    rw [turns_zero]
    exact accepts_stay
  | succ n ih =>
    rw [turns_succ]
    exact (h.flatMap ih).prefer greedy

theorem Accepts.taking (h : Accepts r l) (hl : [] ∉ l) : Accepts (Step.taking r) l := by
  intro s t
  rw [mem_taking, h s t, and_iff_left_of_imp]
  rintro ⟨w, hw, hs, -⟩
  have hpos : 0 < w.length := by
    rw [List.length_pos_iff]
    exact fun he => hl (he ▸ hw)
  rw [hs.pos]
  omega

private theorem length_le_flatten {ws : List Text} (h : ∀ v ∈ ws, v ≠ []) :
    ws.length ≤ ws.flatten.length := by
  induction ws with
  | nil => simp
  | cons v ws ih =>
    have hv : 0 < v.length := List.length_pos_iff.mpr (h v List.mem_cons_self)
    have hws := ih fun u hu => h u (List.mem_cons_of_mem v hu)
    rw [List.flatten_cons, List.length_append, List.length_cons]
    omega

theorem Accepts.star (h : Accepts r l) (hl : [] ∉ l) (greedy : Bool) :
    Accepts (Step.star r greedy) l∗ := by
  intro s t
  rw [Step.star, (h.taking hl).upTo greedy s.rest.length s t]
  constructor
  · rintro ⟨w, ⟨ws, rfl, -, hws⟩, hs⟩
    exact ⟨ws.flatten, Language.join_mem_kstar hws, hs⟩
  · rintro ⟨w, hw, hs, hg⟩
    obtain ⟨ws, rfl, hws⟩ := Language.mem_kstar.mp hw
    have hlen := length_le_flatten fun v hv he => hl (he ▸ hws v hv)
    exact ⟨ws.flatten, ⟨ws, rfl, Nat.le_trans hlen hs.length_le, hws⟩, hs, hg⟩

theorem Accepts.plus (h : Accepts r l) (hl : [] ∉ l) (greedy : Bool) :
    Accepts (Step.plus r greedy) (l * l∗) := by
  have hplus : Step.plus r greedy = fun s => (r s).flatMap (Step.star r greedy) := by
    funext s
    refine List.flatMap_congr fun t ht => if_pos ?_
    have hmem := ((h.taking hl s t).trans (h s t).symm).mpr ht
    exact (before?_iff s t).mpr ((mem_taking r s t).mp hmem).2
  rw [hplus]
  exact h.flatMap (h.star hl greedy)

theorem Accepts.times (h : Accepts r l) (n : Nat) : Accepts (Step.times r n) (l ^ n) := by
  induction n with
  | zero =>
    rw [pow_zero]
    exact accepts_stay
  | succ n ih =>
    rw [pow_succ']
    exact h.flatMap ih

/-- A loop without a bound takes any number of texts from its least number on. -/
theorem Accepts.atLeast (h : Accepts r l) (hl : [] ∉ l) (et : EmptyTurn) (greedy : Bool)
    (lo : Nat) : Accepts (Step.atLeast et r greedy lo) (l ^ lo * l∗) := by
  cases et with
  | fails => exact (h.times lo).flatMap (h.star hl greedy)
  | ends =>
    cases lo with
    | zero =>
      have hplus := (h.plus hl greedy).prefer greedy
      rw [Language.one_add_self_mul_kstar_eq_kstar] at hplus
      rwa [pow_zero, one_mul]
    | succ n =>
      rw [pow_succ, mul_assoc]
      exact (h.times n).flatMap (h.plus hl greedy)

theorem Accepts.zeroOrMore (h : Accepts r l) (hl : [] ∉ l) (et : EmptyTurn) (greedy : Bool) :
    Accepts (Step.loop et r 0 none greedy) l∗ := by
  have hloop := h.atLeast hl et greedy 0
  rwa [pow_zero, one_mul] at hloop

theorem Accepts.oneOrMore (h : Accepts r l) (hl : [] ∉ l) (et : EmptyTurn) (greedy : Bool) :
    Accepts (Step.loop et r 1 none greedy) (l * l∗) := by
  have hloop := h.atLeast hl et greedy 1
  rwa [pow_one] at hloop

def repeated (l : Language Char) (lo : Nat) : Option Nat → Language Char
  | none => l ^ lo * l∗
  | some n => l ^ lo * turns l (n - lo)

theorem Accepts.loop (h : Accepts r l) (hl : [] ∉ l) {lo : Nat} {most : Option Nat}
    (hle : most.all (lo ≤ ·) = true) (et : EmptyTurn) (greedy : Bool) :
    Accepts (Step.loop et r lo most greedy) (repeated l lo most) := by
  cases most with
  | none => exact h.atLeast hl et greedy lo
  | some n =>
    have hmin : min lo n = lo := Nat.min_eq_left (by simpa using hle)
    have hloop : Step.loop et r lo (some n) greedy =
        fun s => (Step.times r lo s).flatMap (Step.upTo r greedy (n - lo)) := by
      rw [Step.loop, hmin]
    rw [hloop]
    exact (h.times lo).flatMap (h.upTo greedy (n - lo))

end Step

/-- Between `b`, nearest character first, and `u` the expression can take `w`. -/
def Expr.Between (e : Expr) (b w u : Text) : Prop :=
  ∃ t ∈ e.paths .fails ⟨b, w ++ u, 0, []⟩, t.rest = u

/-- An expression that does the same at every moved place looks at the text around it only. -/
theorem Expr.Mobile.local_between {e : Expr} (h : e.Mobile) (et : EmptyTurn) :
    Step.Local (e.paths et) e.Between := by
  intro s t
  have hmoved : e.paths et s =
      (e.paths .fails ⟨s.before, s.rest, 0, []⟩).map (State.moved s.pos fun _ => s.groups) := by
    have := h s.pos (fun _ => s.groups) .fails et ⟨s.before, s.rest, 0, []⟩
    rwa [← State.eq_moved] at this
  rw [hmoved, List.mem_map]
  constructor
  · rintro ⟨r, hr, rfl⟩
    obtain ⟨w, hw⟩ := forward_paths e .fails _ r hr
    refine ⟨w, ⟨r, ?_, rfl⟩, ⟨hw.rest, hw.before, ?_⟩, rfl⟩
    · rw [moved_rest, ← hw.rest]
      exact hr
    · simp [State.moved, hw.pos, Nat.add_comm]
  · rintro ⟨w, ⟨r, hr, hrest⟩, hs, hg⟩
    rw [← hs.rest] at hr
    obtain ⟨v, hv⟩ := forward_paths e .fails _ r hr
    have hvw : v = w := by
      have := hv.rest.symm.trans hs.rest
      rw [hrest] at this
      exact List.append_cancel_right this
    subst hvw
    refine ⟨r, hr, Passes.eq (s := s) (w := v) ⟨hv.rest, hv.before, ?_⟩ hs hg.symm⟩
    simp [State.moved, hv.pos, Nat.add_comm]

/-! ### Texts of characters -/

def oneOf (p : Char → Prop) : Language Char := {w | ∃ x, p x ∧ w = [x]}

def alikes (a : Bool) (t : Text) : Language Char := {w | TextAlike a t w}

/-- Texts that are not empty and hold none of the characters, and none of their variants. -/
def segments (a : Bool) (cs : List Char) : Language Char :=
  {w | w ≠ [] ∧ ∀ x ∈ w, ∀ c ∈ cs, ¬ Alike a c x}

theorem nil_notMem_oneOf (p : Char → Prop) : [] ∉ oneOf p := by
  rintro ⟨x, -, hx⟩
  simp at hx

theorem alikes_nil (a : Bool) : alikes a [] = 1 := by
  ext w
  exact List.forall₂_nil_left_iff

theorem alikes_cons (a : Bool) (c : Char) (t : Text) :
    alikes a (c :: t) = oneOf (Alike a c) * alikes a t := by
  ext w
  constructor
  · intro hw
    obtain ⟨x, u, hx, hu, rfl⟩ := List.forall₂_cons_left_iff.mp hw
    exact Language.append_mem_mul (a := [x]) ⟨x, hx, rfl⟩ hu
  · rintro ⟨_, ⟨x, hx, rfl⟩, u, hu, rfl⟩
    exact List.Forall₂.cons hx hu

theorem mem_kstar_oneOf {p : Char → Prop} {w : Text} : w ∈ (oneOf p)∗ ↔ ∀ x ∈ w, p x := by
  rw [Language.mem_kstar]
  constructor
  · rintro ⟨ws, rfl, hws⟩ x hx
    obtain ⟨v, hv, hxv⟩ := List.mem_flatten.mp hx
    obtain ⟨y, hy, rfl⟩ := hws v hv
    rw [List.mem_singleton.mp hxv]
    exact hy
  · intro hw
    refine ⟨w.map fun x => [x], (List.flatMap_singleton' w).symm, fun v hv => ?_⟩
    obtain ⟨x, hx, rfl⟩ := List.mem_map.mp hv
    exact ⟨x, hw x hx, rfl⟩

theorem segments_eq (a : Bool) (cs : List Char) :
    segments a cs = oneOf (fun x => ∀ c ∈ cs, ¬ Alike a c x) *
      (oneOf fun x => ∀ c ∈ cs, ¬ Alike a c x)∗ := by
  ext w
  constructor
  · rintro ⟨hne, hw⟩
    cases w with
    | nil => exact absurd rfl hne
    | cons x u =>
      exact Language.append_mem_mul (a := [x]) ⟨x, hw x List.mem_cons_self, rfl⟩
        (mem_kstar_oneOf.mpr fun y hy => hw y (List.mem_cons_of_mem x hy))
  · rintro ⟨_, ⟨x, hx, rfl⟩, u, hu, rfl⟩
    refine ⟨by simp, fun y hy => ?_⟩
    rcases List.mem_cons.mp hy with rfl | hy
    · exact hx
    · exact mem_kstar_oneOf.mp hu y hy

/-! ### Items -/

def Spells (is : List Item) (l : Language Char) : Prop :=
  ∀ et, Step.Accepts (Step.inTurn (is.map fun i => i.expr.paths et)) l

namespace Spells

variable {is js : List Item} {i : Item} {l m : Language Char}

theorem nil : Spells [] 1 := fun _ => Step.accepts_stay

theorem append (h : Spells is l) (h' : Spells js m) : Spells (is ++ js) (l * m) := by
  intro et
  have heq : Step.inTurn ((is ++ js).map fun i => i.expr.paths et) = fun s =>
      (Step.inTurn (is.map fun i => i.expr.paths et) s).flatMap
        (Step.inTurn (js.map fun i => i.expr.paths et)) := by
    funext s
    rw [List.map_append, Step.inTurn_append]
  rw [heq]
  exact (h et).flatMap (h' et)

theorem cons (h : Spells [i] l) (h' : Spells is m) : Spells (i :: is) (l * m) := h.append h'

theorem single (h : ∀ et, Step.Accepts (i.expr.paths et) l) : Spells [i] l := by
  intro et
  rw [List.map_singleton, Step.inTurn_single]
  exact h et

theorem accepts (h : Spells [i] l) (et : EmptyTurn) : Step.Accepts (i.expr.paths et) l := by
  have := h et
  rwa [List.map_singleton, Step.inTurn_single] at this

theorem ofItems (h : Spells is l) (et : EmptyTurn) :
    Step.Accepts ((Branch.ofItems is).expr.paths et) l := by
  rw [Branch.paths_ofItems]
  exact h et

theorem enclosed {c : Content} (h : ∀ et, Step.Accepts (c.expr.paths et) l) (d : Dialect) :
    Spells [enclosedItem d c] l := single h

theorem bundled (h : Spells is l) (d : Dialect) : Spells [bundledItem d is] l :=
  enclosed (c := .ofItems is) h.ofItems d

theorem zeroOrMore (h : Spells [i] l) (hl : [] ∉ l) : Spells [loopItem i none] l∗ :=
  single fun et => (h.accepts et).zeroOrMore hl et true

/-- One character of a kind. -/
theorem one {s : CharSet} {a r : Bool} {g : Stage} {p : Char → Prop}
    (h : ∀ x, s.has a x = true ↔ p x) : Spells [⟨.one s a, r, g⟩] (oneOf p) := by
  refine single fun et s t => ?_
  cases hr : s.rest with
  | nil =>
    simp only [Expr.paths, hr, List.not_mem_nil, false_iff]
    rintro ⟨w, ⟨x, -, rfl⟩, hs, -⟩
    have := hs.rest
    simp [hr] at this
  | cons c rest =>
    simp only [Expr.paths, hr]
    constructor
    · intro ht
      split at ht
      case isTrue hc =>
        rw [List.mem_singleton.mp ht]
        refine ⟨[c], ⟨c, (h c).mp hc, rfl⟩, passes_next hr, ?_⟩
        simp [State.next, hr]
      case isFalse => simp at ht
    · rintro ⟨w, ⟨x, hx, rfl⟩, hs, hg⟩
      have hrest := hs.rest
      rw [hr, List.singleton_append, List.cons.injEq] at hrest
      rw [if_pos ((h c).mpr (hrest.1 ▸ hx)), List.mem_singleton]
      refine (hrest.1 ▸ hs).eq (passes_next hr) ?_
      rw [hg]
      simp [State.next, hr]

/-- A character and its variants. -/
theorem char (a : Bool) (c : Char) : Spells [charItem a c] (oneOf (Alike a c)) :=
  one fun x => (has_single_iff _ c x).trans (alike_and_not_isMeta a c x)

theorem literal (a : Bool) (t : Text) : Spells (t.map (charItem a)) (alikes a t) := by
  induction t with
  | nil =>
    rw [alikes_nil]
    exact nil
  | cons c t ih =>
    rw [alikes_cons]
    exact cons (char a c) ih

theorem lazyItem (d : Dialect) (cs : List Char) (a : Bool) :
    Spells [lazyItem d cs a] (segments a cs) := by
  have hone := one (r := true) (g := .fresh) (has_outside_iff a cs)
  rw [segments_eq]
  exact single fun et => (hone.accepts et).oneOrMore (nil_notMem_oneOf _) et false

end Spells

end PathTemplate.Expression
