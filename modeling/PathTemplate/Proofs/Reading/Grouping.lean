import Mathlib.Algebra.Ring.Nat
import PathTemplate.Proofs.Reading.Fragment
import PathTemplate.Proofs.Reading.Seams

/-!
Parts of a written expression in parentheses: bundles, which only hold other parts together,
groups, which take a number, and look-ahead over alternatives.
-/
namespace PathTemplate.Expression

open Matching

def Builder.inside (b : Builder) (o : Opening) (k : Nat) (index : Option Nat) : Builder :=
  { b with
    groups := b.groups + k
    outer := b.frame :: b.outer
    frame := { kind := o, index, outer := b.flags } }

theorem Builder.Quiet.inside {a : Bool} {b : Builder} (h : b.Quiet a) (o : Opening) (k : Nat)
    (index : Option Nat) : (b.inside o k index).Quiet a :=
  ⟨h.flags, h.comment, h.names, h.numbered, h.referred⟩

/-- The alternatives of a frame before the current one, latest first, and the current one. -/
@[ext]
structure Content where
  alternatives : List Expr := []
  branch : Branch := {}
  deriving DecidableEq, Repr

namespace Content

def ofItems (is : List Item) : Content := ⟨[], Branch.ofItems is⟩

def exprs (c : Content) : List Expr := (c.branch.expr :: c.alternatives).reverse

def expr (c : Content) : Expr := Builder.altAll c.exprs

def after (c : Content) (e : Expr) : Content := { c with alternatives := c.alternatives ++ [e] }

theorem exprs_after (c : Content) (e : Expr) : (c.after e).exprs = e :: c.exprs := by
  simp [exprs, after]

theorem exprs_ne_nil (c : Content) : c.exprs ≠ [] := by
  simp [exprs]

end Content

def Builder.hold (b : Builder) (k : Nat) (c : Content) : Builder :=
  { b with
    groups := b.groups + k
    frame := { b.frame with
      alternatives := c.alternatives ++ b.frame.alternatives
      branch := c.branch } }

theorem Builder.Quiet.hold {a : Bool} {b : Builder} (h : b.Quiet a) (k : Nat) (c : Content) :
    (b.hold k c).Quiet a := ⟨h.flags, h.comment, h.names, h.numbered, h.referred⟩

/-- In a branch that has just begun, the text up to a seam opens `k` groups and makes up the
content of the parenthesis. -/
def Encloses (d : Dialect) (a : Bool) (deep : Nat) (t : Text) (k : Nat) (c : Nat → Content) :
    Prop :=
  ∀ (b : Builder) (u : Text), b.Quiet a → b.frame.branch = {} → Seam u →
    Room d b deep (t ++ u) → Reads d b (t ++ u) (b.hold k (c b.groups)) u

variable {d : Dialect} {a : Bool} {deep deep' : Nat} {t t' : Text} {k k' : Nat}
  {is : Nat → List Item} {c c' : Nat → Content}

theorem Encloses.weaken (h : Encloses d a deep t k c) (hle : deep ≤ deep') :
    Encloses d a deep' t k c :=
  fun b u hb hf hu hd => h b u hb hf hu (hd.weaken hle)

theorem Writes.encloses (h : Writes d a deep t k is) :
    Encloses d a deep t k fun g => .ofItems (is g) := by
  intro b u hb hf _ hd
  have hgrow : b.grow k (is b.groups) = b.hold k (.ofItems (is b.groups)) := by
    simp [Builder.grow, Builder.hold, Content.ofItems, Branch.ofItems, hf]
  rw [← hgrow]
  exact h b u hb hd

/-- A bar ends one alternative and begins the next. -/
theorem Writes.alternative (h : Writes d a deep t k is) (h' : Encloses d a deep t' k' c) :
    Encloses d a deep (t ++ '|' :: t') (k + k')
      fun g => (c (g + k)).after (Branch.ofItems (is g)).expr := by
  intro b u hb hf hu hd
  have htext : t ++ '|' :: t' ++ u = t ++ '|' :: (t' ++ u) := by simp
  rw [htext] at hd ⊢
  have hfirst := h b ('|' :: (t' ++ u)) hb hd
  have hbar : (b.grow k (is b.groups)).step d .bar = some (b.grow k (is b.groups)).bar := by
    simp [Builder.step, (hb.grow k (is b.groups)).comment]
  have hone : Reads d (b.grow k (is b.groups)) ('|' :: (t' ++ u)) (b.grow k (is b.groups)).bar
      (t' ++ u) := .one rfl (by simp) hbar
  have hrest := h' (b.grow k (is b.groups)).bar u
    ⟨hb.flags, hb.comment, hb.names, hb.numbered, hb.referred⟩ rfl hu
    ((hd.rest hfirst rfl).rest hone rfl)
  have hhold : (b.grow k (is b.groups)).bar.hold k' (c (b.groups + k)) =
      b.hold (k + k') ((c (b.groups + k)).after (Branch.ofItems (is b.groups)).expr) := by
    simp [Builder.hold, Builder.bar, Builder.grow, Content.after, Branch.ofItems, hf,
      Nat.add_assoc]
  rw [← hhold]
  exact hfirst.trans (hone.trans hrest)

/-! ### Parentheses -/

private theorem step_opening {b : Builder} (hb : b.Quiet a) (o : Opening) :
    b.step d (.opening o) = b.openGroup d o := by
  simp [Builder.step, hb.comment]

/-- Closing gives back the frame outside, with the item that the closed frame leaves behind. -/
private theorem step_close {b : Builder} (hb : b.Quiet a) {o : Opening} {j : Nat}
    {index : Option Nat} {c : Content} {i : Item} (k : Nat)
    (hi : Builder.closed d ((b.inside o j index).hold k c).frame = some i) :
    ((b.inside o j index).hold k c).step d .close = some (b.grow (j + k) [i]) := by
  have hin := (hb.inside o j index).hold k c
  have hmix : ((b.inside o j index).hold k c).mixesReferences = false := hin.mixesReferences
  have hstep : ((b.inside o j index).hold k c).step d .close =
      ((b.inside o j index).hold k c).closeGroup d := by
    simp only [Builder.step, hin.comment, Bool.false_eq_true, if_false]
  have houter : ((b.inside o j index).hold k c).outer = b.frame :: b.outer := rfl
  have hflags : ((b.inside o j index).hold k c).frame.outer = b.flags := rfl
  have hsame : ((b.inside o j index).hold k c).flags = b.flags := rfl
  rw [hstep, Builder.closeGroup.eq_def, hmix, houter]
  simp only [hi, Bool.and_false, Bool.false_eq_true, if_false, hflags, hsame, ite_self]
  simp [Builder.grow, Builder.push, Builder.setBranch, Builder.hold, Builder.inside, Nat.add_assoc]

/-- A parenthesis around a text leaves behind the item of what the text makes up. -/
private theorem Encloses.closed (h : Encloses d a deep t k c) (pre : Text) (o : Opening) (j : Nat)
    (index : Nat → Option Nat) (i : Nat → Item) (hpre : pre ≠ [])
    (hlex : ∀ u, lexeme d (pre ++ (t ++ ')' :: u)) = some (.opening o, t ++ ')' :: u))
    (hopen : ∀ b : Builder, b.Quiet a → b.outer.length < d.depth →
      b.openGroup d o = some (b.inside o j (index b.groups)))
    (hi : ∀ b : Builder, Builder.closed d
      ((b.inside o j (index b.groups)).hold k (c (b.groups + j))).frame = some (i b.groups)) :
    Writes d a (deep + 1) (pre ++ (t ++ [')'])) (j + k) fun g => [i g] := by
  intro b u hb hd
  have htext : pre ++ (t ++ [')']) ++ u = pre ++ (t ++ ')' :: u) := by simp
  have hlt : (t ++ ')' :: u).length < (pre ++ (t ++ ')' :: u)).length := by
    have hpos := List.length_pos_iff.mpr hpre
    have hlen : (pre ++ (t ++ ')' :: u)).length = pre.length + (t ++ ')' :: u).length :=
      List.length_append
    omega
  rw [htext] at hd ⊢
  have hdepth := hd.lt_depth (hlex u) (step_opening hb o)
  have hstep : b.step d (.opening o) = some (b.inside o j (index b.groups)) := by
    rw [step_opening hb, hopen b hb hdepth]
  have hin := h (b.inside o j (index b.groups)) (')' :: u) (hb.inside _ _ _) rfl (seam_close u)
    (hd.inside (hlex u) hstep rfl)
  exact .more (hlex u) hlt hstep (hin.trans (.one rfl (by simp) (step_close hb k (hi b))))

def enclosedItem (d : Dialect) (c : Content) : Item :=
  { expr := c.expr
    repeatable := d = .segment || c.exprs.length > 1 || c.branch.repeatable }

def bundledItem (d : Dialect) (is : List Item) : Item := enclosedItem d (.ofItems is)

theorem repeatable_bundledItem_pair (d : Dialect) {i : Item} (hi : i.expr ≠ .empty)
    (hr : i.repeatable = true) (j : Item) : (bundledItem d [i, j]).repeatable = true := by
  simp [bundledItem, enclosedItem, Content.ofItems, Branch.repeatable_ofItems_pair hi hr]

theorem repeatable_bundledItem_single (d : Dialect) {i : Item} (hi : i.expr ≠ .empty)
    (hr : i.repeatable = true) : (bundledItem d [i]).repeatable = true := by
  simp [bundledItem, enclosedItem, Content.ofItems, Branch.repeatable_ofItems_single hi, hr]

theorem Encloses.bundled (h : Encloses d a deep t k c) :
    Writes d a (deep + 1) (bundled t) k fun g => [enclosedItem d (c g)] := by
  have hbundle := h.closed "(?:".toList (.plain []) 0 (fun _ => none)
    (fun g => enclosedItem d (c g)) (by simp)
    (fun u => by cases d <;> rfl)
    (fun b _ hb => by rw [Builder.openGroup, if_neg (by omega)]; rfl)
    (fun b => by
      simp [Builder.closed, Builder.hold, Builder.inside, Builder.alternatives, enclosedItem,
        Content.expr, Content.exprs])
  rw [Nat.zero_add] at hbundle
  rw [Matching.bundled, List.append_assoc]
  exact hbundle

theorem Writes.bundled (h : Writes d a deep t k is) :
    Writes d a (deep + 1) (bundled t) k fun g => [bundledItem d (is g)] := h.encloses.bundled

theorem opening_capture (d : Dialect) {c : Char} (hc : c ≠ '?') (r : Text) :
    opening d (c :: r) = some (.opening .capture, c :: r) := by
  rw [opening.eq_def]
  split <;> simp_all

def groupItem (index : Nat) (c : Content) : Item := { expr := .group index c.expr }

theorem Encloses.parenthesized (h : Encloses d a deep t k c) (ht : t.head? ≠ some '?') :
    Writes d a (deep + 1) (parenthesized t) (k + 1) fun g => [groupItem (g + 1) (c (g + 1))] := by
  have hgroup := h.closed ['('] .capture 1 (fun g => some (g + 1))
    (fun g => groupItem (g + 1) (c (g + 1))) (by simp)
    (fun u => by
      cases t with
      | nil => exact opening_capture d (c := ')') (by decide) u
      | cons e t => exact opening_capture d (fun he => ht (by rw [he]; rfl)) _)
    (fun b _ hb => by rw [Builder.openGroup, if_neg (by omega)]; rfl)
    (fun b => by
      simp [Builder.closed, Builder.hold, Builder.inside, Builder.alternatives, groupItem,
        Content.expr, Content.exprs])
  rw [Nat.add_comm 1] at hgroup
  exact hgroup

/-! ### Look-ahead -/

def aheadItem (es : List Expr) : Item :=
  { expr := .ahead true (Builder.altAll es), repeatable := false }

theorem Encloses.lookingAhead (h : Encloses .path a deep t 0 c) :
    Writes .path a (deep + 1) (lookingAhead t) 0 fun g => [aheadItem (c g).exprs] := by
  have hahead := h.closed "(?=".toList (.ahead true) 0 (fun _ => none)
    (fun g => aheadItem (c g).exprs) (by simp) (fun u => rfl)
    (fun b _ hb => by rw [Builder.openGroup, if_neg (by omega)]; rfl)
    (fun b => by
      simp [Builder.closed, Builder.hold, Builder.inside, Builder.alternatives, aheadItem,
        Content.exprs])
  rw [Matching.lookingAhead, List.append_assoc]
  exact hahead

/-! ### Alternatives -/

/-- A part of an alternation: its text, its number of groups, and the items that it is read as
behind so many groups. -/
structure Fragment where
  text : Text
  groups : Nat
  items : Nat → List Item

namespace Fragment

def content (g : Nat) : List Fragment → Content
  | [] => {}
  | [f] => .ofItems (f.items g)
  | f :: fs => (content (g + f.groups) fs).after (Branch.ofItems (f.items g)).expr

def exprs (g : Nat) : List Fragment → List Expr
  | [] => []
  | f :: fs => (Branch.ofItems (f.items g)).expr :: exprs (g + f.groups) fs

theorem exprs_content (g : Nat) (f : Fragment) (fs : List Fragment) :
    (content g (f :: fs)).exprs = exprs g (f :: fs) := by
  induction fs generalizing f g with
  | nil => rfl
  | cons f' fs ih =>
    rw [content, Content.exprs_after, ih]
    · rfl
    · simp

end Fragment

theorem encloses_alternatives (f : Fragment) (fs : List Fragment)
    (h : ∀ q ∈ f :: fs, Writes d a deep q.text q.groups q.items) :
    Encloses d a deep (Text.join ['|'] ((f :: fs).map Fragment.text))
      ((f :: fs).map Fragment.groups).sum fun g => Fragment.content g (f :: fs) := by
  induction fs generalizing f with
  | nil => exact (h f (by simp)).encloses
  | cons f' fs ih =>
    have hrest := ih f' fun q hq => h q (List.mem_cons_of_mem f hq)
    have hboth := (h f (by simp)).alternative hrest
    rw [List.map_cons, List.map_cons, Text.join_cons_cons, List.append_assoc]
    exact hboth

abbrev Alternative := Text × List Item

def alternativeExprs (as : List Alternative) : List Expr :=
  as.map fun p => (Branch.ofItems p.2).expr

def Fragment.ofAlternative (p : Alternative) : Fragment := ⟨p.1, 0, fun _ => p.2⟩

theorem writes_lookingAhead {a : Bool} (p : Alternative) (ps : List Alternative)
    (h : ∀ q ∈ p :: ps, Writes .path a 0 q.1 0 fun _ => q.2) :
    Writes .path a 1 (lookingAhead (Text.join ['|'] ((p :: ps).map Prod.fst))) 0
      fun _ => [aheadItem (alternativeExprs (p :: ps))] := by
  have htexts : ∀ qs : List Alternative,
      (qs.map Fragment.ofAlternative).map Fragment.text = qs.map Prod.fst := by
    simp [Fragment.ofAlternative, Function.comp_def]
  have hgroups : ∀ qs : List Alternative,
      ((qs.map Fragment.ofAlternative).map Fragment.groups).sum = 0 := by
    intro qs
    induction qs with
    | nil => rfl
    | cons q qs ih =>
      rw [List.map_cons, List.map_cons, List.sum_cons, ih]
      rfl
  have hexprs : ∀ (qs : List Alternative) (g : Nat),
      Fragment.exprs g (qs.map Fragment.ofAlternative) = alternativeExprs qs := by
    intro qs
    induction qs with
    | nil => exact fun _ => rfl
    | cons q qs ih => exact fun g => congrArg _ (ih (g + 0))
  have hfragments : ∀ f ∈ Fragment.ofAlternative p :: ps.map Fragment.ofAlternative,
      Writes .path a 0 f.text f.groups f.items := by
    intro f hf
    rw [← List.map_cons] at hf
    obtain ⟨q, hq, rfl⟩ := List.mem_map.mp hf
    exact h q hq
  have hall := encloses_alternatives _ _ hfragments
  simp only [← List.map_cons (f := Fragment.ofAlternative), htexts, hgroups] at hall
  have hahead := hall.lookingAhead
  simp only [List.map_cons (f := Fragment.ofAlternative), Fragment.exprs_content] at hahead
  simpa only [← List.map_cons (f := Fragment.ofAlternative), hexprs] using hahead

/-! ### Places in the text -/

def checkItem (d : Dialect) (x : Assertion) : Item :=
  { expr := .check x, repeatable := d = .segment }

theorem writes_caret (d : Dialect) (a : Bool) :
    Writes d a 0 ['^'] 0 fun _ => [checkItem d .textStart] := by
  intro b u hb _
  refine .one rfl (by simp) ?_
  simp only [Builder.step, hb.comment, hb.flags]
  rfl

theorem writes_dollar (d : Dialect) (a : Bool) :
    Writes d a 0 ['$'] 0 fun _ => [checkItem d .textEnd] := by
  intro b u hb _
  refine .one rfl (by simp) ?_
  simp only [Builder.step, hb.comment, hb.flags]
  rfl

end PathTemplate.Expression
