import Mathlib.Data.List.Basic
import PathTemplate.Proofs.Reading.Accepted

/-!
Lists of templates, which may hold further lists. The expression of a list is read as the
alternatives of its elements, each behind the groups of those before it, so in the end it holds the
expressions of its templates in the order in which they are written.
-/
namespace PathTemplate.Matching

open Expression

namespace Input

mutual

def leaves : Input → List Text
  | template t => [t]
  | written _ => []
  | anyOf is => allLeaves is

def allLeaves : List Input → List Text
  | [] => []
  | i :: is => leaves i ++ allLeaves is

end

/-- The input is a template, or a list of such inputs that is not empty. -/
inductive Templates : Input → Prop
  | template (t : Text) : Templates (template t)
  | anyOf {is : List Input} : is ≠ [] → (∀ i ∈ is, Templates i) → Templates (anyOf is)

mutual

def fragment (a : Bool) (o : Options) : Input → Fragment
  | template t => ⟨tokensSource o (Template.tokens o t), (parameters (Template.tokens o t)).length,
      fun g => expressionItems a o g (Template.tokens o t)⟩
  | written w => ⟨w.source, w.keys.length, fun _ => []⟩
  | anyOf is =>
    let fs := fragments a o is
    ⟨bundled (Text.join ['|'] (fs.map Fragment.text)), (fs.map Fragment.groups).sum,
      fun g => [enclosedItem .path (Fragment.content g fs)]⟩

def fragments (a : Bool) (o : Options) : List Input → List Fragment
  | [] => []
  | i :: is => fragment a o i :: fragments a o is

end

section Lists

variable (a : Bool) (o : Options) (is : List Input)

theorem allLeaves_eq : allLeaves is = is.flatMap leaves := by
  induction is with
  | nil => rfl
  | cons i is ih => rw [allLeaves, ih, List.flatMap_cons]

theorem sources_eq : sources o is = is.map (source o) := by
  induction is with
  | nil => rfl
  | cons i is ih => rw [sources, ih, List.map_cons]

theorem allKeys_eq : allKeys o is = is.flatMap (keys o) := by
  induction is with
  | nil => rfl
  | cons i is ih => rw [allKeys, ih, List.flatMap_cons]

theorem fragments_eq : fragments a o is = is.map (fragment a o) := by
  induction is with
  | nil => rfl
  | cons i is ih => rw [fragments, ih, List.map_cons]

end Lists

namespace Templates

variable {o : Options} {i : Input}

theorem text_fragment (h : i.Templates) (a : Bool) : (i.fragment a o).text = i.source o := by
  induction h with
  | template t => rfl
  | @anyOf is _ _ ih =>
    have htexts : (fragments a o is).map Fragment.text = sources o is := by
      rw [fragments_eq, sources_eq, List.map_map]
      exact List.map_congr_left ih
    rw [fragment, source, htexts]

/-- The keys of the input are those of its templates. -/
theorem keys_eq (h : i.Templates) :
    i.keys o = i.leaves.flatMap fun t => tokensKeys (Template.tokens o t) := by
  induction h with
  | template t => simp [keys, leaves]
  | @anyOf is _ _ ih =>
    rw [keys, leaves, allKeys_eq, allLeaves_eq, List.flatMap_assoc]
    exact List.flatMap_congr ih

theorem groups_fragment (h : i.Templates) (a : Bool) :
    (i.fragment a o).groups =
      (i.leaves.map fun t => (parameters (Template.tokens o t)).length).sum := by
  induction h with
  | template t => simp [fragment, leaves]
  | @anyOf is _ _ ih =>
    have hgroups : ∀ js : List Input, (∀ j ∈ js, j ∈ is) →
        ((js.map (fragment a o)).map Fragment.groups).sum =
          ((js.flatMap leaves).map fun t => (parameters (Template.tokens o t)).length).sum := by
      intro js
      induction js with
      | nil => exact fun _ => rfl
      | cons j js ihs =>
        intro hjs
        have hj := ih j (hjs j List.mem_cons_self)
        have hrest := ihs fun k hk => hjs k (List.mem_cons_of_mem j hk)
        rw [List.map_cons, List.map_cons, List.sum_cons, hj, hrest, List.flatMap_cons,
          List.map_append, List.sum_append]
    rw [fragment, leaves, fragments_eq, allLeaves_eq]
    exact hgroups is fun j hj => hj

section Embedded

variable {a : Bool} {deep : Nat}

/-- Leaves of an element are leaves of the list. -/
private theorem mem_leaves {is : List Input} {j : Input} (hj : j ∈ is) {t : Text}
    (ht : t ∈ j.leaves) : t ∈ (Input.anyOf is).leaves := by
  rw [leaves, allLeaves_eq]
  exact List.mem_flatMap.mpr ⟨j, hj, ht⟩

/-- The expression of the input is read as the alternatives of its elements. -/
theorem writes_fragment (h : i.Templates)
    (hembeds : ∀ t ∈ i.leaves, ∀ p, .parameter p ∈ Template.tokens o t → Embeds a deep p) :
    Writes .path a (Dialect.path.depth + 1) (i.fragment a o).text (i.fragment a o).groups
      (i.fragment a o).items := by
  induction h with
  | template t =>
    exact (writes_tokensSource a (hembeds t (List.mem_singleton_self t))).lower
  | @anyOf is hne _ ih =>
    have hall : ∀ f ∈ fragments a o is,
        Writes .path a (Dialect.path.depth + 1) f.text f.groups f.items := by
      intro f hf
      rw [fragments_eq] at hf
      obtain ⟨j, hj, rfl⟩ := List.mem_map.mp hf
      exact ih j hj fun t ht => hembeds t (mem_leaves hj ht)
    have hfs : fragments a o is ≠ [] := by simpa [fragments_eq] using hne
    obtain ⟨f, fs, hlist⟩ := List.exists_cons_of_ne_nil hfs
    rw [fragment, hlist]
    rw [hlist] at hall
    exact (encloses_alternatives f fs hall).bundled.lower

/-- All sets of the input are known if those of its patterns are. -/
theorem settled_fragment (h : i.Templates)
    (hembeds : ∀ t ∈ i.leaves, ∀ p, .parameter p ∈ Template.tokens o t → Embeds a deep p)
    (g : Nat) : Throughout (fun e => e.isSettled = true) ((i.fragment a o).items g) := by
  induction h generalizing g with
  | template t => exact settled_expressionItems g (hembeds t (List.mem_singleton_self t))
  | @anyOf is hne _ ih =>
    have hexprs : ∀ (js : List Input), (∀ j ∈ js, j ∈ is) → ∀ g,
        (Fragment.exprs g (js.map (fragment a o))).all Expr.isSettled = true := by
      intro js
      induction js with
      | nil => exact fun _ _ => rfl
      | cons j js ihs =>
        intro hjs g
        have hj : j ∈ is := hjs j List.mem_cons_self
        have hfirst := (ih j hj (fun t ht => hembeds t (mem_leaves hj ht)) g).ofItems
          (throughLoops_isSettled a).toInherited
        have hrest := ihs (fun k hk => hjs k (List.mem_cons_of_mem j hk))
          (g + (fragment a o j).groups)
        simp only [List.map_cons, Fragment.exprs, List.all_cons, hfirst, hrest, Bool.and_self]
    obtain ⟨j, js, rfl⟩ := List.exists_cons_of_ne_nil hne
    refine .single ?_
    have hall := hexprs (j :: js) (fun k hk => hk) g
    rw [List.map_cons, ← Fragment.exprs_content] at hall
    rw [fragments_eq]
    exact (Builder.all_altAll rfl (fun _ _ => rfl) _).trans hall

end Embedded

/-- A list of templates that renderers accept is compiled from the alternatives of its
elements. -/
theorem eq_of_compile (h : i.Templates) {deep : Nat}
    (hembeds : ∀ t ∈ i.leaves, ∀ p, .parameter p ∈ Template.tokens o t →
      Embeds (!o.sensitive) deep p) {m : Matcher} (hm : Matcher.compile o i = .ok m) :
    m = ⟨i.source o, i.keys o, ⟨(Branch.ofItems ((i.fragment (!o.sensitive) o).items 0)).expr,
      (i.fragment (!o.sensitive) o).groups⟩⟩ := by
  have hwrites := h.writes_fragment hembeds
  rw [h.text_fragment] at hwrites
  have hbuild : Matcher.build o (i.source o) (i.keys o) = .ok m := by
    cases h <;> exact hm
  exact eq_of_build hwrites
    ((h.settled_fragment hembeds 0).ofItems (throughLoops_isSettled (!o.sensitive)).toInherited)
    hbuild

end Templates

end Input

end PathTemplate.Matching
