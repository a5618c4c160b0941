import PathTemplate.Proofs.Meaning.Languages
import PathTemplate.Proofs.Reading.Compiling

/-!
The values of a parameter. What its pattern takes depends on the text around it only, and so does
what the group around it takes. A pattern that takes the texts of a language whatever stands around
them gives values that do the same.
-/
namespace PathTemplate.Expression

theorem throughAhead_mobile (a : Bool) : ThroughAhead a Expr.Mobile where
  empty _ _ := .empty
  one s _ _ _ := .one s a
  char _ _ _ := .one _ _
  check x _ _ _ := .check x
  cat _ _ he hf n g := (he n g).cat (hf n g)
  optional _ h := h.optional
  alt _ _ he hf n g := (he n g).alt (hf n g)
  ahead _ h n g := (h n g).ahead

/-- Loops around single characters take something in every turn. -/
private theorem mobile_loop (s : CharSet) (a : Bool) (lo : Nat) (hi : Option Nat) (greedy : Bool) :
    (Expr.loop (.one s a) lo hi greedy).Mobile :=
  fun _ _ => (Expr.Carries.one s a).loop lo hi greedy
    fun _ => ⟨Expr.consumes_one s a, Expr.consumes_one s a⟩

theorem Expr.Shallow.mobile {S : CharSet → Bool → Prop} {e : Expr} (h : e.Shallow S) :
    e.Mobile := by
  induction h with
  | empty => exact fun _ _ => .empty
  | one _ => exact fun _ _ => .one _ _
  | check x => exact fun _ _ => .check x
  | cat _ _ he hf => exact (throughAhead_mobile false).cat _ _ he hf
  | alt _ _ he hf => exact (throughAhead_mobile false).alt _ _ he hf
  | loop lo hi greedy _ => exact mobile_loop _ _ lo hi greedy
  | atomic lo hi greedy _ => exact fun n g => (mobile_loop _ _ lo hi greedy n g).atomic

end PathTemplate.Expression

namespace PathTemplate.Matching

open Expression
open scoped Computability

def valueTexts (a : Bool) (o : Options) (p : Parameter) : Language Char :=
  if p.repeats then
    segments a (excluded o p) * (oneOf (Alike a p.delimiter) * segments a (excluded o p))∗
  else segments a (excluded o p)

/-- No turn of a repeated value is empty, since every further value begins with a delimiter. -/
theorem mobile_valueContent (a : Bool) (p : Parameter) : (valueContent a p).expr.Mobile := by
  have hbody : (bodyItem a p).expr.Mobile := (shallow_bodyContent_any a p.pattern).expr.mobile
  rw [valueContent]
  split
  · intro n g
    have hfurther : (furtherItem a p).expr.Consumes := (Expr.consumes_one _ _).ofItems _
    refine .ofItems (.cons (hbody n g) (.cons ?_ .nil))
    exact (Expr.Carries.ofItems (.cons (.one _ _) (.cons (hbody n g) .nil))).loop 0 none true
      fun _ => ⟨hfurther, hfurther⟩
  · exact (shallow_bodyContent_any a p.pattern).expr.mobile

/-- The parameter can have the value `v` between `b`, nearest character first, and `u`. -/
def ValueAt (a : Bool) (p : Parameter) : Text → Text → Text → Prop :=
  (valueContent a p).expr.Between

theorem local_valueContent (a : Bool) (p : Parameter) (et : EmptyTurn) :
    Step.Local ((valueContent a p).expr.paths et) (ValueAt a p) :=
  (mobile_valueContent a p).local_between et

/-! ### Languages -/

def valuesOf (a : Bool) (p : Parameter) (l : Language Char) : Language Char :=
  if p.repeats then l * (oneOf (Alike a p.delimiter) * l)∗ else l

section Languages

variable (a : Bool) {p : Parameter} {l : Language Char}

theorem accepts_valueContent
    (h : ∀ et, Step.Accepts ((bodyContent a p.pattern).expr.paths et) l) (et : EmptyTurn) :
    Step.Accepts ((valueContent a p).expr.paths et) (valuesOf a p l) := by
  have hnil : [] ∉ oneOf (Alike a p.delimiter) * l := by
    intro h
    obtain ⟨_, ⟨c, -, rfl⟩, v, -, huv⟩ := Language.mem_mul.mp h
    cases huv
  have hbody : Spells [bodyItem a p] l := .enclosed h .path
  rw [valueContent, valuesOf]
  split
  · exact (hbody.cons ((((Spells.char a p.delimiter).cons hbody).bundled .path).zeroOrMore
      hnil)).ofItems et
  · exact h et

/-- What a parameter takes then does not depend on the text around it. -/
theorem valueAt_iff (h : ∀ et, Step.Accepts ((bodyContent a p.pattern).expr.paths et) l)
    (b v u : Text) : ValueAt a p b v u ↔ v ∈ valuesOf a p l :=
  (local_valueContent a p .fails).iff (accepts_valueContent a h .fails) b v u

theorem accepts_defaultContent {o : Options}
    (hp : p.pattern = Template.defaultPattern p.delimiter o.delimiter) (et : EmptyTurn) :
    Step.Accepts ((bodyContent a p.pattern).expr.paths et) (segments a (excluded o p)) := by
  rw [bodyContent_defaultPattern a hp]
  exact (Spells.lazyItem .path (excluded o p) a).ofItems et

theorem valueAt_defaultPattern {o : Options}
    (hp : p.pattern = Template.defaultPattern p.delimiter o.delimiter) (b v u : Text) :
    ValueAt a p b v u ↔ v ∈ valueTexts a o p :=
  valueAt_iff a (accepts_defaultContent a hp) b v u

end Languages

/-! ### Joined texts -/

/-- Texts of the language with delimiters between them, or one text if the parameter does not
repeat. -/
def JoinedTexts (p : Parameter) (l : Language Char) (v : Text) : Prop :=
  ∃ ws : List Text, ws ≠ [] ∧ (p.repeats = false → ws.length = 1) ∧ (∀ w ∈ ws, w ∈ l) ∧
    v = Text.join [p.delimiter] ws

private theorem join_cons (sep : Char) (w : Text) (ws : List Text) :
    Text.join [sep] (w :: ws) = w ++ (ws.map fun v => sep :: v).flatten := by
  induction ws generalizing w with
  | nil => simp [Text.join]
  | cons v ws ih => simp [Text.join_cons_cons, ih]

/-- Joined texts are values, whether case counts or not. -/
theorem mem_valuesOf_of_joined {a : Bool} {p : Parameter} {l : Language Char} {v : Text}
    (h : JoinedTexts p l v) : v ∈ valuesOf a p l := by
  obtain ⟨ws, hne, hone, hws, rfl⟩ := h
  obtain ⟨w, ws, rfl⟩ := List.exists_cons_of_ne_nil hne
  rw [join_cons, valuesOf]
  have hw := hws w List.mem_cons_self
  split
  case isTrue =>
    refine Language.append_mem_mul hw (Language.join_mem_kstar fun y hy => ?_)
    obtain ⟨v, hv, rfl⟩ := List.mem_map.mp hy
    exact Language.append_mem_mul (a := [p.delimiter]) ⟨p.delimiter, alike_self a p.delimiter, rfl⟩
      (hws v (List.mem_cons_of_mem w hv))
  case isFalse hrep =>
    rw [Bool.not_eq_true] at hrep
    have hnil : ws = [] := by
      have := hone hrep
      simpa using this
    rw [hnil]
    simpa using hw

/-- Where the delimiter has no variants, texts behind delimiters are told apart by what they are
without them. -/
private theorem eq_flatten_delimited {a : Bool} {p : Parameter} {l : Language Char} {u : Text}
    (hd : ∀ x, Alike a p.delimiter x ↔ p.delimiter = x)
    (h : u ∈ (oneOf (Alike a p.delimiter) * l)∗) :
    ∃ ws : List Text, (∀ w ∈ ws, w ∈ l) ∧ u = (ws.map fun w => p.delimiter :: w).flatten := by
  obtain ⟨L, rfl, hL⟩ := Language.mem_kstar.mp h
  clear h
  induction L with
  | nil => exact ⟨[], nofun, rfl⟩
  | cons y L ih =>
    obtain ⟨hy, hrest⟩ := List.forall_mem_cons.mp hL
    obtain ⟨ws, hws, hu⟩ := ih hrest
    obtain ⟨_, ⟨c, hc, rfl⟩, w, hw, rfl⟩ := Language.mem_mul.mp hy
    obtain rfl := (hd c).mp hc
    refine ⟨w :: ws, List.forall_mem_cons.mpr ⟨hw, hws⟩, ?_⟩
    rw [List.flatten_cons, hu]
    rfl

/-- Where the delimiter has no variants, values are joined texts. -/
theorem mem_valuesOf_iff {a : Bool} {p : Parameter} {l : Language Char} {v : Text}
    (hd : ∀ x, Alike a p.delimiter x ↔ p.delimiter = x) :
    v ∈ valuesOf a p l ↔ JoinedTexts p l v := by
  refine ⟨fun h => ?_, mem_valuesOf_of_joined⟩
  rw [valuesOf] at h
  split at h
  case isTrue hrep =>
    obtain ⟨w, hw, u, hu, rfl⟩ := Language.mem_mul.mp h
    obtain ⟨ws, hws, rfl⟩ := eq_flatten_delimited hd hu
    refine ⟨w :: ws, List.cons_ne_nil w ws, fun hfalse => ?_,
      List.forall_mem_cons.mpr ⟨hw, hws⟩, (join_cons _ w ws).symm⟩
    rw [hrep] at hfalse
    cases hfalse
  case isFalse =>
    exact ⟨[v], List.cons_ne_nil v [], fun _ => rfl, List.forall_mem_singleton.mpr h, rfl⟩

theorem valueTexts_eq (a : Bool) (o : Options) (p : Parameter) :
    valueTexts a o p = valuesOf a p (segments a (excluded o p)) := rfl

end PathTemplate.Matching
