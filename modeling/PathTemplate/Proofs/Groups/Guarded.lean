import PathTemplate.Proofs.Groups.Calm
import PathTemplate.Proofs.Groups.Parts
import PathTemplate.Proofs.Reading.Escapes
import PathTemplate.Proofs.Reading.TokenItems

/-!
The values of templates are guarded. No parenthesis stands in them but those that only hold items
together, so every lexeme inside a value is tame, wherever the cuts fall.
-/
namespace PathTemplate.Expression

/-! ### Tidy texts -/

/-- No parenthesis opens but those that only hold items together. -/
inductive Tidy : Text → Prop
  | nil : Tidy []
  | bare {c : Char} {t : Text} : c ≠ '\\' → c ≠ '(' → Tidy t → Tidy (c :: t)
  | pair {c : Char} {t : Text} : Tidy t → Tidy ('\\' :: c :: t)
  | bundle {t : Text} : Tidy t → Tidy ('(' :: '?' :: ':' :: t)

namespace Tidy

theorem append {t u : Text} (h : Tidy t) (h' : Tidy u) : Tidy (t ++ u) := by
  induction h with
  | nil => exact h'
  | bare hc hopen _ ih => exact .bare hc hopen ih
  | pair _ ih => exact .pair ih
  | bundle _ ih => exact .bundle ih

/-- What follows is tidy wherever a cut falls, also between a parenthesis and its mark. -/
theorem drop {w r : Text} (hw : Whole w) (h : Tidy (w ++ r)) : Tidy r := by
  have hcons : ∀ {c : Char} {t : Text}, c ≠ '\\' → Tidy (c :: t) →
      (∀ w, Whole w → w ++ r = t → Tidy r) → ∀ w, Whole w → w ++ r = c :: t → Tidy r := by
    intro c t hc hself hrest w hw heq
    cases hw with
    | nil =>
      rw [List.nil_append] at heq
      rwa [heq]
    | bare _ hw => exact hrest _ hw (List.cons.inj heq).2
    | pair _ => exact absurd (List.cons.inj heq).1.symm hc
  generalize ht : w ++ r = t at h
  induction h generalizing w with
  | nil =>
    obtain ⟨-, rfl⟩ := List.append_eq_nil_iff.mp ht
    exact .nil
  | bare hc hopen h ih => exact hcons hc (.bare hc hopen h) (fun w hw => ih hw) w hw ht
  | pair h ih =>
    cases hw with
    | nil =>
      rw [List.nil_append] at ht
      rw [ht]
      exact .pair h
    | bare hc _ => exact absurd (List.cons.inj ht).1 hc
    | pair hw => exact ih hw (List.cons.inj (List.cons.inj ht).2).2
  | bundle h ih =>
    have hcolon := bare (c := ':') (by decide) (by decide) h
    have hmark := bare (c := '?') (by decide) (by decide) hcolon
    have hrest := hcons (by decide) hmark (hcons (by decide) hcolon fun w hw => ih hw)
    exact hcons (by decide) (.bundle h) hrest w hw ht

theorem single {c : Char} (hc : c ≠ '\\') (hopen : c ≠ '(') : Tidy [c] := .bare hc hopen .nil

theorem bundled {t : Text} (h : Tidy t) : Tidy (Matching.bundled t) :=
  (bundle h).append (single (by decide) (by decide))

end Tidy

theorem Parenless.tidy {t : Text} (h : Parenless t) : Tidy t := by
  induction h with
  | nil => exact .nil
  | bare hc hopen _ _ ih => exact .bare hc hopen ih
  | pair _ ih => exact .pair ih

/-! ### Tame lexemes -/

theorem Lexeme.Escaped.tame {x : Lexeme} (h : x.Escaped) : x.Tame := by
  cases h <;> trivial

/-- Only a parenthesis opens anything. -/
theorem tame_lexeme {c : Char} (hc : c ≠ '(') {t r : Text} {x : Lexeme}
    (h : lexeme .path (c :: t) = some (x, r)) : x.Tame := by
  unfold lexeme at h
  split at h
  case _ heq => cases heq
  case h_10 heq => exact absurd (List.cons.inj heq).1 hc
  case h_11 => exact Lexeme.of_map (f := .set) h fun _ => trivial
  case h_12 => exact (escaped_pathEscape h).tame
  case h_13 =>
    split at h
    · exact Lexeme.of_some h trivial
    · exact Lexeme.of_some h trivial
  all_goals exact Lexeme.of_some h trivial

theorem Tidy.tame_lexeme {t r : Text} {x : Lexeme} (ht : Tidy t)
    (h : lexeme .path t = some (x, r)) : x.Tame := by
  cases ht with
  | nil => cases h
  | bare _ hopen _ => exact Expression.tame_lexeme hopen h
  | pair _ => exact Expression.tame_lexeme (by decide) h
  | bundle _ =>
    obtain ⟨rfl, -⟩ := Prod.mk.inj (Option.some.inj h)
    rfl

/-- However a tidy text is cut, its lexemes are tame. -/
theorem Tidy.tame_cuts {t u : Text} {cs : List Cut} (ht : Tidy t) (h : Cuts t cs u) :
    ∀ c ∈ cs, c.lexeme.Tame := by
  induction h with
  | stop => simp
  | @more v r u x cs hx _ ih =>
    obtain ⟨v', hv', -, hwhole, -⟩ := lexeme_settles hx
    obtain rfl := List.append_cancel_right hv'
    intro c hc
    rcases List.mem_cons.mp hc with rfl | hc
    · exact ht.tame_lexeme hx
    · exact ih (ht.drop hwhole) c hc

end PathTemplate.Expression

namespace PathTemplate.Template

open Expression

/-- Whatever a template says, no pattern of it opens a group. -/
theorem tidy_pattern {o : Options} {t : Text} {p : Parameter} (hp : .parameter p ∈ tokens o t) :
    Tidy p.pattern := (parenless_pattern hp).tidy

end PathTemplate.Template

namespace PathTemplate.Matching

open Expression

theorem tidy_valueSource {p : Parameter} (hp : Tidy p.pattern) : Tidy (valueSource p) := by
  rw [valueSource]
  split
  · have hfurther := (Parenless.char p.delimiter).tidy.append hp.bundled
    exact (hp.bundled.append hfurther.bundled).append (.single (by decide) (by decide))
  · exact hp

/-- Behind the parenthesis of its group a value has tame lexemes only. -/
theorem tame_parenthesized {v : Text} (hv : Tidy v) {c : Cut} {cs : List Cut}
    (h : Cuts (parenthesized v) (c :: cs) []) : ∀ d ∈ cs, d.lexeme.Tame := by
  generalize ht : parenthesized v = t at h
  cases h with
  | @more w r _ x _ hx hrest =>
    obtain ⟨w', hw', hne, hwhole, -⟩ := lexeme_settles hx
    obtain rfl := List.append_cancel_right hw'
    obtain ⟨e, w, rfl⟩ := List.exists_cons_of_ne_nil hne
    obtain rfl := (List.cons.inj ht).1
    have htail : v ++ [')'] = w ++ r := (List.cons.inj ht).2
    have htidy : Tidy (w ++ r) := by
      rw [← htail]
      exact hv.append (.single (by decide) (by decide))
    cases hwhole with
    | bare _ hw => exact (htidy.drop hw).tame_cuts hrest

theorem mem_of_group_mem_tokensParts {o : Options} {ts : List Token} {p : Parameter}
    (hp : .group p ∈ tokensParts o ts) : .parameter p ∈ ts := by
  simp only [tokensParts, List.cons_append, List.mem_cons, reduceCtorEq, false_or,
    List.mem_append, List.mem_flatMap, List.not_mem_nil, or_false] at hp
  obtain ⟨t, ht, hpart⟩ := hp
  cases t with
  | literal t => simp [tokenParts] at hpart
  | parameter q =>
    have heq : q = p := by
      simp only [tokenParts, parameterParts] at hpart
      split at hpart <;> simp at hpart <;> exact hpart.symm
    rwa [← heq]

theorem written_not_mem_tokensParts {o : Options} {ts : List Token} {w : Written} :
    .written w ∉ tokensParts o ts := by
  intro hw
  simp only [tokensParts, List.cons_append, List.mem_cons, reduceCtorEq, false_or,
    List.mem_append, List.mem_flatMap, List.not_mem_nil, or_false] at hw
  obtain ⟨t, -, hpart⟩ := hw
  cases t with
  | literal t => simp [tokenParts] at hpart
  | parameter q =>
    simp only [tokenParts, parameterParts] at hpart
    split at hpart <;> simp at hpart

mutual

/-- The groups of an input are those of its templates. -/
theorem tidy_of_group_mem (o : Options) (i : Input) {p : Parameter} (hp : .group p ∈ i.parts o) :
    Tidy (valueSource p) := by
  match i with
  | .template t => exact tidy_valueSource (Template.tidy_pattern (mem_of_group_mem_tokensParts hp))
  | .written w => simp [Input.parts] at hp
  | .anyOf is =>
    refine tidy_of_group_mem_alternatives o is ?_
    simpa [Input.parts] using hp

theorem tidy_of_group_mem_alternatives (o : Options) (is : List Input) {p : Parameter}
    (hp : .group p ∈ Input.alternatives o is) : Tidy (valueSource p) := by
  match is with
  | [] => cases hp
  | [i] => exact tidy_of_group_mem o i hp
  | i :: j :: is =>
    rcases List.mem_append.mp hp with hp | hp
    · exact tidy_of_group_mem o i hp
    · refine tidy_of_group_mem_alternatives o (j :: is) ?_
      simpa using hp

end

end PathTemplate.Matching
