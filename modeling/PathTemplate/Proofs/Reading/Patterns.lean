import PathTemplate.Proofs.Reading.Readers
import PathTemplate.Proofs.Templates.Passing
import PathTemplate.Template.Tokens

/-!
The patterns of templates. A body is quoted so that no parenthesis stands bare in it, and the
default pattern has none, so a pattern neither opens nor closes anything.
-/
namespace PathTemplate.Expression

inductive Parenless : Text → Prop
  | nil : Parenless []
  | bare {c : Char} {t : Text} : c ≠ '\\' → c ≠ '(' → c ≠ ')' → Parenless t → Parenless (c :: t)
  | pair {c : Char} {t : Text} : Parenless t → Parenless ('\\' :: c :: t)

namespace Parenless

theorem append {t u : Text} (h : Parenless t) (h' : Parenless u) : Parenless (t ++ u) := by
  induction h with
  | nil => exact h'
  | bare hc hopen hclose _ ih => exact .bare hc hopen hclose ih
  | pair _ ih => exact .pair ih

theorem of_bare {t : Text} (h : ∀ c ∈ t, c ≠ '\\' ∧ c ≠ '(' ∧ c ≠ ')') : Parenless t := by
  induction t with
  | nil => exact .nil
  | cons c t ih =>
    obtain ⟨hc, hopen, hclose⟩ := h c List.mem_cons_self
    exact .bare hc hopen hclose (ih fun x hx => h x (List.mem_cons_of_mem c hx))

theorem char (c : Char) : Parenless (Quoting.char c) := by
  rw [Quoting.char]
  split
  case isTrue => exact .pair .nil
  case isFalse hmeta =>
    refine of_bare fun x hx => ?_
    rw [List.mem_singleton.mp hx]
    refine ⟨?_, ?_, ?_⟩
    all_goals
      rintro rfl
      exact hmeta (by decide)

theorem literal (t : Text) : Parenless (Quoting.literal t) := by
  induction t with
  | nil => exact .nil
  | cons c t ih => exact (char c).append ih

theorem of_cons {c : Char} {t : Text} (hc : c ≠ '\\') (h : Parenless (c :: t)) : Parenless t := by
  cases h with
  | bare _ _ _ h => exact h
  | pair _ => exact absurd rfl hc

theorem of_pair {c : Char} {t : Text} (h : Parenless ('\\' :: c :: t)) : Parenless t := by
  cases h with
  | bare hc _ _ _ => exact absurd rfl hc
  | pair h => exact h

/-- What follows a whole text is without parentheses too. -/
theorem drop {w r : Text} (hw : Whole w) (h : Parenless (w ++ r)) : Parenless r := by
  induction hw with
  | nil => exact h
  | bare hc _ ih => exact ih (h.of_cons hc)
  | pair _ ih => exact ih h.of_pair

end Parenless

end PathTemplate.Expression

namespace PathTemplate.Template

open Expression

theorem parenless_groupBody {b : Text} (hb : IsBody b) : Parenless (Quoting.groupBody b) := by
  induction hb with
  | nil => exact .nil
  | pair _ _ ih => exact .pair ih
  | @bare c t hc hopen hclose _ ih =>
    rw [Quoting.groupBody_cons hc]
    split
    · exact .pair ih
    · exact .bare hc hopen hclose ih

private theorem exists_mark_of_mem_tokensFrom {o : Options} {ps : List Piece} {index : Nat}
    {s : Stretch} {p : Parameter} (hp : .parameter p ∈ tokensFrom o index s ps) :
    ∃ m i lead, .mark m ∈ ps ∧ p = m.parameter o i lead := by
  have hliteral : ∀ s : Stretch, .parameter p ∉ s.literal := by
    intro s hs
    rw [Stretch.literal] at hs
    split at hs <;> simp at hs
  induction ps generalizing index s with
  | nil => exact absurd hp (hliteral s)
  | cons x ps ih =>
    have hlater : ∀ {index : Nat} {s : Stretch},
        .parameter p ∈ tokensFrom o index s ps →
          ∃ m i lead, .mark m ∈ x :: ps ∧ p = m.parameter o i lead := by
      intro index s h
      obtain ⟨m, i, lead, hm, rfl⟩ := ih h
      exact ⟨m, i, lead, List.mem_cons_of_mem x hm, rfl⟩
    cases x with
    | plain c => exact hlater hp
    | escaped c => exact hlater hp
    | mark m =>
      rw [tokensFrom] at hp
      rcases List.mem_append.mp hp with hp | hp
      · exact absurd hp (hliteral _)
      · rcases List.mem_cons.mp hp with hp | hp
        · exact ⟨m, index, s.lead? o, List.mem_cons_self, Token.parameter.inj hp⟩
        · exact hlater hp

/-- Every parameter of a template comes from a mark. -/
theorem exists_mark_of_mem_tokens {o : Options} {t : Text} {p : Parameter}
    (hp : .parameter p ∈ tokens o t) :
    ∃ m i lead, .mark m ∈ pieces t ∧ p = m.parameter o i lead :=
  exists_mark_of_mem_tokensFrom hp

theorem parenless_defaultPattern (c d : Char) : Parenless (defaultPattern c d) := by
  have hset : ∀ cs : Text, Parenless ("[^".toList ++ Quoting.literal cs ++ "]+?".toList) := by
    intro cs
    have hopen : Parenless "[^".toList := .of_bare (by decide)
    have hclose : Parenless "]+?".toList := .of_bare (by decide)
    exact (hopen.append (.literal cs)).append hclose
  exact hset _

/-- Whatever a template says, no parenthesis stands bare in a pattern of it. -/
theorem parenless_pattern {o : Options} {t : Text} {p : Parameter}
    (hp : .parameter p ∈ tokens o t) : Parenless p.pattern := by
  obtain ⟨m, index, lead, hm, rfl⟩ := exists_mark_of_mem_tokens hp
  simp only [Mark.parameter]
  split
  case _ b hb =>
    exact parenless_groupBody ((wellFormed_of_mem_pieces hm).body b hb).2
  case _ => exact parenless_defaultPattern _ _

end PathTemplate.Template
