import Mathlib.Data.List.Chain
import PathTemplate.Proofs.Templates.Stretches

/-!
Whatever a template says, its tokens are in normal form: literals are neither empty nor divided,
parameters without a name are numbered in order, names are words, and patterns can neither open nor
close a group, nor end the text.
-/
namespace PathTemplate

def Token.isLiteral : Token → Bool
  | literal _ => true
  | parameter _ => false

def Token.Apart (x y : Token) : Prop := x.isLiteral = true → y.isLiteral = false

def ParamName.index? : ParamName → Option Nat
  | index n => some n
  | named _ => none

namespace Quoting

/-- The characters outside of backslash pairs, read from left to right. A backslash at the end has
no partner. -/
def bare : Text → Text
  | [] => []
  | ['\\'] => ['\\']
  | '\\' :: _ :: t => bare t
  | c :: t => c :: bare t

/-- No backslash is left without a partner, and no guarded character stands bare. -/
def Sealed (t : Text) : Prop := ∀ c ∈ bare t, c ≠ '\\' ∧ isGuarded c = false

theorem bare_cons {c : Char} (hc : c ≠ '\\') (t : Text) : bare (c :: t) = c :: bare t := by
  rw [bare]
  · exact fun h _ => hc h
  · exact fun _ _ h _ => hc h

theorem sealed_cons {c : Char} (hc : c ≠ '\\') (hg : isGuarded c = false) {t : Text}
    (h : Sealed t) : Sealed (c :: t) := by
  rw [Sealed, bare_cons hc]
  exact List.forall_mem_cons.mpr ⟨⟨hc, hg⟩, h⟩

theorem sealed_pair (c : Char) {t : Text} (h : Sealed t) : Sealed ('\\' :: c :: t) := h

theorem isMeta_of_isGuarded {c : Char} (h : isGuarded c = true) : isMeta c = true := by
  simp only [isGuarded, Bool.or_eq_true, beq_iff_eq] at h
  rcases h with (rfl | rfl) | rfl <;> decide

theorem sealed_literal_append (t : Text) {u : Text} (h : Sealed u) : Sealed (literal t ++ u) := by
  induction t with
  | nil => exact h
  | cons c t ih =>
    rw [literal, List.flatMap_cons, List.append_assoc, char]
    split
    case isTrue => exact sealed_pair c ih
    case isFalse hmeta =>
      refine sealed_cons ?_ (Bool.eq_false_iff.mpr fun hg => hmeta (isMeta_of_isGuarded hg)) ih
      rintro rfl
      exact hmeta (by decide)

end Quoting

namespace Template

open Matching Quoting

/-! ### Patterns -/

theorem sealed_groupBody {b : Text} (hb : IsBody b) : Sealed (groupBody b) := by
  induction hb with
  | nil => exact nofun
  | pair _ _ ih => exact sealed_pair _ ih
  | @bare c t hc hopen hclose _ ih =>
    rw [groupBody_cons hc]
    split
    · exact sealed_pair c ih
    case _ hg => exact sealed_cons hc (Bool.eq_false_iff.mpr hg) ih

theorem sealed_defaultPattern (delimiter standard : Char) :
    Sealed (defaultPattern delimiter standard) := by
  have hend : Sealed "]+?".toList := by unfold Sealed; decide
  have hall : ∀ cs, Sealed ("[^".toList ++ Quoting.literal cs ++ "]+?".toList) := by
    intro cs
    rw [List.append_assoc]
    exact sealed_cons (by decide) (by decide) (sealed_cons (by decide) (by decide)
      (sealed_literal_append cs hend))
  exact hall _

theorem groupBody_ne_nil {b : Text} (hb : b ≠ []) : groupBody b ≠ [] := by
  unfold groupBody
  split
  · exact absurd rfl hb
  · exact List.cons_ne_nil _ _
  · exact List.cons_ne_nil _ _
  · split <;> exact List.cons_ne_nil _ _

/-- A pattern is a guarded body, or the default pattern. -/
theorem pattern_parameter {m : Mark} (hm : m.WellFormed) (o : Options) (index : Nat)
    (lead : Option Char) : (m.parameter o index lead).pattern ≠ [] ∧
      Sealed (m.parameter o index lead).pattern := by
  simp only [Mark.parameter]
  split
  case _ b hb =>
    obtain ⟨hne, hbody⟩ := hm.body b hb
    exact ⟨groupBody_ne_nil hne, sealed_groupBody hbody⟩
  case _ => exact ⟨by simp [defaultPattern], sealed_defaultPattern _ _⟩

/-! ### Names -/

/-- Marks without a name are numbered from `index` on. -/
theorem filterMap_index_occurrencesFrom (index : Nat) (ps : List Piece) :
    (occurrencesFrom index ps).filterMap (fun x => x.name.index?) =
      List.range' index (unnamed ps) := by
  induction ps generalizing index with
  | nil => rfl
  | cons p ps ih =>
    cases p with
    | plain c => simpa [occurrencesFrom, unnamed, Piece.isUnnamed] using ih index
    | escaped c => simpa [occurrencesFrom, unnamed, Piece.isUnnamed] using ih index
    | mark m =>
      cases hn : m.name with
      | none =>
        have hrest := ih (index + 1)
        simp_all [occurrencesFrom, unnamed, Piece.isUnnamed, Mark.occurrence, ParamName.index?,
          List.range'_succ]
      | some n =>
        have hrest := ih index
        simp_all [occurrencesFrom, unnamed, Piece.isUnnamed, Mark.occurrence, ParamName.index?]

theorem name_parameter {m : Mark} (hm : m.WellFormed) {o : Options} {index : Nat}
    {lead : Option Char} {n : Text} (h : (m.parameter o index lead).name = .named n) :
    n ≠ [] ∧ ∀ c ∈ n, isNameChar c = true := by
  simp only [Mark.parameter] at h
  split at h
  case _ n' hn => exact hm.name n (ParamName.named.inj h ▸ hn)
  case _ => cases h

/-! ### Literals -/

theorem literals_tokensFrom (o : Options) (index : Nat) (s : Stretch) (ps : List Piece) :
    (∀ w, .literal w ∈ tokensFrom o index s ps → w ≠ []) ∧
      (tokensFrom o index s ps).IsChain Token.Apart := by
  induction ps generalizing index s with
  | nil =>
    rw [tokensFrom, Stretch.literal_eq]
    split <;> simp_all
  | cons p ps ih =>
    cases p with
    | plain c => exact ih index _
    | escaped c => exact ih index _
    | mark m =>
      obtain ⟨hne, hchain⟩ := ih (if m.name.isNone then index + 1 else index) []
      have hparameter : (Token.parameter (m.parameter o index (s.lead? o)) :: tokensFrom o
          (if m.name.isNone then index + 1 else index) [] ps).IsChain Token.Apart :=
        List.isChain_cons.mpr ⟨fun _ _ h => absurd h Bool.false_ne_true, hchain⟩
      rw [tokensFrom, Stretch.literal_eq]
      split
      case _ => exact ⟨by simpa using hne, hparameter⟩
      case _ htext =>
        refine ⟨by simpa [htext] using hne, List.isChain_cons.mpr ⟨?_, hparameter⟩⟩
        intro y hy _
        obtain rfl := Option.some.inj hy
        rfl

theorem tokensFrom_eq_nil_iff {o : Options} {index : Nat} {s : Stretch} {ps : List Piece} :
    tokensFrom o index s ps = [] ↔ s = [] ∧ ps = [] := by
  induction ps generalizing index s with
  | nil => cases s <;> simp [tokensFrom, Stretch.literal]
  | cons p ps ih => cases p <;> simp [tokensFrom, ih]

structure NormalForm (ts : List Token) : Prop where
  literals : ∀ w, .literal w ∈ ts → w ≠ []
  apart : ts.IsChain Token.Apart
  numbered : ∃ n, (parameters ts).filterMap (fun p => p.name.index?) = List.range n
  named : ∀ p n, .parameter p ∈ ts → p.name = .named n → n ≠ [] ∧ ∀ c ∈ n, isNameChar c = true
  patterns : ∀ p, .parameter p ∈ ts → p.pattern ≠ [] ∧ Sealed p.pattern

/-- The tokens of a template are in normal form, and there are none if the template is empty. -/
theorem normalForm_tokens (o : Options) (t : Text) :
    NormalForm (tokens o t) ∧ (tokens o t = [] ↔ t = []) := by
  obtain ⟨hliterals, happart⟩ := literals_tokensFrom o 0 [] (pieces t)
  refine ⟨⟨hliterals, happart, ⟨unnamed (pieces t), ?_⟩, fun p n hp hn => ?_, fun p hp => ?_⟩, ?_⟩
  · have hnames := congrArg (List.filterMap ParamName.index?)
      (map_eq_of_gives (f := Parameter.name) (g := Occurrence.name) (fun _ _ _ => rfl) o t)
    rw [List.filterMap_map, List.filterMap_map] at hnames
    rw [List.range_eq_range']
    exact hnames.trans (filterMap_index_occurrencesFrom 0 (pieces t))
  · obtain ⟨m, index, lead, hm, rfl⟩ := exists_mark_of_mem_tokens hp
    exact name_parameter (wellFormed_of_mem_pieces hm) hn
  · obtain ⟨m, index, lead, hm, rfl⟩ := exists_mark_of_mem_tokens hp
    exact pattern_parameter (wellFormed_of_mem_pieces hm) o index lead
  · rw [tokens, tokensFrom_eq_nil_iff]
    constructor
    · rintro ⟨-, hpieces⟩
      rw [← pieces_written t, hpieces]
      rfl
    · rintro rfl
      exact ⟨rfl, rfl⟩

end Template

end PathTemplate
