import PathTemplate.Proofs.Reading.TokenItems

/-!
Nothing of a template is lost, said twice or moved. Its pieces spell it out, and the literals and
leads of its tokens spell out what is left of it without the marks and without the backslashes of
escapes. What the parameters say besides their leads and default patterns is in the marks alone.
-/
namespace PathTemplate

/-- The text that stands in a template for itself. -/
def Token.kept : Token → Text
  | literal t => t
  | parameter p => p.leadText

end PathTemplate

namespace PathTemplate.Template

open Matching

def Piece.kept : Piece → Text
  | plain c => [c]
  | escaped c => [c]
  | mark _ => []

/-! ### Parameters -/

/-- What a template says about a parameter, whatever the options are: its name, its modifier, and
its pattern if it has one of its own. -/
structure Occurrence where
  name : ParamName
  optional : Bool
  repeats : Bool
  pattern : Option Text
  deriving DecidableEq, Repr

def Occurrence.parameter (x : Occurrence) (o : Options) (lead : Option Char) : Parameter where
  name := x.name
  lead := lead
  delimiter := lead.getD o.delimiter
  optional := x.optional
  repeats := x.repeats
  pattern := x.pattern.getD (defaultPattern (lead.getD o.delimiter) o.delimiter)

/-- `index` is the number of the mark if it has no name. -/
def Mark.occurrence (m : Mark) (index : Nat) : Occurrence where
  name := m.name.elim (.index index) .named
  optional := m.modifier == some .optional || m.modifier == some .zeroOrMore
  repeats := m.modifier == some .oneOrMore || m.modifier == some .zeroOrMore
  pattern := m.body.map Quoting.groupBody

theorem Mark.parameter_eq (m : Mark) (o : Options) (index : Nat) (lead : Option Char) :
    m.parameter o index lead = (m.occurrence index).parameter o lead := by
  cases hname : m.name <;> cases hbody : m.body <;>
    simp [Mark.parameter, Mark.occurrence, Occurrence.parameter, hname, hbody]

def occurrencesFrom (index : Nat) : List Piece → List Occurrence
  | [] => []
  | .plain _ :: ps => occurrencesFrom index ps
  | .escaped _ :: ps => occurrencesFrom index ps
  | .mark m :: ps =>
    m.occurrence index :: occurrencesFrom (if m.name.isNone then index + 1 else index) ps

def occurrences (t : Text) : List Occurrence := occurrencesFrom 0 (pieces t)

def Occurrence.Gives (o : Options) (x : Occurrence) (p : Parameter) : Prop :=
  ∃ lead, p = x.parameter o lead

theorem Stretch.parameters_literal (s : Stretch) : parameters s.literal = [] := by
  rw [Stretch.literal]
  split <;> rfl

theorem parameters_tokensFrom_mark (o : Options) (index : Nat) (s : Stretch) (m : Mark)
    (ps : List Piece) : parameters (tokensFrom o index s (.mark m :: ps)) =
      m.parameter o index (s.lead? o) ::
        parameters (tokensFrom o (if m.name.isNone then index + 1 else index) [] ps) := by
  have hliteral := (s.withoutLead o).parameters_literal
  rw [parameters] at hliteral ⊢
  rw [tokensFrom, List.filterMap_append, hliteral]
  rfl

private theorem gives_tokensFrom (o : Options) (index : Nat) (s : Stretch) (ps : List Piece) :
    List.Forall₂ (Occurrence.Gives o) (occurrencesFrom index ps)
      (parameters (tokensFrom o index s ps)) := by
  induction ps generalizing index s with
  | nil =>
    rw [tokensFrom, Stretch.parameters_literal]
    exact .nil
  | cons x ps ih =>
    cases x with
    | plain c => exact ih index _
    | escaped c => exact ih index _
    | mark m =>
      rw [occurrencesFrom, parameters_tokensFrom_mark]
      exact .cons ⟨s.lead? o, m.parameter_eq o index _⟩ (ih _ [])

/-- The parameters of a template are those that its marks give, in order. -/
theorem gives_tokens (o : Options) (t : Text) :
    List.Forall₂ (Occurrence.Gives o) (occurrences t) (parameters (tokens o t)) :=
  gives_tokensFrom o 0 [] (pieces t)

/-- What is the same for all options. -/
theorem map_eq_of_gives {α : Type} {f : Parameter → α} {g : Occurrence → α}
    (h : ∀ (x : Occurrence) (o : Options) (lead : Option Char), f (x.parameter o lead) = g x)
    (o : Options) (t : Text) : (parameters (tokens o t)).map f = (occurrences t).map g := by
  have hgives := gives_tokens o t
  generalize occurrences t = xs at hgives
  generalize parameters (tokens o t) = ps at hgives
  induction hgives with
  | nil => rfl
  | cons hx _ ih =>
    obtain ⟨lead, rfl⟩ := hx
    rw [List.map_cons, List.map_cons, ih, h]

/-! ### Text -/

/-- A stretch is what is left for a literal, and the lead. -/
theorem Stretch.text_withoutLead (o : Options) (s : Stretch) :
    (s.withoutLead o).text ++ (s.lead? o).toList = s.text := by
  rw [withoutLead]
  cases s with
  | nil => rfl
  | cons l s =>
    rw [lead?]
    split <;> simp [text]

theorem Stretch.kept_literal (s : Stretch) : s.literal.flatMap Token.kept = s.text := by
  cases s <;> simp [literal, text, Token.kept]

theorem Stretch.kept_lead (o : Options) (s : Stretch) :
    (s.withoutLead o).literal.flatMap Token.kept ++ (s.lead? o).toList = s.text := by
  rw [kept_literal, text_withoutLead]

private theorem kept_tokensFrom (o : Options) (index : Nat) (s : Stretch) (ps : List Piece) :
    (tokensFrom o index s ps).flatMap Token.kept = s.text ++ ps.flatMap Piece.kept := by
  induction ps generalizing index s with
  | nil => rw [tokensFrom, Stretch.kept_literal, List.flatMap_nil, List.append_nil]
  | cons x ps ih =>
    cases x with
    | plain c => simp [tokensFrom, ih, Stretch.text, Piece.kept]
    | escaped c => simp [tokensFrom, ih, Stretch.text, Piece.kept]
    | mark m =>
      have hlead : Token.kept (.parameter (m.parameter o index (s.lead? o))) =
          (s.lead? o).toList := rfl
      rw [tokensFrom, List.flatMap_append, List.flatMap_cons, hlead, ih, ← List.append_assoc,
        Stretch.kept_lead]
      rfl

/-- The tokens of a template account for all of it: the pieces that a pass over it meets spell it
out, every mark among them is of one of the three forms, and literals and leads are what the pieces
stand for. Under any other options the same text is kept, and the parameters are given by the same
marks. -/
theorem tokens_account (o o' : Options) (t : Text) :
    Passed t (pieces t) ∧ (pieces t).flatMap Piece.written = t ∧
    (∀ m, .mark m ∈ pieces t → m.WellFormed) ∧
    (tokens o t).flatMap Token.kept = (pieces t).flatMap Piece.kept ∧
    (tokens o t).flatMap Token.kept = (tokens o' t).flatMap Token.kept ∧
    (parameters (tokens o t)).map (fun p => (p.name, p.optional, p.repeats)) =
      (parameters (tokens o' t)).map (fun p => (p.name, p.optional, p.repeats)) ∧
    List.Forall₂ (Occurrence.Gives o) (occurrences t) (parameters (tokens o t)) ∧
    List.Forall₂ (Occurrence.Gives o') (occurrences t) (parameters (tokens o' t)) := by
  have hkept : ∀ o, (tokens o t).flatMap Token.kept = (pieces t).flatMap Piece.kept :=
    fun o => kept_tokensFrom o 0 [] (pieces t)
  have hsame : ∀ o, (parameters (tokens o t)).map (fun p => (p.name, p.optional, p.repeats)) =
      (occurrences t).map fun x => (x.name, x.optional, x.repeats) :=
    fun o => map_eq_of_gives (fun _ _ _ => rfl) o t
  refine ⟨passed_pieces t, pieces_written t, fun _ hm => wellFormed_of_mem_pieces hm, hkept o,
    ?_, ?_, gives_tokens o t, gives_tokens o' t⟩
  · rw [hkept, hkept]
  · rw [hsame, hsame]

end PathTemplate.Template
