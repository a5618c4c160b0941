import Mathlib.Data.List.DropRight
import PathTemplate.Proofs.Templates.Accounting

/-!
What stands between a parameter and the one before it. The lead of the parameter and the literal in
front of it are taken from those characters and from nothing else, so that no escape is felt behind
the next parameter.
-/
namespace PathTemplate.Template

open Matching

/-! ### Stretches -/

namespace Stretch

variable (o : Options) (s : Stretch)

theorem lead?_eq : s.lead? o =
    if s.any Letter.escaped then none else s.text.getLast?.filter o.mayLead := by
  cases s with
  | nil => rfl
  | cons l s =>
    have hlast : text (l :: s) = text s ++ [l.char] := by simp [text]
    rw [hlast, List.getLast?_concat, lead?]
    cases (l :: s).any Letter.escaped <;> cases hm : o.mayLead l.char <;>
      simp [hm, Option.filter]

theorem lead?_eq_some_iff {c : Char} : s.lead? o = some c ↔
    s.any Letter.escaped = false ∧ s.text.getLast? = some c ∧ o.mayLead c = true := by
  rw [lead?_eq]
  cases s.any Letter.escaped <;> simp [Option.filter_eq_some_iff]

theorem literal_eq : s.literal = if s.text = [] then [] else [.literal s.text] := by
  cases s <;> simp [literal, text]

end Stretch

/-! ### Pieces between marks -/

namespace Piece

def isMark : Piece → Bool
  | mark _ => true
  | _ => false

def isUnnamed : Piece → Bool
  | mark m => m.name.isNone
  | _ => false

def letter? : Piece → Option Letter
  | plain c => some ⟨c, false⟩
  | escaped c => some ⟨c, true⟩
  | mark _ => none

end Piece

def unnamed (ps : List Piece) : Nat := ps.countP Piece.isUnnamed

def throughMark (ps : List Piece) : List Piece := ps.rdropWhile (!·.isMark)

def sinceMark (ps : List Piece) : List Piece := ps.rtakeWhile (!·.isMark)

theorem throughMark_append_sinceMark (ps : List Piece) : throughMark ps ++ sinceMark ps = ps :=
  List.rdropWhile_append_rtakeWhile

theorem mark_notMem_sinceMark (ps : List Piece) (m : Mark) : .mark m ∉ sinceMark ps :=
  fun h => Bool.false_ne_true (List.mem_rtakeWhile_imp h)

theorem throughMark_eq (ps : List Piece) :
    throughMark ps = [] ∨ ∃ qs m, throughMark ps = qs ++ [Piece.mark m] := by
  by_cases hne : throughMark ps = []
  · exact Or.inl hne
  · have hlast : ¬ (!((throughMark ps).getLast hne).isMark) = true :=
      List.rdropWhile_last_not (fun p : Piece => !p.isMark) ps hne
    rw [← List.dropLast_append_getLast hne]
    cases hp : (throughMark ps).getLast hne with
    | mark m => exact Or.inr ⟨_, m, rfl⟩
    | _ => simp [hp, Piece.isMark] at hlast

/-- All marks are found up to the last one. -/
theorem countP_throughMark {f : Piece → Bool} (hf : ∀ p, f p = true → p.isMark = true)
    (ps : List Piece) : (throughMark ps).countP f = ps.countP f := by
  have hnone : (sinceMark ps).countP f = 0 := List.countP_eq_zero.mpr fun p hp hfp => by
    have hmark := List.mem_rtakeWhile_imp hp
    rw [hf p hfp] at hmark
    exact Bool.false_ne_true hmark
  conv_rhs => rw [← throughMark_append_sinceMark ps, List.countP_append, hnone, Nat.add_zero]

def Stretch.ofPieces (ps : List Piece) : Stretch := (ps.filterMap Piece.letter?).reverse

theorem Stretch.text_ofPieces (ps : List Piece) :
    (Stretch.ofPieces ps).text = ps.flatMap Piece.kept := by
  rw [ofPieces, text, List.map_reverse, List.reverse_reverse]
  induction ps with
  | nil => rfl
  | cons p ps ih => cases p <;> simp [List.filterMap_cons, Piece.letter?, Piece.kept, ih]

theorem Stretch.any_escaped_ofPieces (ps : List Piece) :
    (Stretch.ofPieces ps).any Letter.escaped = false ↔ ∀ c, .escaped c ∉ ps := by
  rw [ofPieces, List.any_reverse, List.any_eq_false]
  constructor
  · intro h c hc
    exact h ⟨c, true⟩ (List.mem_filterMap.mpr ⟨_, hc, rfl⟩) rfl
  · intro h l hl
    obtain ⟨p, hp, hletter⟩ := List.mem_filterMap.mp hl
    cases p with
    | plain c =>
      obtain rfl := Option.some.inj hletter
      exact Bool.false_ne_true
    | escaped c => exact absurd hp (h c)
    | mark m => cases hletter

/-- Where there are no marks and no escapes, pieces are written as what they stand for. -/
theorem written_eq_kept {ps : List Piece} (hmark : ∀ m, .mark m ∉ ps)
    (hescape : ∀ c, .escaped c ∉ ps) : ps.flatMap Piece.written = ps.flatMap Piece.kept := by
  refine List.flatMap_congr fun p hp => ?_
  cases p with
  | plain c => rfl
  | escaped c => exact absurd hp (hescape c)
  | mark m => exact absurd hp (hmark m)

/-- The lead is the last character, unless there is an escape or the options do not allow it. -/
theorem lead?_ofPieces_iff (o : Options) {ps : List Piece} (hmark : ∀ m, .mark m ∉ ps) {c : Char} :
    (Stretch.ofPieces ps).lead? o = some c ↔ ps ≠ [] ∧ (∀ d, .escaped d ∉ ps) ∧
      (ps.flatMap Piece.written).getLast? = some c ∧ o.mayLead c = true := by
  rw [Stretch.lead?_eq_some_iff, Stretch.any_escaped_ofPieces, Stretch.text_ofPieces]
  constructor
  · rintro ⟨hescape, hlast, hlead⟩
    rw [← written_eq_kept hmark hescape] at hlast
    refine ⟨?_, hescape, hlast, hlead⟩
    rintro rfl
    cases hlast
  · rintro ⟨-, hescape, hlast, hlead⟩
    exact ⟨hescape, written_eq_kept hmark hescape ▸ hlast, hlead⟩

/-! ### Tokens between parameters -/

theorem tokensFrom_unmarked (o : Options) (index : Nat) (s : Stretch) {ps : List Piece}
    (h : ∀ m, .mark m ∉ ps) (qs : List Piece) :
    tokensFrom o index s (ps ++ qs) = tokensFrom o index (Stretch.ofPieces ps ++ s) qs := by
  induction ps generalizing s with
  | nil => rfl
  | cons p ps ih =>
    have hrest := fun s => ih s fun m hm => h m (List.mem_cons_of_mem p hm)
    cases p with
    | plain c => simp [tokensFrom, hrest, Stretch.ofPieces, Piece.letter?]
    | escaped c => simp [tokensFrom, hrest, Stretch.ofPieces, Piece.letter?]
    | mark m => exact absurd List.mem_cons_self (h m)

/-- Behind a mark nothing is left open. -/
theorem tokensFrom_behind_mark (o : Options) (index : Nat) (s : Stretch) (ps : List Piece)
    (m : Mark) (qs : List Piece) :
    tokensFrom o index s (ps ++ Piece.mark m :: qs) =
      tokensFrom o index s (ps ++ [Piece.mark m]) ++
        tokensFrom o (index + unnamed (ps ++ [Piece.mark m])) [] qs := by
  induction ps generalizing index s with
  | nil =>
    cases hn : m.name <;> simp [tokensFrom, unnamed, Piece.isUnnamed, hn, Stretch.literal]
  | cons p ps ih =>
    cases p with
    | plain c => simpa [tokensFrom, unnamed, Piece.isUnnamed] using ih index _
    | escaped c => simpa [tokensFrom, unnamed, Piece.isUnnamed] using ih index _
    | mark k =>
      have hrest := ih (if k.name.isNone then index + 1 else index) []
      cases hn : k.name <;>
        simp_all [tokensFrom, unnamed, Piece.isUnnamed, Nat.add_assoc, Nat.add_comm 1]

/-- What has been tokenized up to a mark ends with its parameter. -/
theorem tokensFrom_through_mark (o : Options) (index : Nat) (s : Stretch) (ps : List Piece)
    (m : Mark) :
    ∃ ts p, tokensFrom o index s (ps ++ [Piece.mark m]) = ts ++ [Token.parameter p] := by
  induction ps generalizing index s with
  | nil => exact ⟨_, _, rfl⟩
  | cons p ps ih =>
    cases p with
    | plain c => exact ih index _
    | escaped c => exact ih index _
    | mark k =>
      obtain ⟨ts, p, hts⟩ := ih (if k.name.isNone then index + 1 else index) []
      refine ⟨(s.withoutLead o).literal ++
        .parameter (k.parameter o index (s.lead? o)) :: ts, p, ?_⟩
      rw [List.cons_append, tokensFrom, hts, List.append_assoc, List.cons_append]

theorem length_parameters_tokensFrom (o : Options) (index : Nat) (s : Stretch) (ps : List Piece) :
    (parameters (tokensFrom o index s ps)).length = ps.countP Piece.isMark := by
  induction ps generalizing index s with
  | nil => rw [tokensFrom, Stretch.parameters_literal, List.countP_nil, List.length_nil]
  | cons p ps ih =>
    cases p with
    | plain c => simpa [tokensFrom, Piece.isMark] using ih index _
    | escaped c => simpa [tokensFrom, Piece.isMark] using ih index _
    | mark m =>
      rw [parameters_tokensFrom_mark, List.length_cons, ih,
        List.countP_cons_of_pos (p := Piece.isMark) rfl]

theorem unnamed_append (ps qs : List Piece) : unnamed (ps ++ qs) = unnamed ps + unnamed qs :=
  List.countP_append

theorem unnamed_mark (m : Mark) (index : Nat) :
    index + unnamed [.mark m] = if m.name.isNone then index + 1 else index := by
  cases hn : m.name <;> simp [unnamed, Piece.isUnnamed, hn]

/-- What stands between a mark and the one before it decides on the lead of the parameter and on
the literal in front of it. -/
theorem tokensFrom_sinceMark (o : Options) (ps : List Piece) (m : Mark) (qs : List Piece) :
    tokensFrom o 0 [] (ps ++ Piece.mark m :: qs) = tokensFrom o 0 [] (throughMark ps) ++
      (((Stretch.ofPieces (sinceMark ps)).withoutLead o).literal ++
        Token.parameter (m.parameter o (unnamed ps) ((Stretch.ofPieces (sinceMark ps)).lead? o)) ::
          tokensFrom o (unnamed (ps ++ [Piece.mark m])) [] qs) := by
  have hunmarked := mark_notMem_sinceMark ps
  have hbehind : ∀ rs, tokensFrom o 0 [] (throughMark ps ++ rs) =
      tokensFrom o 0 [] (throughMark ps) ++ tokensFrom o (unnamed (throughMark ps)) [] rs := by
    intro rs
    rcases throughMark_eq ps with h | ⟨us, k, h⟩
    · rw [h]
      rfl
    · rw [h, List.append_assoc, List.singleton_append, tokensFrom_behind_mark, Nat.zero_add]
  have hcount : unnamed (throughMark ps) = unnamed ps := by
    refine countP_throughMark (fun p hp => ?_) ps
    cases p with
    | mark m => rfl
    | _ => exact hp
  conv_lhs => rw [← throughMark_append_sinceMark ps, List.append_assoc, hbehind,
    tokensFrom_unmarked o _ _ hunmarked, List.append_nil]
  rw [tokensFrom, hcount, unnamed_append, unnamed_mark]

/-- The mark is an occurrence of a parameter in the template, and `ps` are the pieces before it.
What stands between it and the parameter before it, or the start, decides on its lead: the last
character there, unless there is an escape or the options do not allow it. The literal in front of
the parameter is the rest of what stands there. -/
theorem tokens_at_mark (o : Options) {t : Text} {ps qs : List Piece} {m : Mark}
    (h : pieces t = ps ++ .mark m :: qs) :
    (t = (throughMark ps).flatMap Piece.written ++ ((sinceMark ps).flatMap Piece.written ++
        (m.written ++ qs.flatMap Piece.written)) ∧
      (throughMark ps = [] ∨ ∃ rs k, throughMark ps = rs ++ [.mark k]) ∧
      ∀ k, .mark k ∉ sinceMark ps) ∧
    ∃ front p w back, tokens o t =
        front ++ ((if w = [] then [] else [.literal w]) ++ .parameter p :: back) ∧
      (front = [] ∨ ∃ ts q, front = ts ++ [.parameter q]) ∧
      (parameters front).length = ps.countP Piece.isMark ∧
      p = m.parameter o (unnamed ps) p.lead ∧ p.delimiter = p.lead.getD o.delimiter ∧
      (∀ c, p.lead = some c ↔ sinceMark ps ≠ [] ∧ (∀ d, .escaped d ∉ sinceMark ps) ∧
        ((sinceMark ps).flatMap Piece.written).getLast? = some c ∧ o.mayLead c = true) ∧
      w ++ p.lead.toList = (sinceMark ps).flatMap Piece.kept ∧
      front = tokensFrom o 0 [] (throughMark ps) ∧
      back = tokensFrom o (unnamed (ps ++ [.mark m])) [] qs := by
  have hunmarked := mark_notMem_sinceMark ps
  have hthrough := throughMark_eq ps
  have hsplit := throughMark_append_sinceMark ps
  generalize hs : Stretch.ofPieces (sinceMark ps) = s
  have htokens := tokensFrom_sinceMark o ps m qs
  rw [← h, hs, Stretch.literal_eq] at htokens
  refine ⟨⟨?_, hthrough, hunmarked⟩, _, _, _, _, htokens, ?_, ?_, rfl, rfl, fun c => ?_, ?_, rfl,
    rfl⟩
  · rw [← pieces_written t, h]
    conv_lhs => rw [← hsplit]
    simp [Piece.written]
  · rcases hthrough with h | ⟨rs, k, h⟩
    · exact Or.inl (by rw [h]; rfl)
    · exact Or.inr (h ▸ tokensFrom_through_mark o 0 [] rs k)
  · rw [length_parameters_tokensFrom, countP_throughMark fun _ hp => hp]
  · rw [← hs]
    exact lead?_ofPieces_iff o hunmarked
  · rw [← Stretch.text_ofPieces, hs]
    exact s.text_withoutLead o

/-- The escape in front of the first parameter takes its lead away, and the second one has one. -/
theorem tokens_at_mark_behind_escape :
    pieces "/\\a:x/b/:y".toList = [.plain '/', .escaped 'a', .mark ⟨some ['x'], none, none⟩,
      .plain '/', .plain 'b', .plain '/'] ++ .mark ⟨some ['y'], none, none⟩ :: [] ∧
    ∃ front p back, tokens {} "/\\a:x/b/:y".toList =
      front ++ ([.literal "/b".toList] ++ .parameter p :: back) ∧ p.lead = some '/' := by
  have h : pieces "/\\a:x/b/:y".toList =
      [Piece.plain '/', .escaped 'a', .mark ⟨some ['x'], none, none⟩, .plain '/', .plain 'b',
        .plain '/'] ++ Piece.mark ⟨some ['y'], none, none⟩ :: [] := by decide
  have hsince : sinceMark [.plain '/', .escaped 'a', .mark ⟨some ['x'], none, none⟩,
      .plain '/', .plain 'b', .plain '/'] = [.plain '/', .plain 'b', .plain '/'] := by decide
  obtain ⟨-, front, p, w, back, htokens, -, -, -, -, hlead, htext, -⟩ := tokens_at_mark {} h
  rw [hsince] at hlead htext
  have hslash : p.lead = some '/' := (hlead '/').mpr ⟨by simp, by simp, by decide, by decide⟩
  rw [hslash] at htext
  obtain rfl : w = "/b".toList := List.append_cancel_right htext
  exact ⟨h, front, p, back, htokens, hslash⟩

end PathTemplate.Template
