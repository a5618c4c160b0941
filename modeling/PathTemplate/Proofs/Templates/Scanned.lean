import PathTemplate.Proofs.Meaning.Paths
import PathTemplate.Proofs.Templates.Scanner
import PathTemplate.Proofs.Templates.Stretches

/-!
The matches of the scanner in a template are the escapes and marks that the pass meets, each with
the text before it. The tokens are collected from those matches one by one.
-/
namespace PathTemplate.Expression

open State

def Match.taken (m : Match) (i : Nat) : Option Text := m.groups[i - 1]?.join

namespace Compiled

def firstFrom (c : Compiled) (s : State) : Option State :=
  (State.placesFrom s.groups s.before s.pos s.rest).findSome? fun p =>
    (c.whole.paths c.expr.emptyTurn p).head?

/-- Where the matches from this place on end, each of them sought behind the one before. Matches
are expected to take something, so the length of the rest bounds their number. -/
def endsFrom (c : Compiled) : Nat → State → List State
  | 0, _ => []
  | n + 1, s =>
    match c.firstFrom s with
    | none => []
    | some e => e :: endsFrom c n (e.withGroups s)

/-- All matches in a text that do not overlap, from left to right. -/
def findAll (c : Compiled) (t : Text) : List Match :=
  (c.endsFrom t.length (State.between [] t c.groups)).map (Match.ofState t)

variable {c : Compiled} {s e : State}

/-- The first match of all is the one that a search finds. -/
theorem firstFrom_between (c : Compiled) (t : Text) :
    c.firstFrom (State.between [] t c.groups) = (c.matchStates t).head? := by
  rw [matchStates, List.head?_flatMap]
  rfl

private theorem firstFrom_eq (c : Compiled) (s : State) : c.firstFrom s =
    (c.whole.paths c.expr.emptyTurn s).head?.or
      (if s.rest = [] then none else c.firstFrom s.next) := by
  obtain ⟨before, rest, pos, groups⟩ := s
  cases rest with
  | nil => simp [firstFrom, placesFrom]
  | cons x r =>
    simp only [firstFrom, placesFrom, List.findSome?_cons, State.next, reduceCtorEq, if_false]
    cases (c.whole.paths c.expr.emptyTurn ⟨before, x :: r, pos, groups⟩).head? <;> rfl

theorem firstFrom_here (h : (c.whole.paths c.expr.emptyTurn s).head? = some e) :
    c.firstFrom s = some e := by
  rw [firstFrom_eq, h, Option.some_or]

/-- A match that is not here is sought one character further. -/
theorem firstFrom_next (hr : s.rest ≠ []) (h : c.whole.paths c.expr.emptyTurn s = []) :
    c.firstFrom s = c.firstFrom s.next := by
  rw [firstFrom_eq, h, if_neg hr, List.head?_nil, Option.none_or]

theorem firstFrom_end (hr : s.rest = []) (h : c.whole.paths c.expr.emptyTurn s = []) :
    c.firstFrom s = none := by
  rw [firstFrom_eq, h, if_pos hr, List.head?_nil, Option.none_or]

/-- Matches that are not here are sought one character further. -/
theorem endsFrom_next (hr : s.rest ≠ []) (h : c.whole.paths c.expr.emptyTurn s = []) (n : Nat) :
    c.endsFrom n s = c.endsFrom n s.next := by
  obtain ⟨x, r, hcons⟩ := List.exists_cons_of_ne_nil hr
  have hgroups : ∀ e : State, e.withGroups s = e.withGroups s.next := by
    simp [State.withGroups, State.next, hcons]
  cases n with
  | zero => rfl
  | succ n => simp only [endsFrom, firstFrom_next hr h, hgroups]

end Compiled

theorem State.next_between (u : Text) (x : Char) (v : Text) (n : Nat) :
    (State.between u (x :: v) n).next = State.between (u ++ [x]) v n := by
  simp [State.between, State.next]

/-- The place behind what has been passed. -/
theorem State.Passes.between_eq {u v w : Text} {n : Nat} {e : State}
    (h : (State.between u (w ++ v) n).Passes w e) (i : Nat) :
    (State.close i (State.between u (w ++ v) n) e).withGroups (State.between u (w ++ v) n) =
      State.between (u ++ w) v n := by
  have hrest : v = e.rest := List.append_cancel_left h.rest
  simp [State.withGroups, State.close, State.between, h.before, h.pos, hrest]

end PathTemplate.Expression

namespace PathTemplate.Template

open Expression Matching State

/-! ### Matches -/

/-- The matches that are escapes and marks; `u` is the text before the pieces. -/
def foundFrom (u : Text) : List Piece → List Match
  | [] => []
  | p :: ps => (p.groups?.map fun vs => ⟨u, p.written, vs⟩).toList ++ foundFrom (u ++ p.written) ps

theorem groups?_length {p : Piece} {vs : List (Option Text)} (h : p.groups? = some vs) :
    vs.length = scanner.groups := by
  cases p with
  | plain => cases h
  | escaped => exact Option.some.inj h ▸ rfl
  | mark => exact Option.some.inj h ▸ rfl

/-- Where the pass meets a plain character, the matches are those one character further. -/
theorem endsFrom_plain {c : Char} {t r : Text} (h : Begins t (.plain c) r) (u : Text) (n : Nat) :
    scanner.endsFrom n (State.between u t scanner.groups) =
      scanner.endsFrom n (State.between (u ++ [c]) r scanner.groups) := by
  obtain rfl : t = c :: r := h.written_append
  have hfails : scanner.whole.paths scanner.expr.emptyTurn
      (State.between u (c :: r) scanner.groups) = [] :=
    List.map_eq_nil_iff.mpr (Scanner.paths_plain_eq_nil h _)
  rw [Compiled.endsFrom_next (List.cons_ne_nil c r) hfails, State.next_between]

/-- Where the pass meets an escape or a mark, that is a match, and the others are behind it. -/
theorem map_endsFrom_match {p : Piece} {t r : Text} {vs : List (Option Text)} (h : Begins t p r)
    (hvs : p.groups? = some vs) (u : Text) (n : Nat) :
    (scanner.endsFrom (n + 1) (State.between u t scanner.groups)).map (Match.ofState (u ++ t)) =
      ⟨u, p.written, vs⟩ :: (scanner.endsFrom n
        (State.between (u ++ p.written) r scanner.groups)).map (Match.ofState (u ++ t)) := by
  obtain ⟨e, he, hs, hf⟩ := Scanner.prefers_of_begins (s := State.between u t scanner.groups) h hvs
    scanner.expr.emptyTurn
  obtain rfl := h.written_append
  have hfirst : scanner.firstFrom (State.between u (p.written ++ r) scanner.groups) =
      some (State.close 0 (State.between u (p.written ++ r) scanner.groups) e) :=
    Compiled.firstFrom_here (by rw [Compiled.whole, Expr.paths, List.head?_map, he]; rfl)
  rw [fill_texts_between u _ (groups?_length hvs)] at hf
  rw [Compiled.endsFrom, hfirst]
  simp only [List.map_cons, ofState_close hs hf, hs.between_eq]

theorem firstFrom_end_scanner (u : Text) :
    scanner.firstFrom (State.between u [] scanner.groups) = none :=
  Compiled.firstFrom_end rfl (List.map_eq_nil_iff.mpr (Scanner.paths_end_eq_nil rfl _))

/-- The matches from a place on are what the pass meets from there on. -/
theorem map_endsFrom_scanner {t : Text} {ps : List Piece} (h : Passed t ps) (u : Text) {n : Nat}
    (hn : t.length ≤ n) :
    (scanner.endsFrom n (State.between u t scanner.groups)).map (Match.ofState (u ++ t)) =
      foundFrom u ps := by
  induction h generalizing u n with
  | nil =>
    cases n with
    | zero => rfl
    | succ n =>
      rw [Compiled.endsFrom, firstFrom_end_scanner]
      rfl
  | @cons t r p ps hbegins hpassed ih =>
    have hlt := hbegins.length_lt
    have hrest : u ++ t = u ++ p.written ++ r := by
      rw [hbegins.written_append, List.append_assoc]
    cases p with
    | plain c =>
      rw [endsFrom_plain hbegins, hrest]
      exact ih (u ++ [c]) (by omega)
    | _ =>
      obtain ⟨n, rfl⟩ : ∃ k, n = k + 1 := ⟨n - 1, by omega⟩
      rw [map_endsFrom_match hbegins rfl, hrest, ih _ (by omega)]
      rfl

/-- The matches of the scanner are what the pass meets. -/
theorem findAll_scanner (t : Text) : scanner.findAll t = foundFrom [] (pieces t) :=
  map_endsFrom_scanner (passed_iff.mpr rfl) [] (Nat.le_refl _)

/-- Behind a parenthesis that begins no body the search goes on with the next character. -/
example : scanner.findAll ":a((b)+".toList =
    [⟨[], ":a".toList, [none, some ['a'], none, none, none]⟩,
      ⟨":a(".toList, "(b)+".toList, [none, none, none, some ['b'], some ['+']]⟩] := by
  rw [findAll_scanner]
  decide

/-- A search finds the first of the matches. -/
theorem find_scanner (t : Text) :
    scanner.find t = (scanner.findAll t).head?.elim .absent .found := by
  rw [Compiled.find_of_isPlain scanner rfl, Outcome.first, ← Compiled.firstFrom_between,
    Compiled.findAll, List.head?_map]
  cases t with
  | nil => rw [firstFrom_end_scanner]; rfl
  | cons c t =>
    cases hfirst : scanner.firstFrom (State.between [] (c :: t) scanner.groups) <;>
      simp [Compiled.endsFrom, hfirst]

/-! ### Collecting tokens -/

def markOf (m : Match) : Mark where
  name := m.taken 2
  body := (m.taken 3).or (m.taken 4)
  modifier := (m.taken 5).bind fun t => (modifier t).1

/-- What has been collected from the matches up to the place `used`. The text that is pending
follows the last token. -/
structure Collected where
  tokens : List Token
  pending : Text
  escaped : Bool
  used : Nat
  unnamed : Nat

namespace Collected

def start : Collected := ⟨[], [], false, 0, 0⟩

/-- The last pending character, unless there has been an escape. -/
def lead? (o : Options) (x : Collected) : Option Char :=
  if x.escaped then none else x.pending.getLast?.filter o.mayLead

def withoutLead (o : Options) (x : Collected) : Collected :=
  if (x.lead? o).isSome then { x with pending := x.pending.dropLast } else x

/-- The pending text becomes a literal. Only then escapes are forgotten. -/
def flush (x : Collected) : Collected :=
  if x.pending.isEmpty then x
  else { x with tokens := x.tokens ++ [.literal x.pending], pending := [], escaped := false }

def upTo (x : Collected) (m : Match) : Collected :=
  { x with
    pending := x.pending ++ m.skipped.drop x.used
    used := m.skipped.length + m.matched.length }

def escape (x : Collected) (e : Text) : Collected :=
  { x with pending := x.pending ++ (e.drop 1).take 1, escaped := true }

def parameter (o : Options) (x : Collected) (k : Mark) : Collected :=
  let y := (x.withoutLead o).flush
  { y with
    tokens := y.tokens ++ [.parameter (k.parameter o y.unnamed (x.lead? o))]
    unnamed := if k.name.isNone then y.unnamed + 1 else y.unnamed }

def add (o : Options) (x : Collected) (m : Match) : Collected :=
  match m.taken 1 with
  | some e => (x.upTo m).escape e
  | none => (x.upTo m).parameter o (markOf m)

def finish (x : Collected) (t : Text) : List Token :=
  let pending := x.pending ++ t.drop x.used
  if pending.isEmpty then x.tokens else x.tokens ++ [.literal pending]

structure Holds (x : Collected) (s : Stretch) (v : Text) : Prop where
  text : s.text = x.pending ++ v
  escaped : s.any Letter.escaped = x.escaped

variable {o : Options} {x : Collected} {s : Stretch} {v : Text}

theorem holds_start : Holds start [] [] := ⟨rfl, rfl⟩

theorem Holds.plain (h : Holds x s v) (c : Char) : Holds x (⟨c, false⟩ :: s) (v ++ [c]) := by
  refine ⟨?_, h.escaped⟩
  rw [← List.append_assoc, ← h.text]
  simp [Stretch.text]

/-- With the text before a match, all of the stretch is pending. -/
theorem Holds.upTo (h : Holds x s v) {u : Text} (hu : x.used = u.length) (w : Text)
    (gs : List (Option Text)) : Holds (x.upTo ⟨u ++ v, w, gs⟩) s [] := by
  refine ⟨?_, h.escaped⟩
  rw [h.text, Collected.upTo, hu, List.drop_left, List.append_nil]

theorem Holds.escape (h : Holds x s []) (c : Char) :
    Holds (x.escape ['\\', c]) (⟨c, true⟩ :: s) [] := by
  refine ⟨?_, rfl⟩
  have htext := h.text
  rw [List.append_nil] at htext
  simp [Stretch.text, Collected.escape, ← htext]

theorem Holds.pending (h : Holds x s []) : x.pending = s.text :=
  (h.text.trans (List.append_nil _)).symm

theorem Holds.lead?_eq (h : Holds x s []) (o : Options) : x.lead? o = s.lead? o := by
  rw [Collected.lead?, h.pending, ← h.escaped, Stretch.lead?_eq]

/-- A lead is taken off where there has been no escape. -/
theorem Holds.withoutLead (h : Holds x s []) (o : Options) :
    Holds (x.withoutLead o) (s.withoutLead o) [] := by
  rw [Collected.withoutLead, h.lead?_eq, Stretch.withoutLead]
  split
  case _ hlead =>
    obtain ⟨c, hc⟩ := Option.isSome_iff_exists.mp hlead
    obtain ⟨hcalm, -, -⟩ := (Stretch.lead?_eq_some_iff o s).mp hc
    refine ⟨?_, ?_⟩
    · simp [h.pending, Stretch.text]
    · rw [← h.escaped, hcalm]
      exact List.any_eq_false.mpr fun l hl => List.any_eq_false.mp hcalm l (List.mem_of_mem_tail hl)
  case _ => exact h

/-- A literal that is flushed takes the memory of escapes with it. Where there is none, there has
been no escape. -/
theorem Holds.flush (h : Holds x s []) :
    x.flush = { x with tokens := x.tokens ++ s.literal, pending := [], escaped := false } := by
  rw [Collected.flush, h.pending]
  cases s with
  | nil =>
    have hpending : x.pending = [] := h.pending
    have hescaped : x.escaped = false := h.escaped.symm
    simp [Stretch.text, Stretch.literal, ← hpending, ← hescaped]
  | cons l s => simp [Stretch.text, Stretch.literal]

theorem Holds.parameter (h : Holds x s []) (o : Options) (m : Mark) :
    x.parameter o m =
      { tokens := x.tokens ++ ((s.withoutLead o).literal ++
          [.parameter (m.parameter o x.unnamed (s.lead? o))])
        pending := []
        escaped := false
        used := x.used
        unnamed := if m.name.isNone then x.unnamed + 1 else x.unnamed } := by
  have htokens : (x.withoutLead o).tokens = x.tokens ∧ (x.withoutLead o).used = x.used ∧
      (x.withoutLead o).unnamed = x.unnamed := by
    rw [Collected.withoutLead]
    split <;> exact ⟨rfl, rfl, rfl⟩
  simp only [Collected.parameter, (h.withoutLead o).flush, htokens, h.lead?_eq, List.append_assoc]

theorem Holds.finish (h : Holds x s v) {u : Text} (hu : x.used = u.length) :
    x.finish (u ++ v) = x.tokens ++ s.literal := by
  simp only [Collected.finish, hu, List.drop_left, ← h.text]
  cases s <;> simp [Stretch.text, Stretch.literal]

end Collected

/-- What the groups took tells what mark it is. -/
theorem markOf_groups (m : Mark) (u w : Text) : markOf ⟨u, w, m.groups⟩ = m := by
  obtain ⟨name, body, k⟩ := m
  have hmodifier : (k.map Modifier.written).bind (fun t => (modifier t).1) = k := by
    cases k with
    | none => rfl
    | some k => cases k <;> rfl
  cases name <;> cases body <;> simp [markOf, Match.taken, Mark.groups, hmodifier]

/-- A mark leaves nothing pending. -/
theorem Collected.Holds.add_mark {x : Collected} {s : Stretch} {u v : Text}
    (h : x.Holds s v) (hu : x.used = u.length) (o : Options) (m : Mark) :
    x.add o ⟨u ++ v, m.written, m.groups⟩ =
      { tokens := x.tokens ++ ((s.withoutLead o).literal ++
          [.parameter (m.parameter o x.unnamed (s.lead? o))])
        pending := []
        escaped := false
        used := (u ++ v ++ m.written).length
        unnamed := if m.name.isNone then x.unnamed + 1 else x.unnamed } := by
  have hmark := (h.upTo hu m.written m.groups).parameter o m
  have hused : (u ++ v).length + m.written.length = (u ++ v ++ m.written).length :=
    List.length_append.symm
  rw [Collected.add, markOf_groups, ← hused]
  exact hmark

open Collected in
/-- From what has been collected up to a place, the matches behind it lead to the tokens of the
pieces behind it. -/
theorem finish_foldl (o : Options) (ps : List Piece) {x : Collected} {s : Stretch} {u v : Text}
    (hu : x.used = u.length) (h : Holds x s v) :
    ((foundFrom (u ++ v) ps).foldl (add o) x).finish (u ++ v ++ ps.flatMap Piece.written) =
      x.tokens ++ tokensFrom o x.unnamed s ps := by
  induction ps generalizing x s u v with
  | nil =>
    rw [List.flatMap_nil, List.append_nil]
    exact h.finish hu
  | cons p ps ih =>
    rw [List.flatMap_cons, ← List.append_assoc]
    cases p with
    | plain c =>
      have hrest := ih hu (h.plain c)
      rwa [← List.append_assoc] at hrest
    | escaped c =>
      have hrest := ih (u := u ++ v ++ ['\\', c]) List.length_append.symm
        ((h.upTo hu ['\\', c] [some ['\\', c], none, none, none, none]).escape c)
      rwa [List.append_nil] at hrest
    | mark m =>
      have hrest := ih (x := x.add o ⟨u ++ v, m.written, m.groups⟩) (s := []) (v := [])
        (by rw [h.add_mark hu]) (by rw [h.add_mark hu]; exact ⟨rfl, rfl⟩)
      rw [List.append_nil] at hrest
      refine hrest.trans ?_
      rw [h.add_mark hu, tokensFrom, List.append_assoc, List.append_assoc]
      rfl

/-- The scanner is read from its source, a search for it finds the first of its matches, and its
matches in a template are the pieces that the pass meets and no others. The tokens are collected
from them one by one. -/
theorem tokens_of_matches (o : Options) (t : Text) :
    Compiled.read .segment scannerSource = some scanner ∧
    scanner.find t = (scanner.findAll t).head?.elim .absent .found ∧
    scanner.findAll t = foundFrom [] (pieces t) ∧ (∀ ps, Passed t ps ↔ ps = pieces t) ∧
    tokens o t = ((scanner.findAll t).foldl (Collected.add o) .start).finish t := by
  refine ⟨read_scannerSource, find_scanner t, findAll_scanner t, fun _ => passed_iff, ?_⟩
  have hfold := finish_foldl o (pieces t) (u := []) rfl Collected.holds_start
  rw [findAll_scanner]
  simpa [pieces_written, tokens, Collected.start] using hfold.symm

end PathTemplate.Template
