import PathTemplate.Matching.Source
import PathTemplate.Proofs.Reading.Reads
import PathTemplate.Template.Tokens

/-!
What the parts of a written expression add to a branch: quoted characters, sets of excluded
characters, bundles, groups, look-ahead and repetition. A fragment is read in the same way wherever
it stands, so fragments are put together by the text they are made of.
-/
namespace PathTemplate.Expression

open Quoting Matching

/-- No flag but the one about case, no comment, no names and no references. -/
structure Builder.Quiet (anyCase : Bool) (b : Builder) : Prop where
  flags : b.flags = { anyCase }
  comment : b.inComment = false
  names : b.names = []
  numbered : b.numbered = false
  referred : b.referred = []

def Builder.grow (b : Builder) (k : Nat) (is : List Item) : Builder :=
  { b with
    groups := b.groups + k
    frame := { b.frame with branch := is.foldl Branch.push b.frame.branch } }

namespace Builder

theorem grow_grow (b : Builder) (k l : Nat) (is js : List Item) :
    (b.grow k is).grow l js = b.grow (k + l) (is ++ js) := by
  simp [grow, List.foldl_append, Nat.add_assoc]

theorem push_eq_grow (b : Builder) (i : Item) : b.push i = b.grow 0 [i] := rfl

theorem replaceLast_grow (b : Builder) (k : Nat) (i j : Item) :
    (b.grow k [i]).replaceLast j = b.grow k [j] := rfl

theorem Quiet.grow {a : Bool} {b : Builder} (h : b.Quiet a) (k : Nat) (is : List Item) :
    (b.grow k is).Quiet a := ⟨h.flags, h.comment, h.names, h.numbered, h.referred⟩

theorem Quiet.mixesReferences {a : Bool} {b : Builder} (h : b.Quiet a) :
    b.mixesReferences = false := by
  simp [Builder.mixesReferences, h.numbered]

theorem Quiet.set_eq {a : Bool} {b : Builder} (h : b.Quiet a) (s : CharSet) :
    b.set s = some (b.one s true) := by
  simp [Builder.set, h.flags]

end Builder

/-- Wherever it stands, the text opens `k` groups and adds the items, which may depend on the
number of groups opened before it. It needs room for `deep` groups in each other, unless it is
known to be read. -/
def Writes (d : Dialect) (a : Bool) (deep : Nat) (t : Text) (k : Nat) (is : Nat → List Item) :
    Prop :=
  ∀ (b : Builder) (u : Text), b.Quiet a → Room d b deep (t ++ u) →
    Reads d b (t ++ u) (b.grow k (is b.groups)) u

namespace Writes

variable {d : Dialect} {a : Bool} {deep deep' : Nat} {t t' : Text} {k k' : Nat}
  {is is' : Nat → List Item}

theorem nil : Writes d a 0 [] 0 fun _ => [] := fun b u _ _ => .stop b u

theorem weaken (h : Writes d a deep t k is) (hle : deep ≤ deep') : Writes d a deep' t k is :=
  fun b u hb hd => h b u hb (hd.weaken hle)

/-- One more than there can be room for stands for any number. -/
theorem lower (h : Writes d a deep t k is) : Writes d a (d.depth + 1) t k is := by
  intro b u hb hd
  rcases hd with hd | hd
  · exact absurd hd (by omega)
  · exact h b u hb (.inr hd)

theorem append (h : Writes d a deep t k is) (h' : Writes d a deep t' k' is') :
    Writes d a deep (t ++ t') (k + k') fun g => is g ++ is' (g + k) := by
  intro b u hb hd
  rw [List.append_assoc] at hd ⊢
  have h1 := h b (t' ++ u) hb hd
  have h2 := h' (b.grow k (is b.groups)) u (hb.grow _ _) (hd.rest h1 rfl)
  rw [Builder.grow_grow] at h2
  exact h1.trans h2

end Writes

/-! ### Characters -/

theorem Quoting.char_of_not_isMeta {c : Char} (h : isMeta c = false) : Quoting.char c = [c] := by
  simp [Quoting.char, h]

theorem Quoting.char_of_isMeta {c : Char} (h : isMeta c = true) :
    Quoting.char c = ['\\', c] := by
  simp [Quoting.char, h]

theorem Quoting.literal_cons (c : Char) (t : Text) :
    Quoting.literal (c :: t) = Quoting.char c ++ Quoting.literal t := List.flatMap_cons

theorem Quoting.length_le_literal (t : Text) : t.length ≤ (Quoting.literal t).length := by
  induction t with
  | nil => exact Nat.le_refl 0
  | cons c t ih =>
    have hpos : 1 ≤ (Quoting.char c).length := by
      rw [Quoting.char]
      split <;> simp
    rw [Quoting.literal_cons, List.length_append, List.length_cons]
    omega

theorem lexeme_plain (d : Dialect) {c : Char} (h : isMeta c = false) (r : Text) :
    lexeme d (c :: r) = some (.char c true true, r) := by
  unfold lexeme
  split <;> first | rfl | simp_all [isMeta]

theorem escape_quoted (d : Dialect) (bracketed : Bool) {c : Char} (h : isMeta c = true)
    (r : Text) : escape d bracketed (c :: r) = some (.char c (d = .segment) false, r) := by
  have hmem : c ∈ ['\\', '.', '+', '*', '?', '(', ')', '|', '[', ']', '\x7b', '\x7d', '^', '$',
      '#', '&', '-', '~'] := List.contains_iff_mem.mp h
  simp only [List.mem_cons, List.not_mem_nil, or_false] at hmem
  cases d <;> cases bracketed <;> rcases hmem with rfl | rfl | rfl | rfl | rfl | rfl | rfl | rfl |
    rfl | rfl | rfl | rfl | rfl | rfl | rfl | rfl | rfl | rfl <;> rfl

theorem lexeme_quoted (d : Dialect) {c : Char} (h : isMeta c = true) (r : Text) :
    lexeme d ('\\' :: c :: r) = some (.char c (d = .segment) false, r) :=
  escape_quoted d false h r

/-- A character for itself. In paths the flag about case does not reach a quoted one. -/
def charItem (a : Bool) (c : Char) : Item := { expr := .one (.single c) (a && !isMeta c) }

def Lexeme.expr? (a : Bool) : Lexeme → Option Expr
  | .char c folds _ => some (.one (.single c) (a && folds))
  | .set s => some (.one s a)
  | .dot => some (.one .notNewline false)
  | _ => none

theorem Builder.step_expr {d : Dialect} {a : Bool} {b : Builder} (hb : b.Quiet a) {x : Lexeme}
    {e : Expr} (hx : x.expr? a = some e) : b.step d x = some (b.grow 0 [{ expr := e }]) := by
  cases x with
  | char c folds bare =>
    rw [← Option.some.inj hx]
    simp [Builder.step, Builder.char, hb.comment, hb.flags, Builder.one, Builder.push_eq_grow]
  | set s =>
    rw [← Option.some.inj hx]
    simp [Builder.step, hb.comment, hb.set_eq, hb.flags, Builder.one, Builder.push_eq_grow]
  | dot =>
    rw [← Option.some.inj hx]
    simp [Builder.step, hb.comment, hb.flags, Builder.one, Builder.push_eq_grow]
  | _ => cases hx

/-- A text that is read as one lexeme wherever it stands, and the lexeme as one character. -/
theorem writes_one {d : Dialect} {a : Bool} {t : Text} {e : Expr} (ht : t ≠ [])
    (h : ∀ u, ∃ x, lexeme d (t ++ u) = some (x, u) ∧ x.expr? a = some e) :
    Writes d a 0 t 0 fun _ => [{ expr := e }] := by
  intro b u hb _
  obtain ⟨x, hx, he⟩ := h u
  have hpos := List.length_pos_iff.mpr ht
  exact .one hx (by rw [List.length_append]; omega) (Builder.step_expr hb he)

theorem writes_char (a : Bool) (c : Char) :
    Writes .path a 0 (Quoting.char c) 0 fun _ => [charItem a c] := by
  by_cases hc : isMeta c = true
  · rw [Quoting.char_of_isMeta hc, charItem, hc]
    exact writes_one (by simp) fun u => ⟨_, lexeme_quoted .path hc u, rfl⟩
  · rw [Bool.not_eq_true] at hc
    rw [Quoting.char_of_not_isMeta hc, charItem, hc]
    exact writes_one (by simp) fun u => ⟨_, lexeme_plain .path hc u, rfl⟩

theorem writes_literal (a : Bool) (t : Text) :
    Writes .path a 0 (Quoting.literal t) 0 fun _ => t.map (charItem a) := by
  induction t with
  | nil => exact .nil
  | cons c t ih => exact (writes_char a c).append ih

/-! ### Sets of excluded characters -/

def outside (excluded : List Char) : CharSet :=
  .compl (excluded.foldl (fun s c => .union s (.single c)) .empty)

namespace Bracket

theorem joinsRange_char (c : Char) (r : Text) : joinsRange (Quoting.char c ++ r) = false := by
  by_cases hc : isMeta c = true
  · rw [Quoting.char_of_isMeta hc]
    rfl
  · rw [Bool.not_eq_true] at hc
    rw [Quoting.char_of_not_isMeta hc, List.singleton_append]
    unfold joinsRange
    split <;> first | rfl | simp_all [isMeta]

theorem body_char (d : Dialect) (n : Nat) (p : Draft) (c : Char) {r : Text}
    (hr : joinsRange r = false) :
    body d (n + 1) p (Quoting.char c ++ r) = body d n (p.add (.single c)) r := by
  by_cases hc : isMeta c = true
  · rw [Quoting.char_of_isMeta hc]
    simp [body, rangeOrItem, item, escape_quoted d true hc, hr, Item.toSet]
  · rw [Bool.not_eq_true] at hc
    rw [Quoting.char_of_not_isMeta hc, List.singleton_append]
    have hitem : rangeOrItem d (c :: r) = some (.single c, r) := by
      have hbare : item d (c :: r) = some (.char c, r) := by
        unfold item
        split <;> simp_all [isMeta]
      simp [rangeOrItem, hbare, hr, Item.toSet]
    rw [body]
    · rw [hitem]
    all_goals
      intros
      simp_all [isMeta]

theorem body_literal (d : Dialect) (n : Nat) (p : Draft) (cs : List Char) (r : Text) :
    body d (cs.length + 1 + n) p (Quoting.literal cs ++ ']' :: r) =
      some ((cs.foldl (fun q c => q.add (.single c)) p).finish, r) := by
  induction cs generalizing p with
  | nil =>
    rw [List.length_nil, Nat.zero_add, Nat.add_comm]
    rfl
  | cons c cs ih =>
    have hnext : joinsRange (Quoting.literal cs ++ ']' :: r) = false := by
      cases cs with
      | nil => rfl
      | cons e cs =>
        rw [Quoting.literal_cons, List.append_assoc]
        exact joinsRange_char e _
    have hfuel : (c :: cs).length + 1 + n = (cs.length + 1 + n) + 1 := by
      simp only [List.length_cons]
      omega
    rw [hfuel, Quoting.literal_cons, List.append_assoc, body_char d _ p c hnext]
    exact ih (p.add (.single c))

private theorem start_caret (c : Char) (r : Text) :
    start ('^' :: (Quoting.char c ++ r)) = ({ negated := true }, Quoting.char c ++ r) := by
  by_cases hc : isMeta c = true
  · rw [Quoting.char_of_isMeta hc]
    rfl
  · rw [Bool.not_eq_true] at hc
    rw [Quoting.char_of_not_isMeta hc, List.singleton_append]
    have hhyphens :
        leadingHyphens { negated := true } (c :: r) = ({ negated := true }, c :: r) := by
      unfold leadingHyphens
      split <;> simp_all [isMeta]
    rw [start, first]
    · exact hhyphens
    · intro u hu
      simp_all [isMeta]

/-- Quoted characters behind a caret are read as the set without them. -/
theorem read_outside (d : Dialect) {cs : List Char} (hcs : cs ≠ []) (r : Text) :
    read d ('^' :: (Quoting.literal cs ++ ']' :: r)) = some (outside cs, r) := by
  cases cs with
  | nil => exact absurd rfl hcs
  | cons c cs =>
    have hdraft : ∀ (cs : List Char) (p : Draft), p.pending = none →
        (cs.foldl (fun q c => q.add (.single c)) p).finish =
          CharSet.signed p.negated (cs.foldl (fun s c => .union s (.single c)) p.items) := by
      intro cs
      induction cs with
      | nil =>
        intro p hp
        simp [Draft.finish, Draft.operand, hp]
      | cons c cs ih =>
        intro p hp
        exact ih (p.add (.single c)) hp
    have hlen := Quoting.length_le_literal (c :: cs)
    obtain ⟨n, hn⟩ : ∃ n, ('^' :: (Quoting.literal (c :: cs) ++ ']' :: r)).length + 1 =
        (c :: cs).length + 1 + n := by
      refine ⟨('^' :: (Quoting.literal (c :: cs) ++ ']' :: r)).length - (c :: cs).length, ?_⟩
      simp only [List.length_cons, List.length_append] at hlen ⊢
      omega
    have hstart : start ('^' :: (Quoting.literal (c :: cs) ++ ']' :: r)) =
        ({ negated := true }, Quoting.literal (c :: cs) ++ ']' :: r) := by
      rw [Quoting.literal_cons, List.append_assoc]
      exact start_caret c _
    rw [read, hstart, hn]
    simp only [body_literal]
    rw [hdraft _ _ rfl]
    rfl

/-- Quoted characters are handed on as they are. -/
private theorem spellFrom_char (n deep : Nat) (c : Char) (r : Text) :
    spellFrom (n + 1) deep (Quoting.char c ++ r) =
      (spellFrom n deep r).map fun p => (Quoting.char c ++ p.1, p.2) := by
  by_cases hc : isMeta c = true
  · rw [Quoting.char_of_isMeta hc]
    simp [spellFrom, escaped, escape_quoted .path true hc, Quoting.char_of_isMeta hc]
  · rw [Bool.not_eq_true] at hc
    rw [Quoting.char_of_not_isMeta hc, List.singleton_append, spellFrom]
    · rfl
    all_goals
      intros
      simp_all [isMeta]

private theorem spellFrom_literal {n : Nat} (cs : List Char) (hn : cs.length < n) (r : Text) :
    spellFrom n 0 (Quoting.literal cs ++ ']' :: r) = some (Quoting.literal cs ++ [']'], r) := by
  induction cs generalizing n with
  | nil =>
    obtain ⟨n, rfl⟩ : ∃ m, n = m + 1 := ⟨n - 1, by omega⟩
    rfl
  | cons c cs ih =>
    rw [List.length_cons] at hn
    obtain ⟨n, rfl⟩ : ∃ m, n = m + 1 := ⟨n - 1, by omega⟩
    rw [Quoting.literal_cons, List.append_assoc, spellFrom_char, ih (by omega), Option.map_some,
      List.append_assoc]

/-- Both dialects read quoted characters behind a caret as the set without them. -/
theorem set_outside (d : Dialect) {cs : List Char} (hcs : cs ≠ []) (r : Text) :
    set d ('^' :: (Quoting.literal cs ++ ']' :: r)) = some (outside cs, r) := by
  cases d with
  | segment => exact read_outside .segment hcs r
  | path =>
    have hlead : ∀ y, lead ('^' :: (Quoting.literal cs ++ y)) =
        ([], '^' :: (Quoting.literal cs ++ y)) := by
      intro y
      obtain ⟨c, cs, rfl⟩ := List.exists_cons_of_ne_nil hcs
      rw [lead]
      · rw [Quoting.literal_cons, List.append_assoc]
        by_cases hc : isMeta c = true
        · simp [Quoting.char_of_isMeta hc]
        · simp_all [Quoting.char_of_not_isMeta, isMeta]
      · simp
    have hlen := Quoting.length_le_literal cs
    have hspell : spell ('^' :: (Quoting.literal cs ++ ']' :: r)) =
        some ('^' :: (Quoting.literal cs ++ [']']), r) := by
      have hcaret : ∀ n y, spellFrom (n + 1) 0 ('^' :: y) =
          (spellFrom n 0 y).map fun p => ('^' :: p.1, p.2) := fun _ _ => rfl
      simp only [spell, hlead, hcaret]
      rw [spellFrom_literal cs (by simp only [List.length_cons, List.length_append]; omega)]
      rfl
    have htext : '^' :: (Quoting.literal cs ++ ']' :: r) =
        '^' :: (Quoting.literal cs ++ [']']) ++ r := by simp
    have hagreed : agreed ('^' :: (Quoting.literal cs ++ [']']))
        ('^' :: (Quoting.literal cs ++ [']'])) = some (outside cs) := by
      simp [agreed, read_outside _ hcs]
    simp only [set, hspell, Option.map_some]
    rw [htext, upTo_append, hagreed]
    rfl

end Bracket

/-! ### Repetition -/

def Lexeme.times? : Lexeme → Option (Nat × Option Nat)
  | .star => some (0, none)
  | .plus => some (1, none)
  | .question => some (0, some 1)
  | .count lo hi _ => some (lo, hi)
  | _ => none

def Repeats (d : Dialect) (q : Text) (lo : Nat) (most : Option Nat) : Prop :=
  q ≠ [] ∧ ∀ u, ∃ x, lexeme d (q ++ u) = some (x, u) ∧ x.times? = some (lo, most)

theorem repeats_star (d : Dialect) : Repeats d ['*'] 0 none :=
  ⟨by simp, fun _ => ⟨.star, rfl, rfl⟩⟩

theorem repeats_plus (d : Dialect) : Repeats d ['+'] 1 none :=
  ⟨by simp, fun _ => ⟨.plus, rfl, rfl⟩⟩

theorem repeats_question (d : Dialect) : Repeats d ['?'] 0 (some 1) :=
  ⟨by simp, fun _ => ⟨.question, rfl, rfl⟩⟩

def countedItem (i : Item) (lo : Nat) (most : Option Nat) : Item :=
  { expr := .loop i.expr lo most true, stage := .counted }

/-- What a question mark behind a quantifier leaves behind: in paths the loop cannot be repeated
again as it is. -/
def laziedItem (d : Dialect) (i : Item) (lo : Nat) (most : Option Nat) : Item :=
  ⟨.loop i.expr lo most false, true, if d = .path then .lazied else .fresh⟩

def loopItem (i : Item) (hi : Option Nat) : Item :=
  { expr := .loop i.expr 0 hi true, stage := .counted }

section Postfix

variable {d : Dialect} {a : Bool} {deep : Nat} {t q : Text} {k lo : Nat} {most : Option Nat}
  {i : Nat → Item}

private theorem step_times {b : Builder} (hb : b.Quiet a) {i : Item} (hi : i.repeatable = true)
    (hs : i.stage = .fresh) (k : Nat) {x : Lexeme} (hx : x.times? = some (lo, most))
    (hle : most.all (lo ≤ ·) = true) :
    (b.grow k [i]).step d x = some (b.grow k [countedItem i lo most]) := by
  have hflags : (b.grow k [i]).flags.swapGreed = false := by
    simp [Builder.grow, hb.flags]
  have hlast : (b.grow k [i]).frame.branch.last = some i := rfl
  have hany : most.any (· < lo) = false := by
    cases most with
    | none => rfl
    | some n => simpa using hle
  have hquantify : ∀ d, (b.grow k [i]).quantify d lo most =
      some (b.grow k [countedItem i lo most]) := by
    intro d
    cases d <;> simp [Builder.quantify, hlast, hi, hs, hany, Builder.quantified, hflags,
      Builder.replaceLast_grow, countedItem]
  obtain ⟨e, r, g⟩ := i
  obtain rfl : g = .fresh := hs
  cases x with
  | star | plus | question | count =>
    obtain ⟨rfl, rfl⟩ := Prod.mk.inj (Option.some.inj hx)
    cases d <;> simp [Builder.step, (hb.grow _ _).comment, Builder.plus, Builder.question,
      Builder.count, hlast, hquantify]
  | _ => cases hx

/-- A quantifier repeats an item that has not been repeated yet. -/
theorem Writes.quantified (h : Writes d a deep t k fun g => [i g])
    (hi : ∀ g, (i g).repeatable = true ∧ (i g).stage = .fresh) (hq : Repeats d q lo most)
    (hle : most.all (lo ≤ ·) = true) :
    Writes d a deep (t ++ q) k fun g => [countedItem (i g) lo most] := by
  intro b u hb hd
  obtain ⟨x, hx, htimes⟩ := hq.2 u
  have hpos := List.length_pos_iff.mpr hq.1
  rw [List.append_assoc] at hd ⊢
  exact (h b _ hb hd).trans (.one hx (by rw [List.length_append]; omega)
    (step_times hb (hi b.groups).1 (hi b.groups).2 k htimes hle))

theorem Writes.lazied (h : Writes d a deep t k fun g => [countedItem (i g) lo most]) :
    Writes d a deep (t ++ ['?']) k fun g => [laziedItem d (i g) lo most] := by
  intro b u hb hd
  have hstep : (b.grow k [countedItem (i b.groups) lo most]).step d .question =
      some (b.grow k [laziedItem d (i b.groups) lo most]) := by
    simp only [Builder.step, (hb.grow _ _).comment, Bool.false_eq_true, if_false]
    rfl
  rw [List.append_assoc] at hd ⊢
  exact (h b _ hb hd).trans (.one rfl (by simp) hstep)

theorem Writes.optional (h : Writes d a deep t k fun g => [i g])
    (hi : ∀ g, (i g).repeatable = true ∧ (i g).stage = .fresh) :
    Writes d a deep (t ++ ['?']) k fun g => [loopItem (i g) (some 1)] :=
  h.quantified hi (repeats_question d) rfl

theorem Writes.repeated (h : Writes d a deep t k fun g => [i g])
    (hi : ∀ g, (i g).repeatable = true ∧ (i g).stage = .fresh) :
    Writes d a deep (t ++ ['*']) k fun g => [loopItem (i g) none] :=
  h.quantified hi (repeats_star d) rfl

end Postfix

def lazyRun (cs : List Char) (a : Bool) : Expr := .loop (.one (outside cs) a) 1 none false

def lazyItem (d : Dialect) (cs : List Char) (a : Bool) : Item :=
  ⟨lazyRun cs a, true, if d = .path then .lazied else .fresh⟩

theorem writes_lazyRun (d : Dialect) (a : Bool) {cs : List Char} (hcs : cs ≠ []) :
    Writes d a 0 ("[^".toList ++ Quoting.literal cs ++ "]+?".toList) 0
      fun _ => [lazyItem d cs a] := by
  have hset : Writes d a 0 ("[^".toList ++ Quoting.literal cs ++ [']']) 0
      fun _ => [{ expr := .one (outside cs) a }] := by
    refine writes_one (by simp) fun u => ⟨.set (outside cs), ?_, rfl⟩
    have htext : "[^".toList ++ Quoting.literal cs ++ [']'] ++ u =
        '[' :: '^' :: (Quoting.literal cs ++ ']' :: u) := by simp
    rw [htext, lexeme, Bracket.set_outside d hcs]
    rfl
  have hlazy := (hset.quantified (fun _ => ⟨rfl, rfl⟩) (repeats_plus d) rfl).lazied
  have htext : "[^".toList ++ Quoting.literal cs ++ "]+?".toList =
      "[^".toList ++ Quoting.literal cs ++ [']'] ++ ['+'] ++ ['?'] := by simp
  rw [htext]
  exact hlazy

end PathTemplate.Expression
