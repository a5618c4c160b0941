import PathTemplate.Proofs.Meaning.Values
import PathTemplate.Proofs.Reading.Compiling

/-!
Patterns with one meaning. A plain pattern is made of single characters, sets, quantifiers that
stand directly behind these, and bars. Both dialects read it alike, as the texts of one language.
-/
namespace PathTemplate.Expression

open scoped Computability

/-- In a parenthesis of its own the text is read as a plain content, and the content takes the
texts of the language. Case counts. -/
structure Denotes (d : Dialect) (t : Text) (c : Content) (l : Language Char) : Prop where
  encloses : Encloses d false 0 t 0 fun _ => c
  accepts : ∀ et, Step.Accepts (c.expr.paths et) l
  plain : c.expr.isPlain = true

/-! ### Plain patterns -/

def Digits (ds : Text) : Prop := ds ≠ [] ∧ ∀ c ∈ ds, c.isDigit = true

/-- A text that stands for one character of a set: a character with no other meaning, a dot, an
escape, or a set in brackets that both dialects read alike. -/
inductive Atom : Text → CharSet → Prop
  | char {c : Char} : c ∉ ".^$|()[*+?\\\x7b".toList → Atom [c] (.single c)
  | dot : Atom ['.'] .notNewline
  | escape {t : Text} {x : Lexeme} {s : CharSet} : segmentEscape false t = some (x, []) →
      x.expr? false = some (.one s false) → Atom ('\\' :: t) s
  | set {t : Text} {s : CharSet} : (∀ d, Bracket.set d t = some (s, [])) → Atom ('[' :: t) s

inductive Quantifier : Text → Nat → Option Nat → Prop
  | star : Quantifier ['*'] 0 none
  | plus : Quantifier ['+'] 1 none
  | question : Quantifier ['?'] 0 (some 1)
  | exactly {ds : Text} : Digits ds →
      Quantifier ('{' :: (ds ++ ['}'])) (Text.decimal ds) (some (Text.decimal ds))
  | atLeast {ds : Text} : Digits ds →
      Quantifier ('{' :: (ds ++ [',', '}'])) (Text.decimal ds) none
  | between {ds es : Text} : Digits ds → Digits es → Text.decimal ds ≤ Text.decimal es →
      Quantifier ('{' :: (ds ++ ',' :: (es ++ ['}']))) (Text.decimal ds) (some (Text.decimal es))

def CharSet.texts (s : CharSet) : Language Char := oneOf fun c => s.has false c = true

/-- Single characters, each with at most one quantifier, which may be lazy. -/
inductive PlainBranch : Text → Language Char → Prop
  | nil : PlainBranch [] 1
  | once {t u : Text} {s : CharSet} {l : Language Char} : Atom t s → PlainBranch u l →
      PlainBranch (t ++ u) (s.texts * l)
  | greedy {t q u : Text} {s : CharSet} {lo : Nat} {most : Option Nat} {l : Language Char} :
      Atom t s → Quantifier q lo most → PlainBranch u l →
        PlainBranch (t ++ q ++ u) (Step.repeated s.texts lo most * l)
  | reluctant {t q u : Text} {s : CharSet} {lo : Nat} {most : Option Nat} {l : Language Char} :
      Atom t s → Quantifier q lo most → PlainBranch u l →
        PlainBranch (t ++ q ++ ['?'] ++ u) (Step.repeated s.texts lo most * l)

/-- The text is a pattern of the language: plain branches with bars between them. -/
inductive PlainPattern : Text → Language Char → Prop
  | single {t : Text} {l : Language Char} : PlainBranch t l → PlainPattern t l
  | bar {t u : Text} {l m : Language Char} : PlainBranch t l → PlainPattern u m →
      PlainPattern (t ++ '|' :: u) (l + m)

/-! ### Atoms and quantifiers -/

theorem Lexeme.Flat.isSpelled {x : Lexeme} {s : CharSet} {a b : Bool} (h : x.Flat)
    (hx : x.expr? a = some (.one s b)) : s.isSpelled = false := by
  cases x with
  | char | dot => obtain ⟨rfl, -⟩ := Expr.one.inj (Option.some.inj hx); rfl
  | set s => obtain ⟨rfl, -⟩ := Expr.one.inj (Option.some.inj hx); exact h
  | _ => cases hx

theorem Lexeme.Agrees.expr?_eq {x y : Lexeme} (h : x.Agrees y) : y.expr? false = x.expr? false := by
  cases h <;> rfl

theorem Atom.ne_nil {t : Text} {s : CharSet} (h : Atom t s) : t ≠ [] := by
  cases h <;> simp

private theorem Atom.exists_lexeme {t : Text} {s : CharSet} (h : Atom t s) :
    (∃ x, lexeme .segment t = some (x, []) ∧ x.expr? false = some (.one s false)) ∧ SetKnown t ∧
      (∀ u, t ≠ '(' :: u) ∧ (∀ u, t ≠ ')' :: u) ∧ ∀ u, t ≠ '{' :: u := by
  cases h with
  | @char c hc =>
    have hne : ∀ e ∈ ".^$|()[*+?\\\x7b".toList, c ≠ e := fun e he hce => hc (hce ▸ he)
    refine ⟨⟨.char c true true, ?_, rfl⟩, ?_, ?_, ?_, ?_⟩
    · rw [lexeme]
      all_goals exact hne _ (by decide)
    all_goals
      intro u hu
      exact absurd (List.cons.inj hu).1 (hne _ (by decide))
  | dot => exact ⟨⟨.dot, rfl, rfl⟩, by simp [SetKnown], by simp, by simp, by simp⟩
  | @escape t x s hread hx =>
    exact ⟨⟨x, hread, hx⟩, by simp [SetKnown], by simp, by simp, by simp⟩
  | @set t s hread =>
    refine ⟨⟨.set s, ?_, rfl⟩, ?_, by simp, by simp, by simp⟩
    · rw [lexeme, hread .segment]
      rfl
    · intro u hu
      obtain ⟨-, rfl⟩ := List.cons.inj hu
      exact ⟨s, [], hread .path, Bracket.isSpelled_read (hread .segment)⟩

/-- Both dialects read an atom as one character of its set, whatever follows. -/
theorem Atom.lexeme_append {t : Text} {s : CharSet} (h : Atom t s) (d : Dialect) (u : Text) :
    ∃ x, lexeme d (t ++ u) = some (x, u) ∧ x.expr? false = some (.one s false) := by
  obtain ⟨⟨x, hx, hexpr⟩, hset, hopen, hclose, hbrace⟩ := h.exists_lexeme
  obtain ⟨v, ht, -, -, -, hread⟩ := lexeme_agrees hx hset hopen hclose hbrace
  rw [List.append_nil] at ht
  subst ht
  obtain ⟨hsegment, y, hpath, hagrees⟩ := hread u
  cases d with
  | path => exact ⟨y, hpath, hagrees.expr?_eq.trans hexpr⟩
  | segment => exact ⟨x, hsegment, hexpr⟩

theorem Atom.isSpelled {t : Text} {s : CharSet} (h : Atom t s) : s.isSpelled = false := by
  obtain ⟨⟨x, hx, hexpr⟩, hset, hopen, hclose, hbrace⟩ := h.exists_lexeme
  obtain ⟨v, -, -, -, -, hread⟩ := lexeme_agrees hx hset hopen hclose hbrace
  obtain ⟨-, y, -, hagrees⟩ := hread []
  exact hagrees.flat.isSpelled (hagrees.expr?_eq.trans hexpr)

theorem Atom.writes {t : Text} {s : CharSet} (h : Atom t s) (d : Dialect) :
    Writes d false 0 t 0 fun _ => [{ expr := .one s false }] :=
  writes_one h.ne_nil (h.lexeme_append d)

theorem not_isBlank_of_isDigit {c : Char} (h : c.isDigit = true) : Unicode.isBlank c = false := by
  have hrange : 48 ≤ c.toNat ∧ c.toNat ≤ 57 := by
    simpa [Char.isDigit, UInt32.le_iff_toNat_le] using h
  simp [Unicode.isBlank, Unicode.anyRun, Unicode.blankRuns, Unicode.Run.holds]
  omega

private theorem bound_digits (d : Dialect) {ds : Text} (hds : Digits ds) {c : Char}
    (hdigit : c.isDigit = false) (hblank : Unicode.isBlank c = false) (r : Text) :
    bound d (ds ++ c :: r) = some (Text.decimal ds, c :: r) := by
  obtain ⟨hne, hall⟩ := hds
  have hskip : ∀ e r, Unicode.isBlank e = false → skipBlanks d (e :: r) = e :: r := by
    intro e r he
    cases d <;> simp [skipBlanks, he]
  have hfirst : skipBlanks d (ds ++ c :: r) = ds ++ c :: r := by
    obtain ⟨e, ds, rfl⟩ := List.exists_cons_of_ne_nil hne
    exact hskip e _ (not_isBlank_of_isDigit (hall e List.mem_cons_self))
  rw [bound, hfirst, digits?_stop hne hall hdigit]
  simp only [Option.map_some, hskip c r hblank]

private theorem lowerBound_digits (d : Dialect) {ds : Text} (hds : Digits ds) {c : Char}
    (hdigit : c.isDigit = false) (hblank : Unicode.isBlank c = false) (r : Text) :
    lowerBound d (ds ++ c :: r) = some (Text.decimal ds, c :: r) := by
  rw [lowerBound.eq_def]
  split
  case _ q heq =>
    obtain ⟨e, ds, rfl⟩ := List.exists_cons_of_ne_nil hds.1
    have he := hds.2 e List.mem_cons_self
    rw [(List.cons.inj heq).1] at he
    exact absurd he (by decide)
  case _ => exact bound_digits _ hds hdigit hblank r

/-- A count that is closed by a brace is read whatever follows the brace. -/
private theorem repeats_count {d : Dialect} {w : Text} {lo : Nat} {most : Option Nat}
    (h : ∀ u, count? d (w ++ u) = some (lo, most, u)) : Repeats d ('{' :: w) lo most := by
  refine ⟨by simp, fun u => ⟨.count lo most ('{' :: w), ?_, rfl⟩⟩
  rw [List.cons_append, lexeme, h u]
  simp only [upTo_append]

theorem Quantifier.repeats {q : Text} {lo : Nat} {most : Option Nat} (h : Quantifier q lo most)
    (d : Dialect) : Repeats d q lo most := by
  cases h with
  | star => exact repeats_star d
  | plus => exact repeats_plus d
  | question => exact repeats_question d
  | @exactly ds hds =>
    refine repeats_count fun u => ?_
    have htext : ds ++ ['}'] ++ u = ds ++ '}' :: u := by simp
    rw [htext, count?, lowerBound_digits d hds (by decide) (by decide)]
    rfl
  | @atLeast ds hds =>
    refine repeats_count fun u => ?_
    have htext : ds ++ [',', '}'] ++ u = ds ++ ',' :: '}' :: u := by simp
    rw [htext, count?, lowerBound_digits d hds (by decide) (by decide)]
    rfl
  | @between ds es hds hes hle =>
    refine repeats_count fun u => ?_
    have htext : ds ++ ',' :: (es ++ ['}']) ++ u = ds ++ ',' :: (es ++ '}' :: u) := by simp
    have hbrace : ∀ q, es ++ '}' :: u ≠ '}' :: q := by
      intro q heq
      obtain ⟨e, es, rfl⟩ := List.exists_cons_of_ne_nil hes.1
      have he := hes.2 e List.mem_cons_self
      rw [(List.cons.inj heq).1] at he
      exact absurd he (by decide)
    rw [htext, count?, lowerBound_digits d hds (by decide) (by decide)]
    simp only [bound_digits d hes (c := '}') (by decide) (by decide)]

theorem Quantifier.le {q : Text} {lo : Nat} {most : Option Nat} (h : Quantifier q lo most) :
    most.all (lo ≤ ·) = true := by
  cases h with
  | between _ _ hle => simpa using hle
  | _ => simp

/-! ### What patterns denote -/

theorem Content.paths_after (c : Content) (e : Expr) (et : EmptyTurn) (s : State) :
    (c.after e).expr.paths et s = e.paths et s ++ c.expr.paths et s := by
  rw [Content.expr, Content.expr, Builder.paths_altAll (Content.exprs_ne_nil _),
    Builder.paths_altAll (Content.exprs_ne_nil _), Content.exprs_after, List.flatMap_cons]

/-- A check that goes through alternatives looks at the first one and at the others. -/
theorem Content.all_after {f : Expr → Bool} (hempty : f .empty = true)
    (halt : ∀ e g, f (.alt e g) = (f e && f g)) (c : Content) (e : Expr) :
    f (c.after e).expr = (f e && f c.expr) := by
  rw [Content.expr, Content.expr, Builder.all_altAll hempty halt, Builder.all_altAll hempty halt,
    Content.exprs_after, List.all_cons]

theorem Content.accepts_after {c : Content} {e : Expr} {l m : Language Char} {et : EmptyTurn}
    (h : Step.Accepts (e.paths et) l) (h' : Step.Accepts (c.expr.paths et) m) :
    Step.Accepts ((c.after e).expr.paths et) (l + m) := by
  have heq : (c.after e).expr.paths et = fun s => e.paths et s ++ c.expr.paths et s :=
    funext (c.paths_after e et)
  rw [heq]
  exact h.append h'

namespace Denotes

variable {d : Dialect} {t u : Text} {is : List Item} {c : Content} {l m : Language Char}

theorem ofItems (hw : Writes d false 0 t 0 fun _ => is) (hs : Spells is l)
    (hp : Throughout (fun e => e.isPlain = true) is) : Denotes d t (.ofItems is) l :=
  ⟨hw.encloses, hs.ofItems, hp.ofItems (throughLoops_isPlain false).toInherited⟩

/-- One or more characters, but for those that are excluded. -/
theorem lazyRun (d : Dialect) {cs : List Char} (hcs : cs ≠ []) :
    Denotes d ("[^".toList ++ Quoting.literal cs ++ "]+?".toList)
      (.ofItems [lazyItem d cs false]) (segments false cs) :=
  ofItems (writes_lazyRun d false hcs) (Spells.lazyItem d cs false)
    (Throughout.lazyItem (throughLoops_isPlain false) d cs)

/-- An alternative in front of others. -/
theorem alternative (hw : Writes d false 0 t 0 fun _ => is) (hs : Spells is l)
    (hp : Throughout (fun e => e.isPlain = true) is) (h : Denotes d u c m) :
    Denotes d (t ++ '|' :: u) (c.after (Branch.ofItems is).expr) (l + m) := by
  refine ⟨hw.alternative h.encloses, fun et => Content.accepts_after (hs.ofItems et) (h.accepts et),
    ?_⟩
  have hfirst := hp.ofItems (throughLoops_isPlain false).toInherited
  have hall := Content.all_after (f := Expr.isPlain) rfl (fun _ _ => rfl) c
    (Branch.ofItems is).expr
  rw [hall, hfirst, h.plain]
  rfl

end Denotes

private def Lists (d : Dialect) (t : Text) (is : List Item) (l : Language Char) : Prop :=
  Writes d false 0 t 0 (fun _ => is) ∧ Spells is l ∧ Throughout (fun e => e.isPlain = true) is

private theorem Lists.cons {d : Dialect} {t u : Text} {i : Item} {is : List Item}
    {l m : Language Char} (h : Lists d t [i] l) (h' : Lists d u is m) :
    Lists d (t ++ u) (i :: is) (l * m) :=
  ⟨h.1.append h'.1, h.2.1.cons h'.2.1, h.2.2.cons h'.2.2⟩

theorem spells_loop {s : CharSet} {lo : Nat} {most : Option Nat} {i : Item} {greedy : Bool}
    (hi : i.expr = .loop (.one s false) lo most greedy) (hle : most.all (lo ≤ ·) = true) :
    Spells [i] (Step.repeated s.texts lo most) := by
  have hone : Spells [{ expr := .one s false }] s.texts := .one fun x => Iff.rfl
  refine .single fun et => ?_
  rw [hi]
  exact (hone.accepts et).loop (nil_notMem_oneOf _) hle et greedy

theorem PlainBranch.exists_items {t : Text} {l : Language Char} (h : PlainBranch t l)
    (d : Dialect) : ∃ is, Lists d t is l := by
  induction h with
  | nil => exact ⟨[], .nil, .nil, .nil⟩
  | once ha _ ih =>
    obtain ⟨is, his⟩ := ih
    exact ⟨_, Lists.cons ⟨ha.writes d, .one fun x => Iff.rfl, .single rfl⟩ his⟩
  | greedy ha hq _ ih =>
    obtain ⟨is, his⟩ := ih
    have hw := (ha.writes d).quantified (fun _ => ⟨rfl, rfl⟩) (hq.repeats d) hq.le
    exact ⟨_, Lists.cons ⟨hw, spells_loop rfl hq.le, .single rfl⟩ his⟩
  | reluctant ha hq _ ih =>
    obtain ⟨is, his⟩ := ih
    have hw := ((ha.writes d).quantified (fun _ => ⟨rfl, rfl⟩) (hq.repeats d) hq.le).lazied
    exact ⟨_, Lists.cons ⟨hw, spells_loop rfl hq.le, .single rfl⟩ his⟩

/-- A plain pattern denotes its language in both dialects. -/
theorem PlainPattern.exists_denotes {t : Text} {l : Language Char} (h : PlainPattern t l)
    (d : Dialect) : ∃ c, Denotes d t c l := by
  induction h with
  | single hb =>
    obtain ⟨is, hw, hs, hp⟩ := hb.exists_items d
    exact ⟨_, .ofItems hw hs hp⟩
  | bar hb _ ih =>
    obtain ⟨is, hw, hs, hp⟩ := hb.exists_items d
    obtain ⟨c, hc⟩ := ih
    exact ⟨_, .alternative hw hs hp hc⟩

/-- What a flat text makes up takes the texts that the text denotes. -/
theorem Denotes.accepts_bodyContent {t : Text} {c : Content} {l : Language Char}
    (h : Denotes .path t c l) (ht : Flat t) (et : EmptyTurn) :
    Step.Accepts ((bodyContent false t).expr.paths et) l := by
  rw [bodyContent_eq ht h.encloses (Nat.zero_le _)]
  exact h.accepts et

end PathTemplate.Expression
