import Mathlib.Data.List.TakeDrop
import Mathlib.Data.List.TakeWhile
import PathTemplate.Matching.Source
import PathTemplate.Template.Piece

/-!
The pass over a template, said without readers: what a template may begin with, and what is left
behind it. Exactly one thing is always possible, so the pass ends in one way only, and the pieces
of a template are what it meets. They spell the template out.
-/
namespace PathTemplate.Template

open Matching (parenthesized)

/-- Pairs of a backslash and any character but a line feed, and other characters that are neither
backslashes nor parentheses. -/
inductive IsBody : Text → Prop
  | nil : IsBody []
  | pair {c : Char} {t : Text} : c ≠ '\n' → IsBody t → IsBody ('\\' :: c :: t)
  | bare {c : Char} {t : Text} : c ≠ '\\' → c ≠ '(' → c ≠ ')' → IsBody t → IsBody (c :: t)

structure Mark.WellFormed (m : Mark) : Prop where
  present : m.name.isSome = true ∨ m.body.isSome = true
  name : ∀ n, m.name = some n → n ≠ [] ∧ ∀ c ∈ n, isNameChar c = true
  body : ∀ b, m.body = some b → b ≠ [] ∧ IsBody b

def Modifier.written : Modifier → Text
  | optional => ['?']
  | oneOrMore => ['+']
  | zeroOrMore => ['*']

def Mark.written (m : Mark) : Text :=
  m.name.elim [] (':' :: ·) ++ m.body.elim [] parenthesized ++ m.modifier.elim [] Modifier.written

def Piece.written : Piece → Text
  | plain c => [c]
  | escaped c => ['\\', c]
  | mark m => m.written

def Enclosed (b t r : Text) : Prop := b ≠ [] ∧ IsBody b ∧ t = parenthesized b ++ r

inductive TakesBody : Option Text → Text → Text → Prop
  | present {b t r : Text} : Enclosed b t r → TakesBody (some b) t r
  | absent {t : Text} : (∀ b r, ¬ Enclosed b t r) → TakesBody none t t

inductive TakesModifier : Option Modifier → Text → Text → Prop
  | present (m : Modifier) (r : Text) : TakesModifier (some m) (m.written ++ r) r
  | absent {t : Text} : (∀ (m : Modifier) r, t ≠ m.written ++ r) → TakesModifier none t t

def EndsName (t : Text) : Prop := ∀ c ∈ t.head?, isNameChar c = false

/-- What the pass meets first, and what is left behind it. A name goes as far as it can; a
character stands for itself where nothing else begins. -/
inductive Begins : Text → Piece → Text → Prop
  | escaped {c : Char} {r : Text} : c ≠ '\n' → Begins ('\\' :: c :: r) (.escaped c) r
  | named {n u v r : Text} {b : Option Text} {m : Option Modifier} : n ≠ [] →
      (∀ c ∈ n, isNameChar c = true) → EndsName u → TakesBody b u v → TakesModifier m v r →
      Begins (':' :: (n ++ u)) (.mark ⟨some n, b, m⟩) r
  | anonymous {b t v r : Text} {m : Option Modifier} : Enclosed b t v → TakesModifier m v r →
      Begins t (.mark ⟨none, some b, m⟩) r
  | plain {c : Char} {r : Text} : (c = '\\' → ∀ d ∈ r.head?, d = '\n') → (c = ':' → EndsName r) →
      (∀ b v, ¬ Enclosed b (c :: r) v) → Begins (c :: r) (.plain c) r

inductive Passed : Text → List Piece → Prop
  | nil : Passed [] []
  | cons {t r : Text} {p : Piece} {ps : List Piece} : Begins t p r → Passed r ps →
      Passed t (p :: ps)

/-! ### Parts of marks -/

theorem bodyFrom_inv {t b r : Text} (h : bodyFrom t = some (b, r)) :
    t = b ++ ')' :: r ∧ IsBody b := by
  induction t using bodyFrom.induct generalizing b r with
  | case1 => cases h
  | case2 =>
    obtain ⟨rfl, rfl⟩ := Prod.mk.inj (Option.some.inj h)
    exact ⟨rfl, .nil⟩
  | case3 => cases h
  | case4 => cases h
  | case5 t =>
    rw [bodyFrom, if_pos rfl] at h
    cases h
  | case6 c t hc ih =>
    rw [bodyFrom, if_neg hc] at h
    obtain ⟨⟨b', s⟩, hbody, heq⟩ := Option.map_eq_some_iff.mp h
    obtain ⟨rfl, rfl⟩ := Prod.mk.inj heq
    obtain ⟨rfl, hb⟩ := ih hbody
    exact ⟨rfl, .pair hc hb⟩
  | case7 c t hclose hopen hlast hpair ih =>
    have hc : c ≠ '\\' := by
      intro hc
      cases t with
      | nil => exact hlast hc rfl
      | cons e t => exact hpair e t hc rfl
    rw [bodyFrom] at h
    · obtain ⟨⟨b', s⟩, hbody, heq⟩ := Option.map_eq_some_iff.mp h
      obtain ⟨rfl, rfl⟩ := Prod.mk.inj heq
      obtain ⟨rfl, hb⟩ := ih hbody
      exact ⟨rfl, .bare hc hopen hclose hb⟩
    all_goals assumption

theorem bodyFrom_of_isBody {b : Text} (hb : IsBody b) (r : Text) :
    bodyFrom (b ++ ')' :: r) = some (b, r) := by
  induction hb with
  | nil => rfl
  | pair hc _ ih => simp [bodyFrom, hc, ih]
  | @bare c t hc hopen hclose _ ih =>
    rw [List.cons_append, bodyFrom]
    · rw [ih]
      rfl
    all_goals simp_all

theorem body?_eq_some_iff {t b r : Text} :
    body? t = some (b, r) ↔ b ≠ [] ∧ IsBody b ∧ t = b ++ ')' :: r := by
  constructor
  · intro h
    obtain ⟨hbody, hne⟩ := Option.filter_eq_some_iff.mp h
    obtain ⟨rfl, hb⟩ := bodyFrom_inv hbody
    exact ⟨by simpa using hne, hb, rfl⟩
  · rintro ⟨hne, hb, rfl⟩
    rw [body?, bodyFrom_of_isBody hb]
    simp [hne]

theorem enclosed_iff {b t r : Text} : Enclosed b ('(' :: t) r ↔ body? t = some (b, r) := by
  simp [Enclosed, body?_eq_some_iff, parenthesized]

theorem Enclosed.head {b t r : Text} (h : Enclosed b t r) : ∃ u, t = '(' :: u :=
  ⟨b ++ [')'] ++ r, h.2.2⟩

/-- There is one way to read a body at most. -/
theorem Enclosed.unique {b b' t r r' : Text} (h : Enclosed b t r) (h' : Enclosed b' t r') :
    b = b' ∧ r = r' := by
  obtain ⟨u, rfl⟩ := h.head
  have heq := (enclosed_iff.mp h).symm.trans (enclosed_iff.mp h')
  exact Prod.mk.inj (Option.some.inj heq)

theorem TakesBody.eq_append {b : Option Text} {t r : Text} (h : TakesBody b t r) :
    t = b.elim [] parenthesized ++ r := by
  cases h with
  | present h => exact h.2.2
  | absent => rfl

theorem bodyAfterName_eq {b : Option Text} {t r : Text} (h : TakesBody b t r) :
    bodyAfterName t = (b, r) := by
  unfold bodyAfterName
  cases h with
  | present h =>
    obtain ⟨u, rfl⟩ := h.head
    simp [enclosed_iff.mp h]
  | absent h =>
    split
    · split
      case _ b s hread => exact absurd (enclosed_iff.mpr hread) (h b s)
      case _ => rfl
    · rfl

theorem takesBody_bodyAfterName (t : Text) :
    TakesBody (bodyAfterName t).1 t (bodyAfterName t).2 := by
  unfold bodyAfterName
  split
  · split
    case _ u b s hread => exact .present (enclosed_iff.mpr hread)
    case _ u hread =>
      refine .absent fun b r h => ?_
      rw [enclosed_iff, hread] at h
      cases h
  case _ hopen =>
    refine .absent fun b r h => ?_
    obtain ⟨u, rfl⟩ := h.head
    exact hopen u rfl

theorem TakesModifier.eq_append {m : Option Modifier} {t r : Text} (h : TakesModifier m t r) :
    t = m.elim [] Modifier.written ++ r := by
  cases h with
  | present => rfl
  | absent => rfl

theorem modifier_eq {m : Option Modifier} {t r : Text} (h : TakesModifier m t r) :
    modifier t = (m, r) := by
  cases h with
  | present m r => cases m <;> rfl
  | absent h =>
    unfold modifier
    split
    · exact absurd rfl (h .optional _)
    · exact absurd rfl (h .oneOrMore _)
    · exact absurd rfl (h .zeroOrMore _)
    · rfl

theorem takesModifier_modifier (t : Text) : TakesModifier (modifier t).1 t (modifier t).2 := by
  unfold modifier
  split
  · exact .present .optional _
  · exact .present .oneOrMore _
  · exact .present .zeroOrMore _
  case _ hopt hmore hany =>
    refine .absent fun m r h => ?_
    cases m with
    | optional => exact hopt r h
    | oneOrMore => exact hmore r h
    | zeroOrMore => exact hany r h

/-! ### Pieces -/

theorem EndsName.takeWhile {u : Text} (h : EndsName u) : u.takeWhile isNameChar = [] := by
  cases u with
  | nil => rfl
  | cons c u => rw [List.takeWhile_cons, h c rfl, if_neg Bool.false_ne_true]

theorem endsName_dropWhile (t : Text) : EndsName (t.dropWhile isNameChar) := by
  intro c hc
  have hnot := List.head?_dropWhile_not isNameChar t
  rwa [hc] at hnot

theorem span_name {n u : Text} (hn : ∀ c ∈ n, isNameChar c = true) (hu : EndsName u) :
    (n ++ u).span isNameChar = (n, u) := by
  have hdrop : u.dropWhile isNameChar = u := by
    have := List.takeWhile_append_dropWhile (p := isNameChar) (l := u)
    rwa [hu.takeWhile, List.nil_append] at this
  rw [List.span_eq_takeWhile_dropWhile, List.takeWhile_append_of_pos hn,
    List.dropWhile_append_of_pos hn, hu.takeWhile, hdrop, List.append_nil]

/-- What a template begins with is the piece that is read. -/
theorem Begins.piece_eq {t r : Text} {p : Piece} (h : Begins t p r) : piece t = some (p, r) := by
  cases h with
  | escaped hc => simp [piece, hc]
  | @named n u v r b m hne hn hu hb hm =>
    simp only [piece, span_name hn hu, List.isEmpty_iff, hne, if_false, namedMark,
      bodyAfterName_eq hb, modifier_eq hm]
  | anonymous hb hm =>
    obtain ⟨u, rfl⟩ := hb.head
    simp only [piece, enclosed_iff.mp hb, anonymousMark, modifier_eq hm]
  | @plain c r hescape hname hbody =>
    unfold piece
    split
    case _ heq => cases heq
    case _ d s heq =>
      obtain ⟨rfl, rfl⟩ := List.cons.inj heq
      rw [if_pos (hescape rfl d rfl)]
    case _ s heq =>
      obtain ⟨rfl, rfl⟩ := List.cons.inj heq
      simp only [List.span_eq_takeWhile_dropWhile, (hname rfl).takeWhile, List.isEmpty_nil, if_true]
    case _ s heq =>
      obtain ⟨rfl, rfl⟩ := List.cons.inj heq
      split
      case _ b v hread => exact absurd (enclosed_iff.mpr hread) (hbody b v)
      case _ => rfl
    case _ d s _ _ _ heq =>
      obtain ⟨rfl, rfl⟩ := List.cons.inj heq
      rfl

/-- A colon in front of a character of a name begins a mark. -/
theorem exists_begins_named {t : Text} (ht : ¬ EndsName t) : ∃ p r, Begins (':' :: t) p r := by
  have hne : t.takeWhile isNameChar ≠ [] := by
    intro h
    have happend := List.takeWhile_append_dropWhile (p := isNameChar) (l := t)
    rw [h, List.nil_append] at happend
    exact ht (happend ▸ endsName_dropWhile t)
  have hbegins := Begins.named hne (fun c hc => List.mem_takeWhile_imp hc) (endsName_dropWhile t)
    (takesBody_bodyAfterName _) (takesModifier_modifier _)
  rw [List.takeWhile_append_dropWhile] at hbegins
  exact ⟨_, _, hbegins⟩

/-- Something always comes first. -/
theorem exists_begins {t : Text} (ht : t ≠ []) : ∃ p r, Begins t p r := by
  obtain ⟨c, t, rfl⟩ := List.exists_cons_of_ne_nil ht
  by_cases hbody : ∃ b v, Enclosed b (c :: t) v
  · obtain ⟨b, v, hb⟩ := hbody
    exact ⟨_, _, .anonymous hb (takesModifier_modifier v)⟩
  by_cases hescape : ∃ d r, c = '\\' ∧ t = d :: r ∧ d ≠ '\n'
  · obtain ⟨d, r, rfl, rfl, hd⟩ := hescape
    exact ⟨_, _, .escaped hd⟩
  by_cases hname : c = ':' ∧ ¬ EndsName t
  · obtain ⟨rfl, hends⟩ := hname
    exact exists_begins_named hends
  refine ⟨_, _, .plain (fun hc d hd => ?_) (fun hc => ?_) fun b v hb => hbody ⟨b, v, hb⟩⟩
  · obtain ⟨r, rfl⟩ := List.head?_eq_some_iff.mp hd
    by_contra hne
    exact hescape ⟨d, r, hc, rfl, hne⟩
  · by_contra hends
    exact hname ⟨hc, hends⟩

theorem Begins.written_append {t r : Text} {p : Piece} (h : Begins t p r) : t = p.written ++ r := by
  cases h with
  | escaped => rfl
  | named _ _ _ hb hm =>
    rw [hb.eq_append, hm.eq_append]
    simp [Piece.written, Mark.written]
  | anonymous hb hm =>
    rw [hb.2.2, hm.eq_append]
    simp [Piece.written, Mark.written]
  | plain => rfl

theorem Begins.length_lt {t r : Text} {p : Piece} (h : Begins t p r) : r.length < t.length := by
  have hne : p.written ≠ [] := by
    cases h <;> simp [Piece.written, Mark.written, parenthesized]
  have hpos := List.length_pos_iff.mpr hne
  rw [h.written_append, List.length_append]
  omega

theorem Begins.wellFormed {t r : Text} {m : Mark} (h : Begins t (.mark m) r) : m.WellFormed := by
  cases h with
  | named hne hn _ hb _ =>
    refine ⟨.inl rfl, fun n hname => ?_, fun b hbody => ?_⟩
    · obtain rfl := Option.some.inj hname
      exact ⟨hne, hn⟩
    · obtain rfl : _ = some b := hbody
      cases hb with
      | present hb => exact ⟨hb.1, hb.2.1⟩
  | anonymous hb _ =>
    refine ⟨.inr rfl, nofun, fun b hbody => ?_⟩
    obtain rfl := Option.some.inj hbody
    exact ⟨hb.1, hb.2.1⟩

/-! ### Runs -/

theorem Passed.piecesFrom_eq {t : Text} {ps : List Piece} (h : Passed t ps) {n : Nat}
    (hn : t.length ≤ n) : piecesFrom n t = ps := by
  induction h generalizing n with
  | nil => cases n <;> rfl
  | cons hbegins _ ih =>
    have hlt := hbegins.length_lt
    cases n with
    | zero => omega
    | succ n =>
      rw [piecesFrom, hbegins.piece_eq]
      exact congrArg _ (ih (by omega))

theorem exists_passed (t : Text) : ∃ ps, Passed t ps := by
  induction hn : t.length using Nat.strong_induction_on generalizing t with
  | _ n ih =>
    by_cases ht : t = []
    · exact ⟨[], ht ▸ .nil⟩
    · obtain ⟨p, r, hbegins⟩ := exists_begins ht
      obtain ⟨ps, hps⟩ := ih r.length (hn ▸ hbegins.length_lt) r rfl
      exact ⟨p :: ps, .cons hbegins hps⟩

/-- The pass over a text can be made in one way, and meets the pieces of the text. -/
theorem passed_iff {t : Text} {ps : List Piece} : Passed t ps ↔ ps = pieces t := by
  have hpieces : ∀ {ps}, Passed t ps → ps = pieces t :=
    fun h => (h.piecesFrom_eq (Nat.le_refl _)).symm
  refine ⟨hpieces, fun h => ?_⟩
  obtain ⟨qs, hqs⟩ := exists_passed t
  rw [h, ← hpieces hqs]
  exact hqs

theorem passed_pieces (t : Text) : Passed t (pieces t) := passed_iff.mpr rfl

theorem Passed.flatMap_written {t : Text} {ps : List Piece} (h : Passed t ps) :
    ps.flatMap Piece.written = t := by
  induction h with
  | nil => rfl
  | cons hbegins _ ih => rw [List.flatMap_cons, ih, ← hbegins.written_append]

theorem Passed.wellFormed {t : Text} {ps : List Piece} (h : Passed t ps) {m : Mark}
    (hm : .mark m ∈ ps) : m.WellFormed := by
  induction h with
  | nil => cases hm
  | cons hbegins _ ih =>
    rcases List.mem_cons.mp hm with rfl | hm
    · exact hbegins.wellFormed
    · exact ih hm

/-- The pieces of a template spell it out. -/
theorem pieces_written (t : Text) : (pieces t).flatMap Piece.written = t :=
  (passed_pieces t).flatMap_written

/-- Every mark of a template is of one of the three forms. -/
theorem wellFormed_of_mem_pieces {t : Text} {m : Mark} (h : .mark m ∈ pieces t) : m.WellFormed :=
  (passed_pieces t).wellFormed h

end PathTemplate.Template
