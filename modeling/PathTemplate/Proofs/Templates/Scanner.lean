import PathTemplate.Proofs.Meaning.Preferred
import PathTemplate.Proofs.Templates.Passing

/-!
One expression whose matches are the escapes and the marks of a template. What it prefers at a
place is what the pass meets there, and it fails where the pass meets a plain character. Bodies are
the only part in which a way that comes later could do better, and there is one way to read a body.
-/
namespace PathTemplate.Template

open Expression Matching State
open scoped Computability

/-! ### The expression -/

/-- An escape, or else a name behind a colon, with a body if one follows, or a body alone; behind
these two a modifier if there is one. -/
def scannerSource : Text :=
  r"(\\.)|(?::([A-Za-z0-9_]+)(?:\(((?:\\.|[^\\()])+)\))?|\(((?:\\.|[^\\()])+)\))([+*?])?".toList

namespace Scanner

def among (ss : List CharSet) : CharSet := ss.foldl .union .empty

def nameSet : CharSet := among [.range 'A' 'Z', .range 'a' 'z', .range '0' '9', .single '_']

def modifierSet : CharSet := among [.single '+', .single '*', .single '?']

def char (c : Char) : Expr := .one (.single c) false

def pair : Expr := .cat (char '\\') (.one .notNewline false)

def body : Expr := .loop (.alt pair (.one (outside ['\\', '(', ')']) false)) 1 none true

def enclosed (i : Nat) : Expr := .cat (.cat (char '(') (.group i body)) (char ')')

def name : Expr := .loop (.one nameSet false) 1 none true

def named : Expr := .cat (.cat (char ':') (.group 2 name)) (.loop (enclosed 3) 0 (some 1) true)

def modifier : Expr := .loop (.group 5 (.one modifierSet false)) 0 (some 1) true

def expr : Expr := .alt (.group 1 pair) (.cat (.alt named (enclosed 4)) modifier)

end Scanner

def scanner : Compiled := ⟨Scanner.expr, 5⟩

theorem read_scannerSource : Compiled.read .segment scannerSource = some scanner := by
  decide

/-- What the groups of the scanner take of a mark. A body is taken by one of two groups. -/
def Mark.groups (m : Mark) : List (Option Text) :=
  [none, m.name, if m.name.isSome then m.body else none, if m.name.isSome then none else m.body,
    m.modifier.map Modifier.written]

/-- What the groups of the scanner take of a piece. Plain characters are no match. -/
def Piece.groups? : Piece → Option (List (Option Text))
  | .plain _ => none
  | .escaped c => some [some ['\\', c], none, none, none, none]
  | .mark m => some m.groups

namespace Scanner

variable {s : State}

/-! ### Sets -/

theorem has_among (ss : List CharSet) (x : Char) :
    (among ss).has false x = ss.any fun s => s.has false x := by
  have hfold : ∀ (ss : List CharSet) (t : CharSet), (ss.foldl .union t).has false x =
      (t.has false x || ss.any fun s => s.has false x) := by
    intro ss
    induction ss with
    | nil => simp
    | cons s ss ih =>
      intro t
      rw [List.foldl_cons, ih, CharSet.has, List.any_cons, Bool.or_assoc]
  exact hfold ss .empty

theorem has_single_iff {c x : Char} : (CharSet.single c).has false x = true ↔ x = c := by
  rw [Expression.has_single_iff, alike_false_iff, eq_comm]

theorem has_notNewline_iff {x : Char} : CharSet.notNewline.has false x = true ↔ x ≠ '\n' := by
  rw [CharSet.notNewline, CharSet.has_compl, Bool.not_eq_true', ← Bool.not_eq_true, has_single_iff]

theorem has_bare_iff {x : Char} : (outside ['\\', '(', ')']).has false x = true ↔
    x ≠ '\\' ∧ x ≠ '(' ∧ x ≠ ')' := by
  simp [has_outside_iff, alike_false_iff, ne_comm]

theorem has_nameSet (x : Char) : nameSet.has false x = isNameChar x := by
  have hmark : (CharSet.single '_').has false x = (x == '_') := by
    rw [Bool.eq_iff_iff, has_single_iff, beq_iff_eq]
  have hranges : ∀ lo hi : Char, (CharSet.range lo hi).has false x = (lo ≤ x && x ≤ hi) := by
    intro lo hi
    simp [CharSet.has, CharSet.variants]
  have hname : isNameChar x = ((decide (x.val ≥ 'A'.val ∧ x.val ≤ 'Z'.val) ||
      decide (x.val ≥ 'a'.val) && decide (x.val ≤ 'z'.val) ||
      decide (x.val ≥ '0'.val) && decide (x.val ≤ '9'.val)) || x == '_') := rfl
  rw [nameSet, has_among, hname]
  simp only [List.any_cons, List.any_nil, hmark, hranges, Char.le_def, ge_iff_le, Bool.decide_and,
    Bool.or_false, Bool.or_assoc]

theorem has_modifierSet_iff {x : Char} :
    modifierSet.has false x = true ↔ ∃ m : Modifier, m.written = [x] := by
  simp only [modifierSet, has_among, List.any_cons, List.any_nil, Bool.or_false, Bool.or_eq_true,
    has_single_iff]
  constructor
  · rintro (rfl | rfl | rfl)
    · exact ⟨.oneOrMore, rfl⟩
    · exact ⟨.zeroOrMore, rfl⟩
    · exact ⟨.optional, rfl⟩
  · rintro ⟨m, hm⟩
    cases m <;> obtain rfl := (List.cons.inj hm).1 <;> simp

/-! ### Escapes -/

theorem accepts_one {S : CharSet} {p : Char → Prop} (h : ∀ x, S.has false x = true ↔ p x)
    (et : EmptyTurn) : Step.Accepts ((Expr.one S false).paths et) (oneOf p) :=
  (Spells.one (r := true) (g := .fresh) h).accepts et

def pairs : Language Char := oneOf (· = '\\') * oneOf (· ≠ '\n')

theorem mem_pairs {w : Text} : w ∈ pairs ↔ ∃ c, c ≠ '\n' ∧ w = ['\\', c] := by
  constructor
  · rintro ⟨_, ⟨_, rfl, rfl⟩, _, ⟨c, hc, rfl⟩, rfl⟩
    exact ⟨c, hc, rfl⟩
  · rintro ⟨c, hc, rfl⟩
    exact Language.append_mem_mul (a := ['\\']) ⟨_, rfl, rfl⟩ ⟨c, hc, rfl⟩

theorem accepts_pair (et : EmptyTurn) : Step.Accepts (pair.paths et) pairs :=
  (accepts_one (fun _ => has_single_iff) et).flatMap (accepts_one (fun _ => has_notNewline_iff) et)

theorem prefers_escape {c : Char} {u : Text} (hr : s.rest = '\\' :: c :: u) (hc : c ≠ '\n')
    (et : EmptyTurn) : Step.Prefers ((Expr.group 1 pair).paths et) s ['\\', c] 1
      [some ['\\', c]] := by
  refine .ofCaptures (u := u) (.group (accepts_pair et) 1) ⟨mem_pairs.mpr ⟨c, hc, rfl⟩, rfl⟩ hr ?_
  rintro w' u' vs' ⟨hw', rfl⟩ hr'
  obtain ⟨d, -, rfl⟩ := mem_pairs.mp hw'
  obtain rfl : c = d := (List.cons.inj (List.cons.inj (hr.symm.trans hr')).2).1
  exact ⟨rfl, rfl⟩

theorem escape_eq_nil (h : ∀ c u, s.rest = '\\' :: c :: u → c = '\n') (et : EmptyTurn) :
    (Expr.group 1 pair).paths et s = [] := by
  refine (Step.Captures.group (accepts_pair et) 1).eq_nil fun w u vs hr hR => ?_
  obtain ⟨c, hc, rfl⟩ := mem_pairs.mp hR.1
  exact hc (h c u hr)

/-! ### Bodies -/

def bodyParts : Language Char := pairs + oneOf fun x => x ≠ '\\' ∧ x ≠ '(' ∧ x ≠ ')'

theorem mem_kstar_bodyParts {w : Text} : w ∈ bodyParts∗ ↔ IsBody w := by
  rw [Language.mem_kstar]
  constructor
  · rintro ⟨ws, rfl, hws⟩
    induction ws with
    | nil => exact .nil
    | cons v ws ih =>
      have hrest := ih fun u hu => hws u (List.mem_cons_of_mem v hu)
      rcases hws v List.mem_cons_self with hv | ⟨x, ⟨hx, hopen, hclose⟩, rfl⟩
      · obtain ⟨c, hc, rfl⟩ := mem_pairs.mp hv
        exact .pair hc hrest
      · exact .bare hx hopen hclose hrest
  · intro hw
    induction hw with
    | nil => exact ⟨[], rfl, nofun⟩
    | @pair c t hc _ ih =>
      obtain ⟨ws, rfl, hws⟩ := ih
      exact ⟨['\\', c] :: ws, rfl,
        List.forall_mem_cons.mpr ⟨Or.inl (mem_pairs.mpr ⟨c, hc, rfl⟩), hws⟩⟩
    | @bare c t hc hopen hclose _ ih =>
      obtain ⟨ws, rfl, hws⟩ := ih
      exact ⟨[c] :: ws, rfl, List.forall_mem_cons.mpr ⟨Or.inr ⟨c, ⟨hc, hopen, hclose⟩, rfl⟩, hws⟩⟩

theorem nil_notMem_bodyParts : [] ∉ bodyParts := by
  rintro (h | h)
  · obtain ⟨c, -, hc⟩ := mem_pairs.mp h
    cases hc
  · exact nil_notMem_oneOf _ h

theorem mem_bodies {w : Text} : w ∈ bodyParts * bodyParts∗ ↔ w ≠ [] ∧ IsBody w := by
  have hall : w ∈ bodyParts∗ ↔ w = [] ∨ w ∈ bodyParts * bodyParts∗ := by
    have heq := Language.one_add_self_mul_kstar_eq_kstar (l := bodyParts)
    exact iff_of_eq (congrArg (w ∈ ·) heq.symm)
  have hne : w ∈ bodyParts * bodyParts∗ → w ≠ [] := by
    rintro ⟨v, hv, u, -, rfl⟩ h
    obtain ⟨rfl, -⟩ := List.append_eq_nil_iff.mp h
    exact nil_notMem_bodyParts hv
  rw [← mem_kstar_bodyParts, hall]
  constructor
  · exact fun hw => ⟨hne hw, Or.inr hw⟩
  · rintro ⟨hw, h | h⟩
    · exact absurd h hw
    · exact h

theorem accepts_body (et : EmptyTurn) :
    Step.Accepts (body.paths et) (bodyParts * bodyParts∗) :=
  ((accepts_pair et).append (accepts_one (fun _ => has_bare_iff) et)).oneOrMore
    nil_notMem_bodyParts et true

theorem captures_enclosed (i : Nat) (et : EmptyTurn) :
    Step.Captures ((enclosed i).paths et) i 1 fun _ w _ vs =>
      ∃ b, b ≠ [] ∧ IsBody b ∧ w = parenthesized b ∧ vs = [some b] := by
  have hchar : ∀ c, Step.Accepts ((char c).paths et) (oneOf (· = c)) :=
    fun c => accepts_one (fun _ => has_single_iff) et
  have hall := ((Step.Captures.ofLocal (hchar '(') i).flatMap
    (.group (accepts_body et) i)).flatMap (.ofLocal (hchar ')') (i + 1))
  refine Step.Captures.congr hall fun b w u vs => ?_
  constructor
  · rintro ⟨_, _, _, _, ⟨_, _, v, _, ⟨⟨_, rfl, rfl⟩, rfl⟩, ⟨hv, rfl⟩, rfl, rfl⟩,
      ⟨⟨_, rfl, rfl⟩, rfl⟩, rfl, rfl⟩
    obtain ⟨hne, hbody⟩ := mem_bodies.mp hv
    exact ⟨v, hne, hbody, rfl, rfl⟩
  · rintro ⟨v, hne, hbody, rfl, rfl⟩
    exact ⟨'(' :: v, [some v], [')'], [], ⟨['('], [], v, [some v], ⟨⟨_, rfl, rfl⟩, rfl⟩,
      ⟨mem_bodies.mpr ⟨hne, hbody⟩, rfl⟩, rfl, rfl⟩, ⟨⟨_, rfl, rfl⟩, rfl⟩, rfl, rfl⟩

theorem prefers_enclosed {b u : Text} (h : Enclosed b s.rest u) (i : Nat) (et : EmptyTurn) :
    Step.Prefers ((enclosed i).paths et) s (parenthesized b) i [some b] := by
  obtain ⟨hne, hb, hr⟩ := id h
  refine .ofCaptures (captures_enclosed i et) ⟨b, hne, hb, rfl, rfl⟩ hr ?_
  rintro w' u' vs' ⟨b', hne', hb', rfl, rfl⟩ hr'
  obtain ⟨rfl, -⟩ := h.unique ⟨hne', hb', hr'⟩
  exact ⟨rfl, rfl⟩

theorem enclosed_eq_nil (h : ∀ b u, ¬ Enclosed b s.rest u) (i : Nat) (et : EmptyTurn) :
    (enclosed i).paths et s = [] := by
  refine (captures_enclosed i et).eq_nil fun w u vs hr hR => ?_
  obtain ⟨b, hne, hb, rfl, -⟩ := hR
  exact h b u ⟨hne, hb, hr⟩

/-! ### Marks -/

theorem prefers_body {b : Option Text} {u : Text} (h : TakesBody b s.rest u) (et : EmptyTurn) :
    Step.Prefers ((Expr.loop (enclosed 3) 0 (some 1) true).paths et) s
      (b.elim [] parenthesized) 3 [b] := by
  generalize hr : s.rest = r at h
  cases h with
  | present hb => exact (prefers_enclosed (hr ▸ hb) 3 et).optional et
  | absent hb => exact .absent (enclosed_eq_nil (hr ▸ hb) 3 et) et 3 1

theorem prefers_modifier {m : Option Modifier} {u : Text} (h : TakesModifier m s.rest u)
    (et : EmptyTurn) : Step.Prefers (modifier.paths et) s (m.elim [] Modifier.written) 5
      [m.map Modifier.written] := by
  generalize hr : s.rest = r at h
  cases h with
  | present m u =>
    have hone : ∃ c, m.written = [c] := by cases m <;> exact ⟨_, rfl⟩
    obtain ⟨c, hc⟩ := hone
    rw [hc, List.singleton_append] at hr
    have hset := prefers_one (i := 5) hr (has_modifierSet_iff.mpr ⟨m, hc⟩) et
    simp only [Option.elim_some, Option.map_some, hc]
    exact hset.group.optional et
  | absent hnone =>
    have hfails : (Expr.one modifierSet false).paths et s = [] := by
      refine paths_one_eq_nil (fun c hc => ?_) et
      rw [← Bool.not_eq_true, has_modifierSet_iff]
      rintro ⟨m, hm⟩
      obtain ⟨u, hu⟩ := List.head?_eq_some_iff.mp hc
      exact hnone m u (by rw [← hr, hu, hm]; rfl)
    exact .absent (List.map_eq_nil_iff.mpr hfails) et 5 1

theorem prefers_named {n u v : Text} {b : Option Text} (hr : s.rest = ':' :: (n ++ u))
    (hne : n ≠ []) (hn : ∀ c ∈ n, isNameChar c = true) (hu : EndsName u) (hb : TakesBody b u v)
    (et : EmptyTurn) : Step.Prefers (named.paths et) s
      (':' :: (n ++ b.elim [] parenthesized)) 2 [some n, b] := by
  have hcolon := prefers_one (i := 2) hr (has_single_iff.mpr rfl) et
  have hname := hcolon.flatMap fun t ht => (prefers_run (i := 2) hne
    (List.append_cancel_left (ht.rest.symm.trans hr)) (fun c hc => (has_nameSet c).trans (hn c hc))
    (fun c hc => (has_nameSet c).trans (hu c hc)) et).group
  have hbody := hname.flatMap fun t ht => prefers_body (u := v) (b := b) (by
    rwa [List.append_cancel_left (ht.rest.symm.trans hr)]) et
  exact hbody

theorem named_eq_nil (h : ∀ u, s.rest = ':' :: u → EndsName u) (et : EmptyTurn) :
    named.paths et s = [] := by
  have hfront : (Expr.cat (char ':') (.group 2 name)).paths et s = [] := by
    refine List.flatMap_eq_nil_iff.mpr fun t ht => List.map_eq_nil_iff.mpr ?_
    obtain ⟨_, ⟨_, rfl, rfl⟩, hs, -⟩ :=
      (accepts_one (fun _ => has_single_iff) et s t).mp ht
    exact paths_run_eq_nil (fun c hc => (has_nameSet c).trans (h t.rest hs.rest c hc)) et
  rw [named, Expr.paths, hfront, List.flatMap_nil]

/-- Where no escape begins, a mark with its modifier is preferred. -/
theorem prefers_mark {w : Text} {vs : List (Option Text)} {m : Option Modifier} {u v : Text}
    (hescape : ∀ c u, s.rest = '\\' :: c :: u → c = '\n') (hr : s.rest = w ++ u)
    (hm : TakesModifier m u v) (hlen : vs.length = 3) (et : EmptyTurn)
    (hmark : Step.Prefers ((Expr.alt named (enclosed 4)).paths et) s w 2 vs) :
    Step.Prefers (expr.paths et) s (w ++ m.elim [] Modifier.written) 1
      (none :: (vs ++ [m.map Modifier.written])) := by
  have hwhole := hmark.flatMap (b := modifier.paths et) fun t ht => by
    rw [hlen]
    exact prefers_modifier (List.append_cancel_left (hr.symm.trans ht.rest) ▸ hm) et
  exact (Step.Prefers.second (escape_eq_nil hescape et) hwhole).behind 1

/-! ### The whole -/

/-- Where the pass meets an escape or a mark, that is what the scanner prefers. -/
theorem prefers_of_begins {p : Piece} {r : Text} {vs : List (Option Text)}
    (h : Begins s.rest p r) (hvs : p.groups? = some vs) (et : EmptyTurn) :
    Step.Prefers (scanner.expr.paths et) s p.written 1 vs := by
  generalize ht : s.rest = t at h
  cases h with
  | escaped hc =>
    obtain rfl := Option.some.inj hvs
    exact (prefers_escape ht hc et).first.before 4
  | @named n u v _ b m hne hn hu hb hm =>
    obtain rfl := Option.some.inj hvs
    have hname := ((prefers_named ht hne hn hu hb et).before 1).first (b := (enclosed 4).paths et)
    have hr : s.rest = ':' :: (n ++ b.elim [] parenthesized) ++ v := by
      rw [ht, hb.eq_append]
      simp
    exact prefers_mark (by simp [ht]) hr hm rfl et hname
  | @anonymous b _ v _ m hb hm =>
    obtain rfl := Option.some.inj hvs
    obtain ⟨w, hw⟩ := hb.head
    have hname : named.paths et s = [] := named_eq_nil (by simp [ht, hw]) et
    have hbody := Step.Prefers.second hname ((prefers_enclosed (ht ▸ hb) 4 et).behind (i := 2) 2)
    exact prefers_mark (by simp [ht, hw]) (ht.trans hb.2.2) hm rfl et hbody
  | plain => cases hvs

theorem paths_eq_nil (hescape : ∀ c u, s.rest = '\\' :: c :: u → c = '\n')
    (hname : ∀ u, s.rest = ':' :: u → EndsName u) (hbody : ∀ b u, ¬ Enclosed b s.rest u)
    (et : EmptyTurn) : scanner.expr.paths et s = [] := by
  have hmarks : (Expr.alt named (enclosed 4)).paths et s = [] :=
    List.append_eq_nil_iff.mpr ⟨named_eq_nil hname et, enclosed_eq_nil hbody 4 et⟩
  have hmark : (Expr.cat (.alt named (enclosed 4)) modifier).paths et s = [] := by
    rw [Expr.paths, hmarks, List.flatMap_nil]
  exact List.append_eq_nil_iff.mpr ⟨escape_eq_nil hescape et, hmark⟩

/-- Where the pass meets a plain character, the scanner fails. -/
theorem paths_plain_eq_nil {c : Char} {r : Text} (h : Begins s.rest (.plain c) r)
    (et : EmptyTurn) : scanner.expr.paths et s = [] := by
  generalize ht : s.rest = t at h
  cases h with
  | plain hescape hname hbody =>
    refine paths_eq_nil (fun d u hr => ?_) (fun u hr => ?_) (ht ▸ hbody) et
    · obtain ⟨rfl, rfl⟩ := List.cons.inj (ht.symm.trans hr)
      exact hescape rfl d rfl
    · obtain ⟨rfl, rfl⟩ := List.cons.inj (ht.symm.trans hr)
      exact hname rfl

/-- At the end of the text the scanner fails. -/
theorem paths_end_eq_nil (h : s.rest = []) (et : EmptyTurn) : scanner.expr.paths et s = [] := by
  refine paths_eq_nil (by simp [h]) (by simp [h]) (fun b u hb => ?_) et
  obtain ⟨v, hv⟩ := hb.head
  simp [h] at hv

end Scanner

end PathTemplate.Template
