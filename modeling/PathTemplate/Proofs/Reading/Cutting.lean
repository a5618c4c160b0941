import PathTemplate.Expression.Compiled
import PathTemplate.Proofs.Reading.Seams

/-!
Cutting texts into lexemes. A lexeme settles up to a seam, so a text that is cut by itself is cut
in the same places inside a larger one, as long as a seam follows it there.
-/
namespace PathTemplate.Expression

/-! ### One lexeme -/

/-- A parenthesis that is not marked captures. -/
theorem opening_settles {t : Text} {x : Lexeme} {r : Text} (h : opening .path t = some (x, r)) :
    ∃ v, t = v ++ r ∧ Whole v ∧ ∀ u, SameToSeam r u → opening .path (v ++ u) = some (x, u) := by
  unfold opening at h
  split at h
  case _ t =>
    obtain ⟨v, rfl, ⟨-, hv⟩, hread⟩ := settles_marked _ _ _ h
    exact ⟨'?' :: v, rfl, .bare (by decide) hv, fun u _ => hread u⟩
  case _ hmark =>
    obtain ⟨rfl, rfl⟩ := Prod.mk.inj (Option.some.inj h)
    refine ⟨[], rfl, .nil, ?_⟩
    intro u hu
    have hplain := hu.head (p := (· = '?')) (by decide) (by decide)
      (fun c q hq hc => hmark q (by rw [hq, hc]))
    rw [List.nil_append, opening]
    intro q hq
    exact hplain '?' q hq rfl

/-- A character that is a lexeme whatever follows it. -/
private theorem single_settles {c : Char} {y : Lexeme} (hc : c ≠ '\\')
    (hall : ∀ u, lexeme .path (c :: u) = some (y, u)) {t : Text} {x : Lexeme} {r : Text}
    (h : lexeme .path (c :: t) = some (x, r)) :
    ∃ v, c :: t = v ++ r ∧ v ≠ [] ∧ Whole v ∧
      ∀ u, SameToSeam r u → lexeme .path (v ++ u) = some (x, u) := by
  rw [hall] at h
  obtain ⟨rfl, rfl⟩ := Prod.mk.inj (Option.some.inj h)
  exact ⟨[c], rfl, by simp, .bare hc .nil, fun u _ => hall u⟩

/-- Counts between braces end at the closing brace; without them the brace stands for itself, and
what follows a seam cannot make counts of it. -/
private theorem brace_settles {t : Text} {x : Lexeme} {r : Text}
    (h : lexeme .path ('\x7b' :: t) = some (x, r)) :
    ∃ v, t = v ++ r ∧ Whole v ∧
      ∀ u, SameToSeam r u → lexeme .path ('\x7b' :: (v ++ u)) = some (x, u) := by
  rw [lexeme] at h
  split at h
  case _ lo hi s hcount =>
    obtain ⟨rfl, rfl⟩ := Prod.mk.inj (Option.some.inj h)
    obtain ⟨v, rfl, hv, hsettled⟩ := count?_settles hcount
    refine ⟨v, rfl, whole_of_bare ?_, ?_⟩
    · intro c hc hb
      rcases hv c hc with hd | hd | hd <;> rw [hb] at hd <;> revert hd <;> decide
    · intro u _
      have hupTo : ∀ q : Text, upTo (v ++ q) q = v := by
        intro q
        simp [upTo]
      rw [lexeme, hsettled]
      simp only [hupTo]
  case _ hcount =>
    rw [if_pos rfl] at h
    obtain ⟨rfl, rfl⟩ := Prod.mk.inj (Option.some.inj h)
    refine ⟨[], rfl, .nil, ?_⟩
    intro u hu
    rw [List.nil_append, lexeme, count?_eq_none hu hcount]
    rfl

/-- A lexeme takes at least one character, and settles up to a seam. -/
theorem lexeme_settles {t : Text} {x : Lexeme} {r : Text} (h : lexeme .path t = some (x, r)) :
    ∃ v, t = v ++ r ∧ v ≠ [] ∧ Whole v ∧
      ∀ u, SameToSeam r u → lexeme .path (v ++ u) = some (x, u) := by
  have hread := h
  unfold lexeme at h
  split at h
  case _ => cases h
  case _ t => exact single_settles (by decide) (fun _ => rfl) hread
  case _ t => exact single_settles (by decide) (fun _ => rfl) hread
  case _ t => exact single_settles (by decide) (fun _ => rfl) hread
  case _ t => exact single_settles (by decide) (fun _ => rfl) hread
  case _ t => exact single_settles (by decide) (fun _ => rfl) hread
  case _ t => exact single_settles (by decide) (fun _ => rfl) hread
  case _ t => exact single_settles (by decide) (fun _ => rfl) hread
  case _ t => exact single_settles (by decide) (fun _ => rfl) hread
  case _ t =>
    obtain ⟨v, rfl, hv, hopening⟩ := opening_settles h
    exact ⟨'(' :: v, rfl, by simp, .bare (by decide) hv, hopening⟩
  case _ t =>
    obtain ⟨p, hp, heq⟩ := Option.map_eq_some_iff.mp h
    obtain ⟨rfl, rfl⟩ := Prod.mk.inj heq
    obtain ⟨v, rfl, ⟨hv, -⟩, hset⟩ := Bracket.settles_set .path _ p.1 p.2 hp
    refine ⟨'[' :: v, rfl, by simp, .bare (by decide) hv, ?_⟩
    intro u _
    rw [List.cons_append, lexeme, hset]
    rfl
  case _ t =>
    obtain ⟨v, rfl, hv, hescape⟩ := pathEscape_settles h
    exact ⟨'\\' :: v, rfl, by simp, hv, hescape⟩
  case _ t =>
    obtain ⟨v, rfl, hv, hbrace⟩ := brace_settles hread
    exact ⟨'\x7b' :: v, rfl, by simp, .bare (by decide) hv, hbrace⟩
  case _ c t _ _ _ _ _ _ _ _ _ _ hb _ =>
    refine single_settles (y := .char c true true) hb ?_ hread
    intro u
    rw [lexeme]
    all_goals assumption

/-! ### Many lexemes -/

structure Cut where
  text : Text
  lexeme : Lexeme
  deriving Repr

/-- Cuts the text to its end. Every lexeme takes at least one character. -/
def cutsFrom : Nat → Text → Option (List Cut)
  | _, [] => some []
  | 0, _ :: _ => none
  | n + 1, t =>
    match lexeme .path t with
    | some (x, r) => (cutsFrom n r).map (⟨upTo t r, x⟩ :: ·)
    | none => none

def cuts (t : Text) : Option (List Cut) := cutsFrom t.length t

def Cut.texts (cs : List Cut) : Text := cs.flatMap Cut.text

/-- Cutting the first text gives these lexemes and leaves the second text. -/
inductive Cuts : Text → List Cut → Text → Prop
  | stop (t : Text) : Cuts t [] t
  | more {v r u : Text} {x : Lexeme} {cs : List Cut} : lexeme .path (v ++ r) = some (x, r) →
      Cuts r cs u → Cuts (v ++ r) (⟨v, x⟩ :: cs) u

theorem Cut.texts_append (cs ds : List Cut) : Cut.texts (cs ++ ds) = Cut.texts cs ++ Cut.texts ds :=
  List.flatMap_append

namespace Cuts

theorem trans {t r u : Text} {cs ds : List Cut} (h : Cuts t cs r) (h' : Cuts r ds u) :
    Cuts t (cs ++ ds) u := by
  induction h with
  | stop => exact h'
  | more hx _ ih => exact .more hx (ih h')

theorem texts_eq {t u : Text} {cs : List Cut} (h : Cuts t cs u) : t = Cut.texts cs ++ u := by
  induction h with
  | stop => rfl
  | @more v r u x cs _ _ ih =>
    rw [Cut.texts, List.flatMap_cons, List.append_assoc, ← Cut.texts, ← ih]

theorem text_length_pos {t u : Text} {c : Cut} {cs : List Cut} (h : Cuts t (c :: cs) u) :
    0 < c.text.length := by
  cases h with
  | more hx _ =>
    obtain ⟨v, hv, hne, -, -⟩ := lexeme_settles hx
    obtain rfl := List.append_cancel_right hv
    exact List.length_pos_iff.mpr hne

theorem texts_whole {t : Text} {cs : List Cut} (h : Cuts t cs []) : Cut.texts cs = t := by
  rw [h.texts_eq, List.append_nil]

theorem split {t u : Text} {cs ds : List Cut} (h : Cuts t (cs ++ ds) u) :
    ∃ r, Cuts t cs r ∧ Cuts r ds u := by
  induction cs generalizing t with
  | nil => exact ⟨t, .stop t, h⟩
  | cons c cs ih =>
    cases h with
    | more hx hrest =>
      obtain ⟨r, hr, hds⟩ := ih hrest
      exact ⟨r, .more hx hr, hds⟩

/-- Nothing is cut from the empty text. -/
theorem eq_nil {cs : List Cut} {u : Text} (h : Cuts [] cs u) : cs = [] := by
  generalize ht : ([] : Text) = t at h
  cases h with
  | stop => rfl
  | more hx _ =>
    rw [← ht] at hx
    cases hx

/-- There is one way to cut a text. -/
theorem unique {t u : Text} {cs ds : List Cut} (h : Cuts t cs u) (h' : Cuts t ds []) :
    ∃ es, ds = cs ++ es ∧ Cuts u es [] := by
  induction h generalizing ds with
  | stop t => exact ⟨ds, rfl, h'⟩
  | @more v r u x cs hx hcs ih =>
    generalize ht : v ++ r = t at h'
    cases h' with
    | stop =>
      rw [ht] at hx
      cases hx
    | @more w q _ y ds hy hds =>
      rw [ht, hy] at hx
      obtain ⟨rfl, rfl⟩ := Prod.mk.inj (Option.some.inj hx)
      obtain rfl := List.append_cancel_right ht
      obtain ⟨es, rfl, hes⟩ := ih hds
      exact ⟨es, rfl, hes⟩

/-- What is cut in front of a seam is cut alike in front of every seam. -/
theorem seam {s w w' : Text} {cs : List Cut} (h : Cuts (s ++ w) cs w) (hw : Seam w)
    (hw' : Seam w') : Cuts (s ++ w') cs w' := by
  generalize ht : s ++ w = t at h
  induction h generalizing s with
  | stop =>
    obtain rfl : s = [] := by simpa using ht
    exact .stop w'
  | @more v r w x cs hx hcs ih =>
    have hr := hcs.texts_eq
    rw [hr, ← List.append_assoc] at ht
    obtain rfl := List.append_cancel_right ht
    have hrest := ih hw hr.symm
    obtain ⟨v', hv', -, -, hread⟩ := lexeme_settles hx
    obtain rfl := List.append_cancel_right hv'
    rw [List.append_assoc]
    exact .more (hread _ ⟨Cut.texts cs, w, w', hr, rfl, hw, hw'⟩) hrest

end Cuts

theorem cutsFrom_eq {t : Text} {cs : List Cut} (h : Cuts t cs []) (n : Nat) (hn : t.length ≤ n) :
    cutsFrom n t = some cs := by
  generalize hu : ([] : Text) = u at h
  induction h generalizing n with
  | stop t =>
    subst hu
    cases n <;> rfl
  | @more v r u x cs hx _ ih =>
    obtain ⟨v', hv', hne, -, -⟩ := lexeme_settles hx
    obtain rfl := List.append_cancel_right hv'
    obtain ⟨c, v, rfl⟩ := List.exists_cons_of_ne_nil hne
    rw [List.length_append, List.length_cons] at hn
    obtain ⟨n, rfl⟩ : ∃ k, n = k + 1 := ⟨n - 1, by omega⟩
    rw [List.cons_append] at hx ⊢
    rw [cutsFrom, hx]
    · simp only [ih n (by omega) hu, Option.map_some]
      rw [← List.cons_append, upTo_append]
    · simp

theorem cuts_of_cutsFrom {n : Nat} {t : Text} {cs : List Cut} (h : cutsFrom n t = some cs) :
    Cuts t cs [] := by
  induction n generalizing t cs with
  | zero =>
    cases t with
    | nil =>
      obtain rfl := Option.some.inj h
      exact .stop []
    | cons c t => cases h
  | succ n ih =>
    cases t with
    | nil =>
      obtain rfl := Option.some.inj h
      exact .stop []
    | cons c t =>
      rw [cutsFrom] at h
      · cases hx : lexeme .path (c :: t) with
        | none =>
          rw [hx] at h
          cases h
        | some p =>
          obtain ⟨x, r⟩ := p
          simp only [hx] at h
          obtain ⟨ds, hds, rfl⟩ := Option.map_eq_some_iff.mp h
          obtain ⟨v, hv, -, -, -⟩ := lexeme_settles hx
          rw [hv] at hx ⊢
          rw [upTo_append]
          exact .more hx (ih hds)
      · simp

theorem cuts_eq_some_iff {t : Text} {cs : List Cut} : cuts t = some cs ↔ Cuts t cs [] :=
  ⟨cuts_of_cutsFrom, fun h => cutsFrom_eq h t.length (Nat.le_refl _)⟩

/-- The lexemes of a text are those it is cut into. -/
theorem lexemes_eq (t : Text) : lexemes .path t = (cuts t).map (·.map Cut.lexeme) := by
  have hfrom : ∀ (n : Nat) (t : Text),
      lexemesFrom .path n t = (cutsFrom n t).map (·.map Cut.lexeme) := by
    intro n
    induction n with
    | zero =>
      intro t
      cases t <;> rfl
    | succ n ih =>
      intro t
      cases t with
      | nil => rfl
      | cons c t =>
        rw [lexemesFrom, cutsFrom]
        · cases lexeme .path (c :: t) with
          | none => rfl
          | some p =>
            simp only [ih, Option.map_map]
            rfl
        all_goals simp
  exact hfrom t.length t

/-- Every lexeme of a text is read somewhere. -/
theorem exists_lexeme_of_mem {t : Text} {xs : List Lexeme} (h : lexemes .path t = some xs) :
    ∀ x ∈ xs, ∃ v r, lexeme .path v = some (x, r) := by
  have hcuts : ∀ {t u : Text} {cs : List Cut}, Cuts t cs u →
      ∀ c ∈ cs, ∃ v r, lexeme .path v = some (c.lexeme, r) := by
    intro t u cs hcs
    induction hcs with
    | stop => simp
    | more hx _ ih => exact List.forall_mem_cons.mpr ⟨⟨_, _, hx⟩, ih⟩
  rw [lexemes_eq, Option.map_eq_some_iff] at h
  obtain ⟨cs, hcs, rfl⟩ := h
  intro x hx
  obtain ⟨c, hc, rfl⟩ := List.mem_map.mp hx
  exact hcuts (cuts_eq_some_iff.mp hcs) c hc

/-! ### Texts whose sets are known -/

def Lexeme.isSettled : Lexeme → Bool
  | .set s => !s.isSpelled
  | _ => true

/-- Counting brackets finds the sets of the text, and finds them where they are written. -/
def Clear (t : Text) : Prop := ∃ xs, lexemes .path t = some xs ∧ ∀ x ∈ xs, x.isSettled

instance (t : Text) : Decidable (Clear t) :=
  decidable_of_iff ((lexemes .path t).any fun xs => xs.all Lexeme.isSettled) (by
    rw [Option.any_eq_true]
    simp [Clear])

theorem clear_iff_cuts {t : Text} :
    Clear t ↔ ∃ cs, Cuts t cs [] ∧ ∀ c ∈ cs, c.lexeme.isSettled := by
  simp only [Clear, lexemes_eq, Option.map_eq_some_iff, cuts_eq_some_iff]
  constructor
  · rintro ⟨_, ⟨cs, hcs, rfl⟩, hall⟩
    exact ⟨cs, hcs, fun c hc => hall _ (List.mem_map_of_mem hc)⟩
  · rintro ⟨cs, hcs, hall⟩
    exact ⟨_, ⟨cs, hcs, rfl⟩, by simpa using hall⟩

namespace Clear

variable {t u : Text}

theorem rest {cs : List Cut} (h : Clear t) (hcuts : Cuts t cs u) : Clear u := by
  obtain ⟨ds, hds, hall⟩ := clear_iff_cuts.mp h
  obtain ⟨es, rfl, hes⟩ := hcuts.unique hds
  exact clear_iff_cuts.mpr ⟨es, hes, fun c hc => hall c (List.mem_append_right cs hc)⟩

theorem append (h : Clear t) (hu : Seam u) (h' : Clear u) : Clear (t ++ u) := by
  obtain ⟨cs, hcs, hall⟩ := clear_iff_cuts.mp h
  obtain ⟨ds, hds, hall'⟩ := clear_iff_cuts.mp h'
  rw [← List.append_nil t] at hcs
  refine clear_iff_cuts.mpr ⟨cs ++ ds, (hcs.seam seam_nil hu).trans hds, ?_⟩
  intro c hc
  rcases List.mem_append.mp hc with hc | hc
  · exact hall c hc
  · exact hall' c hc

/-- The first lexeme of a text whose sets are known. -/
theorem head {c : Char} (h : Clear (c :: t)) :
    ∃ x r, lexeme .path (c :: t) = some (x, r) ∧ x.isSettled := by
  obtain ⟨cs, hcs, hall⟩ := clear_iff_cuts.mp h
  generalize hw : c :: t = w at hcs
  generalize hu : ([] : Text) = u at hcs
  cases hcs with
  | stop => rw [← hu] at hw; cases hw
  | more hx _ => exact ⟨_, _, hx, hall _ List.mem_cons_self⟩

end Clear

/-- Every set is known in the expression that the text is read as. -/
def Settled (t : Text) : Prop := ∀ e n, read .path t = some (e, n) → e.isSettled = true

instance (t : Text) : Decidable (Settled t) :=
  decidable_of_iff ((read .path t).all fun p => p.1.isSettled) (by
    rw [Option.all_eq_true]
    simp [Settled])

theorem isSome_read {t : Text} {c : Compiled} (h : Compiled.read .path t = some c) :
    (Expression.read .path t).isSome = true := by
  rw [Compiled.read] at h
  cases hread : Expression.read .path t with
  | none =>
    rw [hread] at h
    cases h
  | some p => rfl

/-- An expression that is not handed on is compiled as it is, if no plain loop asks for too much. -/
theorem read_of_isSettled {d : Dialect} {t : Text} {e : Expr} {n : Nat}
    (h : Expression.read d t = some (e, n)) (hs : d = .segment ∨ e.isSettled = true) :
    Compiled.read d t = if e.boundsOk e.isPlain then some ⟨e, n⟩ else none := by
  rw [Compiled.read, h]
  simp only [hs, if_true]

theorem Settled.read_of_compiled {t : Text} (h : Settled t) {c : Compiled}
    (hc : Compiled.read .path t = some c) : Expression.read .path t = some (c.expr, c.groups) := by
  obtain ⟨⟨e, n⟩, hread⟩ := Option.isSome_iff_exists.mp (isSome_read hc)
  rw [read_of_isSettled hread (.inr (h e n hread)), Option.ite_none_right_eq_some] at hc
  rw [hread, ← Option.some.inj hc.2]

theorem Settled.isSettled {t : Text} (h : Settled t) {c : Compiled}
    (hc : Compiled.read .path t = some c) : c.expr.isSettled = true := h _ _ (h.read_of_compiled hc)

end PathTemplate.Expression
