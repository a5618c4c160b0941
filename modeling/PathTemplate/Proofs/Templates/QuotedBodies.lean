import PathTemplate.Proofs.Templates.Accounting

/-!
What quoting does to the body of a group. A backslash is put in front of each parenthesis and each
dollar sign that has none to pair with, and nothing else changes; what is quoted once needs no more
quoting. Bodies of templates hold no such parentheses, so only their dollar signs are quoted.
-/
namespace PathTemplate.Quoting

/-! ### Pairs -/

/-- Is the character at this place the second of a backslash pair? Pairs are read from left to
right. -/
def isSecond : Text → Nat → Bool
  | _, 0 => false
  | '\\' :: _ :: _, 1 => true
  | '\\' :: _ :: t, i + 2 => isSecond t i
  | _ :: t, i + 1 => isSecond t i
  | [], _ + 1 => false

theorem isSecond_zero (t : Text) : isSecond t 0 = false := by
  rw [isSecond]

theorem isSecond_cons {c : Char} (hc : c ≠ '\\') (t : Text) (i : Nat) :
    isSecond (c :: t) (i + 1) = isSecond t i := by
  rw [isSecond]
  · exact fun _ _ h => absurd h hc
  · exact fun _ _ _ h => absurd h hc

/-- Every bare character has the property: every one that is not the second of a backslash pair. -/
def EachBare (P : Char → Prop) (t : Text) : Prop :=
  ∀ i c, t[i]? = some c → isSecond t i = false → P c

namespace EachBare

variable {P : Char → Prop} {c : Char} {t : Text}

theorem nil : EachBare P [] := fun _ _ h _ => nomatch h

theorem single (hc : P c) : EachBare P [c] := by
  intro i e he _
  cases i with
  | zero => exact Option.some.inj he ▸ hc
  | succ i => cases he

theorem pair (hb : P '\\') (h : EachBare P t) : EachBare P ('\\' :: c :: t) := by
  intro i e he hbare
  match i with
  | 0 => exact Option.some.inj he ▸ hb
  | 1 => cases hbare
  | i + 2 => exact h i e he hbare

theorem cons (hc : c ≠ '\\') (hP : P c) (h : EachBare P t) : EachBare P (c :: t) := by
  intro i e he hbare
  cases i with
  | zero => exact Option.some.inj he ▸ hP
  | succ i => exact h i e he (isSecond_cons hc t i ▸ hbare)

end EachBare

/-! ### Insertions -/

/-- The text with a backslash directly before each character that is chosen by its place. -/
def insertedAt (q : Nat → Char → Bool) (t : Text) : Text :=
  (t.mapIdx fun i c => if q i c then ['\\', c] else [c]).flatten

theorem insertedAt_cons (q : Nat → Char → Bool) (c : Char) (t : Text) :
    insertedAt q (c :: t) =
      (if q 0 c then ['\\', c] else [c]) ++ insertedAt (fun i => q (i + 1)) t := by
  rw [insertedAt, List.mapIdx_cons, List.flatten_cons]
  rfl

theorem insertedAt_congr {q q' : Nat → Char → Bool} {t : Text}
    (h : ∀ i c, t[i]? = some c → q i c = q' i c) : insertedAt q t = insertedAt q' t := by
  induction t generalizing q q' with
  | nil => rfl
  | cons c t ih =>
    rw [insertedAt_cons, insertedAt_cons, h 0 c rfl, ih fun i e he => h (i + 1) e he]

theorem insertedAt_false (t : Text) : insertedAt (fun _ _ => false) t = t := by
  induction t with
  | nil => rfl
  | cons c t ih => rw [insertedAt_cons, ih]; rfl

/-! ### Bodies -/

/-- Texts are cut into backslash pairs and single characters. Only a backslash at the end stands
alone. -/
theorem pairs_induction {motive : Text → Prop} (nil : motive []) (last : motive ['\\'])
    (pair : ∀ c t, motive t → motive ('\\' :: c :: t))
    (bare : ∀ c t, c ≠ '\\' → motive t → motive (c :: t)) (t : Text) : motive t := by
  induction t using groupBody.induct with
  | case1 => exact nil
  | case2 => exact last
  | case3 c t ih => exact pair c t ih
  | case4 c t hlast hpair _ ih | case5 c t hlast hpair _ ih =>
    refine bare c t ?_ ih
    rintro rfl
    cases t with
    | nil => exact hlast rfl rfl
    | cons e t => exact hpair e t rfl rfl

/-- A backslash is inserted before each guarded character that is bare. -/
theorem groupBody_eq_insertedAt (s : Text) :
    groupBody s = insertedAt (fun i c => !isSecond s i && isGuarded c) s := by
  induction s using pairs_induction with
  | nil => rfl
  | last => rfl
  | pair c t ih =>
    rw [groupBody, ih, insertedAt_cons, insertedAt_cons]
    rfl
  | bare c t hc ih =>
    rw [groupBody_cons hc, ih, insertedAt_cons]
    simp only [isSecond_zero, isSecond_cons hc, Bool.not_false, Bool.true_and]

/-- No guarded character is left bare. -/
theorem eachBare_groupBody (s : Text) : EachBare (fun c => isGuarded c = false) (groupBody s) := by
  induction s using pairs_induction with
  | nil => exact .nil
  | last => exact .single rfl
  | pair c t ih => exact .pair rfl ih
  | bare c t hc ih =>
    rw [groupBody_cons hc]
    split
    case isTrue => exact .pair rfl ih
    case isFalse hg => exact .cons hc (Bool.eq_false_iff.mpr hg) ih

/-- Where no guarded character is bare, nothing is quoted. -/
theorem groupBody_eq_self {s : Text} (h : EachBare (fun c => isGuarded c = false) s) :
    groupBody s = s := by
  rw [groupBody_eq_insertedAt]
  refine (insertedAt_congr fun i c hc => ?_).trans (insertedAt_false s)
  cases hsecond : isSecond s i with
  | true => rfl
  | false => rw [h i c hc hsecond]; rfl

end PathTemplate.Quoting

namespace PathTemplate.Template

open Quoting

/-- What a body could close or open stands in pairs. -/
theorem IsBody.eachBare {b : Text} (hb : IsBody b) : EachBare (fun c => c ≠ '(' ∧ c ≠ ')') b := by
  induction hb with
  | nil => exact .nil
  | pair _ _ ih => exact .pair (by decide) ih
  | bare hc hopen hclose _ ih => exact .cons hc ⟨hopen, hclose⟩ ih

theorem IsBody.groupBody_eq {b : Text} (hb : IsBody b) :
    groupBody b = insertedAt (fun i c => !isSecond b i && c == '$') b := by
  rw [groupBody_eq_insertedAt]
  refine insertedAt_congr fun i c hc => ?_
  cases hsecond : isSecond b i with
  | true => rfl
  | false =>
    obtain ⟨hopen, hclose⟩ := hb.eachBare i c hc hsecond
    simp [isGuarded, hopen, hclose]

/-- Quoting inserts a backslash before each parenthesis and each dollar sign that is bare, and
changes nothing else. None of these is bare then, and quoting again changes nothing at all. The body
of a mark has no bare parentheses, so only its bare dollar signs are quoted. -/
theorem groupBody_quotes (s : Text) :
    groupBody s =
      insertedAt (fun i c => !isSecond s i && (c == '(' || c == ')' || c == '$')) s ∧
    EachBare (fun c => c ≠ '(' ∧ c ≠ ')' ∧ c ≠ '$') (groupBody s) ∧
    groupBody (groupBody s) = groupBody s ∧
    ∀ t m, .mark m ∈ pieces t → m.body = some s →
      EachBare (fun c => c ≠ '(' ∧ c ≠ ')') s ∧
      groupBody s = insertedAt (fun i c => !isSecond s i && c == '$') s := by
  have hunguarded := eachBare_groupBody s
  refine ⟨groupBody_eq_insertedAt s, fun i c hc hbare => ?_, groupBody_eq_self hunguarded,
    fun t m hm hs => ?_⟩
  · simpa [isGuarded, and_assoc] using hunguarded i c hc hbare
  · obtain ⟨-, hbody⟩ := (wellFormed_of_mem_pieces hm).body s hs
    exact ⟨hbody.eachBare, hbody.groupBody_eq⟩

/-- In the body of `:x(a$\\$\(b\$)` two of the three dollar signs are bare and are quoted. The
third one and the parenthesis stand in pairs. -/
theorem groupBody_quotes_dollar :
    .mark ⟨some ['x'], some "a$\\\\$\\(b\\$".toList, none⟩ ∈ pieces ":x(a$\\\\$\\(b\\$)".toList ∧
    EachBare (fun c => c ≠ '(' ∧ c ≠ ')') "a$\\\\$\\(b\\$".toList ∧
    groupBody "a$\\\\$\\(b\\$".toList = "a\\$\\\\\\$\\(b\\$".toList := by
  have hm : .mark ⟨some ['x'], some "a$\\\\$\\(b\\$".toList, none⟩ ∈
    pieces ":x(a$\\\\$\\(b\\$)".toList := by decide
  obtain ⟨-, -, -, hbody⟩ := groupBody_quotes "a$\\\\$\\(b\\$".toList
  obtain ⟨hbare, hquoted⟩ := hbody _ _ hm rfl
  exact ⟨hm, hbare, hquoted.trans (by decide)⟩

end PathTemplate.Template
