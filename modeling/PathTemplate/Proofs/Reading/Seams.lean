import PathTemplate.Proofs.Reading.Brackets

/-!
Seams: the ends of texts, closing parentheses and bars. What a reader looks at behind the text it
takes, it does not see behind a seam: digits of a number, the mark of a parenthesis, a count.
-/
namespace PathTemplate.Expression

/-! ### Seams -/

/-- The text ends here, or goes on with a closing parenthesis or a bar. -/
def Seam (t : Text) : Prop := ∀ c u, t = c :: u → c = ')' ∨ c = '|'

/-- The texts are the same up to a seam in each. -/
def SameToSeam (t u : Text) : Prop := ∃ s w w', t = s ++ w ∧ u = s ++ w' ∧ Seam w ∧ Seam w'

theorem seam_nil : Seam [] := by
  intro c u h
  cases h

theorem seam_close (t : Text) : Seam (')' :: t) := by
  intro c u h
  exact .inl (List.cons.inj h).1.symm

theorem seam_bar (t : Text) : Seam ('|' :: t) := by
  intro c u h
  exact .inr (List.cons.inj h).1.symm

/-- What cannot begin a seam begins both texts or neither. -/
theorem SameToSeam.head {t u : Text} (h : SameToSeam t u) {p : Char → Prop} (hclose : ¬ p ')')
    (hbar : ¬ p '|') (ht : ∀ c r, t = c :: r → ¬ p c) : ∀ c r, u = c :: r → ¬ p c := by
  obtain ⟨s, w, w', rfl, rfl, -, hw'⟩ := h
  intro c r hr
  cases s with
  | nil =>
    rcases hw' c r hr with rfl | rfl
    · exact hclose
    · exact hbar
  | cons e s =>
    obtain ⟨rfl, -⟩ := List.cons.inj hr
    exact ht e (s ++ w) rfl

/-! ### Counts -/

theorem digits?_inv {t : Text} {n : Nat} {r : Text} (h : digits? t = some (n, r)) :
    ∃ v, t = v ++ r ∧ v ≠ [] ∧ (∀ c ∈ v, c.isDigit = true) ∧ n = Text.decimal v := by
  rw [digits?] at h
  cases hspan : t.span Char.isDigit with
  | mk v q =>
    obtain ⟨rfl, hv, -⟩ := span_inv hspan
    simp only [hspan] at h
    split at h
    case isTrue => cases h
    case isFalse hne =>
      obtain ⟨rfl, rfl⟩ := Prod.mk.inj (Option.some.inj h)
      exact ⟨v, rfl, by simpa using hne, hv, rfl⟩

theorem digits?_stop {v : Text} (hne : v ≠ []) (hv : ∀ c ∈ v, c.isDigit = true) {c : Char}
    (hc : c.isDigit = false) (r : Text) :
    digits? (v ++ c :: r) = some (Text.decimal v, c :: r) := by
  rw [digits?, span_stop hv hc]
  simp [hne]

def Counting (c : Char) : Prop := c.isDigit = true ∨ c = ',' ∨ c = '}'

theorem bound_inv {t : Text} {n : Nat} {r : Text} (h : bound .path t = some (n, r)) :
    ∃ v, t = v ++ r ∧ v ≠ [] ∧ (∀ c ∈ v, c.isDigit = true) ∧
      ∀ c u, c.isDigit = false → bound .path (v ++ c :: u) = some (n, c :: u) := by
  obtain ⟨⟨m, q⟩, hdigits, heq⟩ := Option.map_eq_some_iff.mp h
  obtain ⟨rfl, rfl⟩ := Prod.mk.inj heq
  obtain ⟨v, ht, hne, hv, rfl⟩ := digits?_inv hdigits
  refine ⟨v, ht, hne, hv, ?_⟩
  intro c u hc
  rw [bound, skipBlanks, digits?_stop hne hv hc]
  rfl

private theorem lowerBound_inv {t : Text} {n : Nat} {c : Char} {r : Text}
    (h : lowerBound .path t = some (n, c :: r)) (hc : c.isDigit = false) :
    ∃ v, t = v ++ c :: r ∧ (∀ c ∈ v, c.isDigit = true) ∧
      ∀ u, lowerBound .path (v ++ c :: u) = some (n, c :: u) := by
  unfold lowerBound at h
  split at h
  case _ =>
    obtain ⟨rfl, heq⟩ := Prod.mk.inj (Option.some.inj h)
    obtain ⟨rfl, rfl⟩ := List.cons.inj heq
    exact ⟨[], rfl, by simp, fun _ => rfl⟩
  case _ =>
    obtain ⟨v, rfl, hne, hv, hread⟩ := bound_inv h
    refine ⟨v, rfl, hv, ?_⟩
    intro u
    rw [lowerBound]
    · exact hread c u hc
    · intro r' _ hr'
      obtain ⟨e, v, rfl⟩ := List.exists_cons_of_ne_nil hne
      rw [List.cons_append] at hr'
      have hdigit := hv e List.mem_cons_self
      rw [(List.cons.inj hr').1] at hdigit
      exact absurd hdigit (by decide)

theorem count?_settles {t : Text} {lo : Nat} {hi : Option Nat} {r : Text}
    (h : count? .path t = some (lo, hi, r)) :
    ∃ v, t = v ++ r ∧ (∀ c ∈ v, Counting c) ∧ ∀ u, count? .path (v ++ u) = some (lo, hi, u) := by
  unfold count? at h
  split at h
  case _ lo' r' hlower =>
    obtain ⟨rfl, rfl, rfl⟩ : lo' = lo ∧ some lo' = hi ∧ r' = r := by simpa using h
    obtain ⟨v, rfl, hv, hread⟩ := lowerBound_inv hlower (by decide)
    refine ⟨v ++ ['}'], by simp, ?_, ?_⟩
    · intro c hc
      rcases List.mem_append.mp hc with hc | hc
      · exact .inl (hv c hc)
      · exact .inr (.inr (List.mem_singleton.mp hc))
    · intro u
      rw [List.append_assoc, List.singleton_append, count?, hread]
      rfl
  case _ lo' r' hlower =>
    obtain ⟨rfl, rfl, rfl⟩ : lo' = lo ∧ none = hi ∧ r' = r := by simpa using h
    obtain ⟨v, rfl, hv, hread⟩ := lowerBound_inv hlower (by decide)
    refine ⟨v ++ [',', '}'], by simp, ?_, ?_⟩
    · intro c hc
      rcases List.mem_append.mp hc with hc | hc
      · exact .inl (hv c hc)
      · simp only [List.mem_cons, List.not_mem_nil, or_false] at hc
        exact .inr hc
    · intro u
      have htext : v ++ [',', '}'] ++ u = v ++ ',' :: '}' :: u := by simp
      rw [htext, count?, hread]
      rfl
  case _ lo' r' hopen hlower =>
    split at h
    case _ hi' r'' hupper =>
      obtain ⟨rfl, rfl, rfl⟩ : lo' = lo ∧ some hi' = hi ∧ r'' = r := by simpa using h
      obtain ⟨v, rfl, hv, hread⟩ := lowerBound_inv hlower (by decide)
      obtain ⟨w, rfl, hne, hw, hbound⟩ := bound_inv hupper
      refine ⟨v ++ ',' :: w ++ ['}'], by simp, ?_, ?_⟩
      · intro c hc
        simp only [List.mem_append, List.mem_cons, List.not_mem_nil, or_false] at hc
        rcases hc with (hc | rfl | hc) | rfl
        · exact .inl (hv c hc)
        · exact .inr (.inl rfl)
        · exact .inl (hw c hc)
        · exact .inr (.inr rfl)
      · intro u
        have htext : v ++ ',' :: w ++ ['}'] ++ u = v ++ ',' :: (w ++ '}' :: u) := by simp
        have hbrace : ∀ q, w ++ '}' :: u ≠ '}' :: q := by
          intro q hq
          obtain ⟨e, w, rfl⟩ := List.exists_cons_of_ne_nil hne
          have hdigit := hw e List.mem_cons_self
          rw [(List.cons.inj hq).1] at hdigit
          exact absurd hdigit (by decide)
        rw [htext, count?, hread]
        simp only [hbound '}' u (by decide)]
    case _ => cases h
  case _ => cases h

/-- Text up to a seam begins a count, or does not, whatever the seam is. -/
theorem count?_eq_none {t u : Text} (h : SameToSeam t u) (ht : count? .path t = none) :
    count? .path u = none := by
  cases hu : count? .path u with
  | none => rfl
  | some p =>
    obtain ⟨lo, hi, r⟩ := p
    obtain ⟨v, rfl, hv, hread⟩ := count?_settles hu
    obtain ⟨s, w, w', rfl, htext, -, hw'⟩ := h
    have hprefix : ∃ s', s = v ++ s' := by
      rcases List.append_eq_append_iff.mp htext with ⟨z, hz, -⟩ | ⟨z, rfl, hz⟩
      · exact ⟨z, hz⟩
      · cases z with
        | nil => exact ⟨[], by simp⟩
        | cons c z =>
          have hc : Counting c := hv c (by simp)
          rcases hw' c _ hz with rfl | rfl
          · rcases hc with hc | hc | hc <;> exact absurd hc (by decide)
          · rcases hc with hc | hc | hc <;> exact absurd hc (by decide)
    obtain ⟨s', rfl⟩ := hprefix
    rw [List.append_assoc, hread] at ht
    cases ht

/-! ### Escapes outside brackets -/

theorem pathEscape_digits {v : Text} {c : Char} (hv : ∀ e ∈ c :: v, e.isDigit = true) {u : Text}
    (hu : ∀ e r, u = e :: r → ¬ e.isDigit = true) :
    pathEscape false (c :: v ++ u) = some (.again (.number (Text.decimal (c :: v))), u) := by
  have hspan : (c :: (v ++ u)).span Char.isDigit = (c :: v, u) :=
    span_run hv fun e r hr => by simpa using hu e r hr
  have hc := hv c List.mem_cons_self
  have hletter : c ∉ pathLetters := by
    intro hmem
    have hall : ∀ e ∈ pathLetters, e.isDigit = false := by decide
    rw [hall c hmem] at hc
    cases hc
  rw [List.cons_append, pathEscape_cons false hletter, if_pos hc, if_neg Bool.false_ne_true, hspan]

/-- A number goes on with digits, so it ends where they do. -/
private theorem pathEscape_number {c : Char} {t : Text} {x : Lexeme} {r : Text}
    (hd : c.isDigit = true) (h : pathEscape false (c :: t) = some (x, r)) :
    ∃ v, c :: t = v ++ r ∧ Completes v ∧
      ∀ u, SameToSeam r u → pathEscape false (v ++ u) = some (x, u) := by
  cases hspan : (c :: t).span Char.isDigit with
  | mk v q =>
    obtain ⟨ht, hv, hstop⟩ := span_inv hspan
    obtain ⟨w, rfl⟩ : ∃ w, v = c :: w := by
      cases v with
      | nil => exact absurd hd (by simp [hstop c t ht.symm])
      | cons e w => exact ⟨w, by rw [(List.cons.inj ht).1]⟩
    have hnumber := pathEscape_digits hv (u := q) fun e s hs => by simp [hstop e s hs]
    rw [ht, hnumber] at h
    obtain ⟨rfl, rfl⟩ := Prod.mk.inj (Option.some.inj h)
    refine ⟨c :: w, ht, .pair (whole_of_bare ?_), ?_⟩
    · intro e he hb
      have hdigit := hv e (List.mem_cons_of_mem c he)
      rw [hb] at hdigit
      exact absurd hdigit (by decide)
    · intro u hu
      refine pathEscape_digits hv (hu.head (by decide) (by decide) ?_)
      intro e s hs
      simp [hstop e s hs]

theorem pathEscape_settles {t : Text} {x : Lexeme} {r : Text}
    (h : pathEscape false t = some (x, r)) :
    ∃ v, t = v ++ r ∧ Completes v ∧
      ∀ u, SameToSeam r u → pathEscape false (v ++ u) = some (x, u) := by
  have hany : (∃ v, t = v ++ r ∧ Completes v ∧ ∀ u, pathEscape false (v ++ u) = some (x, u)) →
      ∃ v, t = v ++ r ∧ Completes v ∧
        ∀ u, SameToSeam r u → pathEscape false (v ++ u) = some (x, u) := by
    intro hsettled
    obtain ⟨v, ht, hv, hread⟩ := hsettled
    exact ⟨v, ht, hv, fun u _ => hread u⟩
  have hread := h
  unfold pathEscape at h
  split at h
  case _ => cases h
  case _ t => exact hany (settles_fixed ['e'] (fun _ => rfl) (.pair .nil) hread)
  case _ t => exact hany (settles_fixed ['h'] (fun _ => rfl) (.pair .nil) hread)
  case _ t => exact hany (settles_fixed ['H'] (fun _ => rfl) (.pair .nil) hread)
  case _ t => exact hany (settles_fixed ['b'] (fun _ => rfl) (.pair .nil) hread)
  case _ t => exact hany (settles_fixed ['G'] (fun _ => rfl) (.pair .nil) hread)
  case _ t =>
    exact hany ((settles_nameUpTo (by decide) (by decide)).behind (.again <| .name ·) ['k', '<']
      (fun _ => rfl) (fun _ hv => .pair (.bare (by decide) hv)) hread)
  case _ t =>
    exact hany ((settles_nameUpTo (by decide) (by decide)).behind (.again <| .name ·) ['k', '\'']
      (fun _ => rfl) (fun _ hv => .pair (.bare (by decide) hv)) hread)
  case _ c t he hh hH hb hG _ _ =>
    split at h
    case isTrue hd => exact pathEscape_number hd hread
    case isFalse hd =>
      by_cases hk : c = 'k'
      · subst hk
        cases h
      · have hc : c ∉ pathLetters := by
          simp only [pathLetters, List.mem_cons, List.not_mem_nil, or_false, not_or]
          exact ⟨he, hh, hH, hb, hG, hk⟩
        exact hany (settles_pathEscape_other false hc (by simpa using hd) hread)

/-! ### Parentheses -/

theorem flagsFrom_cons {changes : FlagChanges} {seen : List Char} {on : Bool} {c : Char}
    (hc : c ≠ '-') (t : Text) :
    flagsFrom .path changes seen on (c :: t) =
      if c == ':' || c == ')' then
        if flagsMayEnd .path seen c then some (changes, c, t) else none
      else match flagHere? .path seen on c with
        | none => none
        | some f => flagsFrom .path (changes ++ f.toList.map (·, on)) (c :: seen) on t := by
  rw [flagsFrom]
  all_goals first | rfl | exact hc

theorem flagsFrom_settles {t : Text} {changes changes' : FlagChanges} {seen : List Char}
    {on : Bool} {c : Char} {r : Text}
    (h : flagsFrom .path changes seen on t = some (changes', c, r)) :
    ∃ v, t = v ++ r ∧ v ≠ [] ∧ Whole v ∧
      ∀ u, flagsFrom .path changes seen on (v ++ u) = some (changes', c, u) := by
  induction t generalizing changes seen on with
  | nil => cases h
  | cons e t ih =>
    by_cases hminus : e = '-'
    · subst hminus
      rw [flagsFrom] at h
      split at h
      case isTrue hon =>
        obtain ⟨v, rfl, -, hv, hread⟩ := ih h
        refine ⟨'-' :: v, rfl, by simp, .bare (by decide) hv, ?_⟩
        intro u
        rw [List.cons_append, flagsFrom, if_pos hon]
        exact hread u
      case isFalse => cases h
    · rw [flagsFrom_cons hminus] at h
      split at h
      case isTrue hend =>
        split at h
        case isTrue hmay =>
          obtain ⟨rfl, rfl, rfl⟩ : changes = changes' ∧ e = c ∧ t = r := by simpa using h
          refine ⟨[e], rfl, by simp, .bare ?_ .nil, ?_⟩
          · intro he
            rw [he] at hend
            cases hend
          · intro u
            rw [List.singleton_append, flagsFrom_cons hminus, if_pos hend, if_pos hmay]
        case isFalse => cases h
      case isFalse hend =>
        cases hflag : flagHere? .path seen on e with
        | none =>
          rw [hflag] at h
          cases h
        | some f =>
          rw [hflag] at h
          obtain ⟨v, rfl, -, hv, hread⟩ := ih h
          refine ⟨e :: v, rfl, by simp, .bare ?_ hv, ?_⟩
          · intro he
            rw [he, flagHere?] at hflag
            split at hflag <;> cases hflag
          · intro u
            rw [List.cons_append, flagsFrom_cons hminus, if_neg hend, hflag]
            exact hread u

theorem settles_flagGroup : Settles (fun v => v ≠ [] ∧ Whole v) (flagGroup .path) := by
  intro t x r h
  unfold flagGroup at h
  split at h
  case _ changes r' hflags =>
    obtain ⟨rfl, rfl⟩ := Prod.mk.inj (Option.some.inj h)
    obtain ⟨v, rfl, hne, hv, hread⟩ := flagsFrom_settles hflags
    refine ⟨v, rfl, ⟨hne, hv⟩, ?_⟩
    intro u
    rw [flagGroup, hread]
    rfl
  case _ changes c r' hcolon hflags =>
    obtain ⟨rfl, rfl⟩ := Prod.mk.inj (Option.some.inj h)
    obtain ⟨v, rfl, hne, hv, hread⟩ := flagsFrom_settles hflags
    refine ⟨v, rfl, ⟨hne, hv⟩, ?_⟩
    intro u
    rw [flagGroup, hread]
    split
    case _ heq =>
      obtain ⟨-, rfl, -⟩ : changes = _ ∧ c = ':' ∧ u = _ := by simpa using heq
      exact absurd rfl hcolon
    case _ heq =>
      obtain ⟨rfl, -, rfl⟩ : changes = _ ∧ c = _ ∧ u = _ := by simpa using heq
      rfl
    case _ heq => cases heq
  case _ => cases h

theorem settles_groupName : Settles (fun v => v ≠ [] ∧ Whole v) (groupName .path) := by
  intro t x r h
  unfold groupName at h
  split at h
  case _ name r' hname =>
    rw [if_neg (by simp)] at h
    obtain ⟨rfl, rfl⟩ := Prod.mk.inj (Option.some.inj h)
    obtain ⟨v, rfl, hv, hread⟩ := settles_nameUpTo (by decide) (by decide) _ _ _ hname
    refine ⟨v, rfl, ⟨?_, hv⟩, ?_⟩
    · intro hnil
      subst hnil
      have hempty := hread []
      cases hempty
    · intro u
      rw [groupName, hread]
      rfl
  case _ => cases h

theorem settles_marked : Settles (fun v => v ≠ [] ∧ Whole v) (marked .path) := by
  intro t x r h
  have hread := h
  have hbehind : ∀ {pre v : Text}, pre ≠ [] → Whole pre → Whole v →
      pre ++ v ≠ [] ∧ Whole (pre ++ v) :=
    fun hne hpre hv => ⟨by simp [hne], hpre.append hv⟩
  unfold marked at h
  split at h
  case _ t =>
    refine settles_groupName.behind id ['P', '<'] (fun _ => Option.map_id'.symm) ?_ hread
    exact fun v hv => hbehind (by simp) (.bare (by decide) (.bare (by decide) .nil)) hv.2
  case _ t =>
    refine (settles_nameUpTo (by decide) (by decide)).behind (.again <| .name ·) ['P', '=']
      (fun _ => rfl) ?_ hread
    exact fun v hv => hbehind (by simp) (.bare (by decide) (.bare (by decide) .nil)) hv
  case _ t =>
    exact settles_fixed ['<', '='] (fun _ => rfl)
      ⟨by simp, .bare (by decide) (.bare (by decide) .nil)⟩ hread
  case _ t =>
    exact settles_fixed ['<', '!'] (fun _ => rfl)
      ⟨by simp, .bare (by decide) (.bare (by decide) .nil)⟩ hread
  case _ t hequals hbang =>
    obtain ⟨v, rfl, ⟨hne, hv⟩, hsettled⟩ := settles_groupName _ _ _ h
    refine ⟨'<' :: v, rfl, ⟨by simp, .bare (by decide) hv⟩, ?_⟩
    intro u
    obtain ⟨e, v, rfl⟩ := List.exists_cons_of_ne_nil hne
    rw [List.cons_append, marked]
    · exact hsettled u
    · intro q hq
      exact hequals (v ++ r) (by rw [(List.cons.inj hq).1]; rfl)
    · intro q hq
      exact hbang (v ++ r) (by rw [(List.cons.inj hq).1]; rfl)
  case _ t => exact settles_fixed ['='] (fun _ => rfl) ⟨by simp, .bare (by decide) .nil⟩ hread
  case _ t => exact settles_fixed ['!'] (fun _ => rfl) ⟨by simp, .bare (by decide) .nil⟩ hread
  case _ t => exact settles_fixed ['>'] (fun _ => rfl) ⟨by simp, .bare (by decide) .nil⟩ hread
  case _ t =>
    rw [if_pos rfl] at h
    obtain ⟨q, hq, heq⟩ := Option.map_eq_some_iff.mp h
    obtain ⟨rfl, rfl⟩ := Prod.mk.inj heq
    obtain ⟨v, rfl, -, hv, hsettled⟩ := skipComment_settles hq
    refine ⟨'#' :: v, rfl, ⟨by simp, .bare (by decide) hv⟩, ?_⟩
    intro u
    rw [List.cons_append, marked, if_pos rfl, hsettled]
    rfl
  case _ hPname hPequals hequals hbang hname hahead hnot hatomic hcomment =>
    obtain ⟨v, rfl, ⟨hne, hv⟩, hsettled⟩ := settles_flagGroup _ _ _ h
    refine ⟨v, rfl, ⟨hne, hv⟩, ?_⟩
    intro u
    obtain ⟨e, v, rfl⟩ := List.exists_cons_of_ne_nil hne
    rw [List.cons_append, marked]
    · exact hsettled u
    -- none of the other marks is a flag
    all_goals
      intro q hq
      have hsome := hsettled u
      rw [(List.cons.inj hq).1] at hsome
      cases hsome

end PathTemplate.Expression
