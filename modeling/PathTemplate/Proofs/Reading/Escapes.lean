import PathTemplate.Expression.Scan

/-!
What the readers of paths give. A backslash introduces a character, a set, an assertion or a
reference, and a parenthesis never stands for a character or a set. Letters fold wherever they
stand for themselves, so that a character that does not fold is no letter.
-/
namespace PathTemplate.Expression

inductive Lexeme.Escaped : Lexeme → Prop
  | folding (c : Char) : Escaped (.char c true false)
  | sign {c : Char} : c.isAlpha = false → Escaped (.char c false false)
  | set (s : CharSet) : Escaped (.set s)
  | check (x : Assertion) : Escaped (.check x)
  | again (r : Reference) : Escaped (.again r)

inductive Lexeme.Opens : Lexeme → Prop
  | opening (o : Opening) : Opens (.opening o)
  | flags (changes : FlagChanges) : Opens (.flags changes)
  | comment : Opens .comment
  | again (r : Reference) : Opens (.again r)

section Results

variable {P : Lexeme → Prop} {x y : Lexeme} {r u : Text}

theorem Lexeme.of_some (h : some (y, u) = some (x, r)) (hy : P y) : P x := by
  obtain ⟨rfl, -⟩ := Prod.mk.inj (Option.some.inj h)
  exact hy

theorem Lexeme.of_map {α : Type} {f : α → Lexeme} {o : Option (α × Text)}
    (h : o.map (fun p => (f p.1, p.2)) = some (x, r)) (hf : ∀ a, P (f a)) : P x := by
  obtain ⟨p, -, heq⟩ := Option.map_eq_some_iff.mp h
  exact of_some (congrArg some heq) (hf p.1)

end Results

/-! ### Escapes -/

theorem not_isAlpha_of_namedChar? {c d : Char} (h : namedChar? c = some d) :
    d.isAlpha = false := by
  unfold namedChar? at h
  split at h
  case h_7 => cases h
  all_goals exact Option.some.inj h ▸ by decide

theorem escaped_sharedEscape {t r : Text} {x : Lexeme} (h : sharedEscape false t = some (x, r)) :
    x.Escaped := by
  unfold sharedEscape at h
  split at h
  · exact Lexeme.of_map (f := fun c => .char c true false) h .folding
  · exact Lexeme.of_map (f := fun c => .char c true false) h .folding
  · exact Lexeme.of_map (f := fun c => .char c true false) h .folding
  · exact Lexeme.of_map (f := .set) h .set
  · exact Lexeme.of_map (f := fun s => .set (.compl s)) h fun s => .set _
  · split at h
    case _ hnamed => exact Lexeme.of_some h (.sign (not_isAlpha_of_namedChar? hnamed))
    case _ =>
      obtain ⟨s, -, heq⟩ := Option.map_eq_some_iff.mp h
      exact Lexeme.of_some (congrArg some heq) (.set s)
  · cases h

theorem escaped_pathEscape {t r : Text} {x : Lexeme} (h : pathEscape false t = some (x, r)) :
    x.Escaped := by
  unfold pathEscape at h
  split at h
  · cases h
  · exact Lexeme.of_some h (.sign (by decide))
  · exact Lexeme.of_some h (.set _)
  · exact Lexeme.of_some h (.set _)
  · exact Lexeme.of_some h (.check _)
  · exact Lexeme.of_some h (.check _)
  · exact Lexeme.of_map (f := fun name => .again (.name name)) h fun name => .again _
  · exact Lexeme.of_map (f := fun name => .again (.name name)) h fun name => .again _
  · split at h
    · exact Lexeme.of_some h (.again _)
    · split at h
      case _ y hshared =>
        obtain rfl := Option.some.inj h
        exact escaped_sharedEscape hshared
      case _ =>
        split at h
        case _ a _ => exact Lexeme.of_some h (.check a)
        case _ =>
          split at h
          case isTrue => cases h
          case isFalse hletter =>
            rw [isAsciiAlnum, Char.isAlphanum, Bool.or_eq_true, not_or] at hletter
            exact Lexeme.of_some h (.sign (by simpa using hletter.1))

/-! ### Parentheses -/

theorem opens_opening {t r : Text} {x : Lexeme} (h : opening .path t = some (x, r)) :
    x.Opens := by
  have hnamed : ∀ {t : Text}, groupName .path t = some (x, r) → x.Opens := by
    intro t h
    unfold groupName at h
    split at h
    · exact Lexeme.of_some h (.opening _)
    · cases h
  have hflags : ∀ {t : Text}, flagGroup .path t = some (x, r) → x.Opens := by
    intro t h
    unfold flagGroup at h
    split at h
    · exact Lexeme.of_some h (.opening _)
    · exact Lexeme.of_some h (.flags _)
    · cases h
  unfold opening at h
  split at h
  · unfold marked at h
    split at h
    · exact hnamed h
    · exact Lexeme.of_map (f := fun name => .again (.name name)) h fun name => .again _
    · exact Lexeme.of_some h (.opening _)
    · exact Lexeme.of_some h (.opening _)
    · exact hnamed h
    · exact Lexeme.of_some h (.opening _)
    · exact Lexeme.of_some h (.opening _)
    · exact Lexeme.of_some h (.opening _)
    · obtain ⟨u, -, heq⟩ := Option.map_eq_some_iff.mp h
      exact Lexeme.of_some (congrArg some heq) .comment
    · exact hflags h
  · exact Lexeme.of_some h (.opening _)

/-- A character that does not fold is no letter. -/
theorem not_isAlpha_of_lexeme {t r : Text} {c : Char} {bare : Bool}
    (h : lexeme .path t = some (.char c false bare, r)) : c.isAlpha = false := by
  unfold lexeme at h
  split at h
  case h_10 => cases opens_opening h
  case h_11 =>
    obtain ⟨p, -, heq⟩ := Option.map_eq_some_iff.mp h
    cases heq
  case h_12 =>
    cases escaped_pathEscape h with
    | sign hc => exact hc
  case h_13 =>
    split at h
    · cases h
    · cases h
  all_goals cases h

end PathTemplate.Expression
