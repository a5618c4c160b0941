import PathTemplate.Proofs.Meaning.Paths
import PathTemplate.Proofs.Meaning.PlainPatterns
import PathTemplate.Rendering.Renderer

/-!
What validators accept: the texts that the pattern denotes, from end to end. For a default pattern
these are the texts that are not empty and hold none of the excluded characters. Here case always
counts.
-/
namespace PathTemplate.Rendering

open Expression Matching

section Validator

variable {p : Parameter} {c : Content} {l : Language Char}

private def validatorItems (c : Content) : List Item :=
  [checkItem .segment .textStart, enclosedItem .segment c, checkItem .segment .textEnd]

def validatorOf (c : Content) : Compiled := ⟨(Branch.ofItems (validatorItems c)).expr, 0⟩

private theorem read_validatorSource (h : Denotes .segment p.pattern c l) :
    Expression.read .segment (validatorSource p) = some ((validatorOf c).expr, 0) := by
  have hwrites : Writes .segment false 1 (validatorSource p) 0 fun _ => validatorItems c := by
    have htext : validatorSource p = ['^'] ++ (bundled p.pattern ++ ['$']) := by
      simp [validatorSource_eq, bundled]
    have hend := h.encloses.bundled.append ((writes_dollar .segment false).weaken (Nat.zero_le 1))
    rw [htext]
    exact ((writes_caret .segment false).weaken (Nat.zero_le 1)).append hend
  exact read_unflagged hwrites (by decide)

/-- A pattern that denotes something has no other validator. -/
theorem eq_validatorOf (h : Denotes .segment p.pattern c l) {v : Compiled}
    (hv : validator p = .ok v) : v = validatorOf c := by
  rw [validator, read_of_isSettled (read_validatorSource h) (.inl rfl)] at hv
  split at hv
  case _ w hw =>
    split at hw
    case isTrue => exact (Except.ok.inj hv).symm.trans (Option.some.inj hw).symm
    case isFalse => cases hw
  case _ => cases hv

private theorem isPlain_validatorOf (h : Denotes .segment p.pattern c l) :
    (validatorOf c).expr.isPlain = true := by
  have hP := (throughLoops_isPlain false).toInherited
  have hitems : Throughout (fun e => e.isPlain = true) (validatorItems c) :=
    (Throughout.check hP .segment rfl).cons
      ((Throughout.enclosed h.plain .segment).cons (.check hP .segment rfl))
  exact hitems.ofItems hP

private theorem mem_paths_validatorOf (h : Denotes .segment p.pattern c l) (et : EmptyTurn)
    (s : State) :
    (∃ t, t ∈ (validatorOf c).expr.paths et s) ↔ s.before = [] ∧ s.rest ∈ l := by
  have hbody : Precedes [enclosedItem .segment c, checkItem .segment .textEnd]
      fun w u => w ∈ l ∧ u = [] :=
    (Precedes.ofSpells (Spells.enclosed h.accepts .segment)).before (.check_textEnd .segment)
  have hpaths : ∀ t, t ∈ (validatorOf c).expr.paths et s ↔ s.before = [] ∧
      t ∈ Step.inTurn ([enclosedItem .segment c, checkItem .segment .textEnd].map
        fun i => i.expr.paths et) s := by
    intro t
    rw [validatorOf, Branch.paths_ofItems, validatorItems]
    have hsplit := Step.inTurn_append
      ([checkItem .segment .textStart].map fun i : Item => i.expr.paths et)
      ([enclosedItem .segment c, checkItem .segment .textEnd].map fun i => i.expr.paths et) s
    rw [← List.map_append, List.singleton_append] at hsplit
    rw [hsplit, List.mem_flatMap]
    constructor
    · intro h
      obtain ⟨r, hr, ht⟩ := h
      obtain ⟨rfl, hbefore⟩ := (Precedes.mem_check_textStart .segment et s r).mp hr
      exact ⟨hbefore, ht⟩
    · intro h
      exact ⟨s, (Precedes.mem_check_textStart .segment et s s).mpr ⟨rfl, h.1⟩, h.2⟩
  simp only [hpaths, exists_and_left, hbody.exists_mem_iff]
  refine and_congr_right fun _ => ?_
  constructor
  · intro h
    obtain ⟨w, u, hrest, hw, rfl⟩ := h
    rw [hrest, List.append_nil]
    exact hw
  · intro h
    exact ⟨s.rest, [], (List.append_nil s.rest).symm, h, rfl⟩

theorem accepts_validatorOf (h : Denotes .segment p.pattern c l) (w : Text) :
    accepts (validatorOf c) w = true ↔ w ∈ l := by
  have hfound : accepts (validatorOf c) w = true ↔ ∃ s, s ∈ (validatorOf c).matchStates w := by
    rw [accepts, Compiled.find_of_isPlain _ (isPlain_validatorOf h), Outcome.first]
    cases (validatorOf c).matchStates w <;> simp
  rw [hfound, Compiled.exists_mem_matchStates]
  simp only [mem_paths_validatorOf h]
  constructor
  · rintro ⟨u, v, rfl, hbefore, hrest⟩
    have hu : u = [] := by simpa [State.between] using hbefore
    rw [hu]
    exact hrest
  · exact fun hw => ⟨[], w, rfl, rfl, hw⟩

/-- The validator of a pattern accepts the texts that the pattern denotes. -/
theorem accepts_iff (h : Denotes .segment p.pattern c l) {v : Compiled} (hv : validator p = .ok v)
    (w : Text) : accepts v w = true ↔ w ∈ l := by
  rw [eq_validatorOf h hv]
  exact accepts_validatorOf h w

end Validator

section Default

variable {o : Options} {p : Parameter}

theorem denotes_defaultPattern (d : Dialect)
    (hp : p.pattern = Template.defaultPattern p.delimiter o.delimiter) :
    Denotes d p.pattern (.ofItems [lazyItem d (excluded o p) false])
      (segments false (excluded o p)) := by
  rw [hp]
  exact .lazyRun d (excluded_ne_nil o p)

/-- A default pattern always has a validator. -/
theorem validator_eq (hp : p.pattern = Template.defaultPattern p.delimiter o.delimiter) :
    validator p = .ok (validatorOf (.ofItems [lazyItem .segment (excluded o p) false])) := by
  have hP := throughLoops_boundsOk false
  have hitems : Throughout (fun e => ∀ plain, e.boundsOk plain = true)
      (validatorItems (.ofItems [lazyItem .segment (excluded o p) false])) :=
    (Throughout.check hP.toInherited .segment rfl).cons
      (((Throughout.lazyItem hP .segment (excluded o p)).bundled hP.toInherited .segment).cons
        (.check hP.toInherited .segment rfl))
  have hbounds : ∀ plain, (validatorOf
      (.ofItems [lazyItem .segment (excluded o p) false])).expr.boundsOk plain = true :=
    hitems.ofItems hP.toInherited
  rw [validator,
    read_of_isSettled (read_validatorSource (denotes_defaultPattern .segment hp)) (.inl rfl),
    if_pos (hbounds _)]
  rfl

end Default

end PathTemplate.Rendering
