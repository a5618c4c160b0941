import PathTemplate.Proofs.Groups.Marks

/-!
Reading as far as groups go: how many are open, which parentheses wait for their end, whether
blanks are left out, and whether a comment hides what follows.
-/
namespace PathTemplate.Expression

/-- A parenthesis that waits for its end. `spaced` is the mode that a bundle gives back. -/
structure Pending where
  index : Option Nat
  bundle : Bool
  spaced : Bool
  deriving DecidableEq, Repr

def Pending.shift (g : Nat) (p : Pending) : Pending := { p with index := p.index.map (g + ·) }

structure Scan where
  groups : Nat := 0
  /-- Are blanks and comments left out? -/
  spaced : Bool := false
  /-- In a comment up to the end of the line. -/
  hidden : Bool := false
  /-- The parentheses that wait for their end, innermost first. -/
  pending : List Pending := []
  deriving DecidableEq, Repr

def spacing (s : Bool) (changes : FlagChanges) : Bool :=
  changes.foldl (fun s c => if c.1 = .spaced then c.2 else s) s

namespace Scan

def push (σ : Scan) (p : Pending) : Scan := { σ with pending := p :: σ.pending }

def capture (σ : Scan) : Scan :=
  { σ with groups := σ.groups + 1 }.push ⟨some (σ.groups + 1), false, σ.spaced⟩

def enter (σ : Scan) : Opening → Scan
  | .capture => σ.capture
  | .named _ => σ.capture
  | .plain changes => { σ.push ⟨none, true, σ.spaced⟩ with spaced := spacing σ.spaced changes }
  | _ => σ.push ⟨none, false, σ.spaced⟩

/-- Ends the innermost parenthesis. Only bundles give back the mode they found. -/
def leave (σ : Scan) : Option Scan :=
  match σ.pending with
  | [] => none
  | p :: ps => some { σ with spaced := if p.bundle then p.spaced else σ.spaced, pending := ps }

def step (σ : Scan) (x : Lexeme) : Option Scan :=
  if σ.hidden then
    match x with
    | .char '\n' _ _ => some { σ with hidden := false }
    | _ => some σ
  else match x with
    | .char c _ bare => some { σ with hidden := σ.spaced && bare && c == '#' }
    | .opening o => some (σ.enter o)
    | .close => σ.leave
    | .flags changes => some { σ with spaced := spacing σ.spaced changes }
    | _ => some σ

def marked (σ τ : Scan) (place : Nat) : List Mark :=
  if σ.groups < τ.groups then [⟨τ.groups, place, true⟩]
  else if τ.pending.length < σ.pending.length then
    (σ.pending.head?.bind Pending.index).toList.map (⟨·, place, false⟩)
  else []

def trace : Scan → Nat → List Cut → Option (List Mark × Scan) := traceWith step marked

end Scan

/-! ### What a step does -/

namespace Scan

/-- All that a step can do. -/
theorem step_cases {σ τ : Scan} {x : Lexeme} (h : σ.step x = some τ) :
    (∃ hidden, τ = { σ with hidden }) ∨
      (∃ changes, x = .flags changes ∧ τ = { σ with spaced := spacing σ.spaced changes }) ∨
      (∃ o, x = .opening o ∧ τ = σ.enter o) ∨ (x = .close ∧ σ.leave = some τ) := by
  rw [step.eq_def] at h
  split at h
  case isTrue hhidden =>
    left
    split at h
    · exact ⟨false, (Option.some.inj h).symm⟩
    · exact ⟨σ.hidden, (Option.some.inj h).symm⟩
  case isFalse hhidden =>
    split at h
    case _ => exact .inl ⟨_, (Option.some.inj h).symm⟩
    case _ o => exact .inr (.inr (.inl ⟨o, rfl, (Option.some.inj h).symm⟩))
    case _ => exact .inr (.inr (.inr ⟨rfl, h⟩))
    case _ changes => exact .inr (.inl ⟨changes, rfl, (Option.some.inj h).symm⟩)
    case _ => exact .inl ⟨σ.hidden, (Option.some.inj h).symm⟩

/-- The end of a line ends a comment. -/
theorem step_newline {σ : Scan} (hσ : σ.hidden = true) (folds bare : Bool) :
    σ.step (.char '\n' folds bare) = some { σ with hidden := false } := by
  rw [step.eq_def, if_pos hσ]
  rfl

/-- A comment hides all else. -/
theorem step_commented {σ : Scan} {x : Lexeme} (hσ : σ.hidden = true)
    (hx : ∀ folds bare, x = .char '\n' folds bare → False) : σ.step x = some σ := by
  rw [step.eq_def, if_pos hσ]
  split
  · exact absurd rfl (hx _ _)
  · rfl

theorem mem_marked {σ τ : Scan} {k : Nat} {m : Mark} (h : m ∈ σ.marked τ k) : m.place = k := by
  rw [marked] at h
  split at h
  · rw [List.mem_singleton.mp h]
  · split at h
    · obtain ⟨n, -, rfl⟩ := List.mem_map.mp h
      rfl
    · cases h

theorem place_of_mem_trace {σ τ : Scan} {k : Nat} {t u : Text} {cs : List Cut} {ms : List Mark}
    (hcuts : Cuts t cs u) (h : σ.trace k cs = some (ms, τ)) :
    ∀ m ∈ ms, k ≤ m.place ∧ m.place < k + (Cut.texts cs).length :=
  place_of_mem_traceWith (fun _ _ _ _ => mem_marked) hcuts h

/-- As many groups open as marks say. -/
theorem groups_step {σ τ : Scan} {x : Lexeme} (h : σ.step x = some τ) (k : Nat) :
    τ.groups = σ.groups + Mark.opened (σ.marked τ k) := by
  have hclose : ∀ ns : List Nat, Mark.opened (ns.map fun n => (⟨n, k, false⟩ : Mark)) = 0 := by
    intro ns
    simp [Mark.opened]
  rcases step_cases h with ⟨hidden, rfl⟩ | ⟨changes, -, rfl⟩ | ⟨o, -, rfl⟩ | ⟨-, hleave⟩
  · simp [marked, Mark.opened]
  · simp [marked, Mark.opened]
  · have hlonger : ¬ σ.pending.length + 1 < σ.pending.length := by omega
    cases o <;> simp [enter, capture, push, marked, Mark.opened, hlonger]
  · unfold leave at hleave
    split at hleave
    · cases hleave
    · obtain rfl := Option.some.inj hleave
      simp only [marked, Nat.lt_irrefl, if_false]
      split
      · rw [hclose]
        rfl
      · rfl

theorem groups_trace {σ τ : Scan} {k : Nat} {cs : List Cut} {ms : List Mark}
    (h : σ.trace k cs = some (ms, τ)) : τ.groups = σ.groups + Mark.opened ms := by
  induction cs generalizing σ k ms with
  | nil =>
    obtain ⟨rfl, rfl⟩ := Prod.mk.inj (Option.some.inj h)
    rfl
  | cons c cs ih =>
    obtain ⟨ρ, ns, hstep, hrest, rfl⟩ := traceWith_cons_eq_some.mp h
    rw [ih hrest, groups_step hstep k]
    simp [Mark.opened, Nat.add_assoc]

/-! ### Scanning inside something larger -/

/-- The scan as it is where it began where another one stands. -/
def within (σ τ : Scan) : Scan where
  groups := τ.groups + σ.groups
  spaced := σ.spaced
  hidden := σ.hidden
  pending := σ.pending.map (Pending.shift τ.groups) ++ τ.pending

theorem enter_within (σ τ : Scan) (o : Opening) : (σ.within τ).enter o = (σ.enter o).within τ := by
  cases o <;> rfl

theorem leave_within {σ σ' : Scan} (h : σ.leave = some σ') (τ : Scan) :
    (σ.within τ).leave = some (σ'.within τ) := by
  rw [leave] at h
  split at h
  case _ => cases h
  case _ p ps hpending =>
    obtain rfl := Option.some.inj h
    rw [leave, within, hpending]
    rfl

theorem step_within {σ σ' : Scan} {x : Lexeme} (h : σ.step x = some σ') (τ : Scan) :
    (σ.within τ).step x = some (σ'.within τ) := by
  have hhidden : (σ.within τ).hidden = σ.hidden := rfl
  rw [step.eq_def] at h ⊢
  rw [hhidden]
  split at h
  case isTrue hyes =>
    rw [if_pos hyes]
    split at h
    · obtain rfl := Option.some.inj h
      rfl
    · obtain rfl := Option.some.inj h
      rfl
  case isFalse hno =>
    rw [if_neg hno]
    split at h
    · obtain rfl := Option.some.inj h
      rfl
    · obtain rfl := Option.some.inj h
      exact congrArg some (enter_within σ τ _)
    · exact leave_within h τ
    · obtain rfl := Option.some.inj h
      rfl
    · obtain rfl := Option.some.inj h
      rfl

theorem marked_within (σ σ' τ : Scan) (j k : Nat) :
    (σ.within τ).marked (σ'.within τ) (j + k) = (σ.marked σ' k).map (Mark.shift τ.groups j) := by
  have hgroups : (σ.within τ).groups < (σ'.within τ).groups ↔ σ.groups < σ'.groups := by
    simp only [within]
    omega
  have hpending : (σ'.within τ).pending.length < (σ.within τ).pending.length ↔
      σ'.pending.length < σ.pending.length := by
    simp only [within, List.length_append, List.length_map]
    omega
  rw [marked, marked]
  simp only [hgroups, hpending]
  split
  case isTrue => rfl
  case isFalse =>
    split
    case isTrue hclose =>
      cases hlist : σ.pending with
      | nil =>
        rw [hlist] at hclose
        cases hclose
      | cons p ps =>
        simp only [within, hlist]
        cases hindex : p.index <;> simp [Pending.shift, Mark.shift, hindex]
    case isFalse => rfl

/-- What a scan finds it finds inside something larger, behind the groups and characters there. -/
theorem trace_within {σ σ' : Scan} {k : Nat} {cs : List Cut} {ms : List Mark}
    (h : σ.trace k cs = some (ms, σ')) (τ : Scan) (j : Nat) :
    (σ.within τ).trace (j + k) cs = some (ms.map (Mark.shift τ.groups j), σ'.within τ) := by
  induction cs generalizing σ k ms with
  | nil =>
    obtain ⟨rfl, rfl⟩ := Prod.mk.inj (Option.some.inj h)
    rfl
  | cons c cs ih =>
    obtain ⟨ρ, ns, hstep, hrest, rfl⟩ := traceWith_cons_eq_some.mp h
    have hrest' := ih hrest
    rw [← Nat.add_assoc] at hrest'
    refine traceWith_cons_eq_some.mpr ⟨ρ.within τ, _, step_within hstep τ, hrest', ?_⟩
    rw [marked_within, List.map_append]

end Scan

end PathTemplate.Expression
