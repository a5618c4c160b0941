import PathTemplate.Proofs.Groups.Scanning
import PathTemplate.Proofs.Reading.Steps

/-!
Builders scan. What a builder knows about groups is a scan, and a builder that takes a lexeme scans
on, with the same marks. So an expression that is read has the groups that scanning it finds.
-/
namespace PathTemplate.Expression

def Frame.pending (f : Frame) : Pending := ⟨f.index, Builder.givesBack .path f.kind, f.outer.spaced⟩

def Frame.pendings (f : Frame) (fs : List Frame) : List Pending :=
  (f :: fs).dropLast.map Frame.pending

def Builder.scan (b : Builder) : Scan :=
  ⟨b.groups, b.flags.spaced, b.inComment, b.frame.pendings b.outer⟩

theorem Frame.pendings_congr {f g : Frame} (h : f.pending = g.pending) (fs : List Frame) :
    f.pendings fs = g.pendings fs := by
  cases fs with
  | nil => rfl
  | cons e fs => simp [Frame.pendings, h]

theorem Frame.length_pendings (f : Frame) (fs : List Frame) :
    (f.pendings fs).length = fs.length := by
  simp [Frame.pendings]

theorem spaced_apply (fs : Flags) (changes : FlagChanges) :
    (fs.apply changes).spaced = spacing fs.spaced changes := by
  induction changes generalizing fs with
  | nil => rfl
  | cons c changes ih =>
    obtain ⟨f, on⟩ := c
    have hset : (fs.set (f, on)).spaced = if f = .spaced then on else fs.spaced := by
      cases f <;> rfl
    have hfold := ih (fs.set (f, on))
    rw [hset] at hfold
    exact hfold

namespace Builder

variable {b b' : Builder}

theorem scan_setBranch (b : Builder) (r : Branch) : (b.setBranch r).scan = b.scan := by
  have hframe : Frame.pendings { b.frame with branch := r } b.outer = b.frame.pendings b.outer := by
    apply Frame.pendings_congr
    rfl
  simp only [scan, setBranch, hframe]

theorem scan_push (b : Builder) (i : Item) : (b.push i).scan = b.scan := scan_setBranch b _

theorem SameButBranch.scan_eq (h : SameButBranch b b') : b'.scan = b.scan := by
  obtain ⟨r, rfl⟩ := h
  exact scan_setBranch b r

theorem scan_again {r : Reference} (h : b.again r = some b') : b'.scan = b.scan := by
  obtain ⟨n, numbered, rfl⟩ := again_inv h
  exact scan_push { b with referred := n :: b.referred } _

theorem scan_bar (b : Builder) : b.bar.scan = b.scan := by
  have hframe : Frame.pendings { b.frame with
      alternatives := b.frame.branch.expr :: b.frame.alternatives, branch := {} } b.outer =
      b.frame.pendings b.outer := by
    apply Frame.pendings_congr
    rfl
  simp only [scan, bar, hframe]

theorem scan_char (hc : b.inComment = false) (c : Char) (folds bare : Bool) :
    (b.char c folds bare).scan = { b.scan with hidden := b.flags.spaced && bare && c == '#' } := by
  unfold char
  split
  case isTrue hspacing =>
    have hne : (c == '#') = false := by
      rw [beq_eq_false_iff_ne]
      intro hhash
      rw [hhash] at hspacing
      simp [isSpacing] at hspacing
    simp [scan, hc, hne]
  case isFalse =>
    split
    case isTrue hhash => simp [scan, hhash]
    case isFalse hhash =>
      rw [Bool.not_eq_true] at hhash
      rw [one, scan_push, hhash]
      simp [scan, hc]

theorem scan_openGroup {o : Opening} (h : b.openGroup .path o = some b') :
    b'.scan = b.scan.enter o := by
  rw [openGroup, Option.ite_none_left_eq_some] at h
  obtain ⟨-, h⟩ := h
  cases o with
  | plain changes =>
    obtain rfl := Option.some.inj h
    simp only [scan, spaced_apply]
    rfl
  | _ =>
    obtain rfl := Option.some.inj h
    rfl

theorem scan_closeGroup (h : b.closeGroup .path = some b') : b.scan.leave = some b'.scan := by
  obtain ⟨f, fs, i, houter, -, rfl⟩ := closeGroup_inv h
  have hpending : b.scan.pending = b.frame.pending :: f.pendings fs := by
    rw [scan, houter]
    rfl
  rw [scan_push, Scan.leave, hpending]
  simp only [scan, Frame.pending, apply_ite Flags.spaced]
  rfl

/-- A builder that takes a lexeme scans on. -/
theorem scan_step {x : Lexeme} (h : b.step .path x = some b') : b.scan.step x = some b'.scan := by
  unfold step at h
  split at h
  case isTrue hc =>
    have hhidden : b.scan.hidden = true := hc
    obtain ⟨⟨folds, bare, rfl⟩, rfl⟩ | ⟨hother, rfl⟩ := leaveOut_inv h
    · exact Scan.step_newline hhidden folds bare
    · exact Scan.step_commented hhidden hother
  case isFalse hc =>
    rw [Bool.not_eq_true] at hc
    have hhidden : b.scan.hidden = false := hc
    rw [Scan.step.eq_def, hhidden, if_neg (by simp)]
    cases x with
    | char c folds bare =>
      obtain rfl := Option.some.inj h
      exact congrArg some (scan_char hc c folds bare).symm
    | opening o => exact congrArg some (scan_openGroup h).symm
    | close => exact scan_closeGroup h
    | flags changes =>
      obtain rfl := Option.some.inj h
      refine congrArg some ?_
      rw [scan_push]
      simp only [scan, spaced_apply, hc]
    | set s =>
      obtain rfl := set_inv h
      exact congrArg some (scan_push b _).symm
    | bar =>
      obtain rfl := Option.some.inj h
      exact congrArg some (scan_bar b).symm
    | star => exact congrArg some (sameButBranch_quantify h).scan_eq.symm
    | plus => exact congrArg some (sameButBranch_plus h).scan_eq.symm
    | question => exact congrArg some (sameButBranch_question h).scan_eq.symm
    | count lo hi t => exact congrArg some (sameButBranch_count h).scan_eq.symm
    | again r => exact congrArg some (scan_again h).symm
    | comment =>
      obtain rfl := Option.some.inj h
      rfl
    | _ =>
      obtain rfl := Option.some.inj h
      exact congrArg some (scan_push b _).symm

theorem marked_scan (b b' : Builder) (k : Nat) : b.marked b' k = b.scan.marked b'.scan k := by
  have hlength : b'.scan.pending.length < b.scan.pending.length ↔
      b'.outer.length < b.outer.length := by
    rw [scan, scan, Frame.length_pendings, Frame.length_pendings]
  have hgroups : ∀ b : Builder, b.scan.groups = b.groups := fun _ => rfl
  rw [marked, Scan.marked]
  simp only [hlength, hgroups]
  split
  · rfl
  · split
    case isTrue hclose =>
      have hindex : b.scan.pending.head?.bind Pending.index = b.frame.index := by
        cases houter : b.outer with
        | nil => simp [houter] at hclose
        | cons f fs =>
          rw [scan, houter]
          rfl
      rw [hindex]
    case isFalse => rfl

theorem scan_trace {k : Nat} {cs : List Cut} {ms : List Mark} (h : b.trace k cs = some (ms, b')) :
    b.scan.trace k cs = some (ms, b'.scan) := by
  induction cs generalizing b k ms with
  | nil =>
    obtain ⟨rfl, rfl⟩ := Prod.mk.inj (Option.some.inj h)
    rfl
  | cons c cs ih =>
    obtain ⟨d, ns, hstep, hrest, rfl⟩ := traceWith_cons_eq_some.mp h
    exact traceWith_cons_eq_some.mpr ⟨d.scan, ns, scan_step hstep, ih hrest, by rw [marked_scan]⟩

end Builder

/-! ### Expressions that are read -/

theorem exists_traceWith {S : Type} {step : S → Lexeme → Option S}
    (marked : S → S → Nat → List Mark) {cs : List Cut} {s s' : S}
    (h : (cs.map Cut.lexeme).foldlM step s = some s') (k : Nat) :
    ∃ ms, traceWith step marked s k cs = some (ms, s') := by
  induction cs generalizing s k with
  | nil =>
    obtain rfl := Option.some.inj h
    exact ⟨[], rfl⟩
  | cons c cs ih =>
    rw [List.map_cons, List.foldlM_cons, Option.bind_eq_bind, Option.bind_eq_some_iff] at h
    obtain ⟨d, hstep, hrest⟩ := h
    obtain ⟨ms, hms⟩ := ih hrest (k + c.text.length)
    exact ⟨_, traceWith_cons_eq_some.mpr ⟨d, ms, hstep, hms, rfl⟩⟩

/-- An expression whose sets are known has been scanned to its end when it is compiled, and no
parenthesis waits there. -/
theorem exists_trace_of_read {t : Text} (hsettled : Settled t) {c : Compiled}
    (h : Compiled.read .path t = some c) :
    ∃ cs σ, Cuts t cs [] ∧ Scan.trace {} 0 cs = some (groupMarks t, σ) ∧ σ.groups = c.groups ∧
      σ.pending = [] := by
  have hread := hsettled.read_of_compiled h
  rw [read, lexemes_eq] at hread
  simp only [Option.bind_eq_bind, Option.bind_eq_some_iff, Option.map_eq_some_iff] at hread
  obtain ⟨xs, ⟨cs, hcs, rfl⟩, b, hb, hfinish⟩ := hread
  obtain ⟨ms, hms⟩ := exists_traceWith Builder.marked hb 0
  have hmarks : groupMarks t = ms := by
    rw [groupMarks, hcs, Option.bind_some, Builder.trace, hms]
  obtain ⟨⟨houter, -⟩, -, hgroups⟩ := Builder.finish_inv hfinish
  have hpending : b.scan.pending = [] := by
    rw [Builder.scan, houter]
    rfl
  refine ⟨cs, b.scan, cuts_eq_some_iff.mp hcs, ?_, hgroups.symm, hpending⟩
  rw [hmarks]
  exact Builder.scan_trace hms

end PathTemplate.Expression
