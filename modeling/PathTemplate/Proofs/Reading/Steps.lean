import PathTemplate.Expression.Assembly

/-!
All that a step can do. Most lexemes change the branch they stand in and nothing else. What a
builder has met of groups, names and references it never forgets.
-/
namespace PathTemplate.Expression.Builder

variable {d : Dialect} {b b' : Builder}

def SameButBranch (b b' : Builder) : Prop := ∃ r, b' = b.setBranch r

theorem sameButBranch_chars (b : Builder) (w : Text) :
    SameButBranch b (w.foldl (fun b c => b.one (.single c) true) b) := by
  induction w generalizing b with
  | nil => exact ⟨b.frame.branch, rfl⟩
  | cons c w ih =>
    obtain ⟨r, hr⟩ := ih (b.one (.single c) true)
    exact ⟨r, hr⟩

theorem sameButBranch_quantify {lo : Nat} {hi : Option Nat} (h : b.quantify d lo hi = some b') :
    SameButBranch b b' := by
  unfold quantify at h
  split at h
  · cases h
  · split at h
    · cases h
    · split at h
      · cases h
      · split at h
        · cases h
        · exact ⟨_, (Option.some.inj h).symm⟩

theorem sameButBranch_question (h : b.question d = some b') : SameButBranch b b' := by
  unfold question at h
  split at h
  · exact ⟨_, (Option.some.inj h).symm⟩
  · exact sameButBranch_quantify h

theorem sameButBranch_plus (h : b.plus d = some b') : SameButBranch b b' := by
  unfold plus at h
  split at h
  · exact ⟨_, (Option.some.inj h).symm⟩
  · exact ⟨_, (Option.some.inj h).symm⟩
  · exact sameButBranch_quantify h

theorem sameButBranch_count {lo : Nat} {hi : Option Nat} {w : Text}
    (h : b.count d lo hi w = some b') : SameButBranch b b' := by
  unfold count at h
  split at h
  · exact Option.some.inj h ▸ sameButBranch_chars b w
  · split at h
    · exact sameButBranch_quantify h
    · exact Option.some.inj h ▸ sameButBranch_chars b w
  · exact sameButBranch_quantify h

theorem set_inv {s : CharSet} (h : b.set s = some b') : b' = b.one s true := by
  obtain ⟨-, h⟩ := Option.ite_none_left_eq_some.mp h
  exact (Option.some.inj h).symm

/-- Only the end of a line does anything in a comment. -/
theorem leaveOut_inv {x : Lexeme} (h : b.leaveOut x = some b') :
    (∃ folds bare, x = .char '\n' folds bare) ∧ b' = { b with inComment := false } ∨
      (∀ folds bare, x ≠ .char '\n' folds bare) ∧ b' = b := by
  unfold leaveOut at h
  split at h
  case _ => exact .inl ⟨⟨_, _, rfl⟩, (Option.some.inj h).symm⟩
  case _ => cases h
  case _ => cases h
  case _ hx _ _ => exact .inr ⟨fun folds bare => hx folds bare, (Option.some.inj h).symm⟩

/-- All that a lexeme can do. -/
inductive Effect (d : Dialect) (b : Builder) : Lexeme → Builder → Prop
  | branch {x : Lexeme} {b' : Builder} : SameButBranch b b' → Effect d b x b'
  | hide (x : Lexeme) (inComment : Bool) : Effect d b x { b with inComment }
  | flags (changes : FlagChanges) (i : Item) :
      Effect d b (.flags changes) (push { b with flags := b.flags.apply changes } i)
  | bar : Effect d b .bar b.bar
  | enter {o : Opening} {b' : Builder} : b.openGroup d o = some b' → Effect d b (.opening o) b'
  | leave {b' : Builder} : b.closeGroup d = some b' → Effect d b .close b'
  | refer {r : Reference} {b' : Builder} : b.again r = some b' → Effect d b (.again r) b'

private theorem effect_char (c : Char) (folds bare : Bool) :
    Effect d b (.char c folds bare) (b.char c folds bare) := by
  unfold char
  split
  · exact .hide _ b.inComment
  · split
    · exact .hide _ true
    · exact .branch ⟨_, rfl⟩

theorem effect_step {x : Lexeme} (h : b.step d x = some b') : Effect d b x b' := by
  unfold step at h
  split at h
  case isTrue =>
    obtain ⟨-, rfl⟩ | ⟨-, rfl⟩ := leaveOut_inv h
    · exact .hide _ false
    · exact .hide x _
  case isFalse =>
    cases x with
    | char c folds bare => exact Option.some.inj h ▸ effect_char c folds bare
    | set s => exact .branch ⟨_, set_inv h⟩
    | flags changes => exact Option.some.inj h ▸ .flags changes _
    | bar => exact Option.some.inj h ▸ .bar
    | opening o => exact .enter h
    | close => exact .leave h
    | again r => exact .refer h
    | star => exact .branch (sameButBranch_quantify h)
    | plus => exact .branch (sameButBranch_plus h)
    | question => exact .branch (sameButBranch_question h)
    | count lo hi w => exact .branch (sameButBranch_count h)
    | comment => exact Option.some.inj h ▸ .hide _ b.inComment
    | _ => exact .branch ⟨_, (Option.some.inj h).symm⟩

/-- The innermost group is closed, and its item joins the frame around it. -/
theorem closeGroup_inv (h : b.closeGroup d = some b') : ∃ f fs i, b.outer = f :: fs ∧
    closed d b.frame = some i ∧ b' = push { b with
      flags := if givesBack d b.frame.kind then b.frame.outer else b.flags
      frame := f
      outer := fs } i := by
  rw [closeGroup.eq_def] at h
  split at h
  case _ => cases h
  case _ f fs houter =>
    obtain ⟨-, h⟩ := Option.ite_none_left_eq_some.mp h
    split at h
    case _ => cases h
    case _ i hclosed => exact ⟨f, fs, i, houter, hclosed, (Option.some.inj h).symm⟩

/-- One group is referred to, whatever the reference looks like. -/
theorem again_inv {r : Reference} (h : b.again r = some b') :
    ∃ n numbered, b' = { b.refer n with numbered } := by
  unfold again at h
  split at h
  case _ n => exact ⟨n, true, (Option.some.inj h).symm⟩
  case _ =>
    split at h
    case _ n _ => exact ⟨n, b.numbered, (Option.some.inj h).symm⟩
    case _ =>
      obtain ⟨-, h⟩ := Option.ite_none_right_eq_some.mp h
      exact ⟨_, b.numbered, (Option.some.inj h).symm⟩

/-! ### Groups, names and references -/

structure Grows (b b' : Builder) : Prop where
  groups : b.groups ≤ b'.groups
  referred : b.referred ⊆ b'.referred
  /-- A name comes with a group of its own. -/
  names : b'.names.length + b.groups ≤ b.names.length + b'.groups

theorem Grows.of_same (hgroups : b'.groups = b.groups) (hreferred : b'.referred = b.referred)
    (hnames : b'.names = b.names) : Grows b b' :=
  ⟨Nat.le_of_eq hgroups.symm, hreferred ▸ List.Subset.refl _,
    Nat.le_of_eq (by rw [hgroups, hnames])⟩

theorem Grows.trans {c : Builder} (h : Grows b b') (h' : Grows b' c) : Grows b c := by
  have hnames := h.names
  have hnames' := h'.names
  exact ⟨Nat.le_trans h.groups h'.groups, List.Subset.trans h.referred h'.referred, by omega⟩

private theorem grows_openGroup {o : Opening} (h : b.openGroup d o = some b') : Grows b b' := by
  rw [openGroup, Option.ite_none_left_eq_some] at h
  obtain ⟨-, h⟩ := h
  cases o with
  | capture =>
    obtain rfl := Option.some.inj h
    exact ⟨Nat.le_succ _, List.Subset.refl _, by simp⟩
  | named name =>
    obtain ⟨-, h⟩ := Option.ite_none_left_eq_some.mp h
    obtain rfl := Option.some.inj h
    exact ⟨Nat.le_succ _, List.Subset.refl _, by simp; omega⟩
  | _ =>
    obtain rfl := Option.some.inj h
    exact .of_same rfl rfl rfl

private theorem grows_closeGroup (h : b.closeGroup d = some b') : Grows b b' := by
  obtain ⟨f, fs, i, -, -, rfl⟩ := closeGroup_inv h
  exact .of_same rfl rfl rfl

private theorem grows_again {r : Reference} (h : b.again r = some b') : Grows b b' := by
  obtain ⟨n, numbered, rfl⟩ := again_inv h
  exact ⟨Nat.le_refl _, List.subset_cons_self _ _, Nat.le_refl _⟩

theorem grows_step {x : Lexeme} (h : b.step d x = some b') : Grows b b' := by
  cases effect_step h with
  | branch hb =>
    obtain ⟨r, rfl⟩ := hb
    exact .of_same rfl rfl rfl
  | enter ho => exact grows_openGroup ho
  | leave hc => exact grows_closeGroup hc
  | refer hr => exact grows_again hr
  | _ => exact .of_same rfl rfl rfl

theorem grows_run {xs : List Lexeme} (h : xs.foldlM (step d) b = some b') : Grows b b' := by
  induction xs generalizing b with
  | nil =>
    obtain rfl := Option.some.inj h
    exact .of_same rfl rfl rfl
  | cons x xs ih =>
    rw [List.foldlM_cons, Option.bind_eq_bind, Option.bind_eq_some_iff] at h
    obtain ⟨c, hstep, hrest⟩ := h
    exact (grows_step hstep).trans (ih hrest)

/-! ### The end -/

structure Finished (b : Builder) : Prop where
  outer : b.outer = []
  referred : ∀ n ∈ b.referred, 1 ≤ n ∧ n ≤ b.groups

theorem finish_inv {e : Expr} {n : Nat} (h : b.finish d = some (e, n)) :
    b.Finished ∧ e = altAll (alternatives b.frame) ∧ n = b.groups := by
  unfold finish at h
  split at h
  case isTrue => cases h
  case isFalse hopen =>
    split at h
    case isTrue hall =>
      obtain ⟨rfl, rfl⟩ := Prod.mk.inj (Option.some.inj h)
      refine ⟨⟨?_, fun n hn => by simpa using List.all_eq_true.mp hall n hn⟩, rfl, rfl⟩
      simp only [Bool.or_eq_true, not_or] at hopen
      simpa using hopen.1
    case isFalse => cases h

end PathTemplate.Expression.Builder
