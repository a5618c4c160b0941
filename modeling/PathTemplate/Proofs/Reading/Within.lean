import PathTemplate.Proofs.Reading.Renumbering
import PathTemplate.Proofs.Reading.Steps

/-!
Reading inside something larger. What lexemes make of a builder that has just begun they make of any
other builder in a branch that has just begun, only that the numbers of groups come behind those
that are there.
-/
namespace PathTemplate.Expression

variable {f : Nat → Nat}

/-- Does the lexeme refer to a group by number, or by a name that is one? -/
def Lexeme.byNumber : Lexeme → Bool
  | .again (.number _) => true
  | .again (.name t) => t.all Char.isDigit
  | _ => false

/-- The frame where it stands inside `base`; `fs` are the frames around it. -/
def Frame.within (f : Nat → Nat) (fr base : Frame) : List Frame → Frame
  | [] => { base with
      alternatives := fr.alternatives.map (Expr.renumber f) ++ base.alternatives
      branch := fr.branch.renumber f }
  | _ :: _ => fr.renumber f

namespace Builder

def framesWithin (f : Nat → Nat) (base : Builder) : List Frame → List Frame
  | [] => base.outer
  | fr :: fs => fr.within f base.frame fs :: framesWithin f base fs

/-- The builder as it is where it began inside `base`, in a branch that has just begun. -/
def within (f : Nat → Nat) (b base : Builder) : Builder where
  flags := b.flags
  groups := base.groups + b.groups
  names := b.names.map (fun p => (p.1, f p.2)) ++ base.names
  referred := b.referred.map f ++ base.referred
  numbered := b.numbered || base.numbered
  inComment := b.inComment
  frame := b.frame.within f base.frame b.outer
  outer := framesWithin f base b.outer

variable {base b b' c : Builder}

theorem within_setBranch (b : Builder) (r : Branch) :
    (b.setBranch r).within f base = (b.within f base).setBranch (r.renumber f) := by
  rw [within, within, setBranch]
  cases b.outer <;> rfl

theorem branch_within (b : Builder) :
    (b.within f base).frame.branch = b.frame.branch.renumber f := by
  rw [within]
  cases b.outer <;> rfl

theorem last_within (b : Builder) :
    (b.within f base).frame.branch.last = b.frame.branch.last.map (Item.renumber f) := by
  rw [branch_within]
  rfl

theorem within_push (b : Builder) (i : Item) :
    (b.push i).within f base = (b.within f base).push (i.renumber f) := by
  rw [push, within_setBranch, Branch.renumber_push, push, branch_within]

theorem within_replaceLast (b : Builder) (i : Item) :
    (b.replaceLast i).within f base = (b.within f base).replaceLast (i.renumber f) := by
  rw [replaceLast, within_setBranch, replaceLast, branch_within]
  rfl

theorem within_one (b : Builder) (s : CharSet) (folds : Bool) :
    (b.one s folds).within f base = (b.within f base).one s folds := within_push b _

theorem within_chars (w : Text) (b : Builder) :
    (w.foldl (fun b c => b.one (.single c) true) b).within f base =
      w.foldl (fun b c => b.one (.single c) true) (b.within f base) := by
  induction w generalizing b with
  | nil => rfl
  | cons c w ih => rw [List.foldl_cons, ih, within_one, List.foldl_cons]

theorem quantify_within (b : Builder) (lo : Nat) (hi : Option Nat) :
    (b.within f base).quantify .path lo hi = (b.quantify .path lo hi).map (·.within f base) := by
  rw [quantify, quantify, last_within]
  cases b.frame.branch.last with
  | none => rfl
  | some i =>
    have hquantified : (b.within f base).quantified (i.renumber f) lo hi =
        (b.quantified i lo hi).within f base :=
      (within_replaceLast b ⟨.loop i.expr lo hi (!b.flags.swapGreed), true, .counted⟩).symm
    simp only [Option.map_some, hquantified]
    obtain ⟨e, r, g⟩ := i
    cases r <;> cases g <;> simp [Item.renumber]

theorem question_within (b : Builder) :
    (b.within f base).question .path = (b.question .path).map (·.within f base) := by
  simp only [question, last_within]
  cases b.frame.branch.last with
  | none => exact quantify_within b 0 (some 1)
  | some i =>
    obtain ⟨e, r, g⟩ := i
    cases g with
    | counted =>
      have hlast : (b.replaceLast ⟨flipGreed e, r, .lazied⟩).within f base =
          (b.within f base).replaceLast ⟨flipGreed (e.renumber f), r, .lazied⟩ := by
        rw [within_replaceLast, Item.renumber, renumber_flipGreed]
      exact congrArg some hlast.symm
    | _ => exact quantify_within b 0 (some 1)

theorem plus_within (b : Builder) :
    (b.within f base).plus .path = (b.plus .path).map (·.within f base) := by
  simp only [plus, last_within]
  cases b.frame.branch.last with
  | none => exact quantify_within b 1 none
  | some i =>
    obtain ⟨e, r, g⟩ := i
    cases g with
    | counted => exact congrArg some (within_replaceLast b ⟨.atomic e, r, .sealed⟩).symm
    | lazied => exact congrArg some (within_replaceLast b ⟨.atomic e, r, .sealed⟩).symm
    | _ => exact quantify_within b 1 none

theorem count_within (b : Builder) (lo : Nat) (hi : Option Nat) (w : Text) :
    (b.within f base).count .path lo hi w = (b.count .path lo hi w).map (·.within f base) := by
  simp only [count, last_within]
  cases b.frame.branch.last with
  | none => exact congrArg some (within_chars w b).symm
  | some i =>
    obtain ⟨e, r, g⟩ := i
    cases g with
    | fresh => exact quantify_within b lo hi
    | _ => exact congrArg some (within_chars w b).symm

theorem within_bar (b : Builder) : b.bar.within f base = (b.within f base).bar := by
  have hempty : Branch.renumber f {} = {} := rfl
  rw [within, within, bar, bar]
  cases b.outer with
  | nil => simp [Frame.within, framesWithin, Branch.renumber_expr, hempty]
  | cons fr fs => simp [Frame.within, framesWithin, Frame.renumber, Branch.renumber_expr, hempty]

theorem char_within (b : Builder) (c : Char) (folds bare : Bool) :
    (b.within f base).char c folds bare = (b.char c folds bare).within f base := by
  rw [char, char]
  have hflags : (b.within f base).flags = b.flags := rfl
  rw [hflags]
  split
  · rfl
  · split
    · rfl
    · exact (within_one b _ _).symm

theorem set_within (b : Builder) (s : CharSet) :
    (b.within f base).set s = (b.set s).map (·.within f base) := by
  rw [set, set, ← within_one]
  have hflags : (b.within f base).flags = b.flags := rfl
  rw [hflags]
  split <;> rfl

theorem leaveOut_within (b : Builder) (x : Lexeme) :
    (b.within f base).leaveOut x = (b.leaveOut x).map (·.within f base) := by
  unfold leaveOut
  split <;> rfl

/-- A group of its own gets the next number. -/
theorem openGroup_within {o : Opening} (h : b.openGroup .path o = some b')
    (hc : (b.within f base).openGroup .path o = some c)
    (hgroup : b.groups < b'.groups → f b'.groups = base.groups + b'.groups) :
    c = b'.within f base := by
  rw [openGroup, Option.ite_none_left_eq_some] at h hc
  obtain ⟨-, h⟩ := h
  obtain ⟨-, hc⟩ := hc
  cases o with
  | capture =>
    obtain rfl := Option.some.inj h
    obtain rfl := Option.some.inj hc
    have hf := hgroup (Nat.lt_succ_self b.groups)
    simp [within, Frame.within, framesWithin, Frame.renumber, Branch.renumber, hf, Nat.add_assoc]
  | named name =>
    obtain rfl := Option.some.inj h
    obtain rfl := Option.some.inj hc
    have hf := hgroup (Nat.lt_succ_self b.groups)
    simp [within, Frame.within, framesWithin, Frame.renumber, Branch.renumber, hf, Nat.add_assoc]
  | _ =>
    obtain rfl := Option.some.inj h
    obtain rfl := Option.some.inj hc
    simp [within, Frame.within, framesWithin, Frame.renumber, Branch.renumber]

theorem closeGroup_within (h : b.closeGroup .path = some b')
    (hc : (b.within f base).closeGroup .path = some c) : c = b'.within f base := by
  obtain ⟨fr, fs, i, houter, hclosed, rfl⟩ := closeGroup_inv h
  obtain ⟨fr', fs', i', houter', hclosed', rfl⟩ := closeGroup_inv hc
  have hframe : (b.within f base).frame = b.frame.renumber f := by
    rw [within, houter]
    rfl
  have hsplit : (b.within f base).outer =
      fr.within f base.frame fs :: framesWithin f base fs := by
    rw [within, houter]
    rfl
  rw [hframe, closed_renumber, hclosed, Option.map_some] at hclosed'
  rw [hsplit] at houter'
  obtain ⟨rfl, rfl⟩ := List.cons.inj houter'
  obtain rfl := Option.some.inj hclosed'
  rw [within_push, hframe]
  rfl

theorem again_within {r : Reference} (h : b.again r = some b')
    (hc : (b.within f base).again r = some c)
    (hnumber : (Lexeme.again r).byNumber = true → base.names = [] ∧ ∀ n ∈ b'.referred, f n = n) :
    c = b'.within f base := by
  have hrefer : ∀ n, (b.refer n).within f base = (b.within f base).refer (f n) :=
    fun n => within_push { b with referred := n :: b.referred } { expr := .again n }
  cases r with
  | number n =>
    obtain rfl := Option.some.inj h
    obtain rfl := Option.some.inj hc
    obtain ⟨-, hfixed⟩ := hnumber rfl
    have hn : f n = n := hfixed n List.mem_cons_self
    have hsame := hrefer n
    rw [hn] at hsame
    rw [← hsame]
    rfl
  | name t =>
    have hnames : (b.within f base).names.find? (·.1 == t) =
        ((b.names.find? (·.1 == t)).map fun p => (p.1, f p.2)).or
          (base.names.find? (·.1 == t)) := by
      rw [within, List.find?_append, List.find?_map]
      rfl
    rw [again] at h hc
    rw [hnames] at hc
    cases hfind : b.names.find? (·.1 == t) with
    | some p =>
      simp only [hfind, Option.map_some, Option.some_or] at h hc
      obtain rfl := Option.some.inj h
      obtain rfl := Option.some.inj hc
      exact (hrefer p.2).symm
    | none =>
      simp only [hfind, Option.ite_none_right_eq_some] at h
      obtain ⟨hdigits, h⟩ := h
      obtain ⟨hbase, hfixed⟩ := hnumber hdigits
      obtain rfl := Option.some.inj h
      simp only [hfind, hbase, Option.map_none, List.find?_nil, Option.or_none, hdigits,
        if_true] at hc
      obtain rfl := Option.some.inj hc
      have hn := hfixed (Text.decimal t) List.mem_cons_self
      rw [hrefer, hn]

/-- What a lexeme does by itself it does inside another builder, with the numbers moved. -/
theorem step_within {x : Lexeme} (h : b.step .path x = some b')
    (hc : (b.within f base).step .path x = some c)
    (hgroup : b.groups < b'.groups → f b'.groups = base.groups + b'.groups)
    (hnumber : x.byNumber = true → base.names = [] ∧ ∀ n ∈ b'.referred, f n = n) :
    c = b'.within f base := by
  -- most lexemes need no more than the builder they meet
  have hsame : (b.within f base).step .path x = (b.step .path x).map (·.within f base) →
      c = b'.within f base := by
    intro hstep
    rw [hc, h] at hstep
    exact Option.some.inj hstep
  have hcomment : (b.within f base).inComment = b.inComment := rfl
  have hflags : (b.within f base).flags = b.flags := rfl
  have hpush : ∀ (d : Builder) {i : Item}, i.renumber f = i →
      (d.push i).within f base = (d.within f base).push i := by
    intro d i hi
    rw [within_push, hi]
  by_cases hhidden : b.inComment = true
  · apply hsame
    simp only [step, hcomment, if_pos hhidden, leaveOut_within]
  · simp only [step, hcomment, hflags, if_neg hhidden] at h hc hsame
    cases x with
    | char e folds bare => exact hsame (congrArg some (char_within b e folds bare))
    | set s => exact hsame (set_within b s)
    | dot => exact hsame (congrArg some (within_one b _ false).symm)
    | caret => exact hsame (congrArg some (hpush b rfl).symm)
    | dollar => exact hsame (congrArg some (hpush b rfl).symm)
    | check a => exact hsame (congrArg some (hpush b rfl).symm)
    | bar => exact hsame (congrArg some (within_bar b).symm)
    | opening o => exact openGroup_within h hc hgroup
    | close => exact closeGroup_within h hc
    | flags changes =>
      exact hsame (congrArg some (hpush { b with flags := b.flags.apply changes } rfl).symm)
    | comment => exact hsame rfl
    | star => exact hsame (quantify_within b 0 none)
    | plus => exact hsame (plus_within b)
    | question => exact hsame (question_within b)
    | count lo hi w => exact hsame (count_within b lo hi w)
    | again r => exact again_within h hc hnumber

/-- What lexemes do by themselves they do inside another builder, with the numbers moved. They must
not refer by number there, unless no number moves. -/
theorem run_within {xs : List Lexeme} (h : xs.foldlM (step .path) b = some b')
    (hc : xs.foldlM (step .path) (b.within f base) = some c)
    (hgroups : ∀ i, 1 ≤ i → i ≤ b'.groups → f i = base.groups + i)
    (hnumber : (∀ x ∈ xs, x.byNumber = false) ∨
      base.names = [] ∧ ∀ n ∈ b'.referred, f n = n) : c = b'.within f base := by
  induction xs generalizing b with
  | nil =>
    obtain rfl := Option.some.inj h
    exact (Option.some.inj hc).symm
  | cons x xs ih =>
    rw [List.foldlM_cons, Option.bind_eq_bind, Option.bind_eq_some_iff] at h hc
    obtain ⟨d, hstep, hrest⟩ := h
    obtain ⟨d', hstep', hrest'⟩ := hc
    have hgrows := grows_run hrest
    obtain rfl : d' = d.within f base := by
      refine step_within hstep hstep' (fun hlt => hgroups _ ?_ hgrows.groups) fun hx => ?_
      · omega
      · rcases hnumber with hnone | ⟨hnames, hfixed⟩
        · rw [hnone x List.mem_cons_self] at hx
          cases hx
        · exact ⟨hnames, fun n hn => hfixed n (hgrows.referred hn)⟩
    exact ih hrest hrest' (hnumber.imp_left fun hnone y hy => hnone y (List.mem_cons_of_mem x hy))

/-! ### Whole expressions -/

structure Begins (b : Builder) : Prop where
  flags : b.flags = {}
  inComment : b.inComment = false
  branch : b.frame.branch = {}

theorem within_init (h : base.Begins) : init.within f base = base := by
  obtain ⟨flags, groups, names, referred, numbered, inComment, frame, outer⟩ := base
  obtain ⟨kind, index, outer', alternatives, branch⟩ := frame
  obtain ⟨rfl, rfl, rfl⟩ := h
  simp [within, init, Frame.within, framesWithin, Branch.renumber]

theorem alternatives_within (h : b.outer = []) : alternatives (b.within f base).frame =
    base.frame.alternatives.reverse ++ (alternatives b.frame).map (Expr.renumber f) := by
  rw [within, h]
  simp [alternatives, Frame.within, Branch.renumber_expr]

theorem outer_within (h : b.outer = []) : (b.within f base).outer = base.outer := by
  rw [within, h]
  rfl

theorem kind_within (h : b.outer = []) : (b.within f base).frame.kind = base.frame.kind := by
  rw [within, h]
  rfl

/-- Read inside itself an expression is as it was, whatever numbers the groups get that it does not
have. So it has no others. -/
theorem Finished.keepsTo {xs : List Lexeme} (hb : b.Finished)
    (h : xs.foldlM (step .path) init = some b) {e : Expr} (he : e ∈ alternatives b.frame) :
    e.KeepsTo b.groups := by
  intro f hf
  have hbegins : init.Begins := ⟨rfl, rfl, rfl⟩
  have hself : b = b.within f init := by
    refine run_within h (by rw [within_init hbegins]; exact h) (fun i h1 hn => ?_) (.inr ⟨rfl, ?_⟩)
    · rw [hf i h1 hn, init, Nat.zero_add]
    · exact fun n hn => hf n (hb.referred n hn).1 (hb.referred n hn).2
  have hsame : alternatives (b.within f init).frame =
      init.frame.alternatives.reverse ++ (alternatives b.frame).map (Expr.renumber f) :=
    alternatives_within hb.outer
  rw [← hself] at hsame
  have hmap : (alternatives b.frame).map (Expr.renumber f) = (alternatives b.frame).map id := by
    rw [List.map_id]
    exact hsame.symm
  exact List.map_inj_left.mp hmap e he

end Builder

end PathTemplate.Expression
