import PathTemplate.Proofs.Reading.Dialects
import PathTemplate.Proofs.Reading.Grouping

/-!
Flat texts inside parentheses. A flat lexeme changes nothing but the content of the parenthesis it
stands in, and looks at nothing else, so a flat text makes up the same content wherever it stands.
The expressions in it have no groups, and their loops repeat single characters only.
-/
namespace PathTemplate.Expression

/-- The text is cut into flat lexemes, up to whatever seam follows it. -/
def Flat (t : Text) : Prop :=
  ∃ cs : List Cut, (∀ c ∈ cs, c.lexeme.Flat) ∧ ∀ u, Seam u → Cuts (t ++ u) cs u

/-- Lexemes are read where they are cut. -/
theorem Cuts.reads {t u : Text} {cs : List Cut} (h : Cuts t cs u) {b b' : Builder}
    (hb : (cs.map Cut.lexeme).foldlM (Builder.step .path) b = some b') : Reads .path b t b' u := by
  induction h generalizing b with
  | stop => exact Option.some.inj hb ▸ .stop _ _
  | @more v r u x cs hx hrest ih =>
    rw [List.map_cons, List.foldlM_cons, Option.bind_eq_bind, Option.bind_eq_some_iff] at hb
    obtain ⟨c, hc, hb⟩ := hb
    have hlen : r.length < (v ++ r).length := by
      have hpos : 0 < v.length := (Cuts.more hx hrest).text_length_pos
      rw [List.length_append]
      omega
    exact .more hx hlen hc (ih hb)

/-- What can be read to its end takes the steps of the lexemes that are cut from it. -/
theorem Cuts.exists_foldlM {t u : Text} {cs : List Cut} (h : Cuts t cs u) {b : Builder}
    (hr : Readable .path b t) :
    ∃ b', (cs.map Cut.lexeme).foldlM (Builder.step .path) b = some b' := by
  induction h generalizing b with
  | stop => exact ⟨b, rfl⟩
  | more hx _ ih =>
    obtain ⟨c, hc, hr⟩ := hr.step hx
    obtain ⟨b', hb'⟩ := ih hr
    refine ⟨b', ?_⟩
    rw [List.map_cons, List.foldlM_cons, hc]
    exact hb'

/-- What is read as an expression can be read to its end. -/
theorem readable_of_read {t : Text} (h : (Expression.read .path t).isSome = true) :
    Readable .path Builder.init t := by
  rw [Expression.read, lexemes_eq] at h
  cases hcuts : cuts t with
  | none =>
    rw [hcuts] at h
    cases h
  | some cs =>
    rw [hcuts] at h
    cases hb : (cs.map Cut.lexeme).foldlM (Builder.step .path) Builder.init with
    | none => simp [hb] at h
    | some b => exact ⟨b, (cuts_eq_some_iff.mp hcuts).reads hb⟩

namespace Builder

def start (a : Bool) : Builder := { init with flags := { anyCase := a } }

theorem quiet_start (a : Bool) : (start a).Quiet a := ⟨rfl, rfl, rfl, rfl, rfl⟩

theorem hold_empty {b : Builder} (h : b.frame.branch = {}) : b.hold 0 {} = b := by
  rw [hold, ← h]
  rfl

end Builder

namespace Content

def push (c : Content) (i : Item) : Content := { c with branch := c.branch.push i }

def replaceLast (c : Content) (i : Item) : Content := { c with branch.last := some i }

def bar (c : Content) : Content := ⟨c.branch.expr :: c.alternatives, {}⟩

def one (a : Bool) (c : Content) (s : CharSet) (folds : Bool) : Content :=
  c.push { expr := .one s (a && folds) }

def chars (a : Bool) (c : Content) (w : Text) : Content :=
  w.foldl (fun c e => c.one a (.single e) true) c

def quantify (c : Content) (lo : Nat) (hi : Option Nat) : Option Content :=
  match c.branch.last with
  | some ⟨e, true, .fresh⟩ => some (c.replaceLast { expr := .loop e lo hi true, stage := .counted })
  | _ => none

def step (a : Bool) (c : Content) : Lexeme → Option Content
  | .char e folds _ => some (c.one a (.single e) folds)
  | .set s => some (c.one a s true)
  | .dot => some (c.one a .notNewline false)
  | .caret => some (c.push { expr := .check .textStart, repeatable := false })
  | .dollar => some (c.push { expr := .check .textEnd, repeatable := false })
  | .check x => some (c.push { expr := .check x, repeatable := false })
  | .bar => some c.bar
  | .star => c.quantify 0 none
  | .plus =>
    match c.branch.last with
    | some ⟨e, r, .counted⟩ | some ⟨e, r, .lazied⟩ => some (c.replaceLast ⟨.atomic e, r, .sealed⟩)
    | _ => c.quantify 1 none
  | .question =>
    match c.branch.last with
    | some ⟨e, r, .counted⟩ => some (c.replaceLast ⟨Builder.flipGreed e, r, .lazied⟩)
    | _ => c.quantify 0 (some 1)
  | .count lo hi written =>
    match c.branch.last with
    | some ⟨_, _, .fresh⟩ => c.quantify lo hi
    | _ => some (c.chars a written)
  | _ => none

end Content

section Step

variable {a : Bool} {b : Builder}

private theorem hold_push (b : Builder) (c : Content) (i : Item) :
    (b.hold 0 c).push i = b.hold 0 (c.push i) := rfl

private theorem hold_replaceLast (b : Builder) (c : Content) (i : Item) :
    (b.hold 0 c).replaceLast i = b.hold 0 (c.replaceLast i) := rfl

private theorem hold_last (b : Builder) (c : Content) :
    (b.hold 0 c).frame.branch.last = c.branch.last := rfl

private theorem hold_one (hb : b.Quiet a) (c : Content) (s : CharSet) (folds : Bool) :
    (b.hold 0 c).one s folds = b.hold 0 (c.one a s folds) := by
  rw [Builder.one, (hb.hold 0 c).flags, hold_push]
  rfl

private theorem hold_chars (hb : b.Quiet a) (c : Content) (w : Text) :
    w.foldl (fun b e => b.one (.single e) true) (b.hold 0 c) = b.hold 0 (c.chars a w) := by
  induction w generalizing c with
  | nil => rfl
  | cons e w ih =>
    rw [List.foldl_cons, hold_one hb, ih]
    rfl

private theorem hold_quantify (hb : b.Quiet a) (c : Content) (lo : Nat) (hi : Option Nat) :
    (b.hold 0 c).quantify .path lo hi = (c.quantify lo hi).map (b.hold 0) := by
  simp only [Builder.quantify, Content.quantify, hold_last]
  cases c.branch.last with
  | none => rfl
  | some i =>
    obtain ⟨e, r, g⟩ := i
    simp only [Builder.quantified, (hb.hold 0 c).flags, hold_replaceLast]
    cases r <;> cases g <;> simp

/-- A flat lexeme looks at the content of its parenthesis only, and changes nothing else. -/
theorem step_hold (hb : b.Quiet a) {x : Lexeme} (hx : x.Flat) (c : Content) :
    (b.hold 0 c).step .path x = (c.step a x).map (b.hold 0) := by
  have hcomment : (b.hold 0 c).inComment = false := hb.comment
  have hflags : (b.hold 0 c).flags = { anyCase := a } := hb.flags
  have hquantify := hold_quantify hb c
  simp only [Builder.step, hcomment, Bool.false_eq_true, if_false]
  cases x with
  | char e folds bare =>
    simp [Builder.char, hflags, hold_one hb, Content.step]
  | set s => simp [Builder.set, hflags, hold_one hb, Content.step]
  | dot => simp [hflags, hold_one hb, Content.step]
  | caret => simp [hflags, hold_push, Content.step]
  | dollar => simp [hflags, hold_push, Content.step]
  | check x => rfl
  | bar => rfl
  | opening o => exact hx.elim
  | close => exact hx.elim
  | flags changes => exact hx.elim
  | comment => exact hx.elim
  | star => exact hquantify 0 none
  | plus =>
    simp only [Builder.plus, Content.step, hold_last]
    cases hlast : c.branch.last with
    | none => exact hquantify 1 none
    | some i =>
      obtain ⟨e, r, g⟩ := i
      cases g with
      | fresh => exact hquantify 1 none
      | counted => rfl
      | lazied => rfl
      | sealed => exact hquantify 1 none
  | question =>
    simp only [Builder.question, Content.step, hold_last]
    cases hlast : c.branch.last with
    | none => exact hquantify 0 (some 1)
    | some i =>
      obtain ⟨e, r, g⟩ := i
      cases g with
      | fresh => exact hquantify 0 (some 1)
      | counted => rfl
      | lazied => exact hquantify 0 (some 1)
      | sealed => exact hquantify 0 (some 1)
  | count lo hi written =>
    have hwritten := congrArg some (hold_chars hb c written)
    simp only [Builder.count, Content.step, hold_last]
    cases hlast : c.branch.last with
    | none => exact hwritten
    | some i =>
      obtain ⟨e, r, g⟩ := i
      cases g with
      | fresh => exact hquantify lo hi
      | counted => exact hwritten
      | lazied => exact hwritten
      | sealed => exact hwritten
  | again r => exact hx.elim

theorem foldlM_step_hold (hb : b.Quiet a) {cs : List Cut} (hcs : ∀ x ∈ cs, x.lexeme.Flat)
    (c : Content) :
    (cs.map Cut.lexeme).foldlM (Builder.step .path) (b.hold 0 c) =
      ((cs.map Cut.lexeme).foldlM (Content.step a) c).map (b.hold 0) := by
  induction cs generalizing c with
  | nil => rfl
  | cons x cs ih =>
    obtain ⟨hx, hcs⟩ := List.forall_mem_cons.mp hcs
    rw [List.map_cons, List.foldlM_cons, List.foldlM_cons, step_hold hb hx c]
    cases c.step a x.lexeme with
    | none => rfl
    | some c' => exact ih hcs c'

/-- Flat lexemes take the builder from one content of its parenthesis to the next. -/
theorem reads_flat (hb : b.Quiet a) {t u : Text} {cs : List Cut} (hcuts : Cuts t cs u)
    (hcs : ∀ x ∈ cs, x.lexeme.Flat) {c c' : Content}
    (h : (cs.map Cut.lexeme).foldlM (Content.step a) c = some c') :
    Reads .path (b.hold 0 c) t (b.hold 0 c') u := by
  refine hcuts.reads ?_
  rw [foldlM_step_hold hb hcs, h]
  rfl

/-- Where flat lexemes can be read they make up a content. -/
theorem exists_content_of_readable (hb : b.Quiet a) {t u : Text} {cs : List Cut}
    (hcuts : Cuts t cs u) (hcs : ∀ x ∈ cs, x.lexeme.Flat) {c : Content}
    (h : Readable .path (b.hold 0 c) t) :
    ∃ c', (cs.map Cut.lexeme).foldlM (Content.step a) c = some c' := by
  obtain ⟨b', hb'⟩ := hcuts.exists_foldlM h
  rw [foldlM_step_hold hb hcs] at hb'
  obtain ⟨c', hc', -⟩ := Option.map_eq_some_iff.mp hb'
  exact ⟨c', hc'⟩

end Step

def bodyContent (a : Bool) (t : Text) : Content :=
  ((lexemes .path t).bind fun xs => xs.foldlM (Content.step a) {}).getD {}

private theorem bodyContent_of_cuts {a : Bool} {t : Text} {cs : List Cut} (hcuts : Cuts t cs [])
    {c : Content} (h : (cs.map Cut.lexeme).foldlM (Content.step a) {} = some c) :
    bodyContent a t = c := by
  rw [bodyContent, lexemes_eq, cuts_eq_some_iff.mpr hcuts, Option.map_some, Option.bind_some, h]
  rfl

def HasContent (a : Bool) (t : Text) : Prop :=
  ∃ (cs : List Cut) (c : Content), (∀ x ∈ cs, x.lexeme.Flat) ∧
    (∀ u, Seam u → Cuts (t ++ u) cs u) ∧
    (cs.map Cut.lexeme).foldlM (Content.step a) {} = some c

/-- A flat text that is read somewhere makes up a content. -/
theorem Flat.hasContent {a : Bool} {t u : Text} {b : Builder} (ht : Flat t) (hb : b.Quiet a)
    (hf : b.frame.branch = {}) (hu : Seam u) (hr : Readable .path b (t ++ u)) :
    HasContent a t := by
  obtain ⟨cs, hcs, hcuts⟩ := ht
  rw [← Builder.hold_empty hf] at hr
  obtain ⟨c, hc⟩ := exists_content_of_readable hb (hcuts u hu) hcs hr
  exact ⟨cs, c, hcs, hcuts, hc⟩

/-- What makes up a content makes it up wherever it stands. -/
theorem HasContent.encloses {a : Bool} {t : Text} (h : HasContent a t) :
    Encloses .path a 0 t 0 fun _ => bodyContent a t := by
  obtain ⟨cs, c, hcs, hcuts, hc⟩ := h
  intro b u hb hf hu _
  have hbody := hcuts [] seam_nil
  rw [List.append_nil] at hbody
  rw [bodyContent_of_cuts hbody hc]
  have hread := reads_flat hb (hcuts u hu) hcs hc
  rwa [Builder.hold_empty hf] at hread

/-- A flat text that is read at all makes up its content, wherever it stands. No room is enough to
know that it is read. -/
theorem encloses_bodyContent (a : Bool) {t : Text} (ht : Flat t) :
    Encloses .path a (Dialect.path.depth + 1) t 0 fun _ => bodyContent a t := by
  intro b u hb hf hu hd
  rcases hd with hfull | hread
  · exact absurd hfull (by omega)
  · exact (ht.hasContent hb hf hu hread).encloses b u hb hf hu (.inr hread)

/-- What is known to be the content of a flat text is its content. -/
theorem bodyContent_eq {a : Bool} {deep : Nat} {t : Text} {c : Content} (ht : Flat t)
    (h : Encloses .path a deep t 0 fun _ => c) (hdeep : deep ≤ Dialect.path.depth) :
    bodyContent a t = c := by
  have hstart : (Builder.start a).frame.branch = {} := rfl
  have hread := h (Builder.start a) [] (Builder.quiet_start a) hstart seam_nil
    (.inl (by simpa [Builder.start, Builder.init] using hdeep))
  have hcontent := ht.hasContent (Builder.quiet_start a) hstart seam_nil ⟨_, hread⟩
  have hsame := (hcontent.encloses (Builder.start a) [] (Builder.quiet_start a) hstart seam_nil
    (.inr ⟨_, hread⟩)).unique hread
  simpa [Builder.hold, Builder.start, Builder.init, Content.ext_iff] using hsame

/-! ### What a body can hold -/

/-- No groups, no references and no look-around, and loops around single characters only. `S` says
of each set of characters, with its case mode, that it may stand there. -/
inductive Expr.Shallow (S : CharSet → Bool → Prop) : Expr → Prop
  | empty : Shallow S .empty
  | one {s : CharSet} {a : Bool} : S s a → Shallow S (.one s a)
  | check (x : Assertion) : Shallow S (.check x)
  | cat {e f : Expr} : Shallow S e → Shallow S f → Shallow S (.cat e f)
  | alt {e f : Expr} : Shallow S e → Shallow S f → Shallow S (.alt e f)
  | loop {s : CharSet} {a : Bool} (lo : Nat) (hi : Option Nat) (greedy : Bool) :
      S s a → Shallow S (.loop (.one s a) lo hi greedy)
  | atomic {s : CharSet} {a : Bool} (lo : Nat) (hi : Option Nat) (greedy : Bool) :
      S s a → Shallow S (.atomic (.loop (.one s a) lo hi greedy))

inductive Item.Shallow (S : CharSet → Bool → Prop) : Item → Prop
  | check (x : Assertion) : Shallow S ⟨.check x, false, .fresh⟩
  | one {s : CharSet} {a : Bool} : S s a → Shallow S ⟨.one s a, true, .fresh⟩
  | counted {s : CharSet} {a : Bool} (lo : Nat) (hi : Option Nat) (greedy : Bool) :
      S s a → Shallow S ⟨.loop (.one s a) lo hi greedy, true, .counted⟩
  | lazied {s : CharSet} {a : Bool} (lo : Nat) (hi : Option Nat) (greedy : Bool) :
      S s a → Shallow S ⟨.loop (.one s a) lo hi greedy, true, .lazied⟩
  | sealed {s : CharSet} {a : Bool} (lo : Nat) (hi : Option Nat) (greedy : Bool) :
      S s a → Shallow S ⟨.atomic (.loop (.one s a) lo hi greedy), true, .sealed⟩

theorem Item.Shallow.expr {S : CharSet → Bool → Prop} {i : Item} (h : i.Shallow S) :
    i.expr.Shallow S := by
  cases h with
  | check x => exact .check x
  | one hs => exact .one hs
  | counted lo hi greedy hs => exact .loop lo hi greedy hs
  | lazied lo hi greedy hs => exact .loop lo hi greedy hs
  | sealed lo hi greedy hs => exact .atomic lo hi greedy hs

def Lexeme.Allowed (S : CharSet → Bool → Prop) (a : Bool) : Lexeme → Prop
  | .char e folds _ => S (.single e) (a && folds)
  | .set s => S s a
  | .dot => S .notNewline false
  | .count _ _ written => ∀ e ∈ written, S (.single e) a
  | _ => True

structure Content.Shallow (S : CharSet → Bool → Prop) (c : Content) : Prop where
  alternatives : ∀ e ∈ c.alternatives, e.Shallow S
  done : ∀ i, c.branch.done = some i → i.expr.Shallow S
  last : ∀ i, c.branch.last = some i → i.Shallow S

namespace Content.Shallow

variable {S : CharSet → Bool → Prop} {a : Bool} {c c' : Content}

theorem empty : Shallow S {} := ⟨nofun, nofun, nofun⟩

theorem holds (h : c.Shallow S) : c.branch.Holds (Expr.Shallow S) :=
  ⟨h.done, fun i hi => (h.last i hi).expr⟩

theorem branch (h : c.Shallow S) : c.branch.expr.Shallow S :=
  h.holds.expr .empty fun _ _ => .cat

theorem exprs (h : c.Shallow S) : ∀ e ∈ c.exprs, e.Shallow S := by
  intro e he
  rcases List.mem_cons.mp (List.mem_reverse.mp he) with rfl | he
  · exact h.branch
  · exact h.alternatives e he

theorem expr (h : c.Shallow S) : c.expr.Shallow S :=
  Builder.holds_altAll .empty (fun _ _ => .alt) h.exprs

theorem push (h : c.Shallow S) {i : Item} (hi : i.Shallow S) : (c.push i).Shallow S :=
  ⟨h.alternatives, h.holds.joined fun _ _ => .cat, fun _ hj => Option.some.inj hj ▸ hi⟩

theorem replaceLast (h : c.Shallow S) {i : Item} (hi : i.Shallow S) :
    (c.replaceLast i).Shallow S :=
  ⟨h.alternatives, h.done, fun _ hj => Option.some.inj hj ▸ hi⟩

theorem one (h : c.Shallow S) {s : CharSet} {folds : Bool} (hs : S s (a && folds)) :
    (c.one a s folds).Shallow S := h.push (.one hs)

theorem chars (h : c.Shallow S) {w : Text} (hw : ∀ e ∈ w, S (.single e) a) :
    (c.chars a w).Shallow S := by
  induction w generalizing c with
  | nil => exact h
  | cons e w ih =>
    have hfirst : S (.single e) (a && true) := by
      rw [Bool.and_true]
      exact hw e List.mem_cons_self
    exact ih (h.one hfirst) fun f hf => hw f (List.mem_cons_of_mem e hf)

theorem bar (h : c.Shallow S) : c.bar.Shallow S := by
  refine ⟨fun e he => ?_, nofun, nofun⟩
  rcases List.mem_cons.mp he with rfl | he
  · exact h.branch
  · exact h.alternatives e he

theorem quantify (h : c.Shallow S) {lo : Nat} {hi : Option Nat} (hs : c.quantify lo hi = some c') :
    c'.Shallow S := by
  rw [Content.quantify] at hs
  split at hs
  case _ e hlast =>
    obtain rfl := Option.some.inj hs
    have hitem := h.last _ hlast
    cases hitem with
    | one hallowed => exact h.replaceLast (.counted lo hi true hallowed)
  case _ => cases hs

/-- A quantifier repeats a single character, and what follows it changes the loop as a whole. -/
theorem step (h : c.Shallow S) {x : Lexeme} (hx : x.Allowed S a) (hs : c.step a x = some c') :
    c'.Shallow S := by
  cases x with
  | char e folds bare => exact Option.some.inj hs ▸ h.one hx
  | set s =>
    have hset : S s (a && true) := by rwa [Bool.and_true]
    exact Option.some.inj hs ▸ h.one hset
  | dot =>
    have hset : S .notNewline (a && false) := by rwa [Bool.and_false]
    exact Option.some.inj hs ▸ h.one hset
  | caret => exact Option.some.inj hs ▸ h.push (.check _)
  | dollar => exact Option.some.inj hs ▸ h.push (.check _)
  | check x => exact Option.some.inj hs ▸ h.push (.check x)
  | bar => exact Option.some.inj hs ▸ h.bar
  | star => exact h.quantify hs
  | plus =>
    rw [Content.step] at hs
    split at hs
    case _ hlast =>
      obtain rfl := Option.some.inj hs
      cases h.last _ hlast with
      | counted lo hi greedy hallowed => exact h.replaceLast (.sealed lo hi greedy hallowed)
    case _ hlast =>
      obtain rfl := Option.some.inj hs
      cases h.last _ hlast with
      | lazied lo hi greedy hallowed => exact h.replaceLast (.sealed lo hi greedy hallowed)
    case _ => exact h.quantify hs
  | question =>
    rw [Content.step] at hs
    split at hs
    case _ hlast =>
      obtain rfl := Option.some.inj hs
      cases h.last _ hlast with
      | counted lo hi greedy hallowed => exact h.replaceLast (.lazied lo hi (!greedy) hallowed)
    case _ => exact h.quantify hs
  | count lo hi written =>
    rw [Content.step] at hs
    split at hs
    case _ => exact h.quantify hs
    case _ => exact Option.some.inj hs ▸ h.chars hx
  | opening o => cases hs
  | close => cases hs
  | flags changes => cases hs
  | comment => cases hs
  | again r => cases hs

end Content.Shallow

/-- Where every lexeme writes allowed sets only, all sets in a body are allowed. -/
theorem shallow_bodyContent {S : CharSet → Bool → Prop} {a : Bool} {t : Text}
    (hS : ∀ xs, lexemes .path t = some xs → ∀ x ∈ xs, x.Allowed S a) :
    (bodyContent a t).Shallow S := by
  have hrun : ∀ {xs : List Lexeme} {c c' : Content}, (∀ x ∈ xs, x.Allowed S a) → c.Shallow S →
      xs.foldlM (Content.step a) c = some c' → c'.Shallow S := by
    intro xs
    induction xs with
    | nil => exact fun _ hc hs => Option.some.inj hs ▸ hc
    | cons x xs ih =>
      intro c c' hxs hc hs
      obtain ⟨hx, hxs⟩ := List.forall_mem_cons.mp hxs
      obtain ⟨d, hd, hs⟩ := Option.bind_eq_some_iff.mp hs
      exact ih hxs (hc.step hx hd) hs
  rw [bodyContent]
  cases hread : (lexemes .path t).bind fun xs => xs.foldlM (Content.step a) {} with
  | none => exact .empty
  | some c =>
    obtain ⟨xs, hxs, hc⟩ := Option.bind_eq_some_iff.mp hread
    exact hrun (hS xs hxs) .empty hc

/-- Whatever its sets are, a body is shallow. -/
theorem shallow_bodyContent_any (a : Bool) (t : Text) :
    (bodyContent a t).Shallow fun _ _ => True :=
  shallow_bodyContent fun _ _ x _ => by cases x <;> simp [Lexeme.Allowed]

theorem Expr.Shallow.isSettled {e : Expr} (h : e.Shallow fun s _ => s.isSpelled = false) :
    e.isSettled = true := by
  induction h with
  | empty => rfl
  | one hs => simp [Expr.isSettled, hs]
  | check x => rfl
  | cat _ _ he hf => simp [Expr.isSettled, he, hf]
  | alt _ _ he hf => simp [Expr.isSettled, he, hf]
  | loop lo hi greedy hs => simp [Expr.isSettled, hs]
  | atomic lo hi greedy hs => simp [Expr.isSettled, hs]

/-- All sets in the body that a flat text makes up are known. -/
theorem Flat.isSettled_bodyContent (a : Bool) {t : Text} (ht : Flat t) :
    (bodyContent a t).expr.isSettled = true := by
  obtain ⟨cs, hcs, hcuts⟩ := ht
  have hcuts := hcuts [] seam_nil
  rw [List.append_nil] at hcuts
  refine (shallow_bodyContent fun xs hxs x hx => ?_).expr.isSettled
  rw [lexemes_eq, cuts_eq_some_iff.mpr hcuts] at hxs
  obtain rfl := Option.some.inj hxs
  obtain ⟨c, hc, rfl⟩ := List.mem_map.mp hx
  have hflat := hcs c hc
  cases hlex : c.lexeme <;>
    simp_all [Lexeme.Flat, Lexeme.Allowed, CharSet.isSpelled, CharSet.single, CharSet.notNewline]

end PathTemplate.Expression
