import PathTemplate.Matching.Matcher
import PathTemplate.Proofs.Reading.Cutting
import PathTemplate.Proofs.Reading.Grouping
import PathTemplate.Proofs.Reading.Within

/-!
Texts as the alternatives of one bundle. Texts that do not disturb each other make up there what
they make up by themselves, each behind the groups of the texts before it.
-/
namespace PathTemplate.Expression

open Matching

def Builder.after (t : Text) : Option Builder :=
  (lexemes .path t).bind fun xs => xs.foldlM (Builder.step .path) Builder.init

theorem read_eq_after (t : Text) :
    read .path t = (Builder.after t).bind (Builder.finish .path) := by
  rw [read, Builder.after, Option.bind_assoc]
  rfl

def Builder.compiled (b : Builder) : Compiled := ⟨altAll (alternatives b.frame), b.groups⟩

theorem exists_after_of_read {t : Text} (hsettled : Settled t) {c : Compiled}
    (h : Compiled.read .path t = some c) :
    ∃ b, Builder.after t = some b ∧ b.Finished ∧ b.compiled = c := by
  have hread := hsettled.read_of_compiled h
  rw [read_eq_after] at hread
  obtain ⟨b, hb, hfinish⟩ := Option.bind_eq_some_iff.mp hread
  obtain ⟨hfinished, hexpr, hgroups⟩ := Builder.finish_inv hfinish
  exact ⟨b, hb, hfinished, by rw [Builder.compiled, ← hexpr, ← hgroups]⟩

/-! ### Texts that do not disturb each other -/

/-- Behind the text all flags are as they were in front of it, and no comment goes on. -/
def Restores (t : Text) : Prop :=
  ∀ b, Builder.after t = some b → b.flags = {} ∧ b.inComment = false

def Groupless (t : Text) : Prop := ∀ b, Builder.after t = some b → b.groups = 0

/-- Nothing in the text refers to a group by its number. -/
def Unnumbered (t : Text) : Prop :=
  ∀ xs, lexemes .path t = some xs → ∀ x ∈ xs, x.byNumber = false

instance (t : Text) : Decidable (Restores t) :=
  decidable_of_iff ((Builder.after t).all fun b => b.flags = {} ∧ b.inComment = false) (by
    rw [Option.all_eq_true]
    simp [Restores])

instance (t : Text) : Decidable (Groupless t) :=
  decidable_of_iff ((Builder.after t).all fun b => b.groups = 0) (by
    rw [Option.all_eq_true]
    simp [Groupless])

instance (t : Text) : Decidable (Unnumbered t) :=
  decidable_of_iff ((lexemes .path t).all fun xs => xs.all fun x => !x.byNumber) (by
    rw [Option.all_eq_true]
    simp [Unnumbered])

/-- Every set is known, and none of the texts disturbs those behind it. -/
structure Apart (ts : List Text) : Prop where
  settled : ∀ t ∈ ts, Settled t
  restores : ∀ t ∈ ts.dropLast, Restores t
  unnumbered : ts.Pairwise fun t u => Groupless t ∨ Unnumbered u

theorem Apart.tail {t u : Text} {ts : List Text} (h : Apart (t :: u :: ts)) : Apart (u :: ts) :=
  ⟨fun v hv => h.settled v (List.mem_cons_of_mem t hv),
    fun v hv => h.restores v (by simpa using .inr hv), h.unnumbered.of_cons⟩

/-- Behind groups nothing is referred to by its number, and so it stays. -/
theorem Apart.unnumbered_tail {t : Text} {ts : List Text} (h : Apart (t :: ts)) {b : Builder}
    (hb : Builder.after t = some b) {k : Nat} (hk : k = 0 ∨ ∀ v ∈ t :: ts, Unnumbered v) :
    k + b.groups = 0 ∨ ∀ v ∈ ts, Unnumbered v := by
  rcases hk with rfl | hall
  · by_cases hgroups : b.groups = 0
    · exact .inl (by rw [hgroups])
    · have hfirst := (List.pairwise_cons.mp h.unnumbered).1
      exact .inr fun v hv => (hfirst v hv).resolve_left fun hnone => hgroups (hnone b hb)
  · exact .inr fun v hv => hall v (List.mem_cons_of_mem t hv)

instance (ts : List Text) : Decidable (Apart ts) :=
  decidable_of_iff ((∀ t ∈ ts, Settled t) ∧ (∀ t ∈ ts.dropLast, Restores t) ∧
    ts.Pairwise fun t u => Groupless t ∨ Unnumbered u)
    ⟨fun h => ⟨h.1, h.2.1, h.2.2⟩, fun h => ⟨h.settled, h.restores, h.unnumbered⟩⟩

/-! ### Lexemes of a bundle -/

theorem lexemes_append_inv {t u : Text} {xs ys : List Lexeme} (ht : lexemes .path t = some xs)
    (hu : Seam u) (h : lexemes .path (t ++ u) = some ys) :
    ∃ zs, lexemes .path u = some zs ∧ ys = xs ++ zs := by
  rw [lexemes_eq, Option.map_eq_some_iff] at ht h
  obtain ⟨cs, hcs, rfl⟩ := ht
  obtain ⟨ds, hds, rfl⟩ := h
  rw [cuts_eq_some_iff] at hcs hds
  rw [← List.append_nil t] at hcs
  obtain ⟨es, rfl, hes⟩ := (hcs.seam seam_nil hu).unique hds
  refine ⟨es.map Cut.lexeme, ?_, List.map_append⟩
  rw [lexemes_eq, cuts_eq_some_iff.mpr hes, Option.map_some]

theorem lexemes_cons_inv {v u : Text} {x : Lexeme} {ys : List Lexeme}
    (hx : lexeme .path (v ++ u) = some (x, u)) (h : lexemes .path (v ++ u) = some ys) :
    ∃ zs, lexemes .path u = some zs ∧ ys = x :: zs := by
  rw [lexemes_eq, Option.map_eq_some_iff] at h
  obtain ⟨ds, hds, rfl⟩ := h
  have hone : Cuts (v ++ u) [⟨v, x⟩] u := .more hx (.stop u)
  obtain ⟨es, rfl, hes⟩ := hone.unique (cuts_eq_some_iff.mp hds)
  refine ⟨es.map Cut.lexeme, ?_, rfl⟩
  rw [lexemes_eq, cuts_eq_some_iff.mpr hes, Option.map_some]

/-! ### The alternatives of a bundle -/

def placed (k : Nat) : List Builder → List Expr
  | [] => []
  | b :: bs =>
    (Builder.alternatives b.frame).map (Expr.renumber (k + ·)) ++ placed (k + b.groups) bs

section Run

variable {ts : List Text} {bs : List Builder} {t : Text} {b base c : Builder}

/-- Where no group stands in front, or nothing is referred to by its number, a text does in a
builder that begins what it does by itself, whatever follows it. -/
private theorem run_text (hbase : base.Begins) (hnames : base.groups = 0 → base.names = [])
    (hb : Builder.after t = some b) (hnumber : base.groups = 0 ∨ Unnumbered t) {u : Text}
    (hu : Seam u) {ys : List Lexeme} (hys : lexemes .path (t ++ u) = some ys)
    (hc : ys.foldlM (Builder.step .path) base = some c) :
    ∃ zs, lexemes .path u = some zs ∧
      zs.foldlM (Builder.step .path) (b.within (base.groups + ·) base) = some c := by
  obtain ⟨xs, hxs, hrun⟩ := Option.bind_eq_some_iff.mp hb
  obtain ⟨zs, hzs, rfl⟩ := lexemes_append_inv hxs hu hys
  rw [List.foldlM_append, Option.bind_eq_bind, Option.bind_eq_some_iff] at hc
  obtain ⟨d, hd, hrest⟩ := hc
  rw [← Builder.within_init (f := (base.groups + ·)) hbase] at hd
  obtain rfl : d = b.within (base.groups + ·) base := by
    refine Builder.run_within hrun hd (fun _ _ _ => rfl) ?_
    rcases hnumber with hzero | hnone
    · exact .inr ⟨hnames hzero, fun n _ => by rw [hzero, Nat.zero_add]⟩
    · exact .inl (hnone xs hxs)
  exact ⟨zs, hzs, hrest⟩

/-- Behind a text that restores the flags, and a bar, a builder begins again. -/
private theorem begins_bar (ht : Restores t) (hb : Builder.after t = some b) (f : Nat → Nat)
    (base : Builder) : (b.within f base).step .path .bar = some (b.within f base).bar ∧
      (b.within f base).bar.Begins := by
  obtain ⟨hflags, hcomment⟩ := ht b hb
  have hinside : (b.within f base).inComment = false := hcomment
  exact ⟨by simp [Builder.step, hinside], hflags, hcomment, rfl⟩

/-- With groups come names, and without groups there are none. -/
private theorem names_within (hb : Builder.after t = some b) (f : Nat → Nat)
    (hnames : base.groups = 0 → base.names = []) (hzero : (b.within f base).groups = 0) :
    (b.within f base).names = [] := by
  obtain ⟨hbase, hgroups⟩ := Nat.add_eq_zero_iff.mp hzero
  obtain ⟨xs, -, hrun⟩ := Option.bind_eq_some_iff.mp hb
  have hgrows := (Builder.grows_run hrun).names
  have hown : b.names = [] := by
    rw [hgroups] at hgrows
    simpa [Builder.init] using hgrows
  rw [Builder.within, hown, hnames hbase]
  rfl

/-- Reading texts with bars between them, up to the parenthesis that closes the bundle. -/
private theorem run_sequence
    (hts : List.Forall₂ (fun t b => Builder.after t = some b ∧ b.Finished) ts bs) (hne : ts ≠ [])
    (hapart : Apart ts) (hbase : base.Begins) (hnames : base.groups = 0 → base.names = [])
    (hnumber : base.groups = 0 ∨ ∀ t ∈ ts, Unnumbered t) {ys : List Lexeme}
    (hys : lexemes .path (Text.join ['|'] ts ++ [')']) = some ys)
    (hc : ys.foldlM (Builder.step .path) base = some c) :
    ∃ d : Builder, d.step .path .close = some c ∧ d.outer = base.outer ∧
      d.frame.kind = base.frame.kind ∧ d.groups = base.groups + (bs.map Builder.groups).sum ∧
      Builder.alternatives d.frame = base.frame.alternatives.reverse ++ placed base.groups bs := by
  -- by induction on the texts: behind each of them and its bar stands a builder that begins again,
  -- with the groups so far
  induction hts generalizing base ys with
  | nil => exact absurd rfl hne
  | @cons t b ts bs ht hts ih =>
    obtain ⟨hb, hfinished⟩ := ht
    have hown : base.groups = 0 ∨ Unnumbered t := hnumber.imp_right fun h => h t List.mem_cons_self
    have houter : (b.within (base.groups + ·) base).outer = base.outer :=
      Builder.outer_within hfinished.outer
    have hkind : (b.within (base.groups + ·) base).frame.kind = base.frame.kind :=
      Builder.kind_within hfinished.outer
    have halternatives : Builder.alternatives (b.within (base.groups + ·) base).frame =
        base.frame.alternatives.reverse ++
          (Builder.alternatives b.frame).map (Expr.renumber (base.groups + ·)) :=
      Builder.alternatives_within hfinished.outer
    cases hts with
    | nil =>
      obtain ⟨zs, hzs, hrun⟩ := run_text hbase hnames hb hown (seam_close []) hys hc
      obtain ⟨ws, hws, rfl⟩ := lexemes_cons_inv (v := [')']) rfl hzs
      obtain rfl := Option.some.inj hws
      refine ⟨_, ?_, houter, hkind, rfl, ?_⟩
      · simpa using hrun
      · rw [halternatives, placed, placed, List.append_nil]
    | @cons u b' us bs' hu hus =>
      rw [Text.join_cons_cons, List.append_assoc, List.append_assoc] at hys
      obtain ⟨zs, hzs, hrun⟩ := run_text hbase hnames hb hown (seam_bar _) hys hc
      obtain ⟨ws, hws, rfl⟩ := lexemes_cons_inv (v := ['|']) rfl hzs
      have hrestores : Restores t := hapart.restores t (by simp)
      obtain ⟨hbar, hbegins⟩ := begins_bar hrestores hb (base.groups + ·) base
      rw [List.foldlM_cons, hbar] at hrun
      obtain ⟨d, hclose, houter', hkind', hgroups, halternatives'⟩ :=
        ih (List.cons_ne_nil u us) hapart.tail hbegins (names_within hb _ hnames)
          (hapart.unnumbered_tail hb hnumber) hws hrun
      refine ⟨d, hclose, houter'.trans houter, hkind'.trans hkind, ?_, ?_⟩
      · rw [hgroups]
        exact Nat.add_assoc base.groups b.groups _
      · have hbefore : (b.within (base.groups + ·) base).bar.frame.alternatives.reverse =
            Builder.alternatives (b.within (base.groups + ·) base).frame := rfl
        rw [halternatives', hbefore, halternatives, List.append_assoc]
        rfl

end Run

/-- Closing a bundle that is all there is leaves its alternatives behind. -/
private theorem close_bundle {d c : Builder} (hclose : d.step .path .close = some c)
    (hfinished : c.Finished) {changes : FlagChanges} (hkind : d.frame.kind = .plain changes)
    (houter : d.outer = [Builder.init.frame]) :
    Builder.altAll (Builder.alternatives c.frame) = Builder.altAll (Builder.alternatives d.frame) ∧
      c.groups = d.groups := by
  have hexpr : ∀ i : Item, (Branch.push {} i).expr = i.expr := by
    intro i
    obtain ⟨e, r, g⟩ := i
    cases e <;> rfl
  by_cases hcomment : d.inComment = true
  · -- a parenthesis in a comment closes nothing
    simp only [Builder.step, if_pos hcomment] at hclose
    obtain rfl := Option.some.inj hclose
    rw [hfinished.outer] at houter
    cases houter
  · simp only [Builder.step, if_neg hcomment] at hclose
    obtain ⟨f, fs, i, hframes, hclosed, rfl⟩ := Builder.closeGroup_inv hclose
    rw [houter] at hframes
    obtain ⟨rfl, rfl⟩ := List.cons.inj hframes
    simp only [Builder.closed, hkind] at hclosed
    obtain rfl := Option.some.inj hclosed
    exact ⟨hexpr _, rfl⟩

/-- Texts that are apart make up the alternatives of a bundle. -/
theorem compiled_bundled {ts : List Text} {bs : List Builder} (hapart : Apart ts) (hne : ts ≠ [])
    (hts : List.Forall₂ (fun t b => Builder.after t = some b ∧ b.Finished) ts bs) {c : Builder}
    (hc : Builder.after (bundled (Text.join ['|'] ts)) = some c) (hfinished : c.Finished) :
    c.compiled = ⟨Builder.altAll (placed 0 bs), (bs.map Builder.groups).sum⟩ := by
  obtain ⟨ys, hys, hrun⟩ := Option.bind_eq_some_iff.mp hc
  rw [bundled, List.append_assoc] at hys
  obtain ⟨zs, hzs, rfl⟩ := lexemes_cons_inv (v := "(?:".toList) rfl hys
  have hopen : Builder.init.step .path (.opening (.plain [])) =
      some (Builder.init.inside (.plain []) 0 none) := rfl
  rw [List.foldlM_cons, hopen] at hrun
  obtain ⟨d, hclose, houter, hkind, hgroups, halternatives⟩ :=
    run_sequence hts hne hapart ⟨rfl, rfl, rfl⟩ (fun _ => rfl) (.inl rfl) hzs hrun
  obtain ⟨hexpr, hsame⟩ := close_bundle hclose hfinished hkind houter
  have hnone : (Builder.init.inside (.plain []) 0 none).groups = 0 := rfl
  rw [Builder.compiled, hexpr, hsame, halternatives, hgroups, hnone, Nat.zero_add]
  rfl

end PathTemplate.Expression
