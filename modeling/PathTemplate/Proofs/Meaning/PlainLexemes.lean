import PathTemplate.Proofs.Meaning.PlainPatterns

/-!
Plain patterns of paths, told by their lexemes. Each is made of single characters, sets, quantifiers
directly behind these, and bars. Between parentheses such a pattern opens no groups and takes the
texts of one language, and a search for it is never given up.
-/
namespace PathTemplate.Expression

open scoped Computability

/-- Single characters of sets, each with at most one quantifier, which may be lazy. -/
inductive PlainRun : List Lexeme → Language Char → Prop
  | nil : PlainRun [] 1
  | once {x : Lexeme} {s : CharSet} {xs : List Lexeme} {l : Language Char} :
      x.expr? false = some (.one s false) → PlainRun xs l → PlainRun (x :: xs) (s.texts * l)
  | greedy {x q : Lexeme} {s : CharSet} {lo : Nat} {most : Option Nat} {xs : List Lexeme}
      {l : Language Char} : x.expr? false = some (.one s false) → q.times? = some (lo, most) →
        most.all (lo ≤ ·) = true → PlainRun xs l →
          PlainRun (x :: q :: xs) (Step.repeated s.texts lo most * l)
  | reluctant {x q : Lexeme} {s : CharSet} {lo : Nat} {most : Option Nat} {xs : List Lexeme}
      {l : Language Char} : x.expr? false = some (.one s false) → q.times? = some (lo, most) →
        most.all (lo ≤ ·) = true → PlainRun xs l →
          PlainRun (x :: q :: .question :: xs) (Step.repeated s.texts lo most * l)

inductive PlainAlternatives : List Lexeme → Language Char → Prop
  | single {xs : List Lexeme} {l : Language Char} : PlainRun xs l → PlainAlternatives xs l
  | bar {xs ys : List Lexeme} {l m : Language Char} : PlainRun xs l → PlainAlternatives ys m →
      PlainAlternatives (xs ++ .bar :: ys) (l + m)

/-- The text is a plain pattern of the language, and its sets are known. -/
def PlainText (t : Text) (l : Language Char) : Prop :=
  ∃ xs, lexemes .path t = some xs ∧ (∀ x ∈ xs, x.isSettled) ∧ PlainAlternatives xs l

/-! ### What can be searched -/

/-- A search for the expression is not given up, and no loop in it asks for more turns than it
allows. -/
structure Expr.Searchable (e : Expr) : Prop where
  plain : e.isPlain = true
  bounds : ∀ plain, e.boundsOk plain = true

theorem throughLoops_searchable (a : Bool) : ThroughLoops a Expr.Searchable := by
  have hplain := throughLoops_isPlain a
  have hbounds := throughLoops_boundsOk a
  exact {
    empty := ⟨hplain.empty, hbounds.empty⟩
    one := fun s hs => ⟨hplain.one s hs, hbounds.one s hs⟩
    char := fun c => ⟨hplain.char c, hbounds.char c⟩
    check := fun x hx => ⟨hplain.check x hx, hbounds.check x hx⟩
    cat := fun e f he hf =>
      ⟨hplain.cat e f he.plain hf.plain, hbounds.cat e f he.bounds hf.bounds⟩
    optional := fun e he => ⟨hplain.optional e he.plain, hbounds.optional e he.bounds⟩
    group := fun i e he => ⟨hplain.group i e he.plain, hbounds.group i e he.bounds⟩
    loop := fun e lo hi greedy hle he =>
      ⟨hplain.loop e lo hi greedy hle he.plain, hbounds.loop e lo hi greedy hle he.bounds⟩ }

theorem Content.searchable_after {c : Content} {e : Expr} (he : e.Searchable)
    (hc : c.expr.Searchable) : (c.after e).expr.Searchable where
  plain := by
    rw [Content.all_after (f := Expr.isPlain) rfl (fun _ _ => rfl), he.plain, hc.plain]
    rfl
  bounds := by
    intro plain
    rw [Content.all_after (f := fun g => g.boundsOk plain) rfl (fun _ _ => rfl), he.bounds,
      hc.bounds]
    rfl

/-! ### What plain lexemes make of a content -/

namespace Content

variable {a : Bool} {c c' : Content} {x : Lexeme} {e : Expr}

theorem step_expr (c : Content) (hx : x.expr? a = some e) :
    c.step a x = some (c.push { expr := e }) := by
  cases x with
  | char | set | dot =>
    rw [← Option.some.inj hx]
    simp [step, one]
  | _ => cases hx

theorem step_times (c : Content) (e : Expr) {lo : Nat} {most : Option Nat}
    (hx : x.times? = some (lo, most)) :
    (c.push { expr := e }).step a x = some (c.push (countedItem { expr := e } lo most)) := by
  cases x with
  | star | plus | question | count =>
    obtain ⟨rfl, rfl⟩ := Prod.mk.inj (Option.some.inj hx)
    rfl
  | _ => cases hx

theorem step_question (c : Content) (e : Expr) (lo : Nat) (most : Option Nat) :
    (c.push (countedItem { expr := e } lo most)).step a .question =
      some (c.push (laziedItem .path { expr := e } lo most)) := rfl

theorem foldlM_step_cons {xs : List Lexeme} (h : c.step a x = some c') :
    (x :: xs).foldlM (step a) c = xs.foldlM (step a) c' := by
  rw [List.foldlM_cons, h]
  rfl

/-- Only flat lexemes make anything of a content, where sets are known. -/
theorem flat_of_step (hx : x.isSettled) (h : c.step a x = some c') : x.Flat := by
  cases x with
  | opening | close | flags | comment | again => cases h
  | set s => simpa [Lexeme.isSettled, Lexeme.Flat] using hx
  | _ => trivial

theorem flat_of_foldlM {xs : List Lexeme} (hxs : ∀ x ∈ xs, x.isSettled)
    (h : xs.foldlM (step a) c = some c') : ∀ x ∈ xs, x.Flat := by
  induction xs generalizing c with
  | nil => exact nofun
  | cons x xs ih =>
    obtain ⟨hx, hxs⟩ := List.forall_mem_cons.mp hxs
    rw [List.foldlM_cons, Option.bind_eq_bind, Option.bind_eq_some_iff] at h
    obtain ⟨d, hd, hrest⟩ := h
    exact List.forall_mem_cons.mpr ⟨flat_of_step hx hd, ih hxs hrest⟩

theorem foldl_push (c : Content) (is : List Item) :
    is.foldl push c = { c with branch := is.foldl Branch.push c.branch } := by
  induction is generalizing c with
  | nil => rfl
  | cons i is ih => rw [List.foldl_cons, ih]; rfl

end Content

private def Adds (xs : List Lexeme) (is : List Item) (l : Language Char) : Prop :=
  (∀ c, xs.foldlM (Content.step false) c = some (is.foldl Content.push c)) ∧ Spells is l ∧
    Throughout Expr.Searchable is

private theorem Adds.append {xs ys : List Lexeme} {is js : List Item} {l m : Language Char}
    (h : Adds xs is l) (h' : Adds ys js m) : Adds (xs ++ ys) (is ++ js) (l * m) := by
  refine ⟨fun c => ?_, h.2.1.append h'.2.1, h.2.2.append h'.2.2⟩
  rw [List.foldlM_append, h.1, Option.bind_eq_bind, Option.bind_some, h'.1, List.foldl_append]

private theorem searchable_one (s : CharSet) : (Expr.one s false).Searchable := ⟨rfl, fun _ => rfl⟩

theorem PlainRun.exists_items {xs : List Lexeme} {l : Language Char} (h : PlainRun xs l) :
    ∃ is, Adds xs is l := by
  induction h with
  | nil => exact ⟨[], fun _ => rfl, .nil, .nil⟩
  | @once x s xs l hx _ ih =>
    obtain ⟨is, his⟩ := ih
    have hone : Adds [x] [{ expr := .one s false }] s.texts := by
      refine ⟨fun c => ?_, .one fun _ => Iff.rfl, .single (searchable_one s)⟩
      rw [Content.foldlM_step_cons (c.step_expr hx)]
      rfl
    exact ⟨_, hone.append his⟩
  | @greedy x q s lo most xs l hx hq hle _ ih =>
    obtain ⟨is, his⟩ := ih
    have hloop := (throughLoops_searchable false).loop _ lo most true hle (searchable_one s)
    have hcounted : Adds [x, q] [countedItem { expr := .one s false } lo most]
        (Step.repeated s.texts lo most) := by
      refine ⟨fun c => ?_, spells_loop rfl hle, .single hloop⟩
      rw [Content.foldlM_step_cons (c.step_expr hx), Content.foldlM_step_cons (c.step_times _ hq)]
      rfl
    exact ⟨_, hcounted.append his⟩
  | @reluctant x q s lo most xs l hx hq hle _ ih =>
    obtain ⟨is, his⟩ := ih
    have hloop := (throughLoops_searchable false).loop _ lo most false hle (searchable_one s)
    have hlazied : Adds [x, q, .question] [laziedItem .path { expr := .one s false } lo most]
        (Step.repeated s.texts lo most) := by
      refine ⟨fun c => ?_, spells_loop rfl hle, .single hloop⟩
      rw [Content.foldlM_step_cons (c.step_expr hx), Content.foldlM_step_cons (c.step_times _ hq),
        Content.foldlM_step_cons (c.step_question _ lo most)]
      rfl
    exact ⟨_, hlazied.append his⟩

structure Content.Means (c : Content) (l : Language Char) : Prop where
  accepts : ∀ et, Step.Accepts (c.expr.paths et) l
  searchable : c.expr.Searchable

/-- The first run is read in the branch that has begun. Every bar puts the branch before it among
the alternatives. -/
theorem PlainAlternatives.exists_content {xs : List Lexeme} {l : Language Char}
    (h : PlainAlternatives xs l) :
    ∃ c : Content, c.Means l ∧
      ∀ es, xs.foldlM (Content.step false) ⟨es, {}⟩ = some ⟨c.alternatives ++ es, c.branch⟩ := by
  have hP := (throughLoops_searchable false).toInherited
  induction h with
  | single hrun =>
    obtain ⟨is, hadds, hs, hp⟩ := hrun.exists_items
    refine ⟨.ofItems is, ⟨hs.ofItems, hp.ofItems hP⟩, fun es => ?_⟩
    rw [hadds, Content.foldl_push]
    rfl
  | @bar xs ys l m hrun _ ih =>
    obtain ⟨is, hadds, hs, hp⟩ := hrun.exists_items
    obtain ⟨c, hc, hread⟩ := ih
    refine ⟨c.after (Branch.ofItems is).expr,
      ⟨fun et => Content.accepts_after (hs.ofItems et) (hc.accepts et),
        Content.searchable_after (hp.ofItems hP) hc.searchable⟩, fun es => ?_⟩
    have hbar : (Content.mk es (is.foldl Branch.push {})).step false .bar =
        some ⟨(Branch.ofItems is).expr :: es, {}⟩ := rfl
    rw [List.foldlM_append, hadds, Content.foldl_push, Option.bind_eq_bind, Option.bind_some,
      Content.foldlM_step_cons hbar, hread]
    simp [Content.after]

/-! ### Plain texts -/

namespace PlainText

variable {t : Text} {l : Language Char}

private theorem exists_cuts (h : PlainText t l) :
    ∃ cs c, Cuts t cs [] ∧ (∀ x ∈ cs, x.lexeme.Flat) ∧
      (cs.map Cut.lexeme).foldlM (Content.step false) {} = some c ∧ c.Means l := by
  obtain ⟨xs, hxs, hsettled, hplain⟩ := h
  obtain ⟨c, hc, hread⟩ := hplain.exists_content
  rw [lexemes_eq] at hxs
  obtain ⟨cs, hcs, rfl⟩ := Option.map_eq_some_iff.mp hxs
  have hrun : (cs.map Cut.lexeme).foldlM (Content.step false) {} = some c := by
    rw [hread, List.append_nil]
  have hflat := Content.flat_of_foldlM hsettled hrun
  exact ⟨cs, c, cuts_eq_some_iff.mp hcs, fun x hx => hflat _ (List.mem_map_of_mem hx), hrun, hc⟩

theorem hasContent (h : PlainText t l) : HasContent false t := by
  obtain ⟨cs, c, hcuts, hflat, hread, -⟩ := h.exists_cuts
  have hwhole : Cuts (t ++ []) cs [] := by rwa [List.append_nil]
  exact ⟨cs, c, hflat, fun u hu => hwhole.seam seam_nil hu, hread⟩

theorem flat (h : PlainText t l) : Flat t := by
  obtain ⟨cs, -, hflat, hcuts, -⟩ := h.hasContent
  exact ⟨cs, hflat, hcuts⟩

theorem means_bodyContent (h : PlainText t l) : (bodyContent false t).Means l := by
  obtain ⟨cs, c, hcuts, -, hread, hc⟩ := h.exists_cuts
  rw [bodyContent, lexemes_eq, cuts_eq_some_iff.mpr hcuts, Option.map_some, Option.bind_some,
    hread]
  exact hc

/-- No quantifier stands at the beginning, so what is read does not mark the parenthesis. -/
theorem unmarked (h : PlainText t l) : t.head? ≠ some '?' := by
  obtain ⟨cs, c, hcuts, -, hread, -⟩ := h.exists_cuts
  intro hhead
  obtain ⟨r, rfl⟩ : ∃ r, t = '?' :: r := by
    cases t with
    | nil => cases hhead
    | cons e r => exact ⟨r, by rw [Option.some.inj hhead]⟩
  generalize hu : ([] : Text) = u at hcuts
  generalize ht : '?' :: r = t at hcuts
  cases hcuts with
  | stop => rw [← hu] at ht; cases ht
  | more hx _ =>
    rw [← ht] at hx
    obtain ⟨rfl, -⟩ := Prod.mk.inj (Option.some.inj hx)
    cases hread

theorem embeds {p : Parameter} (h : PlainText p.pattern l) : Matching.Embeds false 0 p :=
  ⟨h.hasContent.encloses, h.flat.isSettled_bodyContent false, h.unmarked⟩

end PlainText

/-! ### Plain patterns of both dialects -/

private theorem isSettled_of_expr? {x : Lexeme} {s : CharSet} {a b : Bool}
    (hx : x.expr? a = some (.one s b)) (hs : s.isSpelled = false) : x.isSettled := by
  cases x with
  | set s =>
    obtain ⟨rfl, -⟩ := Expr.one.inj (Option.some.inj hx)
    simp [Lexeme.isSettled, hs]
  | _ => rfl

private theorem isSettled_of_times? {x : Lexeme} {p : Nat × Option Nat} (hx : x.times? = some p) :
    x.isSettled := by
  cases x with
  | set s => cases hx
  | _ => rfl

private theorem PlainBranch.exists_cuts {t : Text} {l : Language Char} (h : PlainBranch t l)
    (u : Text) : ∃ cs, PlainRun (cs.map Cut.lexeme) l ∧ (∀ c ∈ cs, c.lexeme.isSettled) ∧
      Cuts (t ++ u) cs u := by
  induction h generalizing u with
  | nil => exact ⟨[], .nil, nofun, .stop u⟩
  | @once t v s l ha _ ih =>
    obtain ⟨cs, hrun, hsettled, hcuts⟩ := ih u
    obtain ⟨x, hx, hexpr⟩ := ha.lexeme_append .path (v ++ u)
    have hfirst := isSettled_of_expr? hexpr ha.isSpelled
    refine ⟨⟨t, x⟩ :: cs, .once hexpr hrun, List.forall_mem_cons.mpr ⟨hfirst, hsettled⟩, ?_⟩
    rw [List.append_assoc]
    exact .more hx hcuts
  | @greedy t q v s lo most l ha hq _ ih =>
    obtain ⟨cs, hrun, hsettled, hcuts⟩ := ih u
    obtain ⟨x, hx, hexpr⟩ := ha.lexeme_append .path (q ++ (v ++ u))
    obtain ⟨y, hy, htimes⟩ := (hq.repeats .path).2 (v ++ u)
    refine ⟨⟨t, x⟩ :: ⟨q, y⟩ :: cs, .greedy hexpr htimes hq.le hrun, ?_, ?_⟩
    · simp only [List.forall_mem_cons]
      exact ⟨isSettled_of_expr? hexpr ha.isSpelled, isSettled_of_times? htimes, hsettled⟩
    · rw [List.append_assoc, List.append_assoc]
      exact .more hx (.more hy hcuts)
  | @reluctant t q v s lo most l ha hq _ ih =>
    obtain ⟨cs, hrun, hsettled, hcuts⟩ := ih u
    obtain ⟨x, hx, hexpr⟩ := ha.lexeme_append .path (q ++ '?' :: (v ++ u))
    obtain ⟨y, hy, htimes⟩ := (hq.repeats .path).2 ('?' :: (v ++ u))
    refine ⟨⟨t, x⟩ :: ⟨q, y⟩ :: ⟨['?'], .question⟩ :: cs, .reluctant hexpr htimes hq.le hrun, ?_,
      ?_⟩
    · simp only [List.forall_mem_cons]
      exact ⟨isSettled_of_expr? hexpr ha.isSpelled, isSettled_of_times? htimes, rfl, hsettled⟩
    · rw [List.append_assoc, List.append_assoc, List.append_assoc]
      exact .more hx (.more hy (.more (v := ['?']) rfl hcuts))

/-- What both dialects read as a plain pattern is plain here, with the same language. -/
theorem PlainPattern.plainText {t : Text} {l : Language Char} (h : PlainPattern t l) :
    PlainText t l := by
  have hcuts : ∃ cs, PlainAlternatives (cs.map Cut.lexeme) l ∧
      (∀ c ∈ cs, c.lexeme.isSettled) ∧ Cuts t cs [] := by
    induction h with
    | single hb =>
      obtain ⟨cs, hrun, hsettled, hcuts⟩ := hb.exists_cuts []
      rw [List.append_nil] at hcuts
      exact ⟨cs, .single hrun, hsettled, hcuts⟩
    | @bar t u l m hb _ ih =>
      obtain ⟨ds, halts, hrest, hds⟩ := ih
      obtain ⟨cs, hrun, hsettled, hcs⟩ := hb.exists_cuts ('|' :: u)
      refine ⟨cs ++ ⟨['|'], .bar⟩ :: ds, ?_, ?_, hcs.trans (.more (v := ['|']) rfl hds)⟩
      · rw [List.map_append, List.map_cons]
        exact .bar hrun halts
      · exact List.forall_mem_append.mpr ⟨hsettled, List.forall_mem_cons.mpr ⟨rfl, hrest⟩⟩
  obtain ⟨cs, halts, hsettled, hcs⟩ := hcuts
  refine ⟨cs.map Cut.lexeme, ?_, by simpa using hsettled, halts⟩
  rw [lexemes_eq, cuts_eq_some_iff.mpr hcs]
  rfl

theorem PlainPattern.clear {t : Text} {l : Language Char} (h : PlainPattern t l) : Clear t := by
  obtain ⟨xs, hxs, hsettled, -⟩ := h.plainText
  exact ⟨xs, hxs, hsettled⟩

end PathTemplate.Expression
