import PathTemplate.Proofs.Groups.Aligned
import PathTemplate.Proofs.Groups.Guarded
import PathTemplate.Proofs.Reading.Compiling

/-!
Values that keep to their groups. A value is contained if its parenthesis opens a group that closes
at the end, and no other group opens. Unless an expression written by hand leaves blanks out of what
follows, the keys of a matcher are those of its groups exactly if every value is contained.
-/
namespace PathTemplate.Matching

open Expression

def marksAlone (t : Text) : Option (List Mark) := ((cuts t).bind (Scan.trace {} 0)).map Prod.fst

/-- In its parentheses the value is one group, from the first character to the last one. -/
def Contained (v : Text) : Prop :=
  marksAlone (parenthesized v) = some [⟨1, 0, true⟩, ⟨1, v.length + 1, false⟩]

instance (v : Text) : Decidable (Contained v) := by
  unfold Contained
  infer_instance

/-- Behind the expression blanks count, and no comment goes on. -/
def Written.Calm (w : Written) : Prop :=
  ∀ ms σ, Part.scan {} 0 (.written w) = some (ms, σ) → σ.Calm

instance (w : Written) : Decidable w.Calm :=
  decidable_of_iff ((Part.scan {} 0 (.written w)).all fun p => !p.2.spaced && !p.2.hidden) (by
    rw [Option.all_eq_true]
    simp [Written.Calm, Scan.Calm])

theorem contained_iff_scan {p : Parameter} : Contained (valueSource p) ↔
    ∃ τ, Part.scan {} 0 (.group p) = some (Part.marks 0 0 (.group p), τ) := by
  rw [Contained, marksAlone, Option.map_eq_some_iff]
  constructor
  · intro h
    obtain ⟨⟨ms, τ⟩, hscan, rfl⟩ := h
    refine ⟨τ, hscan.trans ?_⟩
    simp [Part.marks]
  · intro h
    obtain ⟨τ, hscan⟩ := h
    refine ⟨_, hscan, ?_⟩
    simp [Part.marks]

/-! ### Groups in calm scans -/

/-- A group that is opened, left as it is, and closed. -/
theorem trace_group {c d : Cut} {ds : List Cut}
    (hopen : ∀ ρ : Scan, ρ.hidden = false → ρ.step c.lexeme = some ρ.capture)
    (hclose : d.lexeme = .close)
    (hinside : ∀ (σ : Scan) (k : Nat), σ.Calm → σ.trace k ds = some ([], σ)) {ρ : Scan}
    (hρ : ρ.Calm) (k : Nat) : ρ.trace k (c :: (ds ++ [d])) =
      some ([⟨ρ.groups + 1, k, true⟩,
        ⟨ρ.groups + 1, k + (c.text.length + (Cut.texts ds).length), false⟩],
        { ρ with groups := ρ.groups + 1 }) := by
  have hmarked : ρ.marked ρ.capture k = [⟨ρ.groups + 1, k, true⟩] :=
    if_pos (Nat.lt_succ_self ρ.groups)
  have hcapture : ρ.capture.Calm := hρ
  have hleave : ρ.capture.step d.lexeme = some { ρ with groups := ρ.groups + 1 } := by
    rw [hclose]
    simp [Scan.step, Scan.capture, Scan.push, Scan.leave, hρ.2]
  have hleft : ∀ j, ρ.capture.marked { ρ with groups := ρ.groups + 1 } j =
      [⟨ρ.groups + 1, j, false⟩] := by
    intro j
    simp [Scan.marked, Scan.capture, Scan.push]
  refine traceWith_cons_eq_some.mpr ⟨ρ.capture, _, hopen ρ hρ.2, ?_, by rw [hmarked]; rfl⟩
  refine traceWith_append_eq_some.mpr ⟨ρ.capture, [], _, hinside _ _ hcapture, ?_, rfl⟩
  refine traceWith_cons_eq_some.mpr ⟨_, [], hleave, rfl, ?_⟩
  rw [hleft, Nat.add_assoc]
  rfl

/-- The lexeme that the group of a part begins with captures. -/
private theorem step_first {p : Parameter} {σ τ : Scan} {k : Nat} {c : Cut} {cs : List Cut}
    (hcuts : Cuts (Part.source (.group p)) (c :: cs) [])
    (htrace : σ.trace k (c :: cs) = some (Part.marks σ.groups k (.group p), τ)) :
    ∀ ρ : Scan, ρ.hidden = false → ρ.step c.lexeme = some ρ.capture := by
  have hpos := hcuts.text_length_pos
  have hsplit : Cuts (Part.source (.group p)) ([c] ++ cs) [] := hcuts
  obtain ⟨r, -, hrest⟩ := hsplit.split
  obtain ⟨σ', ns, hstep, htail, hmarks⟩ := traceWith_cons_eq_some.mp htrace
  have hmem : (⟨σ.groups + 1, k, true⟩ : Mark) ∈ σ.marked σ' k ++ ns := by
    rw [← hmarks]
    exact List.mem_cons_self
  rcases List.mem_append.mp hmem with hm | hm
  · exact Scan.step_of_opens hstep hm rfl
  · have hplace := (Scan.place_of_mem_trace hrest htail _ hm).1
    simp only at hplace
    omega

/-- The lexemes of a group that fits in a calm scan: one that captures, those of the value, which
leave every calm scan as it is, and the parenthesis at the end. -/
private theorem cuts_group {p : Parameter} (hp : Tidy (valueSource p)) {σ τ : Scan} {k : Nat}
    (hσ : σ.Calm) {cs : List Cut} (hcuts : Cuts (Part.source (.group p)) cs [])
    (htrace : σ.trace k cs = some (Part.marks σ.groups k (.group p), τ)) :
    ∃ (c : Cut) (ds : List Cut) (d : Cut), cs = c :: (ds ++ [d]) ∧ d.lexeme = .close ∧
      c.text.length + (Cut.texts ds).length = (valueSource p).length + 1 ∧
      (∀ ρ : Scan, ρ.hidden = false → ρ.step c.lexeme = some ρ.capture) ∧
      ∀ (ρ : Scan) (j : Nat), ρ.Calm → ρ.trace j ds = some ([], ρ) := by
  cases cs with
  | nil => cases htrace
  | cons c cs =>
    have hopen := step_first hcuts htrace
    have hnone : ∀ q ∈ ([] : List Pending), q.Quiet := by simp
    rcases Scan.trace_deeper (tame_parenthesized hp hcuts) hnone with
      ⟨own, -, hall⟩ | ⟨ds, d, es, rfl, hclose, hinside⟩
    · -- no parenthesis ends the group, which leaves one mark only
      obtain ⟨σ', ns, hstep, htail, hmarks⟩ := traceWith_cons_eq_some.mp htrace
      obtain rfl := Option.some.inj ((hopen σ hσ.2).symm.trans hstep)
      have hrest := htail.symm.trans (hall σ.capture _ hσ)
      obtain ⟨rfl, -⟩ := Prod.mk.inj (Option.some.inj hrest)
      have hmarked : σ.marked σ.capture k = [⟨σ.groups + 1, k, true⟩] :=
        if_pos (Nat.lt_succ_self σ.groups)
      rw [hmarked] at hmarks
      cases hmarks
    · have hlist : c :: (ds ++ d :: es) = (c :: (ds ++ [d])) ++ es := by simp
      rw [hlist] at htrace hcuts
      obtain ⟨σ', ns, ns', hgroup, hrest, hmarks⟩ := traceWith_append_eq_some.mp htrace
      have hsame := hgroup.symm.trans (trace_group hopen hclose hinside hσ k)
      obtain ⟨rfl, rfl⟩ := Prod.mk.inj (Option.some.inj hsame)
      simp only [Part.marks, List.cons_append, List.nil_append, List.cons.injEq, Mark.mk.injEq,
        true_and, and_true] at hmarks
      obtain ⟨hlength, -⟩ := hmarks
      -- nothing is left behind the parenthesis
      have hwhole := congrArg List.length hcuts.texts_whole
      obtain ⟨r, hfront, hes⟩ := hcuts.split
      have hsplit : Cuts (Part.source (.group p)) ((c :: ds) ++ [d]) r := hfront
      obtain ⟨q, -, hd⟩ := hsplit.split
      have hpos := hd.text_length_pos
      rw [Part.length_source_group, Cut.texts_append, List.length_append, length_texts_cons,
        Cut.texts_append, List.length_append, length_texts_cons] at hwhole
      have hnil : Cut.texts es = [] := List.length_eq_zero_iff.mp (by omega)
      have hr := hes.texts_whole
      rw [hnil] at hr
      rw [← hr] at hes
      obtain rfl := hes.eq_nil
      exact ⟨c, ds, d, by simp, hclose, by omega, hopen, hinside⟩

/-- A group that fits in one calm scan fits in every one, and it leaves nothing behind but one more
group. -/
theorem scan_group {p : Parameter} (hp : Tidy (valueSource p)) {σ τ : Scan} {k : Nat} (hσ : σ.Calm)
    (h : Part.scan σ k (.group p) = some (Part.marks σ.groups k (.group p), τ)) {ρ : Scan}
    (hρ : ρ.Calm) (j : Nat) : Part.scan ρ j (.group p) =
      some (Part.marks ρ.groups j (.group p), { ρ with groups := ρ.groups + 1 }) := by
  obtain ⟨cs, hcuts, htrace⟩ := Option.bind_eq_some_iff.mp h
  obtain ⟨c, ds, d, rfl, hclose, hlength, hopen, hinside⟩ :=
    cuts_group hp hσ (cuts_eq_some_iff.mp hcuts) htrace
  rw [Part.scan, hcuts, Option.bind_some, trace_group hopen hclose hinside hρ, hlength]
  rfl

/-! ### Parts in calm scans -/

/-- Between parts a scan is calm, and only parentheses that capture nothing wait. -/
def Resting (σ : Scan) : Prop := σ.Calm ∧ ∀ p ∈ σ.pending, p.Quiet

/-- In a resting scan a text has no marks, and the scan rests behind it. -/
private theorem scan_text {t r : Text} {σ τ : Scan} {k : Nat} {cs : List Cut} {ms : List Mark}
    (hσ : Resting σ) (ht : Steady t) (hcuts : Cuts (t ++ r) cs [])
    (htrace : σ.trace k cs = some (ms, τ)) :
    ∃ ρ, Part.scan σ k (.text t) = some ([], ρ) ∧ Resting ρ := by
  obtain ⟨ds, htame, hds⟩ := ht
  obtain ⟨es, rfl, -⟩ := (hds r).unique hcuts
  obtain ⟨ρ, ns, ns', hfirst, -, -⟩ := traceWith_append_eq_some.mp htrace
  have hbase : Scan.deeper { σ with pending := [] } σ.pending = σ := by
    rw [Scan.deeper, List.append_nil]
  have hcalm : Scan.Calm { σ with pending := [] } := hσ.1
  rcases Scan.trace_deeper htame hσ.2 with ⟨own, hown, hall⟩ | ⟨ds, d, es, rfl, hclose, hall⟩
  · have hscan := hall { σ with pending := [] } k hcalm
    rw [hbase] at hscan
    refine ⟨Scan.deeper { σ with pending := [] } own, ?_, hcalm, ?_⟩
    · have hself := hds []
      rw [List.append_nil] at hself
      rw [Part.scan, Part.source, cuts_eq_some_iff.mpr hself]
      exact hscan
    · simpa [Scan.deeper] using hown
  · -- a text that closes more than it opens cannot be scanned
    have hscan := hall { σ with pending := [] } k hcalm
    rw [hbase] at hscan
    obtain ⟨ρ', ps, qs, hds', hrest, -⟩ := traceWith_append_eq_some.mp hfirst
    obtain ⟨-, rfl⟩ := Prod.mk.inj (Option.some.inj (hscan.symm.trans hds'))
    obtain ⟨σ', _, hstep, -, -⟩ := traceWith_cons_eq_some.mp hrest
    rw [hclose] at hstep
    simp [Scan.step, Scan.leave, hσ.1.2] at hstep

private theorem scan_written {w : Written} (hsettled : Settled w.source) (hw : w.Calm) {σ : Scan}
    (hσ : Resting σ) (k : Nat) :
    ∃ ρ, Part.scan σ k (.written w) = some (Part.marks σ.groups k (.written w), ρ) ∧
      Resting ρ := by
  obtain ⟨cs, τ, hcuts, htrace, -, hpending⟩ := exists_trace_of_read hsettled w.reads
  have hfresh : Scan.within {} σ = σ := by
    obtain ⟨groups, spaced, hidden, pending⟩ := σ
    obtain ⟨⟨rfl, rfl⟩, -⟩ := hσ
    rfl
  have hinside := Scan.trace_within htrace σ k
  rw [hfresh] at hinside
  refine ⟨τ.within σ, ?_, ?_, ?_⟩
  · rw [Part.scan, Part.source, cuts_eq_some_iff.mpr hcuts]
    exact hinside
  · refine hw (groupMarks w.source) τ ?_
    rw [Part.scan, Part.source, cuts_eq_some_iff.mpr hcuts]
    exact htrace
  · simpa [Scan.within, hpending] using hσ.2

def Part.Kept : Part → Prop
  | text _ => True
  | group p => Contained (valueSource p)
  | written _ => True

/-- In a resting scan a part fits exactly if it keeps to its groups, and then the scan rests behind
it. -/
theorem scan_part_iff {p : Part} {r : Text} {σ τ : Scan} {k : Nat} {cs : List Cut} {ms : List Mark}
    (hσ : Resting σ) (hsettled : p.Settled) (hp : p.Before r)
    (htidy : ∀ q, p = .group q → Tidy (valueSource q))
    (hcalm : ∀ w, p = .written w → w.Calm) (hcuts : Cuts (p.source ++ r) cs [])
    (htrace : σ.trace k cs = some (ms, τ)) :
    (p.Kept ↔ ∃ ρ, p.scan σ k = some (p.marks σ.groups k, ρ)) ∧
      ∀ ρ, p.scan σ k = some (p.marks σ.groups k, ρ) → Resting ρ := by
  have hfits : ∀ {ρ : Scan}, p.Kept → p.scan σ k = some (p.marks σ.groups k, ρ) → Resting ρ →
      (p.Kept ↔ ∃ ρ, p.scan σ k = some (p.marks σ.groups k, ρ)) ∧
        ∀ ρ, p.scan σ k = some (p.marks σ.groups k, ρ) → Resting ρ := by
    intro ρ hkept hscan hρ
    refine ⟨⟨fun _ => ⟨ρ, hscan⟩, fun _ => hkept⟩, ?_⟩
    intro ρ' hscan'
    obtain ⟨-, rfl⟩ := Prod.mk.inj (Option.some.inj (hscan.symm.trans hscan'))
    exact hρ
  cases p with
  | text t =>
    obtain ⟨ρ, hscan, hρ⟩ := scan_text hσ hp hcuts htrace
    exact hfits trivial hscan hρ
  | written w =>
    obtain ⟨ρ, hscan, hρ⟩ := scan_written hsettled (hcalm w rfl) hσ k
    exact hfits trivial hscan hρ
  | group q =>
    have hfresh : Scan.Calm {} := ⟨rfl, rfl⟩
    constructor
    · constructor
      · intro hkept
        obtain ⟨τ, hscan⟩ := contained_iff_scan.mp hkept
        exact ⟨_, scan_group (htidy q rfl) hfresh hscan hσ.1 k⟩
      · intro h
        obtain ⟨ρ, hscan⟩ := h
        exact contained_iff_scan.mpr ⟨_, scan_group (htidy q rfl) hσ.1 hscan hfresh 0⟩
    · intro ρ hscan
      have hself := scan_group (htidy q rfl) hσ.1 hscan hσ.1 k
      obtain ⟨-, rfl⟩ := Prod.mk.inj (Option.some.inj (hself.symm.trans hscan))
      exact ⟨hσ.1, hσ.2⟩

theorem fits_iff_contained {ps : List Part} {σ τ : Scan} {k : Nat} {cs : List Cut} {ms : List Mark}
    (hσ : Resting σ) (hsettled : ∀ p ∈ ps, p.Settled) (hps : Joined [] ps)
    (htidy : ∀ p, .group p ∈ ps → Tidy (valueSource p)) (hcalm : ∀ w, .written w ∈ ps → w.Calm)
    (hcuts : Cuts (partsSource ps) cs []) (htrace : σ.trace k cs = some (ms, τ)) :
    Fits σ k ps ↔ ∀ p, .group p ∈ ps → Contained (valueSource p) := by
  induction ps generalizing σ k cs ms with
  | nil => simp [Fits]
  | cons p ps ih =>
    obtain ⟨hp, hps⟩ := hps
    obtain ⟨hself, hsettled⟩ := List.forall_mem_cons.mp hsettled
    rw [List.append_nil] at hp
    rw [partsSource_cons] at hcuts
    obtain ⟨hkept, hresting⟩ := scan_part_iff hσ hself hp
      (fun q hq => htidy q (by rw [hq]; exact List.mem_cons_self))
      (fun w hw => hcalm w (by rw [hw]; exact List.mem_cons_self)) hcuts htrace
    have hrest : ∀ {ρ : Scan}, p.scan σ k = some (p.marks σ.groups k, ρ) →
        (Fits ρ (k + p.source.length) ps ↔ ∀ p, .group p ∈ ps → Contained (valueSource p)) := by
      intro ρ hscan
      obtain ⟨es, ns, hes, htail, -, -⟩ := exists_rest hself hp hcuts htrace hscan
      exact ih (hresting ρ hscan) hsettled hps (fun q hq => htidy q (List.mem_cons_of_mem p hq))
        (fun w hw => hcalm w (List.mem_cons_of_mem p hw)) hes htail
    constructor
    · intro hfits
      obtain ⟨ρ, hscan, hfits⟩ := hfits
      intro q hq
      rcases List.mem_cons.mp hq with rfl | hq
      · exact hkept.mpr ⟨ρ, hscan⟩
      · exact (hrest hscan).mp hfits q hq
    · intro hall
      have hself : p.Kept := by
        cases p with
        | group q => exact hall q List.mem_cons_self
        | _ => trivial
      obtain ⟨ρ, hscan⟩ := hkept.mp hself
      exact ⟨ρ, hscan, (hrest hscan).mpr fun q hq => hall q (List.mem_cons_of_mem p hq)⟩

/-- Where nothing written by hand leaves blanks or the rest of a line out of what follows, keys have
their groups exactly if every value keeps to its group. -/
theorem aligned_iff_contained {o : Options} {i : Input} {m : Matcher} (hsettled : i.Settled o)
    (h : Matcher.compile o i = .ok m) (hcalm : ∀ w, .written w ∈ i.parts o → w.Calm) :
    Aligned o i m ↔ ∀ p, .group p ∈ i.parts o → Contained (valueSource p) := by
  obtain ⟨cs, σ, hcuts, htrace, -, -⟩ := exists_trace_of_read hsettled.text (compile_inv h).1
  have hgroup : ∀ p, .group p ∈ partsRead o i ↔ .group p ∈ i.parts o :=
    fun p => mem_partsRead_iff (p := .group p) nofun
  have hresting : Resting {} := ⟨⟨rfl, rfl⟩, by simp⟩
  rw [aligned_iff_fits hsettled h,
    fits_iff_contained hresting hsettled.parts (joined_partsRead o i) ?_ ?_
      (by rwa [partsSource_partsRead]) htrace]
  · simp only [hgroup]
  · exact fun p hp => tidy_of_group_mem o i ((hgroup p).mp hp)
  · exact fun w hw => hcalm w ((mem_partsRead_iff (p := .written w) nofun).mp hw)

/-- The keys of a matcher are those of its parts in order. Where every set is known,
they are those of its groups exactly if every part fits where it stands. Where besides nothing
written by hand leaves blanks or the rest of a line out of what follows, this is so exactly if every
value keeps to its group. -/
theorem aligned_iff (o : Options) (i : Input) (m : Matcher) (h : Matcher.compile o i = .ok m) :
    m.keys = partsKeys (i.parts o) ∧ (i.Settled o →
      (Aligned o i m ↔ Fits {} 0 (partsRead o i)) ∧
      ((∀ w, .written w ∈ i.parts o → w.Calm) →
        (Aligned o i m ↔ ∀ p, .group p ∈ i.parts o → Contained (valueSource p)))) := by
  refine ⟨?_, fun hsettled => ⟨aligned_iff_fits hsettled h, aligned_iff_contained hsettled h⟩⟩
  rw [partsKeys_parts, (compile_inv h).2]

/-- A template with a pattern of its own and an expression written by hand, side by side: each has
the group of its key. -/
theorem aligned_digits_or_written : ∃ w m, Written.read "(x)".toList = some w ∧
    Matcher.compile {} (.anyOf [.template "/:id(\\d+)".toList, .written w]) = .ok m ∧
    m.keys.length = 2 ∧ Aligned {} (.anyOf [.template "/:id(\\d+)".toList, .written w]) m := by
  have hread : (Written.read "(x)".toList).map (fun w =>
      let i := Input.anyOf [.template "/:id(\\d+)".toList, .written w]
      ((Matcher.compile {} i).map (fun m => m.keys.length), decide (Settled (textRead {} i)),
        (i.parts {}).all (fun q => match q with
        | .text _ => true
        | .group p => decide (Contained (valueSource p))
        | .written w => decide (Settled w.source) && decide w.Calm))) =
      some (.ok 2, true, true) := by decide
  obtain ⟨w, hw, hboth⟩ := Option.map_eq_some_iff.mp hread
  obtain ⟨hcompile, htext, hall⟩ := by simpa only [Prod.mk.injEq] using hboth
  obtain ⟨m, hm, hkeys⟩ := exists_ok_of_map hcompile
  rw [List.all_eq_true] at hall
  have hwritten : ∀ v, .written v ∈ Input.parts {} _ → Settled v.source ∧ v.Calm :=
    fun v hv => by simpa using hall _ hv
  have hsettled : Input.Settled {} _ := ⟨of_decide_eq_true htext, fun v hv => (hwritten v hv).1⟩
  refine ⟨w, m, hw, hm, hkeys, (((aligned_iff {} _ m hm).2 hsettled).2 ?_).mpr ?_⟩
  · exact fun v hv => (hwritten v hv).2
  · exact fun p hp => of_decide_eq_true (hall _ hp)

/-- In `/:a(?:x)` the parenthesis of the parameter only holds its value together. There is a key,
and no group. -/
theorem key_without_group : ∃ m, Matcher.compile {} (.template "/:a(?:x)".toList) = .ok m ∧
    m.keys.length = 1 ∧ m.compiled.groups = 0 := by
  have hcompile : (Matcher.compile {} (.template "/:a(?:x)".toList)).map
      (fun m => (m.keys.length, m.compiled.groups)) = .ok (1, 0) := by decide
  obtain ⟨m, hm, hcounts⟩ := exists_ok_of_map hcompile
  exact ⟨m, hm, Prod.mk.inj hcounts⟩

end PathTemplate.Matching
