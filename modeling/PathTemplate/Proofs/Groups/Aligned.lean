import PathTemplate.Proofs.Groups.Parts

/-!
When the keys of a matcher are those of its groups. Parts leave their own marks in the whole
expression exactly if they do so by themselves, each one scanned from where the parts before it
end.
-/
namespace PathTemplate.Matching

open Expression

/-! ### The marks of a part -/

/-- The groups of an expression written by hand lie inside it. -/
theorem Written.place_lt {w : Written} (hw : Settled w.source) :
    ∀ m ∈ groupMarks w.source, m.place < w.source.length := by
  obtain ⟨cs, σ, hcuts, htrace, -, -⟩ := exists_trace_of_read hw w.reads
  intro m hm
  have hplace := Scan.place_of_mem_trace hcuts htrace m hm
  rw [hcuts.texts_whole] at hplace
  omega

theorem Written.opened_groupMarks {w : Written} (hw : Settled w.source) :
    Mark.opened (groupMarks w.source) = w.keys.length := by
  obtain ⟨cs, σ, -, htrace, hgroups, -⟩ := exists_trace_of_read hw w.reads
  have hopened := Scan.groups_trace htrace
  rw [hgroups, Nat.zero_add] at hopened
  rw [← hopened, Written.keys, List.length_map, List.length_range]

namespace Part

def Settled : Part → Prop
  | text _ => True
  | group _ => True
  | written w => Expression.Settled w.source

theorem length_source_group (p : Parameter) :
    (Part.group p).source.length = (valueSource p).length + 2 := by
  simp [source, parenthesized]

theorem place_of_mem_marks {g k : Nat} {p : Part} (hp : p.Settled) :
    ∀ m ∈ p.marks g k, k ≤ m.place ∧ m.place < k + p.source.length := by
  intro m hm
  cases p with
  | text t => cases hm
  | group p =>
    rw [length_source_group]
    simp only [marks, List.mem_cons, List.not_mem_nil, or_false] at hm
    rcases hm with rfl | rfl <;> simp only <;> omega
  | written w =>
    obtain ⟨n, hn, rfl⟩ := List.mem_map.mp hm
    have hplace := Written.place_lt hp n hn
    simp only [Mark.shift, source]
    omega

/-- A part opens one group for each key. -/
theorem opened_marks (g k : Nat) {p : Part} (hp : p.Settled) :
    Mark.opened (p.marks g k) = p.keys.length := by
  cases p with
  | text t => rfl
  | group p => rfl
  | written w =>
    have hshift : Mark.opens ∘ Mark.shift g k = Mark.opens := rfl
    rw [marks, Mark.opened, List.filter_map, List.length_map, hshift]
    exact Written.opened_groupMarks hp

end Part

theorem le_place_of_mem_partsMarks {g k : Nat} {ps : List Part} (hps : ∀ p ∈ ps, p.Settled) :
    ∀ m ∈ partsMarks g k ps, k ≤ m.place := by
  induction ps generalizing g k with
  | nil => simp [partsMarks]
  | cons p ps ih =>
    obtain ⟨hp, hps⟩ := List.forall_mem_cons.mp hps
    intro m hm
    rcases List.mem_append.mp hm with hm | hm
    · exact (Part.place_of_mem_marks hp m hm).1
    · have hplace := ih hps m hm
      omega

/-- As many groups open as there are keys. -/
theorem opened_partsMarks (g k : Nat) {ps : List Part} (hps : ∀ p ∈ ps, p.Settled) :
    Mark.opened (partsMarks g k ps) = (partsKeys ps).length := by
  induction ps generalizing g k with
  | nil => rfl
  | cons p ps ih =>
    obtain ⟨hp, hps⟩ := List.forall_mem_cons.mp hps
    have hrest := ih (g + p.keys.length) (k + p.source.length) hps
    have hpart := Part.opened_marks g k hp
    rw [Mark.opened] at hrest hpart ⊢
    rw [partsMarks, List.filter_append, List.length_append, hrest, hpart, partsKeys_cons,
      List.length_append]

/-! ### Parts by themselves -/

def Part.scan (σ : Scan) (k : Nat) (p : Part) : Option (List Mark × Scan) :=
  (cuts p.source).bind (σ.trace k)

/-- Scanned by itself, from where the parts before it end, every part has the groups for its keys
and no others. -/
def Fits (σ : Scan) (k : Nat) : List Part → Prop
  | [] => True
  | p :: ps => ∃ τ, p.scan σ k = some (p.marks σ.groups k, τ) ∧ Fits τ (k + p.source.length) ps

/-- A lexeme that begins at the parenthesis at the end is that parenthesis. What is before it is
cut alike whatever follows. -/
theorem cuts_parenthesized {v r : Text} {ds es : List Cut} {c : Cut}
    (h : Cuts (parenthesized v ++ r) (ds ++ c :: es) [])
    (hlength : (Cut.texts ds).length = v.length + 1) :
    Cuts r es [] ∧ ∀ u, Cuts (parenthesized v ++ u) (ds ++ [c]) u := by
  have hsource : ∀ u, parenthesized v ++ u = '(' :: v ++ ')' :: u := by
    intro u
    simp [parenthesized]
  obtain ⟨q, hds, hrest⟩ := h.split
  have htexts := hds.texts_eq
  rw [hsource] at htexts hds
  obtain ⟨-, rfl⟩ := List.append_inj htexts (by rw [hlength]; rfl)
  generalize hq : ')' :: r = q at hrest
  cases hrest with
  | @more w q' _ x _ hx hes =>
    rw [← hq] at hx
    obtain ⟨rfl, rfl⟩ := Prod.mk.inj (Option.some.inj hx)
    have hw : w ++ r = [')'] ++ r := hq.symm
    obtain rfl := List.append_cancel_right hw
    refine ⟨hes, ?_⟩
    intro u
    have hclose : Cuts ([')'] ++ u) [⟨[')'], .close⟩] u := .more rfl (.stop u)
    rw [hsource]
    exact (hds.seam (seam_close r) (seam_close u)).trans hclose

/-- Where the marks of a part are left, the part ends with a lexeme, and it is cut alike before
every text that it may stand before. -/
theorem cuts_part {p : Part} {r : Text} {σ τ : Scan} {k : Nat} {cs : List Cut} {ms : List Mark}
    (hsettled : p.Settled) (hp : p.Before r) (hcuts : Cuts (p.source ++ r) cs [])
    (htrace : σ.trace k cs = some (ms, τ)) (hmarks : ∀ m ∈ p.marks σ.groups k, m ∈ ms) :
    ∃ ds es, cs = ds ++ es ∧ Cuts r es [] ∧ ∀ u, p.Before u → Cuts (p.source ++ u) ds u := by
  cases p with
  | text t =>
    obtain ⟨ds, -, hds⟩ := hp
    obtain ⟨es, rfl, hes⟩ := (hds r).unique hcuts
    exact ⟨ds, es, rfl, hes, fun u _ => hds u⟩
  | group p =>
    have hclose := hmarks ⟨σ.groups + 1, k + (valueSource p).length + 1, false⟩
      (by simp [Part.marks])
    obtain ⟨ds, c, es, rfl, hplace⟩ :=
      exists_cut_of_mem_traceWith (fun _ _ _ _ => Scan.mem_marked) htrace hclose
    obtain ⟨hes, hds⟩ := cuts_parenthesized hcuts (by simp only at hplace; omega)
    exact ⟨ds ++ [c], es, by simp, hes, fun u _ => hds u⟩
  | written w =>
    obtain ⟨ds, σ', hds, -, -, -⟩ := exists_trace_of_read hsettled w.reads
    have hall : ∀ u, Seam u → Cuts (w.source ++ u) ds u := by
      intro u hu
      rw [← List.append_nil w.source] at hds
      exact hds.seam seam_nil hu
    obtain ⟨es, rfl, hes⟩ := (hall r hp).unique hcuts
    exact ⟨ds, es, rfl, hes, hall⟩

theorem before_nil {p : Part} {u : Text} (h : p.Before u) : p.Before [] := by
  cases p with
  | text t => exact h
  | group p => trivial
  | written w => exact seam_nil

/-- Two lists are those that a place divides a list into. -/
theorem append_inj_of_place {k : Nat} {ms ns ms' ns' : List Mark} (h : ms ++ ns = ms' ++ ns')
    (hms : ∀ m ∈ ms, m.place < k) (hms' : ∀ m ∈ ms', m.place < k) (hns : ∀ m ∈ ns, k ≤ m.place)
    (hns' : ∀ m ∈ ns', k ≤ m.place) : ms = ms' ∧ ns = ns' := by
  have hfilter : ∀ ms ns : List Mark, (∀ m ∈ ms, m.place < k) → (∀ m ∈ ns, k ≤ m.place) →
      (ms ++ ns).filter (·.place < k) = ms := by
    intro ms ns hms hns
    rw [List.filter_append, List.filter_eq_self.mpr (by simpa using hms),
      List.filter_eq_nil_iff.mpr (by simpa using hns), List.append_nil]
  have hleft : ms = ms' := by rw [← hfilter ms ns hms hns, h, hfilter ms' ns' hms' hns']
  subst hleft
  exact ⟨rfl, List.append_cancel_left h⟩

/-- Where the part fits, the rest is cut and scanned behind it. -/
theorem exists_rest {p : Part} {r : Text} {σ ρ τ : Scan} {k : Nat} {cs : List Cut} {ms : List Mark}
    (hsettled : p.Settled) (hp : p.Before r) (hcuts : Cuts (p.source ++ r) cs [])
    (htrace : σ.trace k cs = some (ms, τ))
    (hscan : p.scan σ k = some (p.marks σ.groups k, ρ)) :
    ∃ es ns, Cuts r es [] ∧ ρ.trace (k + p.source.length) es = some (ns, τ) ∧
      ρ.groups = σ.groups + p.keys.length ∧ ms = p.marks σ.groups k ++ ns := by
  obtain ⟨ds, hself, hfirst⟩ := Option.bind_eq_some_iff.mp hscan
  rw [cuts_eq_some_iff] at hself
  obtain ⟨ds, es', rfl, hes', hds⟩ :=
    cuts_part hsettled (before_nil hp) (by rwa [List.append_nil]) hfirst fun m hm => hm
  obtain rfl := hes'.eq_nil
  rw [List.append_nil] at hself hfirst
  obtain ⟨es, rfl, hes⟩ := (hds _ hp).unique hcuts
  obtain ⟨ρ', ns, ns', hfirst', htail, rfl⟩ := traceWith_append_eq_some.mp htrace
  have hsame : some (p.marks σ.groups k, ρ) = some (ns, ρ') := hfirst.symm.trans hfirst'
  obtain ⟨rfl, rfl⟩ := Prod.mk.inj (Option.some.inj hsame)
  rw [hself.texts_whole] at htail
  have hgroups := Scan.groups_trace hfirst
  rw [Part.opened_marks _ _ hsettled] at hgroups
  exact ⟨es, ns', hes, htail, hgroups, rfl⟩

/-- A scan of the whole leaves the marks of all parts exactly if the parts fit. -/
theorem trace_eq_partsMarks_iff {ps : List Part} {σ τ : Scan} {k : Nat} {cs : List Cut}
    {ms : List Mark} (hsettled : ∀ p ∈ ps, p.Settled) (hps : Joined [] ps)
    (hcuts : Cuts (partsSource ps) cs []) (htrace : σ.trace k cs = some (ms, τ)) :
    ms = partsMarks σ.groups k ps ↔ Fits σ k ps := by
  induction ps generalizing σ k cs ms with
  | nil =>
    obtain rfl := hcuts.eq_nil
    obtain ⟨rfl, -⟩ := Prod.mk.inj (Option.some.inj htrace)
    simp [partsMarks, Fits]
  | cons p ps ih =>
    obtain ⟨hp, hps⟩ := hps
    obtain ⟨hsettled, hrests⟩ := List.forall_mem_cons.mp hsettled
    rw [List.append_nil] at hp
    rw [partsSource_cons] at hcuts
    constructor
    · intro hms
      obtain ⟨ds, es, rfl, hes, hds⟩ := cuts_part hsettled hp hcuts htrace
        (by rw [hms]; exact fun m hm => List.mem_append_left _ hm)
      have hself := hds [] (before_nil hp)
      rw [List.append_nil] at hself
      obtain ⟨ρ, ns, ns', hfirst, hrest, rfl⟩ := traceWith_append_eq_some.mp htrace
      rw [hself.texts_whole] at hrest
      have hbelow : ∀ m ∈ ns, m.place < k + p.source.length := by
        intro m hm
        have hplace := Scan.place_of_mem_trace hself hfirst m hm
        rw [hself.texts_whole] at hplace
        exact hplace.2
      obtain ⟨rfl, rfl⟩ := append_inj_of_place hms hbelow
        (fun m hm => (Part.place_of_mem_marks hsettled m hm).2)
        (fun m hm => (Scan.place_of_mem_trace hes hrest m hm).1)
        (le_place_of_mem_partsMarks hrests)
      have hgroups := Scan.groups_trace hfirst
      rw [Part.opened_marks _ _ hsettled] at hgroups
      refine ⟨ρ, ?_, (ih hrests hps hes hrest).mp (by rw [hgroups])⟩
      rw [Part.scan, cuts_eq_some_iff.mpr hself]
      exact hfirst
    · intro hfits
      obtain ⟨ρ, hscan, hrest⟩ := hfits
      obtain ⟨es, ns, hes, htail, hgroups, rfl⟩ := exists_rest hsettled hp hcuts htrace hscan
      rw [(ih hrests hps hes htail).mpr hrest, hgroups]
      rfl

/-! ### The expression of an input -/

/-- The text that is read for an input. An expression written by hand alone is taken as it is. -/
def textRead (o : Options) : Input → Text
  | .written w => w.source
  | i => Matcher.flagged o (i.source o)

def caseFlag (o : Options) : Input → List Part
  | .written _ => []
  | _ => if o.sensitive then [] else [.text "(?i)".toList]

def partsRead (o : Options) (i : Input) : List Part := caseFlag o i ++ i.parts o

theorem eq_of_mem_caseFlag {o : Options} {i : Input} {p : Part} (hp : p ∈ caseFlag o i) :
    p = .text "(?i)".toList := by
  unfold caseFlag at hp
  split at hp
  · cases hp
  · split at hp
    · cases hp
    · exact List.mem_singleton.mp hp

theorem mem_partsRead_iff {o : Options} {i : Input} {p : Part} (hp : ∀ t, p ≠ .text t) :
    p ∈ partsRead o i ↔ p ∈ i.parts o := by
  rw [partsRead, List.mem_append]
  exact or_iff_right fun h => hp _ (eq_of_mem_caseFlag h)

theorem partsSource_partsRead (o : Options) (i : Input) :
    partsSource (partsRead o i) = textRead o i := by
  rw [partsRead, partsSource_append, partsSource_parts]
  cases i with
  | written w => rfl
  | _ =>
    simp only [caseFlag, textRead, Matcher.flagged]
    split <;> rfl

theorem partsKeys_partsRead (o : Options) (i : Input) : partsKeys (partsRead o i) = i.keys o := by
  have hflag : partsKeys (caseFlag o i) = [] := by
    refine List.flatMap_eq_nil_iff.mpr ?_
    intro p hp
    rw [eq_of_mem_caseFlag hp]
    rfl
  rw [partsRead, partsKeys_append, partsKeys_parts, hflag, List.nil_append]

theorem joined_partsRead (o : Options) (i : Input) : Joined [] (partsRead o i) := by
  refine Joined.append (joined_of_steady ?_ _) (joined_parts o i seam_nil)
  intro p hp u
  rw [eq_of_mem_caseFlag hp]
  exact steady_anyCase

theorem compile_inv {o : Options} {i : Input} {m : Matcher} (h : Matcher.compile o i = .ok m) :
    Compiled.read .path (textRead o i) = some m.compiled ∧ m.keys = i.keys o := by
  have hbuild : ∀ {s : Text} {keys : List Key}, Matcher.build o s keys = .ok m →
      Compiled.read .path (Matcher.flagged o s) = some m.compiled ∧ m.keys = keys := by
    intro s keys hb
    rw [Matcher.build] at hb
    split at hb
    case _ c hc =>
      obtain rfl := Except.ok.inj hb
      exact ⟨hc, rfl⟩
    case _ => cases hb
  cases i with
  | written w =>
    obtain rfl := Except.ok.inj h
    exact ⟨w.reads, rfl⟩
  | template t => exact hbuild h
  | anyOf is => exact hbuild h

/-- Every key has its group: the groups of the expression are those that its parts write for
their keys, each with the number of its key, and there are as many groups as keys. -/
def Aligned (o : Options) (i : Input) (m : Matcher) : Prop :=
  m.keys.length = m.compiled.groups ∧
    groupMarks (textRead o i) = partsMarks 0 0 (partsRead o i)

/-- Every set is known in the expression of the input, and in every expression written by hand in
it. -/
structure Input.Settled (o : Options) (i : Input) : Prop where
  text : Expression.Settled (textRead o i)
  written : ∀ w, .written w ∈ i.parts o → Expression.Settled w.source

theorem Input.Settled.parts {o : Options} {i : Input} (h : i.Settled o) :
    ∀ p ∈ partsRead o i, p.Settled := by
  intro p hp
  cases p with
  | text t => trivial
  | group p => trivial
  | written w => exact h.written w ((mem_partsRead_iff (p := .written w) nofun).mp hp)

theorem aligned_iff_fits {o : Options} {i : Input} {m : Matcher} (hsettled : i.Settled o)
    (h : Matcher.compile o i = .ok m) : Aligned o i m ↔ Fits {} 0 (partsRead o i) := by
  obtain ⟨hread, hkeys⟩ := compile_inv h
  obtain ⟨cs, σ, hcuts, htrace, hgroups, -⟩ := exists_trace_of_read hsettled.text hread
  have hiff := trace_eq_partsMarks_iff hsettled.parts (joined_partsRead o i)
    (by rwa [partsSource_partsRead]) htrace
  rw [← hiff]
  constructor
  · exact fun h => h.2
  · intro hmarks
    refine ⟨?_, hmarks⟩
    have hopened := Scan.groups_trace htrace
    rw [hmarks, opened_partsMarks 0 0 hsettled.parts, hgroups, partsKeys_partsRead, ← hkeys,
      Nat.zero_add] at hopened
    exact hopened.symm

end PathTemplate.Matching
