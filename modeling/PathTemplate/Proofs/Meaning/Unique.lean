import PathTemplate.Proofs.Meaning.Spelling

/-!
When a text is taken by tokens in one way only. From the right every parameter is found by its
lead, which stands in no value. Where a parameter repeats, what stands before it is found from the
left, by the next delimiter.
-/
namespace PathTemplate.Matching

open Expression Unicode

/-! ### Texts with a mark in them -/

private theorem append_cons_inj {c : Char} {x x' v v' : Text} (hv : c ∉ v) (hv' : c ∉ v')
    (h : x ++ c :: v = x' ++ c :: v') : x = x' ∧ v = v' := by
  rcases List.append_eq_append_iff.mp h with ⟨m, hx, hm⟩ | ⟨m, hx, hm⟩
  · cases m with
    | nil =>
      rw [List.append_nil] at hx
      exact ⟨hx.symm, (List.cons.inj hm).2⟩
    | cons d m =>
      exfalso
      apply hv
      rw [(List.cons.inj hm).2]
      simp
  · cases m with
    | nil =>
      rw [List.append_nil] at hx
      exact ⟨hx, (List.cons.inj hm).2.symm⟩
    | cons d m =>
      exfalso
      apply hv'
      rw [(List.cons.inj hm).2]
      simp

private theorem cons_append_inj {c : Char} {x x' v v' : Text} (hv : c ∉ v) (hv' : c ∉ v')
    (h : v ++ c :: x = v' ++ c :: x') : v = v' ∧ x = x' := by
  have hrev : x.reverse ++ c :: v.reverse = x'.reverse ++ c :: v'.reverse := by
    have := congrArg List.reverse h
    simpa using this
  obtain ⟨hx, hv⟩ := append_cons_inj (by simpa using hv) (by simpa using hv') hrev
  exact ⟨List.reverse_inj.mp hv, List.reverse_inj.mp hx⟩

/-! ### Takings -/

variable {a : Bool} {o : Options}

theorem Takes.split {ts ts' : List Token} {w : Text} {vs : List (Option Text)}
    (h : Takes a o (ts ++ ts') w vs) : ∃ w₁ w₂ vs₁ vs₂, Takes a o ts w₁ vs₁ ∧
      Takes a o ts' w₂ vs₂ ∧ w = w₁ ++ w₂ ∧ vs = vs₁ ++ vs₂ := by
  induction ts generalizing w vs with
  | nil => exact ⟨[], w, [], vs, .nil, h, rfl, rfl⟩
  | cons t ts ih =>
    cases h with
    | literal ht hrest =>
      obtain ⟨w₁, w₂, vs₁, vs₂, h₁, h₂, rfl, rfl⟩ := ih hrest
      exact ⟨_, w₂, vs₁, vs₂, .literal ht h₁, h₂, by simp, rfl⟩
    | absent hopt hrest =>
      obtain ⟨w₁, w₂, vs₁, vs₂, h₁, h₂, rfl, rfl⟩ := ih hrest
      exact ⟨w₁, w₂, none :: vs₁, vs₂, .absent hopt h₁, h₂, rfl, rfl⟩
    | present hl hv hrest =>
      obtain ⟨w₁, w₂, vs₁, vs₂, h₁, h₂, rfl, rfl⟩ := ih hrest
      exact ⟨_, w₂, _ :: vs₁, vs₂, .present hl hv h₁, h₂, by simp, rfl⟩

/-- A parameter that must be there takes its lead and a value. -/
theorem Takes.parameter {p : Parameter} {ts : List Token} {w : Text} {vs : List (Option Text)}
    (h : Takes a o (.parameter p :: ts) w vs) (hopt : p.optional = false) :
    ∃ l v u us, TextAlike a p.leadText l ∧ v ∈ valueTexts a o p ∧ Takes a o ts u us ∧
      w = l ++ v ++ u ∧ vs = some v :: us := by
  cases h with
  | absent hopt' _ =>
    rw [hopt] at hopt'
    cases hopt'
  | present hl hv hrest => exact ⟨_, _, _, _, hl, hv, hrest, rfl, rfl⟩

structure Single (p : Parameter) : Prop where
  required : p.optional = false
  once : p.repeats = false
  nonLetter : AsciiNonLetter p.delimiter

def Led (p : Parameter) : Prop := p.lead = some p.delimiter

theorem Led.text {p : Parameter} (h : Led p) (hn : AsciiNonLetter p.delimiter) {l : Text}
    (hl : TextAlike a p.leadText l) : l = [p.delimiter] := by
  rw [Parameter.leadText, h] at hl
  obtain ⟨x, u, hx, hu, rfl⟩ := List.forall₂_cons_left_iff.mp hl
  rw [List.forall₂_nil_left_iff.mp hu, (alike_iff_eq hn).mp hx]

private theorem delimiter_mem_excluded (o : Options) (p : Parameter) :
    p.delimiter ∈ excluded o p ∧ o.delimiter ∈ excluded o p := by
  rw [excluded]
  split
  case isTrue h => simp [h]
  case isFalse => simp

theorem delimiter_notMem_segment {p : Parameter} {w : Text} (h : w ∈ segments a (excluded o p)) :
    p.delimiter ∉ w ∧ o.delimiter ∉ w := by
  obtain ⟨hp, ho⟩ := delimiter_mem_excluded o p
  exact ⟨fun hw => h.2 _ hw _ hp (alike_self a _), fun hw => h.2 _ hw _ ho (alike_self a _)⟩

theorem Single.value {p : Parameter} (h : Single p) {v : Text} (hv : v ∈ valueTexts a o p) :
    v ∈ segments a (excluded o p) := by
  rw [valueTexts, h.once] at hv
  simpa using hv

/-- From the right: what led parameters take at the end of a text is decided by the text. -/
theorem Takes.unique_right {ts : List Token}
    (hs : ∀ p ∈ parameters ts, Single p ∧ Led p) {x x' w w' : Text} {vs vs' : List (Option Text)}
    (h : Takes a o ts w vs) (h' : Takes a o ts w' vs') (heq : x ++ w = x' ++ w') :
    w = w' ∧ vs = vs' := by
  induction ts generalizing x x' w w' vs vs' with
  | nil =>
    cases h
    cases h'
    exact ⟨rfl, rfl⟩
  | cons t ts ih =>
    cases t with
    | literal t =>
      cases h with
      | @literal _ k u _ vs ht hrest =>
        cases h' with
        | @literal _ k' u' _ vs' ht' hrest' =>
          rw [← List.append_assoc, ← List.append_assoc] at heq
          obtain ⟨rfl, rfl⟩ := ih hs hrest hrest' heq
          have hk : x ++ k = x' ++ k' := List.append_cancel_right heq
          have hlen : k.length = k'.length := ht.length_eq.trans ht'.length_eq.symm
          rw [(List.append_inj' hk hlen).2]
          exact ⟨rfl, rfl⟩
    | parameter p =>
      obtain ⟨hsingle, hled⟩ := hs p List.mem_cons_self
      obtain ⟨l, v, u, us, hl, hv, hrest, rfl, rfl⟩ := h.parameter hsingle.required
      obtain ⟨l', v', u', us', hl', hv', hrest', rfl, rfl⟩ := h'.parameter hsingle.required
      rw [← List.append_assoc x, ← List.append_assoc x'] at heq
      obtain ⟨rfl, rfl⟩ := ih (fun q hq => hs q (List.mem_cons_of_mem p hq)) hrest hrest' heq
      have hfront : x ++ p.delimiter :: v = x' ++ p.delimiter :: v' := by
        have := List.append_cancel_right heq
        rw [hled.text hsingle.nonLetter hl, hled.text hsingle.nonLetter hl'] at this
        simpa using this
      obtain ⟨rfl, rfl⟩ := append_cons_inj (delimiter_notMem_segment (hsingle.value hv)).1
        (delimiter_notMem_segment (hsingle.value hv')).1 hfront
      rw [hled.text hsingle.nonLetter hl, hled.text hsingle.nonLetter hl']
      exact ⟨rfl, rfl⟩

/-- A literal between a value and a delimiter does not blur where the value ends. -/
private theorem value_unique_literal {d : Char} (hd : AsciiNonLetter d) {t : Text} {r r' : Text}
    (hr : ∀ v v' : Text, d ∉ v → d ∉ v' → v ++ r = v' ++ r' → v = v') {v v' k k' : Text}
    (hv : d ∉ v) (hv' : d ∉ v') (ht : TextAlike a t k) (ht' : TextAlike a t k')
    (heq : v ++ (k ++ r) = v' ++ (k' ++ r')) : v = v' := by
  induction t generalizing v v' k k' with
  | nil =>
    rw [List.forall₂_nil_left_iff.mp ht, List.forall₂_nil_left_iff.mp ht'] at heq
    exact hr v v' hv hv' heq
  | cons c t ih =>
    obtain ⟨z, k, hz, hk, rfl⟩ := List.forall₂_cons_left_iff.mp ht
    obtain ⟨z', k', hz', hk', rfl⟩ := List.forall₂_cons_left_iff.mp ht'
    by_cases hc : c = d
    · rw [hc] at hz hz'
      rw [← (alike_iff_eq hd).mp hz, ← (alike_iff_eq hd).mp hz'] at heq
      exact (cons_append_inj hv hv' heq).1
    · have hne : ∀ z, Alike a c z → d ≠ z := by
        intro z hz hdz
        exact hc ((alike_iff_eq_left (hdz ▸ hd)).mp hz ▸ hdz.symm)
      have hvz : d ∉ v ++ [z] := by simp [hv, hne z hz]
      have hvz' : d ∉ v' ++ [z'] := by simp [hv', hne z' hz']
      exact (List.append_inj' (ih hvz hvz' hk hk' (by simpa using heq)) rfl).1

/-- A value in front of tokens ends where the text says, if a delimiter follows: the first
delimiter behind the value stands in the same place in both readings. -/
private theorem value_unique_left {ts : List Token} {d : Char} (hd : AsciiNonLetter d)
    (hs : ∀ p ∈ parameters ts, p.optional = false ∧ p.delimiter = d ∧ Led p)
    {v v' w w' y y' : Text} {vs vs' : List (Option Text)} (hv : d ∉ v) (hv' : d ∉ v')
    (h : Takes a o ts w vs) (h' : Takes a o ts w' vs')
    (heq : v ++ (w ++ d :: y) = v' ++ (w' ++ d :: y')) : v = v' := by
  induction ts generalizing v v' w w' vs vs' with
  | nil =>
    cases h
    cases h'
    exact (cons_append_inj hv hv' heq).1
  | cons t ts ih =>
    cases t with
    | literal t =>
      cases h with
      | literal ht hrest =>
        cases h' with
        | literal ht' hrest' =>
          rw [List.append_assoc, List.append_assoc] at heq
          exact value_unique_literal hd (fun _ _ hx hx' hxs => ih hs hx hx' hrest hrest' hxs)
            hv hv' ht ht' heq
    | parameter p =>
      obtain ⟨hopt, rfl, hled⟩ := hs p List.mem_cons_self
      obtain ⟨l, x, u, us, hl, -, -, rfl, rfl⟩ := h.parameter hopt
      obtain ⟨l', x', u', us', hl', -, -, rfl, rfl⟩ := h'.parameter hopt
      rw [hled.text hd hl, hled.text hd hl'] at heq
      simp only [List.append_assoc, List.singleton_append] at heq
      exact (cons_append_inj hv hv' heq).1

/-- From the left: what the parameters take in front of a delimiter is decided by the text, if
all of them have that delimiter. -/
theorem Takes.unique_left {ts : List Token} {d : Char} (hd : AsciiNonLetter d)
    (hs : ∀ p ∈ parameters ts, Single p ∧ p.delimiter = d)
    (hled : ∀ p ∈ (parameters ts).tail, Led p) {w w' y y' : Text} {vs vs' : List (Option Text)}
    (h : Takes a o ts w vs) (h' : Takes a o ts w' vs') (heq : w ++ d :: y = w' ++ d :: y') :
    w = w' ∧ vs = vs' := by
  induction ts generalizing w w' vs vs' with
  | nil =>
    cases h
    cases h'
    exact ⟨rfl, rfl⟩
  | cons t ts ih =>
    cases t with
    | literal t =>
      cases h with
      | @literal _ k u _ vs ht hrest =>
        cases h' with
        | @literal _ k' u' _ vs' ht' hrest' =>
          rw [List.append_assoc, List.append_assoc] at heq
          have hlen : k.length = k'.length := ht.length_eq.trans ht'.length_eq.symm
          obtain ⟨rfl, hrests⟩ := List.append_inj heq hlen
          obtain ⟨rfl, rfl⟩ := ih hs hled hrest hrest' hrests
          exact ⟨rfl, rfl⟩
    | parameter p =>
      obtain ⟨hsingle, hpd⟩ := hs p List.mem_cons_self
      obtain ⟨l, v, u, us, hl, hv, hrest, rfl, rfl⟩ := h.parameter hsingle.required
      obtain ⟨l', v', u', us', hl', hv', hrest', rfl, rfl⟩ := h'.parameter hsingle.required
      have htail : ∀ q ∈ parameters ts, Single q ∧ q.delimiter = d :=
        fun q hq => hs q (List.mem_cons_of_mem p hq)
      have hledTail : ∀ q ∈ parameters ts, Led q := hled
      simp only [List.append_assoc] at heq
      have hlen : l.length = l'.length := hl.length_eq.trans hl'.length_eq.symm
      obtain ⟨rfl, hvalues⟩ := List.append_inj heq hlen
      have hvd := (delimiter_notMem_segment (hsingle.value hv)).1
      have hvd' := (delimiter_notMem_segment (hsingle.value hv')).1
      rw [hpd] at hvd hvd'
      have hsame : v = v' := value_unique_left hd
        (fun q hq => ⟨(htail q hq).1.required, (htail q hq).2, hledTail q hq⟩) hvd hvd'
          hrest hrest' hvalues
      rw [hsame] at hvalues
      obtain ⟨rfl, rfl⟩ := ih htail (fun q hq => hledTail q (List.mem_of_mem_tail hq))
        hrest hrest' (List.append_cancel_left hvalues)
      rw [hsame]
      exact ⟨rfl, rfl⟩

private theorem literals_length {ts : List Token} (hts : parameters ts = []) {w w' : Text}
    {vs vs' : List (Option Text)} (h : Takes a o ts w vs) (h' : Takes a o ts w' vs') :
    w.length = w'.length ∧ vs = vs' := by
  induction ts generalizing w w' vs vs' with
  | nil =>
    cases h
    cases h'
    exact ⟨rfl, rfl⟩
  | cons t ts ih =>
    cases t with
    | literal t =>
      cases h with
      | literal ht hrest =>
        cases h' with
        | literal ht' hrest' =>
          obtain ⟨hlen, hvs⟩ := ih hts hrest hrest'
          refine ⟨?_, hvs⟩
          rw [List.length_append, List.length_append, ht.length_eq, ht'.length_eq, hlen]
    | parameter p => cases hts

/-- One parameter may repeat, or be there without a lead, if the others can be found from the
right and from the left. -/
theorem Takes.unique_around {ts₁ ts₂ : List Token} {q : Parameter} (hopt : q.optional = false)
    (hq : AsciiNonLetter q.delimiter) (hs₂ : ∀ p ∈ parameters ts₂, Single p ∧ Led p)
    (hs₁ : parameters ts₁ = [] ∨ Led q ∧
      (∀ p ∈ parameters ts₁, Single p ∧ p.delimiter = q.delimiter) ∧
      ∀ p ∈ (parameters ts₁).tail, Led p)
    {w : Text} {vs vs' : List (Option Text)} (h : Takes a o (ts₁ ++ .parameter q :: ts₂) w vs)
    (h' : Takes a o (ts₁ ++ .parameter q :: ts₂) w vs') : vs = vs' := by
  obtain ⟨w₁, w₂, vs₁, vs₂, h₁, h₂, rfl, rfl⟩ := h.split
  obtain ⟨w₁', w₂', vs₁', vs₂', h₁', h₂', heq, rfl⟩ := h'.split
  obtain ⟨l, v, u, us, hl, hv, hrest, rfl, rfl⟩ := h₂.parameter hopt
  obtain ⟨l', v', u', us', hl', hv', hrest', rfl, rfl⟩ := h₂'.parameter hopt
  have hright : (w₁ ++ (l ++ v)) ++ u = (w₁' ++ (l' ++ v')) ++ u' := by
    simpa using heq
  obtain ⟨rfl, rfl⟩ := hrest.unique_right hs₂ hrest' hright
  have hleft : w₁ ++ (l ++ v) = w₁' ++ (l' ++ v') := List.append_cancel_right hright
  have hsame : vs₁ = vs₁' ∧ v = v' := by
    rcases hs₁ with hnone | ⟨hled, hall, htail⟩
    · obtain ⟨hlen, hvs⟩ := literals_length hnone h₁ h₁'
      obtain ⟨-, hvalues⟩ := List.append_inj hleft hlen
      exact ⟨hvs, (List.append_inj hvalues (hl.length_eq.trans hl'.length_eq.symm)).2⟩
    · rw [hled.text hq hl, hled.text hq hl'] at hleft
      obtain ⟨rfl, hvs⟩ := h₁.unique_left hq hall htail h₁' hleft
      exact ⟨hvs, (List.cons.inj (List.append_cancel_left hleft)).2⟩
  rw [hsame.1, hsame.2]

/-! ### No delimiter at the end -/

private theorem value_ends {p : Parameter} (hp : AsciiNonLetter p.delimiter) {v : Text}
    (hv : v ∈ valueTexts a o p) : ∃ x y, v = x ++ [y] ∧ y ≠ o.delimiter := by
  rw [valueTexts_eq, mem_valuesOf_iff fun _ => alike_iff_eq hp] at hv
  obtain ⟨ws, hne, -, hws, rfl⟩ := hv
  induction ws with
  | nil => exact absurd rfl hne
  | cons w ws ih =>
    have hw := hws w List.mem_cons_self
    cases ws with
    | nil =>
      refine ⟨w.dropLast, w.getLast hw.1, (List.dropLast_append_getLast hw.1).symm, ?_⟩
      intro hlast
      exact (delimiter_notMem_segment hw).2 (hlast ▸ List.getLast_mem hw.1)
    | cons w' ws =>
      obtain ⟨x, y, hxy, hy⟩ := ih (List.cons_ne_nil w' ws)
        fun z hz => hws z (List.mem_cons_of_mem w hz)
      rw [Text.join_cons_cons, hxy]
      exact ⟨w ++ [p.delimiter] ++ x, y, by simp, hy⟩

private theorem literal_shift {d : Char} (hd : AsciiNonLetter d) {t k k' x x' : Text}
    (ht : TextAlike a t k) (ht' : TextAlike a t k') (heq : x ++ k = x' ++ (k' ++ [d])) :
    x = x' ++ [d] := by
  induction t generalizing k k' x x' with
  | nil =>
    rw [List.forall₂_nil_left_iff.mp ht, List.forall₂_nil_left_iff.mp ht'] at heq
    simpa using heq
  | cons c t ih =>
    obtain ⟨z, k, hz, hk, rfl⟩ := List.forall₂_cons_left_iff.mp ht
    obtain ⟨z', k', hz', hk', rfl⟩ := List.forall₂_cons_left_iff.mp ht'
    have hnext : x ++ [z] = x' ++ [z'] ++ [d] := by
      apply ih hk hk'
      simpa using heq
    obtain ⟨hx, hzd⟩ := List.append_inj' hnext rfl
    rw [List.cons.inj hzd |>.1] at hz
    have hc : c = d := (alike_iff_eq_left hd).mp hz
    rw [hc] at hz'
    rw [hx, ← (alike_iff_eq hd).mp hz']

private theorem literals_shift {ts : List Token} (hts : parameters ts = []) {d : Char}
    (hd : AsciiNonLetter d) {x x' w w' : Text} {vs vs' : List (Option Text)}
    (h : Takes a o ts w vs) (h' : Takes a o ts w' vs') (heq : x ++ w = x' ++ (w' ++ [d])) :
    x = x' ++ [d] := by
  induction ts generalizing x x' w w' vs vs' with
  | nil =>
    cases h
    cases h'
    simpa using heq
  | cons t ts ih =>
    cases t with
    | literal t =>
      cases h with
      | @literal _ k u _ _ ht hrest =>
        cases h' with
        | @literal _ k' u' _ _ ht' hrest' =>
          have hnext : (x ++ k) ++ u = (x' ++ k') ++ (u' ++ [d]) := by
            simpa using heq
          apply literal_shift hd ht ht'
          rw [← List.append_assoc]
          exact ih hts hrest hrest' hnext
    | parameter p => cases hts

/-- What tokens with a parameter take is not longer by a delimiter in another reading. -/
theorem Takes.no_delimiter_behind {ts : List Token} (hts : parameters ts ≠ [])
    (hd : AsciiNonLetter o.delimiter)
    (hs : ∀ p ∈ parameters ts, p.optional = false ∧ AsciiNonLetter p.delimiter)
    {x x' w w' : Text} {vs vs' : List (Option Text)} (h : Takes a o ts w vs)
    (h' : Takes a o ts w' vs') : x ++ w ≠ x' ++ (w' ++ [o.delimiter]) := by
  intro heq
  induction ts generalizing x x' w w' vs vs' with
  | nil => exact hts rfl
  | cons t ts ih =>
    cases t with
    | literal t =>
      cases h with
      | @literal _ k u _ _ ht hrest =>
        cases h' with
        | @literal _ k' u' _ _ ht' hrest' =>
          have hnext : (x ++ k) ++ u = (x' ++ k') ++ (u' ++ [o.delimiter]) := by
            simpa using heq
          exact ih hts hs hrest hrest' hnext
    | parameter p =>
      obtain ⟨hopt, hp⟩ := hs p List.mem_cons_self
      obtain ⟨l, v, u, us, -, hv, hrest, rfl, rfl⟩ := h.parameter hopt
      obtain ⟨l', v', u', us', -, -, hrest', rfl, rfl⟩ := h'.parameter hopt
      have hnext : (x ++ l ++ v) ++ u = (x' ++ l' ++ v') ++ (u' ++ [o.delimiter]) := by
        simpa using heq
      by_cases hnone : parameters ts = []
      · have hends := literals_shift hnone hd hrest hrest' hnext
        obtain ⟨z, y, rfl, hy⟩ := value_ends hp hv
        rw [← List.append_assoc] at hends
        exact hy (List.cons.inj (List.append_inj' hends rfl).2).1
      · exact ih hnone (fun q hq => hs q (List.mem_cons_of_mem p hq)) hrest hrest' hnext

end PathTemplate.Matching
