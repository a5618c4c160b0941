import PathTemplate.Proofs.Meaning.Unique
import PathTemplate.Proofs.Rendering.Matched

/-!
Reading values back from a rendered path. Where delimiters are no letters, and every parameter but
the first is found by its lead, the matcher of a template takes from a path the very segments that
the renderer wrote there.
-/
namespace PathTemplate.Matching

open Expression Unicode

/-- Templates whose paths tell the values they were rendered from. -/
structure Legible (o : Options) (ts : List Token) : Prop where
  toEnd : o.toEnd = true
  noTerminators : o.endsWith = []
  delimiter : AsciiNonLetter o.delimiter
  inhabited : parameters ts ≠ []
  defaults : DefaultPatterns o ts
  required : ∀ p ∈ parameters ts, p.optional = false
  led : ∀ p ∈ (parameters ts).tail, p.lead.isSome = true
  leads : ∀ p ∈ parameters ts, ∀ c, p.lead = some c → AsciiNonLetter c
  repeatsOnce : ((parameters ts).filter (·.repeats)).length ≤ 1
  uniform : (∃ p ∈ parameters ts, p.repeats = true) → ∀ p ∈ parameters ts,
    p.delimiter = o.delimiter ∧ ∀ c, p.lead = some c → c = o.delimiter

def LeadsDelimit (o : Options) (ts : List Token) : Prop :=
  ∀ p ∈ parameters ts, p.delimiter = p.lead.getD o.delimiter

private theorem leadsDelimit_tokensFrom (o : Options) (ps : List Template.Piece) (index : Nat)
    (s : Template.Stretch) : LeadsDelimit o (Template.tokensFrom o index s ps) := by
  have hliteral : ∀ (s : Template.Stretch), parameters s.literal = [] := by
    intro s
    rw [Template.Stretch.literal]
    split <;> rfl
  induction ps generalizing index s with
  | nil =>
    intro p hp
    rw [Template.tokensFrom, hliteral] at hp
    cases hp
  | cons x ps ih =>
    cases x with
    | plain c => exact ih index _
    | escaped c => exact ih index _
    | mark m =>
      intro p hp
      rw [Template.tokensFrom, parameters, List.filterMap_append] at hp
      rcases List.mem_append.mp hp with hp | hp
      · have hnil := hliteral (s.withoutLead o)
        rw [parameters] at hnil
        rw [hnil] at hp
        cases hp
      · rcases List.mem_cons.mp hp with rfl | hp
        · rfl
        · exact ih _ [] p hp

theorem leadsDelimit_tokens (o : Options) (t : Text) : LeadsDelimit o (Template.tokens o t) :=
  leadsDelimit_tokensFrom o _ 0 []

section Legible

variable {o : Options} {ts : List Token}

theorem Legible.nonLetter (h : Legible o ts) (hd : LeadsDelimit o ts) :
    ∀ p ∈ parameters ts, AsciiNonLetter p.delimiter := by
  intro p hp
  rw [hd p hp]
  cases hlead : p.lead with
  | none => exact h.delimiter
  | some c => exact h.leads p hp c hlead

private theorem parameters_append (ts₁ ts₂ : List Token) (q : Parameter) :
    parameters (ts₁ ++ .parameter q :: ts₂) = parameters ts₁ ++ q :: parameters ts₂ := by
  simp [parameters, Token.parameter?]

private theorem exists_first_parameter (h : parameters ts ≠ []) :
    ∃ ts₁ q ts₂, ts = ts₁ ++ Token.parameter q :: ts₂ ∧ parameters ts₁ = [] := by
  induction ts with
  | nil => exact absurd rfl h
  | cons t ts ih =>
    cases t with
    | literal t =>
      obtain ⟨ts₁, q, ts₂, rfl, hnone⟩ := ih h
      exact ⟨.literal t :: ts₁, q, ts₂, rfl, hnone⟩
    | parameter p => exact ⟨[], p, ts, rfl, rfl⟩

private theorem led_of_lead {p : Parameter} (hp : p.delimiter = p.lead.getD o.delimiter)
    (hlead : p.lead.isSome = true) : Led p := by
  obtain ⟨c, hc⟩ := Option.isSome_iff_exists.mp hlead
  rw [Led, hp, hc]
  rfl

private theorem once_around {ps qs : List Parameter} {q : Parameter} (hq : q.repeats = true)
    (h : ((ps ++ q :: qs).filter (·.repeats)).length ≤ 1) :
    ∀ p, p ∈ ps ∨ p ∈ qs → p.repeats = false := by
  intro p hp
  rw [List.filter_append, List.filter_cons, if_pos hq, List.length_append, List.length_cons] at h
  by_contra hpr
  rw [Bool.not_eq_false] at hpr
  rcases hp with hp | hp
  · have hmem : p ∈ ps.filter (·.repeats) := List.mem_filter.mpr ⟨hp, hpr⟩
    have := List.length_pos_of_mem hmem
    omega
  · have hmem : p ∈ qs.filter (·.repeats) := List.mem_filter.mpr ⟨hp, hpr⟩
    have := List.length_pos_of_mem hmem
    omega

private theorem mem_tail_around {ps qs : List Parameter} {p q : Parameter}
    (h : p ∈ qs ∨ p ∈ ps.tail ∨ p = q ∧ ps ≠ []) : p ∈ (ps ++ q :: qs).tail := by
  cases ps with
  | nil => simpa using h
  | cons p₁ ps =>
    rw [List.cons_append, List.tail_cons]
    rcases h with h | h | h
    · exact List.mem_append_right _ (List.mem_cons_of_mem q h)
    · exact List.mem_append_left _ h
    · rw [h.1]
      exact List.mem_append_right _ List.mem_cons_self

private theorem Legible.led_tail (h : Legible o ts) (hd : LeadsDelimit o ts) {p : Parameter}
    (hp : p ∈ (parameters ts).tail) : Led p :=
  led_of_lead (hd p (List.mem_of_mem_tail hp)) (h.led p hp)

/-- Around a parameter that repeats all others are there once, and found by the same delimiter. -/
private theorem Legible.takes_unique_repeats (h : Legible o ts) (hd : LeadsDelimit o ts)
    {q : Parameter} (hq : q ∈ parameters ts) (hqr : q.repeats = true) {a : Bool} {w : Text}
    {vs vs' : List (Option Text)} (ht : Takes a o ts w vs) (ht' : Takes a o ts w vs') :
    vs = vs' := by
  have hnl := h.nonLetter hd
  have huniform := h.uniform ⟨q, hq, hqr⟩
  obtain ⟨ts₁, ts₂, rfl⟩ := List.append_of_mem (mem_parameters.mp hq)
  have hparams := parameters_append ts₁ ts₂ q
  have honce := h.repeatsOnce
  have hled : ∀ p ∈ (parameters (ts₁ ++ .parameter q :: ts₂)).tail, Led p :=
    fun p hp => h.led_tail hd hp
  rw [hparams] at honce hled
  have hother : ∀ p, p ∈ parameters ts₁ ∨ p ∈ parameters ts₂ →
      p ∈ parameters (ts₁ ++ .parameter q :: ts₂) := by
    intro p hp
    rw [hparams]
    rcases hp with hp | hp
    · exact List.mem_append_left _ hp
    · exact List.mem_append_right _ (List.mem_cons_of_mem q hp)
  have hsingle : ∀ p, p ∈ parameters ts₁ ∨ p ∈ parameters ts₂ → Single p := fun p hp =>
    ⟨h.required p (hother p hp), once_around hqr honce p hp, hnl p (hother p hp)⟩
  refine ht.unique_around (h.required q hq) (hnl q hq) ?_ ?_ ht'
  · intro p hp
    exact ⟨hsingle p (Or.inr hp), hled p (mem_tail_around (Or.inl hp))⟩
  · by_cases hnone : parameters ts₁ = []
    · exact Or.inl hnone
    · refine Or.inr ⟨hled q (mem_tail_around (Or.inr (Or.inr ⟨rfl, hnone⟩))), ?_, ?_⟩
      · intro p hp
        refine ⟨hsingle p (Or.inl hp), ?_⟩
        rw [(huniform p (hother p (Or.inl hp))).1, (huniform q hq).1]
      · intro p hp
        exact hled p (mem_tail_around (Or.inr (Or.inl hp)))

/-- Legible tokens take a text in one way only. -/
theorem Legible.takes_unique (h : Legible o ts) (hd : LeadsDelimit o ts) {a : Bool} {w : Text}
    {vs vs' : List (Option Text)} (ht : Takes a o ts w vs) (ht' : Takes a o ts w vs') :
    vs = vs' := by
  by_cases hrep : ∃ p ∈ parameters ts, p.repeats = true
  · obtain ⟨q, hq, hqr⟩ := hrep
    exact h.takes_unique_repeats hd hq hqr ht ht'
  · have honce : ∀ p ∈ parameters ts, p.repeats = false := by
      intro p hp
      by_contra hpr
      exact hrep ⟨p, hp, by simpa using hpr⟩
    have hnl := h.nonLetter hd
    have hled : ∀ p ∈ (parameters ts).tail, Led p := fun p hp => h.led_tail hd hp
    obtain ⟨ts₁, q, ts₂, rfl, hnone⟩ := exists_first_parameter h.inhabited
    have hparams := parameters_append ts₁ ts₂ q
    rw [hnone, List.nil_append] at hparams
    have hq : q ∈ parameters (ts₁ ++ .parameter q :: ts₂) := by
      rw [hparams]
      exact List.mem_cons_self
    refine ht.unique_around (h.required q hq) (hnl q hq) ?_ (Or.inl hnone) ht'
    intro p hp
    have hmem : p ∈ parameters (ts₁ ++ .parameter q :: ts₂) := by
      rw [hparams]
      exact List.mem_cons_of_mem q hp
    refine ⟨⟨h.required p hmem, honce p hmem, hnl p hmem⟩, hled p ?_⟩
    rw [hparams]
    exact hp

/-- A division of a text that the tokens take from end to end leaves nothing over. -/
theorem Legible.division_eq (h : Legible o ts) (hd : LeadsDelimit o ts) {path : Text}
    {vs : List (Option Text)} (ht : Takes (!o.sensitive) o ts path vs)
    (v : Division (!o.sensitive) o ts path) (hv : v.skipped = []) :
    v.toMatch = ⟨[], path, vs⟩ := by
  have hends : Closes (!o.sensitive) o v.ending v.left := by
    have := v.ends
    rwa [Ends, if_pos h.toEnd] at this
  have hleft : v.left = [] := by
    rcases hends.2 with hleft | ⟨e, he, -⟩
    · exact hleft
    · rw [h.noTerminators] at he
      cases he
  have hpath : path = v.body ++ v.ending := by
    have := v.path_eq
    rwa [hv, hleft, List.nil_append, List.append_nil] at this
  have hending : v.ending = [] := by
    rcases hends.1 with hnil | ⟨-, halike⟩
    · exact hnil
    · exfalso
      obtain ⟨x, u, hx, hu, he⟩ := List.forall₂_cons_left_iff.mp halike
      rw [List.forall₂_nil_left_iff.mp hu, ← (alike_iff_eq h.delimiter).mp hx] at he
      rw [he] at hpath
      have hshort : [] ++ path ≠ [] ++ (v.body ++ [o.delimiter]) :=
        ht.no_delimiter_behind h.inhabited h.delimiter
          (fun p hp => ⟨h.required p hp, h.nonLetter hd p hp⟩) v.takes
      exact hshort hpath
  have hbody : path = v.body := by
    rwa [hending, List.append_nil] at hpath
  have hvalues : v.values = vs := by
    have htakes := v.takes
    rw [← hbody] at htakes
    exact h.takes_unique hd htakes ht
  rw [Division.toMatch, hv, hending, List.append_nil, ← hbody, hvalues]

end Legible

end PathTemplate.Matching

namespace PathTemplate.Rendering

open Expression Matching

theorem values_tokensKeys (ts : List Token) (f : Parameter → Option Text) :
    Matcher.values (tokensKeys ts) ((parameters ts).map f) =
      (parameters ts).map fun p => (Key.ofParameter p, f p) := by
  have hlen : ((parameters ts).map f).length = (tokensKeys ts).length := by
    rw [List.length_map, length_tokensKeys]
  rw [Matcher.values_eq_zip hlen, tokensKeys, ← parameters, List.zip_map']

/-- Matching a rendered path gives back what was written for each parameter, and cutting it at the
delimiter gives back the encoded segments. -/
theorem exec_rendered (o : Options) (t : Text) (encode : Encoder) (data : Params) (r : Renderer)
    (path : Text) (h : Legible o (Template.tokens o t)) (hr : Renderer.compile o t = .ok r)
    (hp : r.renderWith encode data = .ok path) :
    ∃ m, Matcher.compile o (.template t) = .ok m ∧
      m.exec path = .ok (some
        { index := 0
          matched := path
          values := (parameters (Template.tokens o t)).map fun p => (Key.ofParameter p,
            some (Text.join [p.delimiter] (encodedSegments encode data p))) }) ∧
      ∀ p ∈ parameters (Template.tokens o t),
        (p.repeats = false → (encodedSegments encode data p).length = 1) ∧
        Text.split p.delimiter (Text.join [p.delimiter] (encodedSegments encode data p)) =
          encodedSegments encode data p := by
  have hd := leadsDelimit_tokens o t
  have hrendered := renderedBy_of_renderWith h.defaults hr hp
  have hsome : ∀ p ∈ parameters (Template.tokens o t), encodedSegments encode data p ≠ [] ∧
      (p.repeats = false → (encodedSegments encode data p).length = 1) := by
    intro p hmem
    rcases hrendered.amount p hmem with ⟨-, hopt⟩ | hsegs
    · rw [h.required p hmem] at hopt
      cases hopt
    · exact hsegs
  have hfree := freeOfVariants_of_nonLetter hrendered h.delimiter (h.nonLetter hd)
  have htakes := hrendered.takes (!o.sensitive) fun p hmem s hs =>
    ⟨(hrendered.segments p hmem s hs).1, hfree p hmem s hs⟩
  refine ⟨_, compile_template_eq h.defaults, ?_, ?_⟩
  · obtain ⟨r₀, hr₀⟩ := exists_mem_paths_of_division h.defaults (.whole htakes)
    rw [show (Division.whole htakes).body ++ _ = path by simp [Division.whole]] at hr₀
    obtain ⟨q, hq, hhead⟩ := Compiled.head?_matchStates _ path hr₀
    obtain ⟨v, hv, hmatch⟩ := division_of_mem_paths h.defaults hq
    have hfound := hmatch.trans (h.division_eq hd htakes v hv)
    rw [List.nil_append] at hfound
    rw [Matcher.exec_of_isPlain _ (isPlain_compiledTokens h.toEnd h.noTerminators h.defaults),
      hhead, Option.map_some, Matcher.pathMatch, hfound]
    simp only [values_tokensKeys]
    have hvalues : (parameters (Template.tokens o t)).map
        (fun p => (Key.ofParameter p, encodedValue encode data p)) =
          (parameters (Template.tokens o t)).map fun p => (Key.ofParameter p,
            some (Text.join [p.delimiter] (encodedSegments encode data p))) := by
      apply List.map_congr_left
      intro p hmem
      obtain ⟨w, ws, hws⟩ := List.exists_cons_of_ne_nil (hsome p hmem).1
      rw [encodedValue, hws]
    rw [hvalues]
    rfl
  · intro p hmem
    refine ⟨(hsome p hmem).2, ?_⟩
    obtain ⟨w, ws, hws⟩ := List.exists_cons_of_ne_nil (hsome p hmem).1
    rw [hws]
    apply Text.split_join
    intro x hx
    rw [← hws] at hx
    exact (delimiter_notMem_segment (hrendered.segments p hmem x hx)).1

/-- The two parts of `/a/b` in `/x/y/z`, one of which is repeated. -/
private theorem legible_repeated : Legible {} (Template.tokens {} "/:a/:b+".toList) := by
  have htokens : Template.tokens {} "/:a/:b+".toList =
      [.parameter ⟨.named ['a'], some '/', '/', false, false, "[^/]+?".toList⟩,
        .parameter ⟨.named ['b'], some '/', '/', false, true, "[^/]+?".toList⟩] := by
    decide
  rw [htokens]
  refine ⟨rfl, rfl, by decide, nofun, ?_, by decide, by decide, ?_, by decide, ?_⟩
  · intro p hp
    simp only [List.mem_cons, Token.parameter.injEq, List.not_mem_nil, or_false] at hp
    rcases hp with rfl | rfl <;> rfl
  · intro p hp c hc
    rcases List.mem_cons.mp hp with rfl | hp
    · exact Option.some.inj hc ▸ by decide
    · rw [List.mem_singleton.mp hp] at hc
      exact Option.some.inj hc ▸ by decide
  · intro _ p hp
    rcases List.mem_cons.mp hp with rfl | hp
    · exact ⟨rfl, fun c hc => (Option.some.inj hc).symm⟩
    · rw [List.mem_singleton.mp hp]
      exact ⟨rfl, fun c hc => (Option.some.inj hc).symm⟩

/-- From `/x/y/z` the template `/:a/:b+` takes `x` and `y/z`, as they were rendered. -/
theorem exec_rendered_repeated : ∃ r m, Renderer.compile {} "/:a/:b+".toList = .ok r ∧
    r.renderWith (fun v _ => v) (.ofList [("a".toList, .scalar ['x']),
      ("b".toList, .sequence [['y'], ['z']])]) = .ok "/x/y/z".toList ∧
    Matcher.compile {} (.template "/:a/:b+".toList) = .ok m ∧
    (m.exec "/x/y/z".toList).map (Option.map fun f => (f.index, f.matched, f.values.map (·.2))) =
      .ok (some (0, "/x/y/z".toList, [some ['x'], some "y/z".toList])) := by
  have hrender : (Renderer.compile {} "/:a/:b+".toList).map (fun r => r.renderWith
      (fun v _ => v) (.ofList [("a".toList, .scalar ['x']),
        ("b".toList, .sequence [['y'], ['z']])])) = .ok (.ok "/x/y/z".toList) := by
    decide
  obtain ⟨r, hr, hp⟩ := exists_ok_of_map hrender
  obtain ⟨m, hm, hexec, -⟩ := exec_rendered {} "/:a/:b+".toList (fun v _ => v)
    (.ofList [("a".toList, .scalar ['x']), ("b".toList, .sequence [['y'], ['z']])]) r
    "/x/y/z".toList legible_repeated hr hp
  refine ⟨r, m, hr, hp, hm, ?_⟩
  rw [hexec]
  decide

end PathTemplate.Rendering
