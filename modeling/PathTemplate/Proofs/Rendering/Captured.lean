import PathTemplate.Proofs.Meaning.Composed
import PathTemplate.Proofs.Rendering.Agreement

/-!
Rendering what a match has taken. The values of a match become data again: a value that is missing
is left out, and the value of a parameter that repeats is cut at its delimiter. From these data the
renderer writes the text of the match, but for a delimiter that may stand at its end.
-/
namespace PathTemplate.Rendering

open Expression Matching

/-! ### Data -/

namespace Params

theorem get?_insert_of_ne {name other : Text} (h : name ≠ other) (ps : Params) (v : ParamValue) :
    (ps.insert other v).get? name = ps.get? name := by
  have hfilter : ∀ es : List (Text × ParamValue),
      (es.filter (·.1 != other)).lookup name = es.lookup name := by
    intro es
    induction es with
    | nil => rfl
    | cons e es ih =>
      obtain ⟨n, w⟩ := e
      by_cases hn : n = other
      · subst hn
        have hname : (name == n) = false := by simpa using h
        simp [List.lookup_cons, hname, ih]
      · simp [hn, List.lookup_cons, ih]
  have hname : (name == other) = false := by simpa using h
  rw [get?, insert, List.lookup_cons, hname, hfilter, get?]

def ofOptions (es : List (Text × Option ParamValue)) : Params :=
  .ofList (es.filterMap fun e => e.2.map fun v => (e.1, v))

private theorem get?_insertAll_of_notMem {name : Text} (es : List (Text × Option ParamValue))
    (h : name ∉ es.map Prod.fst) (ps : Params) :
    (ps.insertAll (es.filterMap fun e => e.2.map fun v => (e.1, v))).get? name = ps.get? name := by
  induction es generalizing ps with
  | nil => rfl
  | cons e es ih =>
    obtain ⟨n, x⟩ := e
    simp only [List.map_cons, List.mem_cons, not_or] at h
    cases x with
    | none => exact ih h.2 ps
    | some v => exact (ih h.2 (ps.insert n v)).trans (get?_insert_of_ne h.1 ps v)

private theorem get?_insertAll {name : Text} {x : Option ParamValue}
    (es : List (Text × Option ParamValue)) (h : (name, x) ∈ es) (hes : (es.map Prod.fst).Nodup)
    (ps : Params) (hps : ps.get? name = none) :
    (ps.insertAll (es.filterMap fun e => e.2.map fun v => (e.1, v))).get? name = x := by
  induction es generalizing ps with
  | nil => cases h
  | cons e es ih =>
    obtain ⟨n, y⟩ := e
    obtain ⟨hn, htail⟩ := List.nodup_cons.mp hes
    rcases List.mem_cons.mp h with heq | hmem
    · obtain ⟨rfl, rfl⟩ := Prod.mk.inj heq
      cases x with
      | none => exact (get?_insertAll_of_notMem es hn ps).trans hps
      | some v => exact (get?_insertAll_of_notMem es hn _).trans (get?_insert_self ps name v)
    · have hne : name ≠ n := by
        rintro rfl
        exact hn (List.mem_map.mpr ⟨_, hmem, rfl⟩)
      cases y with
      | none => exact ih hmem htail ps hps
      | some v => exact ih hmem htail _ ((get?_insert_of_ne hne ps v).trans hps)

/-- Under different names every value is found again. -/
theorem get?_ofOptions {es : List (Text × Option ParamValue)} (hes : (es.map Prod.fst).Nodup)
    {name : Text} {x : Option ParamValue} (h : (name, x) ∈ es) : (ofOptions es).get? name = x :=
  get?_insertAll es h hes .empty rfl

end Params

def capturedValue (k : Key) (v : Text) : ParamValue :=
  match k.repeats, k.delimiter with
  | true, some d => .sequence (Text.split d v)
  | _, _ => .scalar v

def capturedParams (f : PathMatch) : Params :=
  .ofOptions (f.values.map fun kv => (kv.1.name.text, kv.2.map (capturedValue kv.1)))

def verbatim : Encoder := fun v _ => v

/-! ### Rendering -/

section Parameter

variable {o : Options} {p : Parameter} {c : Compiled} {l : Language Char}

/-- What is understood as a value is written again as it was. Values of a parameter that repeats are
cut where their segments were joined. -/
private theorem contribution_captured (hl : Understood p l) (hc : validator p = .ok c)
    (hrep : p.repeats = true → ∀ s ∈ l, p.delimiter ∉ s) {v : Text} (hv : JoinedTexts p l v)
    {data : Params} (hlookup : data.lookup p.name = some (capturedValue (.ofParameter p) v)) :
    Contribution verbatim data (.parameter p) (.ok (p.leadText ++ v)) := by
  obtain ⟨ws, hne, hone, hws, rfl⟩ := hv
  have haccepted : ∀ w ∈ ws, Accepted p (verbatim w p) :=
    fun w hw => ⟨c, hc, (hl.accepts_iff c hc w).mpr (hws w hw)⟩
  obtain ⟨w, ws, rfl⟩ := List.exists_cons_of_ne_nil hne
  by_cases hp : p.repeats = true
  · have hvalue : capturedValue (.ofParameter p) (Text.join [p.delimiter] (w :: ws)) =
        .sequence (w :: ws) := by
      have hsplit := Text.split_join p.delimiter w ws fun x hx => hrep hp x (hws x hx)
      simp [capturedValue, Key.ofParameter, hp, hsplit]
    rw [hvalue] at hlookup
    simpa [verbatim] using Contribution.sequence hlookup hp hne haccepted
  · rw [Bool.not_eq_true] at hp
    obtain rfl : ws = [] := by simpa using hone hp
    have hvalue : capturedValue (.ofParameter p) (Text.join [p.delimiter] [w]) = .scalar w := by
      simp [capturedValue, Key.ofParameter, hp, Text.join]
    rw [hvalue] at hlookup
    exact .scalar hlookup (haccepted w List.mem_cons_self)

end Parameter

/-- From data that hold the values of the parameters the tokens are written as they were taken. -/
private theorem renderParts_of_takesAt {ts : List Token} {b w u : Text} {vs : List (Option Text)}
    (h : TakesAt false ts b w u vs) {parts : List Part} (hparts : partsOf ts = .ok parts)
    {data : Params}
    (hdata : ∀ pv ∈ (parameters ts).zip vs,
      data.lookup pv.1.name = pv.2.map (capturedValue (.ofParameter pv.1)))
    (hts : ∀ p ∈ parameters ts, ∃ l, Understood p l ∧
      (p.repeats = true → ∀ s ∈ l, p.delimiter ∉ s)) :
    renderParts verbatim data parts = .ok w := by
  induction h generalizing parts with
  | nil =>
    rw [← Except.ok.inj hparts]
    rfl
  | @literal t b w x u ts vs ht _ ih =>
    obtain ⟨q, qs, hq, hqs, rfl⟩ := partsOf_cons hparts
    rw [← Except.ok.inj hq, renderParts, ih hqs hdata hts, (textAlike_false_iff _ _).mp ht]
    rfl
  | @absent p b x u ts vs hopt _ ih =>
    obtain ⟨q, qs, hq, hqs, rfl⟩ := partsOf_cons hparts
    have hlookup : data.lookup p.name = none := hdata (p, none) List.mem_cons_self
    have hpart : renderPart verbatim data q = .ok [] :=
      (contribution_iff hq).mp (.absent hlookup hopt)
    have hrest := ih hqs (fun pv hpv => hdata pv (List.mem_cons_of_mem _ hpv))
      fun q hq => hts q (List.mem_cons_of_mem p hq)
    rw [renderParts, hpart, hrest]
    rfl
  | @present p b w v x u ts vs hlead hv _ ih =>
    obtain ⟨q, qs, hq, hqs, rfl⟩ := partsOf_cons hparts
    obtain ⟨c, hc, -⟩ := exists_ok_of_map hq
    have hlookup : data.lookup p.name = some (capturedValue (.ofParameter p) v) :=
      hdata (p, some v) List.mem_cons_self
    obtain ⟨l, hl, hrep⟩ := hts p List.mem_cons_self
    have hrest := ih hqs (fun pv hpv => hdata pv (List.mem_cons_of_mem _ hpv))
      fun q hq => hts q (List.mem_cons_of_mem p hq)
    have hpart := (contribution_iff hq).mp
      (contribution_captured hl hc hrep ((hl.valueAt_iff _ _ _).mp hv) hlookup)
    rw [renderParts, hpart, hrest, (textAlike_false_iff _ _).mp hlead]
    rfl

/-! ### Captured values -/

/-- The data read from a path hold the value of every parameter, if no two have the same name. -/
private theorem lookup_capturedParams {ts : List Token} {vs : List (Option Text)}
    (hlen : vs.length = (tokensKeys ts).length)
    (hnames : ((parameters ts).map fun p => p.name.text).Nodup) {index : Nat} {matched : Text}
    {p : Parameter} {v : Option Text} (h : (p, v) ∈ (parameters ts).zip vs) :
    (capturedParams ⟨index, matched, Matcher.values (tokensKeys ts) vs⟩).lookup p.name =
      v.map (capturedValue (.ofParameter p)) := by
  have hvalues : (Matcher.values (tokensKeys ts) vs).map
      (fun kv => (kv.1.name.text, kv.2.map (capturedValue kv.1))) =
        ((parameters ts).zip vs).map fun pv =>
          (pv.1.name.text, pv.2.map (capturedValue (.ofParameter pv.1))) := by
    rw [Matcher.values_eq_zip hlen, tokensKeys, ← parameters, List.zip_map_left, List.map_map]
    rfl
  have hfst : (((parameters ts).zip vs).map fun pv =>
      (pv.1.name.text, pv.2.map (capturedValue (.ofParameter pv.1)))).map Prod.fst =
        (parameters ts).map fun p => p.name.text := by
    have hle : (parameters ts).length ≤ vs.length := by
      rw [hlen, length_tokensKeys]
    conv_rhs => rw [← List.map_fst_zip hle, List.map_map]
    rw [List.map_map]
    rfl
  rw [capturedParams, hvalues]
  exact Params.get?_ofOptions (by rwa [hfst]) (List.mem_map.mpr ⟨_, h, rfl⟩)

/-- Where case counts, names differ, patterns are plain, and parameters that repeat have default
patterns, what a match has read from a path is written again: the text of the match, but for a
delimiter at its end that the options allow. -/
theorem render_captured (o : Options) (t : Text) (hs : o.sensitive = true)
    (hnames : ((parameters (Template.tokens o t)).map fun p => p.name.text).Nodup)
    (hplain : PlainPatterns o (Template.tokens o t))
    (hrepeats : ∀ p ∈ parameters (Template.tokens o t), p.repeats = true →
      p.pattern = Template.defaultPattern p.delimiter o.delimiter)
    {r : Renderer} (hr : Renderer.compile o t = .ok r) {m : Matcher}
    (hm : Matcher.compile o (.template t) = .ok m) {path : Text} {f : PathMatch}
    (hf : m.exec path = .ok (some f)) :
    ∃ w, r.renderWith verbatim (capturedParams f) = .ok w ∧
      (f.matched = w ∨ o.strict = false ∧ f.matched = w ++ [o.delimiter]) := by
  obtain rfl := eq_of_ofTokens_plain hs hplain hm
  have hplacement := exists_placement_of_exec hf
  rw [hs, Bool.not_true] at hplacement
  obtain ⟨v, rfl⟩ := hplacement
  obtain ⟨parts, hparts, rfl⟩ := exists_ok_of_map hr
  have hlen : v.values.length = (tokensKeys (Template.tokens o t)).length := by
    rw [v.takes.length, length_tokensKeys]
  have hunderstood : ∀ p ∈ parameters (Template.tokens o t), ∃ l, Understood p l ∧
      (p.repeats = true → ∀ s ∈ l, p.delimiter ∉ s) := by
    intro p hp
    by_cases hrep : p.repeats = true
    · have hd := understood_defaultPattern (hrepeats p hp hrep)
      exact ⟨_, hd, fun _ s hs => ((mem_segments_false o p s).mp hs).2.1⟩
    · obtain ⟨l, hl⟩ := exists_understood hplain (mem_parameters.mp hp)
      exact ⟨l, hl, fun h => absurd h hrep⟩
  refine ⟨v.body, renderParts_of_takesAt v.takes hparts
    (fun pv hpv => lookup_capturedParams hlen hnames hpv) hunderstood, ?_⟩
  have hends := (ends_false o _ _ _).mp v.ends
  have hending : v.ending = [] ∨ o.strict = false ∧ v.ending = [o.delimiter] := by
    rw [IsEnding] at hends
    split at hends
    · exact hends.1
    · exact hends.1.imp_right fun h => ⟨h.1, h.2.1⟩
  rcases hending with hnil | ⟨hstrict, hd⟩
  · exact Or.inl (by simp [hnil])
  · exact Or.inr ⟨hstrict, by simp [hd]⟩

/-- From `/u/42/a/b/` the template `/u/:id(\\d+|me)/:rest*` takes a number and two segments, and
what it has taken is written as `/u/42/a/b`. -/
theorem render_captured_segments : ∃ r m f,
    Renderer.compile { sensitive := true } "/u/:id(\\d+|me)/:rest*".toList = .ok r ∧
    Matcher.compile { sensitive := true } (.template "/u/:id(\\d+|me)/:rest*".toList) = .ok m ∧
    m.exec "/u/42/a/b/".toList = .ok (some f) ∧ f.matched = "/u/42/a/b/".toList ∧
    f.values.map Prod.snd = [some "42".toList, some "a/b".toList] ∧
    ∃ w, r.renderWith verbatim (capturedParams f) = .ok w ∧
      (f.matched = w ∨ f.matched = w ++ ['/']) := by
  have htokens : Template.tokens { sensitive := true } "/u/:id(\\d+|me)/:rest*".toList =
      [.literal "/u".toList,
        .parameter ⟨.named "id".toList, some '/', '/', false, false, "\\d+|me".toList⟩,
        .parameter ⟨.named "rest".toList, some '/', '/', true, true, "[^/]+?".toList⟩] := by
    decide
  have hplain : PlainPatterns { sensitive := true }
      (Template.tokens { sensitive := true } "/u/:id(\\d+|me)/:rest*".toList) := by
    rw [htokens]
    intro p hp
    simp only [List.mem_cons, Token.parameter.injEq, reduceCtorEq, List.not_mem_nil, or_false,
      false_or] at hp
    rcases hp with rfl | rfl
    · exact Or.inr ⟨_, plainPattern_number⟩
    · exact Or.inl rfl
  have hrepeats : ∀ p ∈ parameters (Template.tokens { sensitive := true }
      "/u/:id(\\d+|me)/:rest*".toList), p.repeats = true →
        p.pattern = Template.defaultPattern p.delimiter '/' := by
    rw [htokens]
    decide
  have hnames : ((parameters (Template.tokens { sensitive := true }
      "/u/:id(\\d+|me)/:rest*".toList)).map fun p => p.name.text).Nodup := by
    rw [htokens]
    decide
  have hrenderer : (Renderer.compile { sensitive := true }
      "/u/:id(\\d+|me)/:rest*".toList).map (fun _ => ()) = .ok () := by decide
  have hmatcher : (Matcher.compile { sensitive := true }
      (.template "/u/:id(\\d+|me)/:rest*".toList)).map (fun m => (m.exec "/u/42/a/b/".toList).map
        (Option.map fun f => (f.matched, f.values.map Prod.snd))) =
          .ok (.ok (some ("/u/42/a/b/".toList, [some "42".toList, some "a/b".toList]))) := by
    decide
  obtain ⟨r, hr, -⟩ := exists_ok_of_map hrenderer
  obtain ⟨m, hm, hexec⟩ := exists_ok_of_map hmatcher
  obtain ⟨found, hfound, hsome⟩ := exists_ok_of_map hexec
  obtain ⟨f, rfl, hf⟩ := Option.map_eq_some_iff.mp hsome
  obtain ⟨hmatched, hvalues⟩ := Prod.mk.inj hf
  obtain ⟨w, hw, hends⟩ := render_captured { sensitive := true }
    "/u/:id(\\d+|me)/:rest*".toList rfl hnames hplain hrepeats hr hm hfound
  exact ⟨r, m, f, hr, hm, hfound, hmatched, hvalues, w, hw, hends.imp_right And.right⟩

/-- In `/([!-[])/([x]])` one set goes on to the last bracket, and with it the first group. What a
match has read has no value for `b`, without which nothing is written. -/
theorem render_captured_bracketed : ∃ r m f,
    Renderer.compile { sensitive := true, toEnd := false } "/:a([!-[])/:b([x]])".toList = .ok r ∧
    Matcher.compile { sensitive := true, toEnd := false } (.template "/:a([!-[])/:b([x]])".toList) =
      .ok m ∧ m.exec "/!/x]".toList = .ok (some f) ∧
    r.renderWith verbatim (capturedParams f) = .error (.missing (.named ['b']) false) := by
  have hmatcher : (Matcher.compile { sensitive := true, toEnd := false }
      (.template "/:a([!-[])/:b([x]])".toList)).map (fun m =>
        (m.exec "/!/x]".toList).map (Option.map fun f =>
          (Renderer.compile { sensitive := true, toEnd := false }
            "/:a([!-[])/:b([x]])".toList).map fun r => r.renderWith verbatim (capturedParams f))) =
      .ok (.ok (some (.ok (.error (.missing (.named ['b']) false))))) := by decide
  obtain ⟨m, hm, hexec⟩ := exists_ok_of_map hmatcher
  obtain ⟨found, hfound, hsome⟩ := exists_ok_of_map hexec
  obtain ⟨f, rfl, hrender⟩ := Option.map_eq_some_iff.mp hsome
  obtain ⟨r, hr, herror⟩ := exists_ok_of_map hrender
  exact ⟨r, m, f, hr, hm, hfound, herror⟩

end PathTemplate.Rendering
