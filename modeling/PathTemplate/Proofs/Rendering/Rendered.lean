import PathTemplate.Proofs.Rendering.Contributions
import PathTemplate.Proofs.Rendering.Validators

/-!
What a renderer writes. A path that is rendered is spelled by the tokens of its template: literals
as they are, and for a parameter its lead and its encoded segments with delimiters between them.
-/
namespace PathTemplate.Rendering

open Expression Matching

def encodedSegments (encode : Encoder) (data : Params) (p : Parameter) : List Text :=
  match data.lookup p.name with
  | some (.scalar v) => [encode v p]
  | some (.sequence vs) => vs.map fun v => encode v p
  | none => []

def encodedValue (encode : Encoder) (data : Params) (p : Parameter) : Option Text :=
  match encodedSegments encode data p with
  | [] => none
  | w :: ws => some (Text.join [p.delimiter] (w :: ws))

section Parameter

variable {encode : Encoder} {p : Parameter} {c : Compiled} {w : Text}

/-- What a parameter contributes: nothing if there are no segments and it is optional, and
otherwise its lead and the segments joined, all of which the validator has accepted. -/
def Contributes (p : Parameter) (c : Compiled) (ss : List Text) (w : Text) : Prop :=
  ss = [] ∧ p.optional = true ∧ w = [] ∨
    ss ≠ [] ∧ (p.repeats = false → ss.length = 1) ∧ (∀ s ∈ ss, accepts c s = true) ∧
      w = p.leadText ++ Text.join [p.delimiter] ss

theorem Contribution.contributes {data : Params} (hc : validator p = .ok c)
    (h : Contribution encode data (.parameter p) (.ok w)) :
    Contributes p c (encodedSegments encode data p) w := by
  unfold encodedSegments
  cases h with
  | absent hlookup hopt =>
    rw [hlookup]
    exact Or.inl ⟨rfl, hopt, rfl⟩
  | @scalar _ v hlookup hv =>
    rw [hlookup]
    refine Or.inr ⟨List.cons_ne_nil _ _, fun _ => rfl, fun s hs => ?_, rfl⟩
    rw [List.mem_singleton.mp hs]
    exact (accepted_iff hc _).mp hv
  | emptied hlookup _ hopt =>
    rw [hlookup]
    exact Or.inl ⟨rfl, hopt, rfl⟩
  | @sequence _ vs hlookup hrep hne hall =>
    rw [hlookup]
    refine Or.inr ⟨by simpa using hne, fun hfalse => ?_, fun s hs => ?_, rfl⟩
    · rw [hrep] at hfalse
      cases hfalse
    · obtain ⟨v, hv, rfl⟩ := List.mem_map.mp hs
      exact (accepted_iff hc _).mp (hall v hv)

end Parameter

section Template

variable {o : Options} {encode : Encoder} {data : Params}

inductive Composed (encode : Encoder) (data : Params) : List Token → Text → Prop
  | nil : Composed encode data [] []
  | literal {t u : Text} {ts : List Token} : Composed encode data ts u →
      Composed encode data (.literal t :: ts) (t ++ u)
  | parameter {p : Parameter} {c : Compiled} {w u : Text} {ts : List Token} :
      validator p = .ok c → Contributes p c (encodedSegments encode data p) w →
      Composed encode data ts u → Composed encode data (.parameter p :: ts) (w ++ u)

private theorem composed_of_render {ts : List Token} {parts : List Part} {path : Text}
    (hparts : partsOf ts = .ok parts) (h : renderParts encode data parts = .ok path) :
    Composed encode data ts path := by
  induction ts generalizing parts path with
  | nil =>
    rw [← Except.ok.inj hparts] at h
    rw [← Except.ok.inj h]
    exact .nil
  | cons t ts ih =>
    obtain ⟨x, xs, hx, hxs, rfl⟩ := partsOf_cons hparts
    obtain ⟨w, u, hw, hu, rfl⟩ := renderParts_cons_eq_ok.mp h
    have hrest := ih hxs hu
    have hcontribution := (contribution_iff hx).mpr hw
    cases t with
    | literal t =>
      cases hcontribution
      exact .literal hrest
    | parameter p =>
      obtain ⟨c, hc, rfl⟩ := exists_ok_of_map hx
      exact .parameter hc (hcontribution.contributes hc) hrest

theorem composed_of_renderWith {t path : Text} {r : Renderer} (hr : Renderer.compile o t = .ok r)
    (h : r.renderWith encode data = .ok path) :
    Composed encode data (Template.tokens o t) path := by
  obtain ⟨parts, hparts, rfl⟩ := exists_ok_of_map hr
  exact composed_of_render hparts h

namespace Composed

variable {ts : List Token} {path : Text}

theorem contributes (h : Composed encode data ts path) : ∀ p ∈ parameters ts, ∃ c w,
    validator p = .ok c ∧ Contributes p c (encodedSegments encode data p) w := by
  induction h with
  | nil => exact nofun
  | literal _ ih => exact ih
  | parameter hc hw _ ih =>
    intro q hq
    rcases List.mem_cons.mp hq with rfl | hq
    · exact ⟨_, _, hc, hw⟩
    · exact ih q hq

theorem amount (h : Composed encode data ts path) {p : Parameter} (hp : p ∈ parameters ts) :
    encodedSegments encode data p = [] ∧ p.optional = true ∨
      encodedSegments encode data p ≠ [] ∧
        (p.repeats = false → (encodedSegments encode data p).length = 1) := by
  obtain ⟨c, w, -, ⟨hnil, hopt, -⟩ | ⟨hne, hone, -, -⟩⟩ := h.contributes p hp
  · exact Or.inl ⟨hnil, hopt⟩
  · exact Or.inr ⟨hne, hone⟩

/-- The validator has accepted the segments of a parameter. -/
theorem segments (h : Composed encode data ts path) {p : Parameter} (hp : p ∈ parameters ts)
    {l : Language Char} (hl : ∀ c, validator p = .ok c → ∀ s, accepts c s = true → s ∈ l) :
    ∀ s ∈ encodedSegments encode data p, s ∈ l := by
  obtain ⟨c, w, hc, ⟨hnil, -, -⟩ | ⟨-, -, hall, -⟩⟩ := h.contributes p hp
  · rw [hnil]
    exact nofun
  · exact fun s hs => hl c hc s (hall s hs)

/-- Where every parameter can have its value, the tokens take the path. -/
theorem takesAt {a : Bool} (h : Composed encode data ts path)
    (hv : ∀ p ∈ parameters ts, ∀ v, encodedValue encode data p = some v →
      ∀ b u, ValueAt a p b v u) (b u : Text) :
    TakesAt a ts b path u ((parameters ts).map (encodedValue encode data)) := by
  induction h generalizing b with
  | nil => exact .nil
  | @literal t x ts _ ih => exact .literal (textAlike_self a t) (ih hv _)
  | @parameter p c w x ts _ hw _ ih =>
    have hrest := ih fun q hq => hv q (List.mem_cons_of_mem p hq)
    rw [show parameters (.parameter p :: ts) = p :: parameters ts from rfl, List.map_cons]
    rcases hw with ⟨hnil, hopt, rfl⟩ | ⟨hne, -, -, rfl⟩
    · rw [encodedValue, hnil]
      exact .absent hopt (hrest b)
    · obtain ⟨s, ss, hss⟩ := List.exists_cons_of_ne_nil hne
      have hvalue : encodedValue encode data p =
          some (Text.join [p.delimiter] (encodedSegments encode data p)) := by
        rw [encodedValue, hss]
      have htakes := TakesAt.present (textAlike_self a p.leadText)
        (hv p List.mem_cons_self _ hvalue _ _) (hrest _) (b := b)
      rwa [← hvalue] at htakes

/-- The value of a parameter whose segments are texts of a language. -/
theorem joined (h : Composed encode data ts path) {p : Parameter} (hp : p ∈ parameters ts)
    {l : Language Char} (hl : ∀ s ∈ encodedSegments encode data p, s ∈ l) {v : Text}
    (hv : encodedValue encode data p = some v) : JoinedTexts p l v := by
  rw [encodedValue] at hv
  rcases h.amount hp with ⟨hnil, -⟩ | ⟨hne, hone⟩
  · rw [hnil] at hv
    cases hv
  · obtain ⟨s, ss, hss⟩ := List.exists_cons_of_ne_nil hne
    refine ⟨encodedSegments encode data p, hne, hone, hl, ?_⟩
    rw [hss] at hv
    rw [hss]
    exact (Option.some.inj hv).symm

end Composed

/-- A rendered path is a path of the template, as long as the segments are segments also for
the case that the matcher reads them in. -/
structure RenderedBy (o : Options) (encode : Encoder) (data : Params) (ts : List Token)
    (path : Text) : Prop where
  amount : ∀ p ∈ parameters ts, encodedSegments encode data p = [] ∧ p.optional = true ∨
    encodedSegments encode data p ≠ [] ∧
      (p.repeats = false → (encodedSegments encode data p).length = 1)
  segments : ∀ p ∈ parameters ts, ∀ s ∈ encodedSegments encode data p,
    s ∈ segments false (excluded o p)
  takes : ∀ a, (∀ p ∈ parameters ts, ∀ s ∈ encodedSegments encode data p,
    s ∈ Expression.segments a (excluded o p)) →
      Takes a o ts path ((parameters ts).map (encodedValue encode data))

theorem renderedBy_of_renderWith {t path : Text} {r : Renderer}
    (hd : DefaultPatterns o (Template.tokens o t)) (hr : Renderer.compile o t = .ok r)
    (h : r.renderWith encode data = .ok path) :
    RenderedBy o encode data (Template.tokens o t) path := by
  have hw := composed_of_renderWith hr h
  have hpattern : ∀ p ∈ parameters (Template.tokens o t),
      p.pattern = Template.defaultPattern p.delimiter o.delimiter :=
    fun p hp => hd p (mem_parameters.mp hp)
  have haccepts : ∀ p ∈ parameters (Template.tokens o t), ∀ c, validator p = .ok c →
      ∀ s, accepts c s = true → s ∈ segments false (excluded o p) :=
    fun p hp c hc s => (accepts_iff (denotes_defaultPattern .segment (hpattern p hp)) hc s).mp
  refine ⟨fun p hp => hw.amount hp, fun p hp => hw.segments hp (haccepts p hp), fun a hs => ?_⟩
  refine (hw.takesAt (fun p hp v hv b u => ?_) [] []).takes hd
  rw [valueAt_defaultPattern a (hpattern p hp)]
  exact mem_valuesOf_of_joined (hw.joined hp (hs p hp) hv)

end Template

end PathTemplate.Rendering
