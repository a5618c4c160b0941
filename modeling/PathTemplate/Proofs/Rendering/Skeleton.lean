import PathTemplate.Proofs.Rendering.Decoded
import PathTemplate.Proofs.Rendering.Rendered

/-!
What the data cannot change in a rendered path. Percent encoding writes letters and digits of
ASCII, a few marks and percent signs. All else in a path comes from the template: from its literals,
from the leads of its parameters, and from the delimiters between repeated values. How often these
are written depends on which values are there, and not on what they are.
-/
namespace PathTemplate.Percent

def isEncoded (c : Char) : Bool := isSafe c || c == '%'

theorem verbatim_of_isHexDigit {c : Char} (h : IsHexDigit c) : Verbatim c := by
  rcases h with h | ⟨h, hle⟩
  · exact Or.inr (Or.inr (Or.inl h))
  · exact Or.inl ⟨h, Char.le_trans hle (by decide)⟩

theorem isEncoded_iff (c : Char) : isEncoded c = true ↔ Verbatim c ∨ c = '%' := by
  rw [isEncoded, Bool.or_eq_true, isSafe_iff, beq_iff_eq]

theorem isEncoded_of_encoded {t : Text} (h : Encoded t) : ∀ c ∈ t, isEncoded c = true := by
  have hdigit : ∀ {c : Char}, IsHexDigit c → isEncoded c = true := fun hc =>
    (isEncoded_iff _).mpr (Or.inl (verbatim_of_isHexDigit hc))
  induction h with
  | nil => exact nofun
  | verbatim hc _ ih => exact List.forall_mem_cons.mpr ⟨(isEncoded_iff _).mpr (Or.inl hc), ih⟩
  | byte hx hy _ ih =>
    exact List.forall_mem_cons.mpr ⟨by decide, List.forall_mem_cons.mpr
      ⟨hdigit hx, List.forall_mem_cons.mpr ⟨hdigit hy, ih⟩⟩⟩

theorem lt_of_isEncoded {c : Char} (h : isEncoded c = true) : c.toNat < 0x80 := by
  have hmarks : ∀ d ∈ "-_.!~*'()".toList, d.toNat < 0x80 := by decide
  have hle : ∀ {d : Char}, c ≤ d → d.toNat < 0x80 → c.toNat < 0x80 := fun hcd hd =>
    Nat.lt_of_le_of_lt hcd hd
  rcases (isEncoded_iff c).mp h with (hupper | hlower | hdigit | hmark) | rfl
  · exact hle hupper.2 (by decide)
  · exact hle hlower.2 (by decide)
  · exact hle hdigit.2 (by decide)
  · exact hmarks c hmark
  · decide

def isStructural (c : Char) : Bool :=
  "/?#&".toList.contains c || Unicode.isBlank c || 0x80 ≤ c.toNat

theorem isEncoded_eq_false_of_isStructural {c : Char} (h : isStructural c = true) :
    isEncoded c = false := by
  have hascii : ∀ n < 0x80, isStructural (Char.ofNat n) = true →
      isEncoded (Char.ofNat n) = false := by decide
  by_contra hc
  rw [Bool.not_eq_false] at hc
  have := hascii c.toNat (lt_of_isEncoded hc) (by rwa [Char.ofNat_toNat])
  rw [Char.ofNat_toNat, hc] at this
  cases this

end PathTemplate.Percent

namespace PathTemplate.Rendering

open Matching

def skeleton (w : Text) : Text := w.filter fun c => !Percent.isEncoded c

theorem skeleton_append (v w : Text) : skeleton (v ++ w) = skeleton v ++ skeleton w :=
  List.filter_append v w

theorem skeleton_encode (v : Text) : skeleton (Percent.encode v) = [] := by
  refine List.filter_eq_nil_iff.mpr fun c hc => ?_
  rw [Percent.isEncoded_of_encoded (Percent.encoded_encode v) c hc]
  decide

/-- Of texts that leave nothing, joined, the delimiters are left. -/
theorem skeleton_join (sep : Text) {ss : List Text} (h : ∀ s ∈ ss, skeleton s = []) :
    skeleton (Text.join sep ss) = skeleton (Text.join sep (List.replicate ss.length [])) := by
  induction ss with
  | nil => rfl
  | cons s ss ih =>
    have hs := h s List.mem_cons_self
    have hrest := ih fun x hx => h x (List.mem_cons_of_mem s hx)
    cases ss with
    | nil => exact hs
    | cons s' ss =>
      rw [List.length_cons, List.length_cons, List.replicate_succ, List.replicate_succ,
        Text.join_cons_cons, Text.join_cons_cons, ← List.replicate_succ, ← List.length_cons,
        skeleton_append, skeleton_append, skeleton_append, skeleton_append, hs, hrest]
      rfl

theorem filter_skeleton (w : Text) :
    (skeleton w).filter Percent.isStructural = w.filter Percent.isStructural := by
  rw [skeleton, List.filter_filter]
  refine List.filter_congr fun c _ => ?_
  cases hc : Percent.isStructural c with
  | false => rfl
  | true => rw [Percent.isEncoded_eq_false_of_isStructural hc]; rfl

/-- Data of the same shape hold a value for the same parameters: scalars, or sequences of the same
length. -/
inductive SameShape : Option ParamValue → Option ParamValue → Prop
  | absent : SameShape none none
  | scalar (v w : Text) : SameShape (some (.scalar v)) (some (.scalar w))
  | sequence {vs ws : List Text} : vs.length = ws.length →
      SameShape (some (.sequence vs)) (some (.sequence ws))

section Shapes

variable {encode : Encoder} {data data' : Params}

theorem SameShape.length_encodedSegments {p : Parameter}
    (h : SameShape (data.lookup p.name) (data'.lookup p.name)) :
    (encodedSegments encode data p).length = (encodedSegments encode data' p).length := by
  unfold encodedSegments
  generalize data.lookup p.name = x at h ⊢
  generalize data'.lookup p.name = y at h ⊢
  cases h with
  | absent => rfl
  | scalar v w => rfl
  | sequence hlen => simpa using hlen

theorem skeleton_encodedSegments (hencode : ∀ v p, skeleton (encode v p) = []) (p : Parameter) :
    ∀ s ∈ encodedSegments encode data p, skeleton s = [] := by
  intro s hs
  unfold encodedSegments at hs
  split at hs
  · rw [List.mem_singleton.mp hs]
    exact hencode _ p
  · obtain ⟨v, -, rfl⟩ := List.mem_map.mp hs
    exact hencode v p
  · cases hs

/-- What a parameter contributes leaves its lead and its delimiters. -/
theorem Contributes.skeleton_eq {p : Parameter} {c c' : Expression.Compiled} {ss ss' : List Text}
    {w w' : Text} (h : Contributes p c ss w) (h' : Contributes p c' ss' w')
    (hlen : ss.length = ss'.length) (hss : ∀ s ∈ ss, skeleton s = [])
    (hss' : ∀ s ∈ ss', skeleton s = []) : skeleton w = skeleton w' := by
  rcases h with ⟨rfl, -, rfl⟩ | ⟨hne, -, -, rfl⟩ <;>
    rcases h' with ⟨rfl, -, rfl⟩ | ⟨hne', -, -, rfl⟩
  · rfl
  · exact absurd (List.length_eq_zero_iff.mp hlen.symm) hne'
  · exact absurd (List.length_eq_zero_iff.mp hlen) hne
  · rw [skeleton_append, skeleton_append, skeleton_join _ hss, skeleton_join _ hss', hlen]

theorem Composed.skeleton_eq {ts : List Token} {path path' : Text}
    (hencode : ∀ v p, skeleton (encode v p) = [])
    (hshape : ∀ p ∈ parameters ts, SameShape (data.lookup p.name) (data'.lookup p.name))
    (h : Composed encode data ts path) (h' : Composed encode data' ts path') :
    skeleton path = skeleton path' := by
  induction h generalizing path' with
  | nil =>
    cases h'
    rfl
  | literal _ ih =>
    cases h' with
    | literal hrest => rw [skeleton_append, skeleton_append, ih hshape hrest]
  | @parameter p _ _ _ _ _ hw _ ih =>
    cases h' with
    | parameter _ hw' hrest =>
      have hparts := hw.skeleton_eq hw' (hshape p List.mem_cons_self).length_encodedSegments
        (skeleton_encodedSegments hencode p) (skeleton_encodedSegments hencode p)
      rw [skeleton_append, skeleton_append, hparts,
        ih (fun q hq => hshape q (List.mem_cons_of_mem p hq)) hrest]

end Shapes

/-- Values of the same shape are rendered to paths with the same skeleton, if no encoder replaces
percent encoding. In particular the characters that divide a path are the same in both. -/
theorem skeleton_rendered_eq (o : Options) (t : Text) {r : Renderer} {data data' : Params}
    {path path' : Text} (hencoder : o.encoder = none) (hr : Renderer.compile o t = .ok r)
    (hshape : ∀ p ∈ parameters (Template.tokens o t),
      SameShape (data.lookup p.name) (data'.lookup p.name))
    (h : r.render data = .ok path) (h' : r.render data' = .ok path') :
    skeleton path = skeleton path' ∧
      path.filter Percent.isStructural = path'.filter Percent.isStructural := by
  have hencode : ∀ v p, skeleton (r.encoder v p) = [] := by
    obtain ⟨parts, -, rfl⟩ := exists_ok_of_map hr
    intro v p
    rw [Options.encode, hencoder]
    exact skeleton_encode v
  have hskeleton := (composed_of_renderWith hr h).skeleton_eq hencode hshape
    (composed_of_renderWith hr h')
  exact ⟨hskeleton, by rw [← filter_skeleton, hskeleton, filter_skeleton]⟩

/-- A value made of delimiters, of a question mark or of `é` adds none of these to a path of
`/:a/:b*`. -/
theorem skeleton_rendered_segments : ∃ r path path',
    Renderer.compile {} "/:a/:b*".toList = .ok r ∧
    r.render (.ofList [("a".toList, .scalar "x/../?".toList),
      ("b".toList, .sequence ["é".toList, ['#']])]) = .ok path ∧
    r.render (.ofList [("a".toList, .scalar ['y']),
      ("b".toList, .sequence [['1'], ['2']])]) = .ok path' ∧
    path = "/x%2F..%2F%3F/%C3%A9/%23".toList ∧ path' = "/y/1/2".toList ∧
    skeleton path = skeleton path' ∧
      path.filter Percent.isStructural = path'.filter Percent.isStructural := by
  have hrender : (Renderer.compile {} "/:a/:b*".toList).map (fun r =>
      (r.render (.ofList [("a".toList, .scalar "x/../?".toList),
          ("b".toList, .sequence ["é".toList, ['#']])]),
        r.render (.ofList [("a".toList, .scalar ['y']), ("b".toList, .sequence [['1'], ['2']])]))) =
      .ok (.ok "/x%2F..%2F%3F/%C3%A9/%23".toList, .ok "/y/1/2".toList) := by
    decide
  obtain ⟨r, hr, hpaths⟩ := exists_ok_of_map hrender
  obtain ⟨h, h'⟩ := Prod.mk.inj hpaths
  have htokens : parameters (Template.tokens {} "/:a/:b*".toList) =
      [⟨.named ['a'], some '/', '/', false, false, "[^/]+?".toList⟩,
        ⟨.named ['b'], some '/', '/', true, true, "[^/]+?".toList⟩] := by
    decide
  refine ⟨r, _, _, hr, h, h', rfl, rfl, skeleton_rendered_eq {} _ rfl hr ?_ h h'⟩
  rw [htokens]
  intro p hp
  simp only [List.mem_cons, List.not_mem_nil, or_false] at hp
  rcases hp with rfl | rfl
  · exact .scalar _ _
  · exact .sequence rfl

end PathTemplate.Rendering
