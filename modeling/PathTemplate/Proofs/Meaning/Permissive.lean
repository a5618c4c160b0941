import PathTemplate.Proofs.Meaning.Paths
import PathTemplate.Proofs.Reading.Contents
import PathTemplate.Proofs.Search.SameFirst

/-!
Options that ask for less. What surrounds the tokens in a path is allowed under the second options
if it is under the first, and the tokens themselves are the same, so every division of a path under
the first is one under the second. Terminators count as a set: their order and their repetitions
change how often a look-ahead succeeds, but not what is found first.
-/
namespace PathTemplate

/-- The options read templates and letters alike, and the second ask for no more around a path. -/
structure Options.Loosens (o o' : Options) : Prop where
  delimiter : o'.delimiter = o.delimiter
  whitelist : o'.whitelist = o.whitelist
  sensitive : o'.sensitive = o.sensitive
  strict : o'.strict = true → o.strict = true
  fromStart : o'.fromStart = true → o.fromStart = true
  toEnd : o'.toEnd = true → o.toEnd = true
  endsWith : ∀ e ∈ o.endsWith, e ∈ o'.endsWith

/-- Tokens depend on the delimiter and on the characters that may lead parameters. -/
theorem Template.tokens_congr {o o' : Options} (hdelimiter : o'.delimiter = o.delimiter)
    (hwhitelist : o'.whitelist = o.whitelist) (t : Text) : tokens o' t = tokens o t := by
  have hmay : ∀ c, o'.mayLead c = o.mayLead c := by
    intro c
    rw [Options.mayLead, hwhitelist, Options.mayLead]
  have hlead : ∀ s : Stretch, s.lead? o' = s.lead? o := by
    intro s
    cases s with
    | nil => rfl
    | cons l s => rw [Stretch.lead?, Stretch.lead?, hmay]
  have hfrom : ∀ (ps : List Piece) (i : Nat) (s : Stretch),
      tokensFrom o' i s ps = tokensFrom o i s ps := by
    intro ps
    induction ps with
    | nil => exact fun _ _ => rfl
    | cons p ps ih =>
      intro i s
      cases p with
      | plain c => exact ih i _
      | escaped c => exact ih i _
      | mark m =>
        simp only [tokensFrom, ih, Stretch.withoutLead, hlead, Mark.parameter, hdelimiter]
  exact hfrom (pieces t) 0 []

namespace Expression

open State

/-- Looking ahead finds the same if it succeeds at the same places. -/
theorem FindAlike.ahead {es fs : List Expr} {K L : Text → Prop}
    (h : Precedes [aheadItem es] fun w u => w = [] ∧ K u)
    (h' : Precedes [aheadItem fs] fun w u => w = [] ∧ L u) (hKL : ∀ u, K u ↔ L u) :
    FindAlike [aheadItem es] [aheadItem fs] := by
  have hmem : ∀ {is : List Item} {K : Text → Prop}, Precedes is (fun w u => w = [] ∧ K u) →
      ∀ et s t, t ∈ Step.inTurn (is.map fun i => i.expr.paths et) s ↔ t = s ∧ K s.rest := by
    intro is K h et s t
    rw [h et s t]
    constructor
    · rintro ⟨w, ⟨rfl, hu⟩, hs, hg⟩
      obtain rfl := hs.eq (passes_self s) hg
      exact ⟨rfl, hu⟩
    · rintro ⟨rfl, hu⟩
      exact ⟨[], ⟨rfl, hu⟩, passes_self t, rfl⟩
  refine ⟨rfl, fun et s => ?_⟩
  refine .of_all_eq (fun t ht => ((hmem h et s t).mp ht).1)
    (fun t ht => ((hmem h' et s t).mp ht).1) ?_
  simp only [hmem h, hmem h', hKL]

end Expression

namespace Matching

open Expression

/-! ### Less to ask for -/

section Loosens

variable {a : Bool} {o o' : Options} {ts : List Token} {path e r : Text}

theorem endsDelimited_congr (h : o'.delimiter = o.delimiter) (ts : List Token) :
    endsDelimited o' ts = endsDelimited o ts := by
  simp only [endsDelimited, h]

variable (h : o.Loosens o')

include h

theorem MayEnd.loosen (hr : MayEnd a o r) : MayEnd a o' r :=
  hr.imp_right fun ⟨e, he, hw⟩ => ⟨e, h.endsWith e he, hw⟩

/-- What may follow the tokens still may when less is asked for. -/
theorem Ends.loosen (hends : Ends a o ts e r) : Ends a o' ts e r := by
  have hstrict : o.strict = false → o'.strict = false := by
    intro hs
    rw [← Bool.not_eq_true]
    intro hs'
    rw [h.strict hs'] at hs
    cases hs
  have hdelimiter : e = [] ∨ o.strict = false ∧ TextAlike a [o.delimiter] e →
      e = [] ∨ o'.strict = false ∧ TextAlike a [o'.delimiter] e := by
    rw [h.delimiter]
    exact fun he => he.imp_right fun hd => ⟨hstrict hd.1, hd.2⟩
  unfold Ends at hends ⊢
  cases hend' : o'.toEnd with
  | true =>
    rw [if_pos (h.toEnd hend')] at hends
    rw [if_pos rfl]
    exact ⟨hdelimiter hends.1, hends.2.loosen h⟩
  | false =>
    rw [if_neg Bool.false_ne_true]
    cases hend : o.toEnd with
    | true =>
      rw [hend, if_pos rfl] at hends
      have hr := hends.2.loosen h
      exact ⟨(hdelimiter hends.1).imp_right fun hd => ⟨hd.1, hd.2, hr⟩, .inr (.inr hr)⟩
    | false =>
      rw [hend, if_neg Bool.false_ne_true] at hends
      obtain ⟨htaken, hleft⟩ := hends
      refine ⟨?_, ?_⟩
      · rw [h.delimiter]
        exact htaken.imp_right fun hd => ⟨hstrict hd.1, hd.2.1, hd.2.2.loosen h⟩
      · rw [h.delimiter, endsDelimited_congr h.delimiter]
        exact hleft.imp_right fun hr => hr.imp_right fun hr => hr.loosen h

def Placement.loosen (v : Placement a o ts path) : Placement a o' ts path where
  skipped := v.skipped
  body := v.body
  ending := v.ending
  left := v.left
  values := v.values
  path_eq := v.path_eq
  anchored hstart := v.anchored (h.fromStart hstart)
  takes := v.takes
  ends := v.ends.loosen h

end Loosens

/-! ### Terminators as a set -/

section Terminators

variable {o : Options} {es : List Text} (hes : ∀ e, e ∈ es ↔ e ∈ o.endsWith)

include hes

theorem mayEnd_congr (a : Bool) (r : Text) :
    MayEnd a { o with endsWith := es } r ↔ MayEnd a o r := by
  simp only [MayEnd, hes]

theorem isEmpty_terminators : es.isEmpty = o.endsWith.isEmpty := by
  rw [Bool.eq_iff_iff, List.isEmpty_iff, List.isEmpty_iff, List.eq_nil_iff_forall_not_mem,
    List.eq_nil_iff_forall_not_mem]
  simp only [hes]

theorem findAlike_endingItems (a : Bool) (ts : List Token) :
    FindAlike (endingItems a { o with endsWith := es } ts) (endingItems a o ts) := by
  have hend : FindAlike [endItem a { o with endsWith := es }] [endItem a o] :=
    .ahead (precedes_endItem a _) (precedes_endItem a o) (mayEnd_congr hes a)
  have hboundary : FindAlike
      [aheadItem (alternativeExprs (boundaries a { o with endsWith := es }))]
      [aheadItem (alternativeExprs (boundaries a o))] :=
    .ahead (precedes_boundary a _) (precedes_boundary a o)
      fun u => or_congr_right (mayEnd_congr hes a u)
  have hdelimited : endsDelimited { o with endsWith := es } ts = endsDelimited o ts := rfl
  unfold endingItems closingItems openItems
  rw [isEmpty_terminators hes, hdelimited]
  split
  · refine .append (.refl _) ?_
    split
    · exact .refl _
    · exact hend
  · refine .append ?_ ?_
    · split
      · exact .refl _
      · exact ((FindAlike.refl [charItem a o.delimiter]).append hend).bundled .path |>.optional
    · split
      · exact .refl _
      · exact hboundary

theorem findAlike_expressionItems (a : Bool) (g : Nat) (ts : List Token) :
    FindAlike (expressionItems a { o with endsWith := es } g ts) (expressionItems a o g ts) :=
  .append (.refl _) (findAlike_endingItems hes a ts)

omit hes in
/-- Terminators ask for no turns. -/
theorem boundsOk_expressionItems {plain a : Bool} {g : Nat} {ts : List Token}
    (h : (Branch.ofItems (expressionItems a o g ts)).expr.boundsOk plain = true) :
    (Branch.ofItems (expressionItems a { o with endsWith := es } g ts)).expr.boundsOk plain =
      true := by
  have hall : ∀ is, (Branch.ofItems is).expr.boundsOk plain =
      is.all fun i => i.expr.boundsOk plain := all_ofItems rfl fun _ _ => rfl
  rw [hall, expressionItems, List.all_append, Bool.and_eq_true] at h ⊢
  refine ⟨h.1, List.all_eq_true.mpr fun i hi => ?_⟩
  exact throughout_endingItems _ (throughAhead_boundsOk a) ts i hi plain

theorem isPlain_compiledTokens_congr (ts : List Token) :
    (compiledTokens { o with endsWith := es } ts).expr.isPlain =
      (compiledTokens o ts).expr.isPlain :=
  (findAlike_expressionItems hes (!o.sensitive) 0 ts).isPlain_ofItems

/-- The first match of tokens is the same for the same terminators. -/
theorem head?_matchStates_congr (ts : List Token) (path : Text) :
    ((compiledTokens { o with endsWith := es } ts).matchStates path).head? =
      ((compiledTokens o ts).matchStates path).head? := by
  have hturn : (compiledTokens { o with endsWith := es } ts).expr.emptyTurn =
      (compiledTokens o ts).expr.emptyTurn := by
    rw [Expr.emptyTurn, Expr.emptyTurn, isPlain_compiledTokens_congr hes]
  rw [Compiled.head?_matchStates_eq, Compiled.head?_matchStates_eq, hturn]
  refine congrArg (List.findSome? · _) (funext fun s => congrArg (Option.map _) ?_)
  exact ((findAlike_expressionItems hes (!o.sensitive) 0 ts).paths_ofItems _ s).head?

end Terminators

/-- What a template matches it matches under options that ask for less. Exchanging the terminators
for others that are the same as a set changes no answer. -/
theorem isMatch_loosened (o : Options) (t : Text) {r : Rendering.Renderer} {m : Matcher}
    (hr : Rendering.Renderer.compile o t = .ok r)
    (hclear : Rendering.ClearPatterns (Template.tokens o t))
    (hm : Matcher.compile o (.template t) = .ok m) :
    (∀ o', o.Loosens o' → ∀ m', Matcher.compile o' (.template t) = .ok m' → ∀ path b,
      m.isMatch path = .ok true → m'.isMatch path = .ok b → b = true) ∧
    ∀ es, (∀ e, e ∈ es ↔ e ∈ o.endsWith) → ∃ m',
      Matcher.compile { o with endsWith := es } (.template t) = .ok m' ∧
      ∀ path answer answer', m.exec path = .ok answer → m'.exec path = .ok answer' →
        answer' = answer := by
  have hembeds := Rendering.embeds_of_matcher hr hclear hm
  obtain ⟨hbounds, rfl⟩ :=
    build_inv (writes_tokensSource (!o.sensitive) hembeds) (isSettled_compiledTokens hembeds) hm
  refine ⟨fun o' h m' hm' path b hmatch hmatch' => ?_, fun es hes => ?_⟩
  · have htokens := Template.tokens_congr h.delimiter h.whitelist t
    have hembeds' : ∀ p, .parameter p ∈ Template.tokens o' t → Embeds (!o'.sensitive) 0 p := by
      rwa [htokens, h.sensitive]
    obtain rfl := eq_of_ofTokens hembeds' hm'
    obtain ⟨v⟩ := (isMatch_iff_placement hmatch).mp rfl
    rw [isMatch_iff_placement hmatch', htokens, h.sensitive]
    exact ⟨v.loosen h⟩
  · have hcompiled := ofTokens_eq_of_embeds (o := { o with endsWith := es }) (by omega) hembeds (by
      rw [isPlain_compiledTokens_congr hes]
      exact boundsOk_expressionItems hbounds)
    have hofTokens : Matcher.compile { o with endsWith := es } (.template t) =
        Matcher.ofTokens { o with endsWith := es } (Template.tokens o t) :=
      congrArg (Matcher.ofTokens { o with endsWith := es })
        (Template.tokens_congr (by rfl) (by rfl) t)
    refine ⟨_, hofTokens.trans hcompiled, fun path answer answer' h h' => ?_⟩
    rw [Matcher.exec_eq _ path (by rw [h]; nofun)] at h
    rw [Matcher.exec_eq _ path (by rw [h']; nofun), head?_matchStates_congr hes] at h'
    exact (Except.ok.inj h').symm.trans (Except.ok.inj h)

/-- The template `/user/:id(\\d+)` matches `/user/7#top` where only `#` may follow it, and so it
does where `?` may follow too, and where `#` is listed twice. -/
theorem isMatch_loosened_user : ∃ r m m' m'',
    Rendering.Renderer.compile { strict := true, endsWith := [['#']] } "/user/:id(\\d+)".toList =
      .ok r ∧
    Matcher.compile { strict := true, endsWith := [['#']] }
      (.template "/user/:id(\\d+)".toList) = .ok m ∧
    m.isMatch "/user/7#top".toList = .ok true ∧
    Matcher.compile { toEnd := false, endsWith := [['?'], ['#']] }
      (.template "/user/:id(\\d+)".toList) = .ok m' ∧
    m'.isMatch "/user/7#top".toList = .ok true ∧
    Matcher.compile { strict := true, endsWith := [['#'], ['#']] }
      (.template "/user/:id(\\d+)".toList) = .ok m'' ∧
    m''.exec "/user/7#top".toList = m.exec "/user/7#top".toList := by
  obtain ⟨hrenderer, hstrict, hopen⟩ :
      (Rendering.Renderer.compile { strict := true, endsWith := [['#']] }
        "/user/:id(\\d+)".toList).map (fun _ => ()) = .ok () ∧
      (Matcher.compile { strict := true, endsWith := [['#']] }
        (.template "/user/:id(\\d+)".toList)).map (fun m => m.isMatch "/user/7#top".toList) =
          .ok (.ok true) ∧
      (Matcher.compile { toEnd := false, endsWith := [['?'], ['#']] }
        (.template "/user/:id(\\d+)".toList)).map (fun m =>
          (m.isMatch "/user/7#top".toList).map fun _ => ()) = .ok (.ok ()) := by decide
  have htwice : (Matcher.compile { strict := true, endsWith := [['#'], ['#']] }
      (.template "/user/:id(\\d+)".toList)).map (fun m =>
        (m.exec "/user/7#top".toList).map fun _ => ()) = .ok (.ok ()) := by decide
  have hclear : Rendering.ClearPatterns (Template.tokens
      { strict := true, endsWith := [['#']] } "/user/:id(\\d+)".toList) := by decide
  obtain ⟨r, hr, -⟩ := exists_ok_of_map hrenderer
  obtain ⟨m, hm, hmatch⟩ := exists_ok_of_map hstrict
  obtain ⟨answer, hanswer, -⟩ := exists_ok_of_map hmatch
  obtain ⟨m', hm', hmatch'⟩ := exists_ok_of_map hopen
  obtain ⟨b, hb, -⟩ := exists_ok_of_map hmatch'
  obtain ⟨hloosened, hterminators⟩ :=
    isMatch_loosened { strict := true, endsWith := [['#']] } "/user/:id(\\d+)".toList hr hclear hm
  have hloosens : Options.Loosens { strict := true, endsWith := [['#']] }
      { toEnd := false, endsWith := [['?'], ['#']] } :=
    ⟨rfl, rfl, rfl, nofun, fun _ => rfl, nofun, by simp⟩
  obtain rfl := hloosened _ hloosens m' hm' _ b hmatch hb
  obtain ⟨m'', hm'', hsame⟩ := hterminators [['#'], ['#']] (by simp)
  rw [show Matcher.compile _ _ = _ from hm''] at htwice
  obtain ⟨answer'', hanswer'', -⟩ := exists_ok_of_map (Except.ok.inj htwice)
  obtain rfl := hsame _ answer answer'' hanswer hanswer''
  exact ⟨r, m, m', m'', hr, hm, hmatch, hm', hb, hm'', hanswer''.trans hanswer.symm⟩

/-- With something to look ahead for, `[!-[b]]` is repeated as it is written, a set and a bracket
behind it, and `/!]]` is not matched any more. -/
theorem isMatch_loosened_bracketed : ∃ r m m',
    Rendering.Renderer.compile { sensitive := true } "/:a([!-[b]]+)".toList = .ok r ∧
    Matcher.compile { sensitive := true } (.template "/:a([!-[b]]+)".toList) = .ok m ∧
    m.isMatch "/!]]".toList = .ok true ∧
    Options.Loosens { sensitive := true } { sensitive := true, toEnd := false } ∧
    Matcher.compile { sensitive := true, toEnd := false } (.template "/:a([!-[b]]+)".toList) =
      .ok m' ∧ m'.isMatch "/!]]".toList = .ok false := by
  obtain ⟨hrenderer, hmatcher, hopen⟩ :
      (Rendering.Renderer.compile { sensitive := true } "/:a([!-[b]]+)".toList).map
        (fun _ => ()) = .ok () ∧
      (Matcher.compile { sensitive := true } (.template "/:a([!-[b]]+)".toList)).map
        (fun m => m.isMatch "/!]]".toList) = .ok (.ok true) ∧
      (Matcher.compile { sensitive := true, toEnd := false }
        (.template "/:a([!-[b]]+)".toList)).map (fun m => m.isMatch "/!]]".toList) =
          .ok (.ok false) := by decide
  obtain ⟨r, hr, -⟩ := exists_ok_of_map hrenderer
  obtain ⟨m, hm, hmatch⟩ := exists_ok_of_map hmatcher
  obtain ⟨m', hm', hmatch'⟩ := exists_ok_of_map hopen
  exact ⟨r, m, m', hr, hm, hmatch, ⟨rfl, rfl, rfl, nofun, fun _ => rfl, nofun, by simp⟩, hm',
    hmatch'⟩

end Matching

end PathTemplate
