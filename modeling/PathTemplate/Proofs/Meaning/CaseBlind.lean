import Mathlib.Data.List.Forall2
import PathTemplate.Proofs.Meaning.Lowering
import PathTemplate.Proofs.Reading.Accepted
import PathTemplate.Proofs.Reading.Escapes
import PathTemplate.Proofs.Search.FirstMatch

/-!
Templates where case does not count. Their expressions tell no letter from its small one, so the
matches of a path stand at the same places as those of the path in small letters, in the same
order, and two paths that differ in the case of their letters only get answers that do the same.
-/
namespace PathTemplate

/-- The texts differ in the case of letters of ASCII only. -/
def Text.SameButCase (t u : Text) : Prop := t.lower = u.lower

instance (t u : Text) : Decidable (t.SameButCase u) :=
  inferInstanceAs (Decidable (t.lower = u.lower))

theorem Text.SameButCase.length {t u : Text} (h : t.SameButCase u) : t.length = u.length := by
  rw [← t.length_lower, h, u.length_lower]

theorem Text.SameButCase.utf8Size {t u : Text} (h : t.SameButCase u) :
    t.utf8Size = u.utf8Size := by
  rw [← t.utf8Size_lower, h, u.utf8Size_lower]

namespace Expression

/-! ### Bodies and items -/

/-- Where case does not count no lexeme writes a set that tells letters from small ones. -/
theorem Lexeme.allowed_blind {t r : Text} {x : Lexeme} (h : lexeme .path t = some (x, r)) :
    x.Allowed CharSet.Blind true := by
  cases x with
  | char c folds bare =>
    cases folds with
    | true => exact CharSet.blind_of_anyCase _
    | false => exact CharSet.blind_single (not_isAlpha_of_lexeme h) false
  | set s => exact s.blind_of_anyCase
  | dot => exact CharSet.blind_notNewline false
  | count lo hi written => exact fun _ _ => CharSet.blind_of_anyCase _
  | _ => trivial

theorem Expr.Shallow.blind {e : Expr} (h : e.Shallow CharSet.Blind) : e.Blind := by
  induction h with
  | empty => trivial
  | one hs => exact hs
  | check x => trivial
  | cat _ _ he hf => exact ⟨he, hf⟩
  | alt _ _ he hf => exact ⟨he, hf⟩
  | loop _ _ _ hs => exact hs
  | atomic _ _ _ hs => exact hs

private theorem inherited_blind : Inherited true Expr.Blind where
  empty := trivial
  one s _ := s.blind_of_anyCase
  char c := by
    by_cases hc : Quoting.isMeta c = true
    · have hsigns : ∀ d ∈ "\\.+*?()|[]\x7b\x7d^$#&-~".toList, d.isAlpha = false := by decide
      exact CharSet.blind_single (hsigns c (List.contains_iff_mem.mp hc)) _
    · rw [Bool.not_eq_true] at hc
      rw [charItem, hc]
      exact CharSet.blind_of_anyCase _
  check _ _ := trivial
  cat _ _ he hf := ⟨he, hf⟩
  optional _ h := h

theorem throughLoops_blind : ThroughLoops true Expr.Blind :=
  ⟨inherited_blind, fun _ _ h => h, fun _ _ _ _ _ h => h⟩

theorem throughAhead_blind : ThroughAhead true Expr.Blind :=
  ⟨inherited_blind, fun _ _ he hf => ⟨he, hf⟩, fun _ h => h⟩

/-! ### Matches -/

theorem State.places_lower (t : Text) (n : Nat) :
    State.places t.lower n = (State.places t n).map State.lower := by
  have hnone : (List.replicate (n + 1) (none : Option Capture)).map (·.map Capture.lower) =
      List.replicate (n + 1) none := List.map_replicate
  have hfrom : ∀ (t before : Text) (pos : Nat),
      State.placesFrom (List.replicate (n + 1) none) before.lower pos t.lower =
        (State.placesFrom (List.replicate (n + 1) none) before pos t).map State.lower := by
    intro t
    induction t with
    | nil =>
      intro before pos
      simp [State.placesFrom, State.lower, hnone, Text.lower]
    | cons c t ih =>
      intro before pos
      have hrest := ih (c :: before) (pos + 1)
      rw [State.placesFrom, List.map_cons, ← hrest]
      simp [State.placesFrom, State.lower, hnone, Text.lower]
  exact hfrom t [] 0

theorem Compiled.matchStates_lower {c : Compiled} (h : c.expr.Blind) (t : Text) :
    c.matchStates t.lower = (c.matchStates t).map State.lower := by
  have hwhole : Step.Along State.lower (c.whole.paths c.expr.emptyTurn)
      (c.whole.paths c.expr.emptyTurn) := Expr.Blind.along (e := c.whole) h _
  rw [matchStates, matchStates, State.places_lower, List.flatMap_map, List.map_flatMap]
  exact List.flatMap_congr fun s _ => hwhole s

theorem State.taken_lower (s : State) (i : Nat) :
    s.lower.taken i = (s.taken i).map Text.lower := by
  rw [State.taken, State.taken, State.lower, List.getElem?_map]
  cases s.groups[i]? with
  | none => rfl
  | some g =>
    cases g with
    | none => rfl
    | some c => exact congrArg some c.text_lower

def Match.lower (f : Match) : Match :=
  ⟨f.skipped.lower, f.matched.lower, f.groups.map (·.map Text.lower)⟩

theorem Match.ofState_lower (t : Text) (s : State) :
    Match.ofState t.lower s.lower = (Match.ofState t s).lower := by
  have hwhole : (s.lower.taken 0).getD [] = ((s.taken 0).getD []).lower := by
    rw [State.taken_lower]
    cases s.taken 0 <;> rfl
  have hgroups : s.lower.groups.tail.map (fun g => g.map Capture.text) =
      (s.groups.tail.map fun g => g.map Capture.text).map (·.map Text.lower) := by
    rw [State.lower, ← List.map_tail, List.map_map, List.map_map]
    refine List.map_congr_left fun g _ => ?_
    cases g with
    | none => rfl
    | some c => exact congrArg some c.text_lower
  simp only [ofState, hwhole, hgroups, Text.length_lower, Match.lower]
  rw [Text.lower, Text.lower, ← List.map_take]
  rfl

end Expression

namespace Matching

open Expression

structure PathMatch.SameButCase (f g : PathMatch) : Prop where
  index : f.index = g.index
  matched : f.matched.SameButCase g.matched
  length : f.matched.length = g.matched.length
  utf8Size : f.matched.utf8Size = g.matched.utf8Size
  values : List.Forall₂ (fun x y => x.1 = y.1 ∧ Option.Rel Text.SameButCase x.2 y.2)
    f.values g.values

/-- Where case does not count, the expression of a template is blind to it. -/
theorem blind_compiledTokens {o : Options} (hs : o.sensitive = false) (ts : List Token) :
    (compiledTokens o ts).expr.Blind := by
  rw [compiledTokens, hs]
  have hbodies : ∀ p, .parameter p ∈ ts → (bodyContent true p.pattern).expr.Blind := by
    intro p _
    refine (shallow_bodyContent fun xs hxs x hx => ?_).expr.blind
    obtain ⟨_, _, hread⟩ := exists_lexeme_of_mem hxs x hx
    exact Lexeme.allowed_blind hread
  exact (throughout_expressionItems throughLoops_blind 0 hbodies
    (throughout_endingItems o throughAhead_blind ts)).ofItems throughLoops_blind.toInherited

/-- What groups take up to case, keys have up to case. -/
theorem Matcher.values_sameButCase (keys : List Key) {gs gs' : List (Option Text)}
    (h : gs.map (·.map Text.lower) = gs'.map (·.map Text.lower)) :
    List.Forall₂ (fun x y => x.1 = y.1 ∧ Option.Rel Text.SameButCase x.2 y.2)
      (values keys gs) (values keys gs') := by
  refine List.forall₂_iff_get.mpr ⟨by simp [values], fun i hi hi' => ?_⟩
  have hgroup : (gs.map (·.map Text.lower))[i]? = (gs'.map (·.map Text.lower))[i]? := by rw [h]
  rw [List.getElem?_map, List.getElem?_map] at hgroup
  have hjoin : ∀ v : Option (Option Text),
      v.join.map Text.lower = (v.map (·.map Text.lower)).join := by
    intro v
    cases v <;> rfl
  have hvalue : gs[i]?.join.map Text.lower = gs'[i]?.join.map Text.lower := by
    rw [hjoin, hjoin, hgroup]
  simp only [values, List.get_eq_getElem, List.getElem_mapIdx, true_and]
  cases hv : gs[i]?.join <;> cases hv' : gs'[i]?.join <;> rw [hv, hv'] at hvalue
  · exact .none
  · cases hvalue
  · cases hvalue
  · exact .some (Option.some.inj hvalue)

/-- Matches that are the same in small letters are told to a caller alike. -/
theorem Matcher.pathMatch_sameButCase (m : Matcher) {path path' : Text} {s s' : State}
    (hpath : path.SameButCase path') (hs : s.lower = s'.lower) :
    (m.pathMatch path s).SameButCase (m.pathMatch path' s') := by
  have hmatch : (Match.ofState path s).lower = (Match.ofState path' s').lower := by
    rw [← Match.ofState_lower, ← Match.ofState_lower, hs, hpath]
  obtain ⟨hskipped, hmatched, hgroups⟩ := Match.mk.inj hmatch
  exact {
    index := Text.SameButCase.utf8Size hskipped
    matched := hmatched
    length := Text.SameButCase.length hmatched
    utf8Size := Text.SameButCase.utf8Size hmatched
    values := values_sameButCase m.keys hgroups }

/-- Where case does not count, paths that differ in the case of letters of ASCII only are both
matched or both refused, at the same place and with values that differ as they do. -/
theorem exec_sameButCase (o : Options) (t : Text) {r : Rendering.Renderer} {m : Matcher}
    {path path' : Text} {answer answer' : Option PathMatch} (hs : o.sensitive = false)
    (hr : Rendering.Renderer.compile o t = .ok r)
    (hclear : Rendering.ClearPatterns (Template.tokens o t))
    (hm : Matcher.compile o (.template t) = .ok m)
    (hpath : path.SameButCase path') (h : m.exec path = .ok answer)
    (h' : m.exec path' = .ok answer') : Option.Rel PathMatch.SameButCase answer answer' := by
  obtain rfl := Rendering.matcher_eq_of_compile hr hclear hm
  have hstates : ((compiledTokens o (Template.tokens o t)).matchStates path).map State.lower =
      ((compiledTokens o (Template.tokens o t)).matchStates path').map State.lower := by
    rw [← Compiled.matchStates_lower (blind_compiledTokens hs _), hpath,
      Compiled.matchStates_lower (blind_compiledTokens hs _)]
  have hhead := congrArg List.head? hstates
  rw [List.head?_map, List.head?_map] at hhead
  rw [Matcher.exec_eq _ path (by rw [h]; nofun)] at h
  rw [Matcher.exec_eq _ path' (by rw [h']; nofun)] at h'
  obtain rfl := Except.ok.inj h
  obtain rfl := Except.ok.inj h'
  cases hfirst : ((compiledTokens o (Template.tokens o t)).matchStates path).head? <;>
    cases hfirst' : ((compiledTokens o (Template.tokens o t)).matchStates path').head? <;>
    rw [hfirst, hfirst'] at hhead
  · exact .none
  · cases hhead
  · cases hhead
  · exact .some (Matcher.pathMatch_sameButCase _ hpath (Option.some.inj hhead))

/-- In `/User/Ann` and in `/uSER/aNN` the template `/user/:name([a-z]+)` finds the same name. -/
theorem exec_sameButCase_user : ∃ r m f g,
    Rendering.Renderer.compile {} "/user/:name([a-z]+)".toList = .ok r ∧
    Matcher.compile {} (.template "/user/:name([a-z]+)".toList) = .ok m ∧
    m.exec "/User/Ann".toList = .ok (some f) ∧ f.values.map Prod.snd = [some "Ann".toList] ∧
    m.exec "/uSER/aNN".toList = .ok (some g) ∧ g.values.map Prod.snd = [some "aNN".toList] ∧
    f.SameButCase g := by
  have hrenderer : (Rendering.Renderer.compile {} "/user/:name([a-z]+)".toList).map
      (fun _ => ()) = .ok () := by decide
  have hcapital : (Matcher.compile {} (.template "/user/:name([a-z]+)".toList)).map
      (fun m => (m.exec "/User/Ann".toList).map (Option.map fun f => f.values.map Prod.snd)) =
        .ok (.ok (some [some "Ann".toList])) := by decide
  have hsmall : (Matcher.compile {} (.template "/user/:name([a-z]+)".toList)).map
      (fun m => (m.exec "/uSER/aNN".toList).map (Option.map fun f => f.values.map Prod.snd)) =
        .ok (.ok (some [some "aNN".toList])) := by decide
  have hclear : Rendering.ClearPatterns (Template.tokens {} "/user/:name([a-z]+)".toList) := by
    decide
  obtain ⟨r, hr, -⟩ := exists_ok_of_map hrenderer
  obtain ⟨m, hm, hexec⟩ := exists_ok_of_map hcapital
  rw [hm] at hsmall
  have hexec' := Except.ok.inj hsmall
  obtain ⟨answer, hanswer, hsome⟩ := exists_ok_of_map hexec
  obtain ⟨answer', hanswer', hsome'⟩ := exists_ok_of_map hexec'
  obtain ⟨f, rfl, hf⟩ := Option.map_eq_some_iff.mp hsome
  obtain ⟨g, rfl, hg⟩ := Option.map_eq_some_iff.mp hsome'
  cases exec_sameButCase {} "/user/:name([a-z]+)".toList rfl hr hclear hm (by decide)
    hanswer hanswer' with
  | some hsame => exact ⟨r, m, f, g, hr, hm, hanswer, hf, hanswer', hg, hsame⟩

/-- In `(?i)^/([!-[])/([x]])(?:/)?$` one set goes on to the last bracket, and there it is written as
`(?i:[!-[])/([x]])`, where the first closing parenthesis ends the flag. Case counts behind it. -/
theorem exec_otherCase_bracketed : ∃ r m f,
    Rendering.Renderer.compile {} "/:a([!-[])/:b([x]])".toList = .ok r ∧
    Matcher.compile {} (.template "/:a([!-[])/:b([x]])".toList) = .ok m ∧
    Text.SameButCase "/!/x]".toList "/!/X]".toList ∧ m.exec "/!/x]".toList = .ok (some f) ∧
    m.exec "/!/X]".toList = .ok none := by
  have hrenderer : (Rendering.Renderer.compile {} "/:a([!-[])/:b([x]])".toList).map
      (fun _ => ()) = .ok () := by decide
  have hsmall : (Matcher.compile {} (.template "/:a([!-[])/:b([x]])".toList)).map
      (fun m => (m.exec "/!/x]".toList).map Option.isSome) = .ok (.ok true) := by decide
  have hcapital : (Matcher.compile {} (.template "/:a([!-[])/:b([x]])".toList)).map
      (fun m => m.exec "/!/X]".toList) = .ok (.ok none) := by decide
  obtain ⟨r, hr, -⟩ := exists_ok_of_map hrenderer
  obtain ⟨m, hm, hexec⟩ := exists_ok_of_map hsmall
  obtain ⟨answer, hanswer, hsome⟩ := exists_ok_of_map hexec
  obtain ⟨f, rfl⟩ := Option.isSome_iff_exists.mp hsome
  rw [hm] at hcapital
  exact ⟨r, m, f, hr, hm, by decide, hanswer, Except.ok.inj hcapital⟩

end Matching

end PathTemplate
