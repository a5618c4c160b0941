import PathTemplate.Proofs.Meaning.Paths
import PathTemplate.Proofs.Meaning.PlainLexemes

/-!
The expression of one parameter. It is read as one part with one group, wherever it stands. Where
the pattern is plain and case counts, it takes the lead and a value, or nothing if the parameter may
be left out; the group takes the value and nothing else.
-/
namespace PathTemplate.Matching

open Expression

/-- The text that the parameter takes, with its value, where its pattern takes the texts of the
language. -/
inductive Supplies (p : Parameter) (l : Language Char) : Text → Option Text → Prop
  | absent : p.optional = true → Supplies p l [] none
  | present {v : Text} : JoinedTexts p l v → Supplies p l (p.leadText ++ v) (some v)

theorem exists_supplies_iff {p : Parameter} {l : Language Char} {x : Text} :
    (∃ v, Supplies p l x v) ↔
      x = [] ∧ p.optional = true ∨ ∃ v, x = p.leadText ++ v ∧ JoinedTexts p l v := by
  constructor
  · rintro ⟨_, hopt | hv⟩
    · exact .inl ⟨rfl, hopt⟩
    · exact .inr ⟨_, rfl, hv⟩
  · rintro (⟨rfl, hopt⟩ | ⟨v, rfl, hv⟩)
    · exact ⟨none, .absent hopt⟩
    · exact ⟨some v, .present hv⟩

def strictly : Options := { strict := true, sensitive := true }

theorem tokensSource_strictly (p : Parameter) :
    tokensSource strictly [.parameter p] = '^' :: (parameterSource p ++ ['$']) := by
  simp [tokensSource, strictly, tokenSource, closingSource]

def parameterMatcher (p : Parameter) : Matcher :=
  ⟨tokensSource strictly [.parameter p], tokensKeys [.parameter p],
    compiledTokens strictly [.parameter p]⟩

/-- A match goes from the start of the path to its end. -/
theorem Placement.eq_whole {ts : List Token} {x : Text} (w : Placement false strictly ts x) :
    w.skipped = [] ∧ w.body = x ∧ w.ending = [] := by
  have hends : w.ending = [] ∧ w.left = [] := by
    simpa [Ends, Closes, MayEnd, strictly] using w.ends
  have hpath := w.path_eq
  rw [w.anchored rfl, hends.1, hends.2] at hpath
  exact ⟨w.anchored rfl, by simpa using hpath.symm, hends.1⟩

section Parameter

variable {p : Parameter} {l : Language Char} (hp : PlainText p.pattern l)

include hp

/-- Values are told by themselves, whatever stands around them. -/
theorem valueAt_iff_joinedTexts (b v u : Text) : ValueAt false p b v u ↔ JoinedTexts p l v :=
  (valueAt_iff false hp.means_bodyContent.accepts b v u).trans
    (mem_valuesOf_iff (alike_false_iff p.delimiter))

theorem takesAt_iff_supplies {b x u : Text} {vs : List (Option Text)} :
    TakesAt false [.parameter p] b x u vs ↔ ∃ v, vs = [v] ∧ Supplies p l x v := by
  constructor
  · intro h
    cases h with
    | absent hopt hrest =>
      cases hrest
      exact ⟨none, rfl, .absent hopt⟩
    | present hlead hv hrest =>
      cases hrest
      rw [List.append_nil, ← (textAlike_false_iff _ _).mp hlead]
      exact ⟨_, rfl, .present ((valueAt_iff_joinedTexts hp _ _ _).mp hv)⟩
  · rintro ⟨_, rfl, hopt | hv⟩
    · exact .absent hopt .nil
    · rw [← List.append_nil (p.leadText ++ _)]
      exact .present ((textAlike_false_iff _ _).mpr rfl) ((valueAt_iff_joinedTexts hp _ _ _).mpr hv)
        .nil

theorem fills_parameterItems_supplies (g : Nat) :
    Fills (parameterItems false g p) (g + 1) 1
      fun _ x _ vs => ∃ v, vs = [v] ∧ Supplies p l x v := by
  have hfills := fills_tokensItems false g [.parameter p]
  rw [tokensItems, tokensItems, List.append_nil] at hfills
  exact hfills.congr fun _ _ _ _ => takesAt_iff_supplies hp

/-- The expression is read by itself too, and has one group. -/
theorem read_parameterSource : Compiled.read .path (parameterSource p) =
    some ⟨(Branch.ofItems (parameterItems false 0 p)).expr, 1⟩ := by
  have hP := throughLoops_searchable false
  have hsearch := (throughout_parameterItems hP 0 hp.means_bodyContent.searchable).ofItems
    hP.toInherited
  have hembeds := hp.embeds
  have hsettled := (throughout_parameterItems (throughLoops_isSettled false) 0
    hembeds.settled).ofItems (throughLoops_isSettled false).toInherited
  exact (read_of_isSettled (read_unflagged (writes_parameterSource false hembeds) (by decide))
    (.inr hsettled)).trans (if_pos (hsearch.bounds _))

/-! ### Whole paths -/

theorem searchable_parameter : (compiledTokens strictly [.parameter p]).expr.Searchable := by
  have hP := throughLoops_searchable false
  refine (throughout_expressionItems hP 0 (fun q hq => ?_)
    (throughout_endingItems_of_toEnd hP.toInherited rfl rfl _)).ofItems hP.toInherited
  obtain rfl : q = p := by simpa using hq
  exact hp.means_bodyContent.searchable

theorem ofTokens_parameter :
    Matcher.ofTokens strictly [.parameter p] = .ok (parameterMatcher p) := by
  refine ofTokens_eq_of_embeds (n := 0) (by decide) (fun q hq => ?_)
    ((searchable_parameter hp).bounds _)
  obtain rfl : q = p := by simpa using hq
  exact hp.embeds

theorem exists_supplies_of_placement {x : Text}
    (w : Placement false strictly [.parameter p] x) :
    ∃ v, w.values = [v] ∧ Supplies p l x v := by
  have htakes := w.takes
  rw [w.eq_whole.2.1] at htakes
  exact (takesAt_iff_supplies hp).mp htakes

theorem nonempty_placement_iff {x : Text} :
    Nonempty (Placement false strictly [.parameter p] x) ↔ ∃ v, Supplies p l x v := by
  constructor
  · rintro ⟨w⟩
    obtain ⟨v, -, hv⟩ := exists_supplies_of_placement hp w
    exact ⟨v, hv⟩
  · rintro ⟨v, hv⟩
    exact ⟨.whole ((takesAt_iff_supplies hp).mpr ⟨v, rfl, hv⟩)⟩

/-- The search for a match of a path is answered, by what the parameter takes. -/
theorem exists_exec_parameter (x : Text) :
    ∃ found, (parameterMatcher p).exec x = .ok found ∧
      (found.isSome = true ↔ ∃ v, Supplies p l x v) ∧
      ∀ f, found = some f → ∃ v, Supplies p l x v ∧ f = ⟨0, x, [(Key.ofParameter p, v)]⟩ := by
  obtain ⟨found, hexec⟩ : ∃ found, (parameterMatcher p).exec x = .ok found :=
    ⟨_, (parameterMatcher p).exec_of_isPlain (searchable_parameter hp).plain x⟩
  refine ⟨found, hexec, ?_, ?_⟩
  · have hmatch : (parameterMatcher p).isMatch x = .ok found.isSome := by
      rw [Matcher.isMatch, hexec]
      rfl
    exact (isMatch_iff_placement hmatch).trans (nonempty_placement_iff hp)
  · rintro f rfl
    obtain ⟨w, rfl⟩ := exists_placement_of_exec hexec
    obtain ⟨hskipped, hbody, hending⟩ := w.eq_whole
    obtain ⟨v, hvalues, hv⟩ := exists_supplies_of_placement hp w
    refine ⟨v, hv, ?_⟩
    rw [hskipped, hbody, hending, hvalues, List.append_nil]
    rfl

end Parameter

/-- Where the pattern is plain, the expression of a parameter is one part with one group, wherever
it stands. Every way to match it, with whatever around it, takes nothing, if the parameter is
optional, or the lead and a value that the group takes. As a whole path it takes exactly these
texts. -/
theorem parameterSource_takes {p : Parameter} {l : Language Char} (hp : PlainText p.pattern l) :
    ∃ is : Nat → List Item,
      Writes .path false 4 (parameterSource p) 1 is ∧
      Compiled.read .path (parameterSource p) = some ⟨(Branch.ofItems (is 0)).expr, 1⟩ ∧
      (∀ g, Fills (is g) (g + 1) 1 fun _ x _ vs => ∃ v, vs = [v] ∧ Supplies p l x v) ∧
      ∃ m, Matcher.ofTokens strictly [.parameter p] = .ok m ∧
        m.source = '^' :: (parameterSource p ++ ['$']) ∧
        ∀ x, ∃ found, m.exec x = .ok found ∧
          (found.isSome = true ↔
            x = [] ∧ p.optional = true ∨ ∃ v, x = p.leadText ++ v ∧ JoinedTexts p l v) ∧
          ∀ f, found = some f →
            ∃ v, Supplies p l x v ∧ f = ⟨0, x, [(Key.ofParameter p, v)]⟩ := by
  refine ⟨fun g => parameterItems false g p,
    writes_parameterSource false hp.embeds, read_parameterSource hp,
    fills_parameterItems_supplies hp, parameterMatcher p, ofTokens_parameter hp,
    tokensSource_strictly p, fun x => ?_⟩
  obtain ⟨found, hexec, hfound, hvalue⟩ := exists_exec_parameter hp x
  exact ⟨found, hexec, hfound.trans exists_supplies_iff, hvalue⟩

/-! ### Pages -/

def pages : Parameter := ⟨.named "pages".toList, some '/', '/', true, true, "\\d+|me".toList⟩

def pageTexts : Language Char :=
  Step.repeated CharSet.digit.texts 1 none * 1 +
    (CharSet.single 'm').texts * ((CharSet.single 'e').texts * 1)

theorem plainText_pages : PlainText pages.pattern pageTexts :=
  ⟨[.set .digit, .plus, .bar, .char 'm' true true, .char 'e' true true], rfl, by decide,
    .bar (.greedy rfl rfl rfl .nil) (.single (.once rfl (.once rfl .nil)))⟩

theorem joinedTexts_pages : JoinedTexts pages pageTexts "7/me".toList := by
  have hnumber : ['7'] ∈ pageTexts := by
    have hdigit : ['7'] ∈ CharSet.digit.texts := ⟨'7', by decide, rfl⟩
    refine .inl (Language.append_mem_mul (a := ['7']) (b := []) ?_ rfl)
    rw [Step.repeated, pow_one]
    exact Language.append_mem_mul (a := ['7']) (b := []) hdigit (Language.nil_mem_kstar _)
  have hword : ['m', 'e'] ∈ pageTexts :=
    .inr (Language.append_mem_mul (a := ['m']) ⟨'m', by decide, rfl⟩
      (Language.append_mem_mul (a := ['e']) (b := []) ⟨'e', by decide, rfl⟩ rfl))
  refine ⟨[['7'], ['m', 'e']], by simp, nofun, fun w hw => ?_, rfl⟩
  rcases List.mem_cons.mp hw with rfl | hw
  · exact hnumber
  · rwa [List.mem_singleton.mp hw]

/-- The bar of the pattern stays inside each value, and the slash in front outside the group. -/
theorem parameterSource_takes_pages :
    PlainText pages.pattern pageTexts ∧
    ∃ m f, Matcher.ofTokens strictly [.parameter pages] = .ok m ∧
      m.source = "^(?:/((?:\\d+|me)(?:/(?:\\d+|me))*))?$".toList ∧
      m.exec "/7/me".toList = .ok (some f) ∧
      f.values = [(Key.ofParameter pages, some "7/me".toList)] := by
  obtain ⟨-, -, -, -, m, hm, hsource, hexec⟩ := parameterSource_takes plainText_pages
  obtain ⟨found, hfound, hiff, hvalue⟩ := hexec "/7/me".toList
  obtain ⟨f, rfl⟩ :=
    Option.isSome_iff_exists.mp (hiff.mpr (.inr ⟨_, rfl, joinedTexts_pages⟩))
  obtain ⟨v, hv, rfl⟩ := hvalue f rfl
  refine ⟨plainText_pages, m, _, hm, hsource.trans (by decide), hfound, ?_⟩
  have htext : "/7/me".toList = pages.leadText ++ "7/me".toList := rfl
  rw [htext] at hv
  generalize hx : pages.leadText ++ "7/me".toList = x at hv
  cases hv with
  | absent _ => cases hx
  | present _ => rw [List.append_cancel_left hx]

/-! ### Brackets -/

def bracketed : Parameter := ⟨.named ['a'], some '/', '/', false, false, "[!-[]".toList⟩

/-- Both brackets of `[!-[` are counted in paths, one is closed, and so `/([!-[])` is no expression
there. -/
theorem parameterSource_bracketed :
    Template.tokens {} "/:a([!-[])".toList = [.parameter bracketed] ∧
    (Compiled.read .segment bracketed.pattern).isSome = true ∧
    parameterSource bracketed = "/([!-[])".toList ∧
    Compiled.read .path (parameterSource bracketed) = none := by decide

end PathTemplate.Matching
