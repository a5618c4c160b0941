import PathTemplate.Proofs.Meaning.Ending
import PathTemplate.Proofs.Meaning.Tokens
import PathTemplate.Proofs.Reading.Compiling
import PathTemplate.Proofs.Search.FirstMatch

/-!
The paths that a template matches. A match is a division of the path: what is skipped, what the
tokens take, what the end takes, and what is left. With default patterns what the tokens take does
not depend on where it stands.
-/
namespace PathTemplate.Matching

open Expression State

structure Division (a : Bool) (o : Options) (ts : List Token) (path : Text) where
  skipped : Text
  body : Text
  ending : Text
  left : Text
  values : List (Option Text)
  path_eq : path = skipped ++ (body ++ (ending ++ left))
  anchored : o.fromStart = true → skipped = []
  takes : Takes a o ts body values
  ends : Ends a o ts ending left

def Division.toMatch {a : Bool} {o : Options} {ts : List Token} {path : Text}
    (v : Division a o ts path) : Match := ⟨v.skipped, v.body ++ v.ending, v.values⟩

theorem ends_nil (a : Bool) (o : Options) (ts : List Token) : Ends a o ts [] [] := by
  unfold Ends
  split
  · exact ⟨Or.inl rfl, Or.inl rfl⟩
  · exact ⟨Or.inl rfl, Or.inr (Or.inr (Or.inl rfl))⟩

def Division.whole {a : Bool} {o : Options} {ts : List Token} {path : Text}
    {vs : List (Option Text)} (h : Takes a o ts path vs) : Division a o ts path :=
  ⟨[], path, [], [], vs, by simp, fun _ => rfl, h, ends_nil a o ts⟩

/-- A division of the path where what the tokens take depends on where they stand. -/
structure Placement (a : Bool) (o : Options) (ts : List Token) (path : Text) where
  skipped : Text
  body : Text
  ending : Text
  left : Text
  values : List (Option Text)
  path_eq : path = skipped ++ (body ++ (ending ++ left))
  anchored : o.fromStart = true → skipped = []
  takes : TakesAt a ts skipped.reverse body (ending ++ left) values
  ends : Ends a o ts ending left

section Placement

variable {a : Bool} {o : Options} {ts : List Token} {path : Text}

def Placement.toMatch (v : Placement a o ts path) : Match :=
  ⟨v.skipped, v.body ++ v.ending, v.values⟩

def Placement.whole {vs : List (Option Text)} (h : TakesAt a ts [] path [] vs) :
    Placement a o ts path :=
  ⟨[], path, [], [], vs, by simp, fun _ => rfl, h, ends_nil a o ts⟩

def Placement.division (v : Placement a o ts path) (h : DefaultPatterns o ts) :
    Division a o ts path :=
  ⟨v.skipped, v.body, v.ending, v.left, v.values, v.path_eq, v.anchored, v.takes.takes h, v.ends⟩

def Division.placement (v : Division a o ts path) (h : DefaultPatterns o ts) :
    Placement a o ts path :=
  ⟨v.skipped, v.body, v.ending, v.left, v.values, v.path_eq, v.anchored, .ofTakes v.takes h _ _,
    v.ends⟩

end Placement

/-! ### The whole expression -/

/-- What the expression of the tokens takes between `b`, nearest character first, and `u`: what the
tokens take, and an ending behind it. -/
def MatchesAt (a : Bool) (o : Options) (ts : List Token) (b w u : Text) (vs : List (Option Text)) :
    Prop :=
  (o.fromStart = true → b = []) ∧
    ∃ x e, w = x ++ e ∧ TakesAt a ts b x (e ++ u) vs ∧ Ends a o ts e u

private theorem local_start (d : Dialect) (o : Options) (et : EmptyTurn) :
    Step.Local (Step.inTurn ((if o.fromStart then [checkItem d .textStart] else []).map
      fun i => i.expr.paths et)) fun b w _ => w = [] ∧ (o.fromStart = true → b = []) := by
  intro s t
  have hmem : t ∈ Step.inTurn ((if o.fromStart then [checkItem d .textStart] else []).map
      fun i => i.expr.paths et) s ↔ t = s ∧ (o.fromStart = true → s.before = []) := by
    split
    case isTrue hstart =>
      rw [Precedes.mem_check_textStart]
      simp [hstart]
    case isFalse hstart => simp [Step.inTurn, hstart]
  rw [hmem]
  constructor
  · rintro ⟨rfl, hstart⟩
    exact ⟨[], ⟨rfl, hstart⟩, passes_self t, rfl⟩
  · rintro ⟨w, ⟨rfl, hstart⟩, hs, hg⟩
    exact ⟨hs.eq (passes_self s) hg, hstart⟩

/-- The items of the whole expression take a match of the tokens, and give each parameter its
value. -/
theorem fills_expressionItems (a : Bool) (o : Options) (g : Nat) (ts : List Token) :
    Fills (expressionItems a o g ts) (g + 1) (parameters ts).length (MatchesAt a o ts) := by
  have hend := Fills.ofLocal (precedes_endingItems a o ts) (g + 1 + (parameters ts).length)
  have hall := ((Fills.ofLocal (local_start .path o) (g + 1)).append
    (fills_tokensItems a g ts)).append (by rwa [Nat.zero_add])
  rw [Nat.zero_add, Nat.add_zero] at hall
  refine hall.congr fun b w u vs => ?_
  constructor
  · rintro ⟨x, _, e, _, ⟨_, _, _, us, ⟨⟨rfl, hstart⟩, rfl⟩, hx, rfl, rfl⟩, ⟨he, rfl⟩, rfl, rfl⟩
    refine ⟨hstart, x, e, rfl, ?_, he⟩
    simpa using hx
  · rintro ⟨hstart, x, e, rfl, hx, he⟩
    exact ⟨x, vs, e, [], ⟨[], [], x, vs, ⟨⟨rfl, hstart⟩, rfl⟩, hx, rfl, rfl⟩, ⟨he, rfl⟩, rfl,
      (List.append_nil vs).symm⟩

/-- What is said of a match that passed `w` from the place between `u` and `v`. -/
theorem ofState_close {u v w : Text} {n : Nat} {vs : List (Option Text)} {r : State}
    (hs : (State.between u v n).Passes w r) (htexts : r.texts = none :: vs) :
    Match.ofState (u ++ v) (State.close 0 (State.between u v n) r) = ⟨u, w, vs⟩ := by
  have htake : (⟨v, r.pos - u.length⟩ : Capture).text = w := by
    have hpos := hs.pos
    have hrest := hs.rest
    simp only [State.between] at hpos hrest
    simp [Capture.text, hrest, hpos]
  obtain ⟨g, gs, hg⟩ : ∃ g gs, r.groups = g :: gs := by
    cases hg : r.groups with
    | nil => simp [State.texts, hg] at htexts
    | cons g gs => exact ⟨g, gs, rfl⟩
  have htail : gs.map (Option.map Capture.text) = vs := by
    simpa [State.texts, hg] using congrArg List.tail htexts
  have hwhole : (State.close 0 (State.between u v n) r).taken 0 = some w := by
    simp [State.taken, State.close, hg, State.between, htake]
  have hpos : r.pos - w.length = u.length := by
    have := hs.pos
    simp only [State.between] at this
    omega
  rw [Match.ofState, hwhole]
  simp only [Option.getD_some, State.close, hg, hpos, List.set_cons_zero, List.tail_cons, htail,
    List.take_left']

theorem texts_between (u v : Text) (n : Nat) :
    (State.between u v n).texts = List.replicate (n + 1) none := by
  simp [State.texts, State.between]

/-- Groups that held nothing hold the values when they have been filled. -/
theorem fill_texts_between (u v : Text) {n : Nat} {vs : List (Option Text)} (h : vs.length = n) :
    fill 1 vs (State.between u v n).texts = none :: vs := by
  have hfill := fill_within [none] vs []
  rw [texts_between, ← h, List.replicate_succ]
  simpa using hfill

section Matches

variable {o : Options} {ts : List Token} {path : Text}

private theorem captures_compiledTokens (o : Options) (ts : List Token) (et : EmptyTurn) :
    Step.Captures ((compiledTokens o ts).expr.paths et) 1 (parameters ts).length
      (MatchesAt (!o.sensitive) o ts) := by
  have hfills := fills_expressionItems (!o.sensitive) o 0 ts et
  rwa [← Branch.paths_ofItems] at hfills

/-- Every match at a place divides the path there. -/
theorem placement_of_mem_paths {u v : Text} {r : State}
    (h : r ∈ (compiledTokens o ts).expr.paths (compiledTokens o ts).expr.emptyTurn
      (State.between u v (compiledTokens o ts).groups)) :
    ∃ w : Placement (!o.sensitive) o ts (u ++ v), w.skipped = u ∧
      Match.ofState (u ++ v) (State.close 0 (State.between u v (compiledTokens o ts).groups) r) =
        w.toMatch := by
  obtain ⟨w, vs, ⟨hstart, x, e, rfl, htakes, hends⟩, hs, hf⟩ :=
    (captures_compiledTokens o ts _).sound _ r h
  have htexts : r.texts = none :: vs := hf.trans (fill_texts_between u v htakes.length)
  refine ⟨⟨u, x, e, r.rest, vs, ?_, ?_, htakes, hends⟩, rfl, ofState_close hs htexts⟩
  · rw [← List.append_assoc x, ← hs.rest]
    rfl
  · intro ho
    simpa [State.between] using hstart ho

/-- Every division of the path is a match. -/
theorem exists_mem_paths_of_placement (v : Placement (!o.sensitive) o ts path) :
    ∃ r, r ∈ (compiledTokens o ts).expr.paths (compiledTokens o ts).expr.emptyTurn
      (State.between v.skipped (v.body ++ (v.ending ++ v.left)) (compiledTokens o ts).groups) := by
  obtain ⟨r, hr, -⟩ := (captures_compiledTokens o ts _).complete
    (State.between v.skipped (v.body ++ (v.ending ++ v.left)) (compiledTokens o ts).groups)
    (v.body ++ v.ending) v.left v.values
    ⟨fun ho => by simp [State.between, v.anchored ho], v.body, v.ending, rfl, v.takes, v.ends⟩
    (by simp [State.between])
  exact ⟨r, hr⟩

/-- The matches of tokens are the divisions of the path. -/
theorem exists_mem_matchStates_iff :
    (∃ s, s ∈ (compiledTokens o ts).matchStates path) ↔
      Nonempty (Placement (!o.sensitive) o ts path) := by
  rw [Compiled.exists_mem_matchStates]
  constructor
  · rintro ⟨u, v, rfl, r, hr⟩
    obtain ⟨w, -, -⟩ := placement_of_mem_paths hr
    exact ⟨w⟩
  · rintro ⟨v⟩
    exact ⟨_, _, v.path_eq, exists_mem_paths_of_placement v⟩

/-- A matcher of tokens says yes to the paths that can be divided. -/
theorem isMatch_iff_placement {source : Text} {keys : List Key} {b : Bool}
    (h : Matcher.isMatch ⟨source, keys, compiledTokens o ts⟩ path = .ok b) :
    b = true ↔ Nonempty (Placement (!o.sensitive) o ts path) := by
  have hne : Matcher.isMatch ⟨source, keys, compiledTokens o ts⟩ path ≠ .error ⟨path⟩ := by
    rw [h]
    nofun
  have hiff := (Matcher.isMatch_eq_true_iff hne).trans exists_mem_matchStates_iff
  rw [h] at hiff
  simpa using hiff

/-- What such a matcher answers is a division of the path, with the values of the keys. -/
theorem exists_placement_of_exec {source : Text} {keys : List Key} {f : PathMatch}
    (h : Matcher.exec ⟨source, keys, compiledTokens o ts⟩ path = .ok (some f)) :
    ∃ v : Placement (!o.sensitive) o ts path,
      f = ⟨v.skipped.utf8Size, v.body ++ v.ending, Matcher.values keys v.values⟩ := by
  have hexec := Matcher.exec_eq ⟨source, keys, compiledTokens o ts⟩ path (by rw [h]; nofun)
  rw [h] at hexec
  obtain ⟨s, hs, hf⟩ := Option.map_eq_some_iff.mp (Except.ok.inj hexec).symm
  obtain ⟨u, v, r, rfl, hr, rfl⟩ :=
    (Compiled.mem_matchStates _ path s).mp (List.mem_of_mem_head? (Option.mem_def.mpr hs))
  obtain ⟨w, -, hmatch⟩ := placement_of_mem_paths hr
  refine ⟨w, ?_⟩
  rw [← hf, Matcher.pathMatch, hmatch]
  rfl

/-! ### Default patterns -/

variable (hts : DefaultPatterns o ts)

include hts

theorem division_of_mem_paths {u v : Text} {r : State}
    (h : r ∈ (compiledTokens o ts).expr.paths (compiledTokens o ts).expr.emptyTurn
      (State.between u v (compiledTokens o ts).groups)) :
    ∃ w : Division (!o.sensitive) o ts (u ++ v), w.skipped = u ∧
      Match.ofState (u ++ v) (State.close 0 (State.between u v (compiledTokens o ts).groups) r) =
        w.toMatch := by
  obtain ⟨w, hw, hmatch⟩ := placement_of_mem_paths h
  exact ⟨w.division hts, hw, hmatch⟩

theorem exists_mem_paths_of_division (v : Division (!o.sensitive) o ts path) :
    ∃ r, r ∈ (compiledTokens o ts).expr.paths (compiledTokens o ts).expr.emptyTurn
      (State.between v.skipped (v.body ++ (v.ending ++ v.left)) (compiledTokens o ts).groups) :=
  exists_mem_paths_of_placement (v.placement hts)

theorem isMatch_compiledTokens_iff {source : Text} {keys : List Key} {b : Bool}
    (h : Matcher.isMatch ⟨source, keys, compiledTokens o ts⟩ path = .ok b) :
    b = true ↔ Nonempty (Division (!o.sensitive) o ts path) := by
  rw [isMatch_iff_placement h]
  exact ⟨fun ⟨v⟩ => ⟨v.division hts⟩, fun ⟨v⟩ => ⟨v.placement hts⟩⟩

/-- Without terminators a path that can be divided is always answered. -/
theorem exists_exec_of_division (hend : o.toEnd = true) (hw : o.endsWith = []) {source : Text}
    {keys : List Key} (v : Division (!o.sensitive) o ts path) :
    ∃ f, Matcher.exec ⟨source, keys, compiledTokens o ts⟩ path = .ok (some f) := by
  obtain ⟨s, hs⟩ := exists_mem_matchStates_iff.mpr ⟨v.placement hts⟩
  obtain ⟨q, hq⟩ := Option.isSome_iff_exists.mp (List.isSome_head?.mpr (List.ne_nil_of_mem hs))
  refine ⟨Matcher.pathMatch ⟨source, keys, compiledTokens o ts⟩ path q, ?_⟩
  rw [Matcher.exec_of_isPlain _ (isPlain_compiledTokens hend hw hts), hq]
  rfl

end Matches

end PathTemplate.Matching
