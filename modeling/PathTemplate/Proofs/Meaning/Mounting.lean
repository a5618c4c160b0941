import PathTemplate.Proofs.Meaning.Permissive
import PathTemplate.Proofs.Meaning.Weights
import PathTemplate.Proofs.Search.Exhausted

/-!
Paths below other paths. A matcher of segments that may stop before the end stops behind the path
that the whole template takes, and no earlier, wherever a delimiter follows it. What follows may
look like further segments: a shorter body would stop within a segment, where no ending can be. Such
a matcher looks ahead behind every character of a segment, and gives up on a long one.
-/
namespace PathTemplate.Matching

open Expression Unicode

section Mounted

variable {a : Bool} {o : Options} {ts : List Token} {path w r : Text} {vs : List (Option Text)}

theorem mayEnd_iff_of_no_terminators (h : o.endsWith = []) : MayEnd a o r ↔ r = [] := by
  simp [MayEnd, h]

/-- What the tokens take ends with the delimiter where the tokens do. -/
theorem Takes.getLast?_of_endsDelimited (hd : Fixed a o.delimiter) (h : Takes a o ts w vs)
    (hts : endsDelimited o ts = true) : w = [] ∨ w.getLast? = some o.delimiter := by
  rcases (endsDelimited_iff o ts).mp hts with rfl | ⟨t, hlast, ht⟩
  · cases h
    exact Or.inl rfl
  · obtain ⟨ts, rfl⟩ := List.getLast?_eq_some_iff.mp hlast
    obtain ⟨t, rfl⟩ := List.getLast?_eq_some_iff.mp ht
    obtain ⟨u, v, us, vs, -, hv, rfl, -⟩ := h.split
    cases hv with
    | @literal _ k _ _ _ hk hnil =>
      cases hnil
      have hend : k.drop t.length = [o.delimiter] := by
        refine TextAlike.single_eq hd ?_
        have hdrop := List.forall₂_drop t.length hk
        rwa [List.drop_left] at hdrop
      refine Or.inr (List.getLast?_eq_some_iff.mpr ⟨u ++ k.take t.length, ?_⟩)
      rw [← hend, List.append_assoc, List.take_append_drop, List.append_nil]

/-- A delimiter may follow what the tokens take. It is taken too where it is the last character and
the options are not strict. -/
theorem exists_division_mounted (htoEnd : o.toEnd = false) (h : Takes a o ts path vs)
    (rest : Text) : ∃ v : Division a o ts (path ++ o.delimiter :: rest), v.body = path ∧
      v.values = vs ∧
        v.ending = if rest = [] ∧ o.strict = false then [o.delimiter] else [] := by
  by_cases hlast : rest = [] ∧ o.strict = false
  · obtain ⟨rfl, hloose⟩ := hlast
    have hends : Ends a o ts [o.delimiter] [] := by
      rw [Ends, htoEnd, if_neg Bool.false_ne_true]
      exact ⟨Or.inr ⟨hloose, textAlike_self a _, Or.inl rfl⟩, Or.inr (Or.inr (Or.inl rfl))⟩
    exact ⟨⟨[], path, [o.delimiter], [], vs, rfl, fun _ => rfl, h, hends⟩, rfl, rfl,
      (if_pos ⟨rfl, hloose⟩).symm⟩
  · have hends : Ends a o ts [] (o.delimiter :: rest) := by
      rw [Ends, htoEnd, if_neg Bool.false_ne_true]
      exact ⟨Or.inl rfl, Or.inr (Or.inl ⟨_, _, rfl, alike_self a _⟩)⟩
    exact ⟨⟨[], path, [], o.delimiter :: rest, vs, rfl, fun _ => rfl, h, hends⟩, rfl, rfl,
      (if_neg hlast).symm⟩

section Divisions

variable (hs : Segmented o ts) (hd : Fixed a o.delimiter) (hstart : o.fromStart = true)
  (htoEnd : o.toEnd = false) (hends : o.endsWith = [])

include htoEnd hends

/-- Nothing but a delimiter at the end of the path is taken behind the body. -/
theorem Division.ending_eq (hd : Fixed a o.delimiter) (v : Division a o ts path) : v.ending = [] ∨
    o.strict = false ∧ v.ending = [o.delimiter] ∧ v.left = [] := by
  have h := v.ends
  rw [Ends, htoEnd, if_neg Bool.false_ne_true, GoesOn, mayEnd_iff_of_no_terminators hends] at h
  exact h.1.imp_right fun ht => ⟨ht.1, ht.2.1.single_eq hd, ht.2.2⟩

include hs hd hstart

/-- No body is shorter than another: behind it would stand the rest of a segment. -/
theorem Division.length_body_le (v w : Division a o ts path) :
    v.body.length ≤ w.body.length := by
  rcases v.le_or_exists hs hd hstart w with h | ⟨z, hz, hdz, hbody, -, hleft⟩
  · exact h
  · exfalso
    have hgoes := w.ends
    rw [Ends, htoEnd, if_neg Bool.false_ne_true, GoesOn, mayEnd_iff_of_no_terminators hends,
      hleft] at hgoes
    rcases hgoes.2 with hts | ⟨c, u, hcu, hc⟩ | hnil
    · rcases v.takes.getLast?_of_endsDelimited hd hts with hnil | hlast
      · rw [hbody] at hnil
        exact hz (List.append_eq_nil_iff.mp hnil).2
      · rw [hbody, List.getLast?_append_of_ne_nil _ hz] at hlast
        exact hdz (List.mem_of_getLast? hlast)
    · obtain ⟨x, z, rfl⟩ := List.exists_cons_of_ne_nil hz
      have hx : x = o.delimiter := (List.cons.inj hcu).1.trans ((hd c).1.mp hc).symm
      exact hdz (hx ▸ List.mem_cons_self)
    · exact hz (List.append_eq_nil_iff.mp hnil).1

end Divisions

end Mounted

/-- In front of a delimiter the first match ends where the tokens have taken the path. -/
theorem answersWithin_mounted {o : Options} {ts : List Token} (hs : Segmented o ts)
    (hd : Fixed (!o.sensitive) o.delimiter) (hstart : o.fromStart = true)
    (htoEnd : o.toEnd = false) (hends : o.endsWith = []) {path : Text} {vs : List (Option Text)}
    (h : Takes (!o.sensitive) o ts path vs) (rest : Text) {source : Text} {keys : List Key} :
    Matcher.AnswersWithin ⟨source, keys, compiledTokens o ts⟩ (weight o ts)
      (path ++ o.delimiter :: rest)
      ⟨0, if rest = [] ∧ o.strict = false then path ++ [o.delimiter] else path,
        Matcher.values keys vs⟩ := by
  obtain ⟨v, hbody, hvalues, hending⟩ := exists_division_mounted htoEnd h rest
  have hmatched : v.body ++ v.ending =
      if rest = [] ∧ o.strict = false then path ++ [o.delimiter] else path := by
    rw [hbody, hending]
    split
    · rfl
    · exact List.append_nil path
  rw [← hmatched, ← hvalues]
  refine answersWithin_of_shortest hs hd hstart v
    (v.length_body_le hs hd hstart htoEnd hends) fun w hw => ?_
  rcases w.ending_eq htoEnd hends hd with he | ⟨hloose, he, hl⟩
  · rw [he]
    exact Nat.zero_le _
  · have hrest : o.delimiter :: rest = [o.delimiter] := by
      have hpath := w.path_eq_of_start hstart
      rw [hw, hbody, he, hl] at hpath
      exact List.append_cancel_left hpath
    rw [hending, if_pos ⟨(List.cons.inj hrest).2, hloose⟩, he]

/-- A path that the whole of a template of segments takes is found in front of a delimiter, whatever
follows there, with the same values, unless the search is given up. The match ends behind it, or
behind a delimiter that ends the text where the options are not strict. -/
theorem exec_mounted {o : Options} {t : Text} (hstart : o.fromStart = true)
    (hends : o.endsWith = []) (hd : o.sensitive = true ∨ AsciiNonLetter o.delimiter)
    (hs : Segmented o (Template.tokens o t)) :
    ∃ m m', Matcher.compile { o with toEnd := true, strict := true } (.template t) = .ok m ∧
      Matcher.compile { o with toEnd := false } (.template t) = .ok m' ∧
      ∀ path f, m.exec path = .ok (some f) → ∀ rest,
        m'.AnswersWithin (weight o (Template.tokens o t)) (path ++ o.delimiter :: rest)
          ⟨0, if rest = [] ∧ o.strict = false then path ++ [o.delimiter] else path, f.values⟩ := by
  have htokens : ∀ b s, Template.tokens { o with toEnd := b, strict := s } t =
      Template.tokens o t := by
    intro b s
    refine Template.tokens_congr ?_ ?_ t <;> rfl
  have hcompile := fun b s => compile_template_eq_of_tokens (htokens b s) hs.defaults
  refine ⟨_, _, hcompile true true, hcompile false o.strict, fun path f hf rest => ?_⟩
  obtain ⟨x, e, vs, hpath, htakes, he, rfl⟩ := exists_takes_of_exec
    (o := { o with toEnd := true, strict := true }) (fixed_of_options hd) hstart rfl hends hf
  obtain rfl : e = [] := he.resolve_right fun hloose => Bool.noConfusion hloose.1
  obtain rfl : path = x := hpath.trans (List.append_nil x)
  have hs' : Segmented { o with toEnd := false } (Template.tokens o t) :=
    ⟨hs.defaults, hs.required, hs.once, hs.led⟩
  exact answersWithin_mounted hs' (fixed_of_options hd) hstart rfl hends
    (htakes.takes hs'.defaults) rest

/-- Below `/user/7` stands `/edit/9`. -/
theorem exec_mounted_user : ∃ m m' f,
    Segmented {} (Template.tokens {} "/user/:id".toList) ∧ AsciiNonLetter '/' ∧
    Matcher.compile { strict := true } (.template "/user/:id".toList) = .ok m ∧
    Matcher.compile { toEnd := false } (.template "/user/:id".toList) = .ok m' ∧
    m.exec "/user/7".toList = .ok (some f) ∧
    m'.exec "/user/7/edit/9".toList = .ok (some ⟨0, "/user/7".toList, f.values⟩) := by
  have hs : Segmented {} (Template.tokens {} "/user/:id".toList) := by decide
  have hd : AsciiNonLetter '/' := by decide
  obtain ⟨m, m', hm, hm', hmounted⟩ := exec_mounted (o := {}) rfl rfl (Or.inr hd) hs
  have hfound : (Matcher.compile { strict := true } (.template "/user/:id".toList)).map
      (fun m => (m.exec "/user/7".toList).map Option.isSome) = .ok (.ok true) := by decide
  rw [hm] at hfound
  obtain ⟨answer, hanswer, hsome⟩ := exists_ok_of_map (Except.ok.inj hfound)
  obtain ⟨f, rfl⟩ := Option.isSome_iff_exists.mp hsome
  have hfits : weight {} (Template.tokens {} "/user/:id".toList) * 15 ≤ stepLimit := by
    decide
  exact ⟨m, m', f, hs, hd, hm, hm', hanswer,
    (hmounted _ f hanswer "edit/9".toList).exec_eq hfits⟩

/-! ### Long segments -/

def segmentParameter : Parameter := ⟨.named ['a'], some '/', '/', false, false, "[^/]+?".toList⟩

theorem segmented_segmentParameter {o : Options} (h : o.delimiter = '/') :
    Segmented o [.parameter segmentParameter] := by
  refine segmented_iff.mpr fun p hp => ?_
  rw [List.mem_singleton.mp hp, h]
  exact ⟨rfl, rfl, rfl, rfl⟩

theorem tokens_segmentParameter {o : Options} (hd : o.delimiter = '/') (hw : o.whitelist = none) :
    Template.tokens o "/:a".toList = [.parameter segmentParameter] := by
  rw [Template.tokens_congr (o := {}) hd hw]
  decide

/-- Held to both ends, the template takes a segment of any length. -/
theorem exists_exec_segment (b : Bool) (n : Nat) : ∃ m f,
    Matcher.compile { sensitive := true, strict := b } (.template "/:a".toList) = .ok m ∧
      m.exec ('/' :: List.replicate (n + 1) 'x') = .ok (some f) := by
  have htokens := tokens_segmentParameter (o := { sensitive := true, strict := b }) rfl rfl
  have hs := segmented_segmentParameter (o := { sensitive := true, strict := b }) rfl
  have hslash : '/' ∉ List.replicate (n + 1) 'x' := fun h =>
    absurd (List.eq_of_mem_replicate h) (by decide)
  have hw : List.replicate (n + 1) 'x' ∈ segments false
      (excluded { sensitive := true, strict := b } segmentParameter) :=
    (mem_segments_false _ _ _).mpr ⟨nofun, hslash, hslash⟩
  obtain ⟨f, hf⟩ := exists_exec_of_division hs.defaults rfl rfl (.whole (hs.takes hw))
  exact ⟨_, f, compile_template_eq_of_tokens htokens hs.defaults, hf⟩

/-- Where nothing is found that ends within a segment, the search for a long one is given up. -/
theorem exec_segment_gaveUp {o : Options} {f g : Expr} {d n : Nat} (hd : o.delimiter = '/')
    (hw : o.whitelist = none)
    (hcompiled : compiledTokens o [.parameter segmentParameter] = segmentThen f g)
    (hplain : (segmentThen f g).expr.isPlain = false)
    (hfails : ∀ s t b r p gs, Fails d (afterSegment f g s t, ⟨b, 'x' :: r, p, gs⟩))
    (hn : stepLimit ≤ n * (d + 3)) (r : Text) :
    ∃ m, Matcher.compile o (.template "/:a".toList) = .ok m ∧
      m.exec ('/' :: (List.replicate (n + 1) 'x' ++ r)) =
        .error ⟨'/' :: (List.replicate (n + 1) 'x' ++ r)⟩ := by
  refine ⟨_, compile_template_eq_of_tokens (tokens_segmentParameter hd hw)
    (segmented_segmentParameter hd).defaults, ?_⟩
  rw [Matcher.exec, hcompiled, List.replicate_succ, List.cons_append,
    find_segmentThen_gaveUp hfails hplain hn]

/-- In front of a slash the search for a segment of a million characters is given up. -/
theorem exec_mounted_gaveUp : ∃ m m' f,
    Segmented { sensitive := true } (Template.tokens { sensitive := true } "/:a".toList) ∧
    Matcher.compile { sensitive := true, strict := true } (.template "/:a".toList) = .ok m ∧
    Matcher.compile { sensitive := true, toEnd := false } (.template "/:a".toList) = .ok m' ∧
    m.exec ('/' :: List.replicate 1000000 'x') = .ok (some f) ∧
    m'.exec ('/' :: List.replicate 1000000 'x' ++ ['/']) =
      .error ⟨'/' :: List.replicate 1000000 'x' ++ ['/']⟩ := by
  obtain ⟨m, f, hm, hf⟩ := exists_exec_segment true 999999
  obtain ⟨m', hm', hgave⟩ := exec_segment_gaveUp (o := { sensitive := true, toEnd := false })
    (f := .loop (.cat (.one (.range '/' '/') false) (.ahead true (.check .textEnd))) 0 (some 1)
      true)
    (g := .ahead true (.alt (.one (.range '/' '/') false) (.check .textEnd))) (n := 999999)
    (d := 10) rfl rfl (by decide) rfl (fun _ _ _ _ _ _ _ _ => rfl) (by decide) ['/']
  refine ⟨m, m', f, ?_, hm, hm', hf, hgave⟩
  rw [tokens_segmentParameter rfl rfl]
  exact segmented_segmentParameter rfl

end PathTemplate.Matching
