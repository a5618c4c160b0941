import PathTemplate.Proofs.Meaning.Unique

/-!
Templates whose parameters stand behind the delimiter, each there once with a value that does not
hold it. All texts that such tokens take hold the same number of delimiters, so two of them that
begin at the same place differ by a text without delimiters.
-/
namespace PathTemplate.Expression

open Unicode

def Fixed (a : Bool) (d : Char) : Prop := ∀ x, (Alike a d x ↔ d = x) ∧ (Alike a x d ↔ x = d)

theorem fixed_of_nonLetter (a : Bool) {d : Char} (h : AsciiNonLetter d) : Fixed a d :=
  fun _ => ⟨alike_iff_eq h, alike_iff_eq_left h⟩

/-- Where case counts every character is alike to itself only. -/
theorem fixed_false (d : Char) : Fixed false d := fun x =>
  ⟨alike_false_iff d x, alike_false_iff x d⟩

theorem TextAlike.count_eq {a : Bool} {d : Char} (hd : Fixed a d) {t w : Text}
    (h : TextAlike a t w) : w.count d = t.count d := by
  induction h with
  | nil => rfl
  | @cons c x t w hcx _ ih =>
    have hiff : x = d ↔ c = d := by
      constructor
      · rintro rfl
        exact (hd c).2.mp hcx
      · rintro rfl
        exact ((hd x).1.mp hcx).symm
    rw [List.count_cons, List.count_cons, ih]
    simp only [beq_iff_eq, hiff]

theorem TextAlike.single_eq {a : Bool} {d : Char} (hd : Fixed a d) {w : Text}
    (h : TextAlike a [d] w) : w = [d] := by
  obtain ⟨x, l, hx, hnil, rfl⟩ := List.forall₂_cons_left_iff.mp h
  rw [List.forall₂_nil_left_iff.mp hnil, (hd x).1.mp hx]

end PathTemplate.Expression

namespace PathTemplate.Matching

open Expression Unicode

theorem fixed_of_options {o : Options} (h : o.sensitive = true ∨ AsciiNonLetter o.delimiter) :
    Fixed (!o.sensitive) o.delimiter := by
  rcases h with hs | hd
  · rw [hs]
    exact fixed_false o.delimiter
  · exact fixed_of_nonLetter _ hd

/-- Every parameter is there once, behind the delimiter, and with its default pattern. -/
structure Segmented (o : Options) (ts : List Token) : Prop where
  defaults : DefaultPatterns o ts
  required : ∀ p ∈ parameters ts, p.optional = false
  once : ∀ p ∈ parameters ts, p.repeats = false
  led : ∀ p ∈ parameters ts, p.lead = some o.delimiter

theorem segmented_iff {o : Options} {ts : List Token} : Segmented o ts ↔ ∀ p ∈ parameters ts,
    p.pattern = Template.defaultPattern p.delimiter o.delimiter ∧ p.optional = false ∧
      p.repeats = false ∧ p.lead = some o.delimiter := by
  constructor
  · exact fun h p hp =>
      ⟨h.defaults p (mem_parameters.mp hp), h.required p hp, h.once p hp, h.led p hp⟩
  · exact fun h => ⟨fun p hp => (h p (mem_parameters.mpr hp)).1, fun p hp => (h p hp).2.1,
      fun p hp => (h p hp).2.2.1, fun p hp => (h p hp).2.2.2⟩

instance (o : Options) (ts : List Token) : Decidable (Segmented o ts) :=
  decidable_of_iff _ segmented_iff.symm

def delimiters (d : Char) : List Token → Nat
  | [] => 0
  | .literal t :: ts => t.count d + delimiters d ts
  | .parameter _ :: ts => 1 + delimiters d ts

section Segmented

variable {a : Bool} {o : Options} {t : Token} {ts ts' : List Token} {p : Parameter}
  {w w' : Text} {vs vs' : List (Option Text)}

theorem Segmented.of_sublist (h : Segmented o ts') (hsub : ∀ t ∈ ts, t ∈ ts') :
    Segmented o ts := by
  have hparameters : ∀ p ∈ parameters ts, p ∈ parameters ts' :=
    fun p hp => mem_parameters.mpr (hsub _ (mem_parameters.mp hp))
  exact ⟨fun p hp => h.defaults p (hsub _ hp), fun p hp => h.required p (hparameters p hp),
    fun p hp => h.once p (hparameters p hp), fun p hp => h.led p (hparameters p hp)⟩

theorem Segmented.tail (h : Segmented o (t :: ts)) : Segmented o ts :=
  h.of_sublist fun _ ht => List.mem_cons_of_mem t ht

/-- A parameter takes the delimiter and a value without delimiters. -/
theorem Segmented.parameter (hs : Segmented o (.parameter p :: ts)) (hd : Fixed a o.delimiter)
    (h : Takes a o (.parameter p :: ts) w vs) :
    ∃ v u us, w = o.delimiter :: (v ++ u) ∧ o.delimiter ∉ v ∧ Takes a o ts u us ∧
      vs = some v :: us := by
  obtain ⟨l, v, u, us, hl, hv, hrest, rfl, rfl⟩ := h.parameter (hs.required p List.mem_cons_self)
  rw [Parameter.leadText, hs.led p List.mem_cons_self] at hl
  obtain rfl := TextAlike.single_eq hd hl
  rw [valueTexts, hs.once p List.mem_cons_self] at hv
  exact ⟨v, u, us, rfl, (delimiter_notMem_segment hv).2, hrest, rfl⟩

/-- The delimiter and a segment are taken by a parameter. -/
theorem Segmented.takes (hs : Segmented o [.parameter p]) {v : Text}
    (hv : v ∈ segments a (excluded o p)) :
    Takes a o [.parameter p] (o.delimiter :: v) [some v] := by
  have hl : TextAlike a p.leadText [o.delimiter] := by
    rw [Parameter.leadText, hs.led p List.mem_cons_self]
    exact textAlike_self a _
  have hvalue : v ∈ valueTexts a o p := by
    rwa [valueTexts, hs.once p List.mem_cons_self]
  rw [← List.append_nil (o.delimiter :: v)]
  exact .present hl hvalue .nil

/-- All texts that the tokens take hold the same number of delimiters. -/
theorem Takes.count_eq (hs : Segmented o ts) (hd : Fixed a o.delimiter) (h : Takes a o ts w vs) :
    w.count o.delimiter = delimiters o.delimiter ts := by
  induction ts generalizing w vs with
  | nil =>
    cases h
    rfl
  | cons t ts ih =>
    cases t with
    | literal t =>
      cases h with
      | literal ht hrest => rw [List.count_append, ht.count_eq hd, ih hs.tail hrest, delimiters]
    | parameter p =>
      obtain ⟨v, u, us, rfl, hv, hrest, rfl⟩ := hs.parameter hd h
      rw [List.count_cons_self, List.count_append, List.count_eq_zero.mpr hv, ih hs.tail hrest,
        delimiters]
      omega

/-- Where one of two texts goes on behind the other, it does so without delimiters. -/
theorem Takes.notMem_of_append (hs : Segmented o ts) (hd : Fixed a o.delimiter) {z : Text}
    (h : Takes a o ts w vs) (h' : Takes a o ts (w ++ z) vs') : o.delimiter ∉ z := by
  have hcount := h'.count_eq hs hd
  rw [List.count_append, h.count_eq hs hd] at hcount
  exact List.count_eq_zero.mp (by omega)

/-- Tokens that begin later within a segment end later. A literal moves what is ahead of the tokens
behind it, and no parameter can begin at both places. -/
theorem Takes.length_lt (hs : Segmented o ts) (hd : Fixed a o.delimiter) {z r r' : Text}
    (hz : z ≠ []) (hdz : o.delimiter ∉ z) (h : Takes a o ts w vs) (h' : Takes a o ts w' vs')
    (heq : w ++ r = z ++ (w' ++ r')) : w.length < z.length + w'.length := by
  induction ts generalizing w w' vs vs' z r r' with
  | nil =>
    cases h
    cases h'
    simpa using List.length_pos_iff.mpr hz
  | cons t ts ih =>
    cases t with
    | literal t =>
      cases h with
      | @literal _ k u _ _ ht hrest =>
        cases h' with
        | @literal _ k' u' _ _ ht' hrest' =>
          have hlen : k.length = k'.length := ht.length_eq.trans ht'.length_eq.symm
          have hcut : k ++ (u ++ r) = (z ++ k') ++ (u' ++ r') := by simpa using heq
          obtain ⟨y, hy, hrests⟩ : ∃ y, z ++ k' = k ++ y ∧ u ++ r = y ++ (u' ++ r') := by
            rcases List.append_eq_append_iff.mp hcut with ⟨y, hy, hr⟩ | ⟨y, hy, hr⟩
            · exact ⟨y, hy, hr⟩
            · have := congrArg List.length hy
              simp only [List.length_append] at this
              have hpos := List.length_pos_iff.mpr hz
              omega
          have hylen := congrArg List.length hy
          have hcount := congrArg (List.count o.delimiter) hy
          simp only [List.length_append] at hylen ⊢
          rw [List.count_append, List.count_append, List.count_eq_zero.mpr hdz, ht.count_eq hd,
            ht'.count_eq hd] at hcount
          have hpos := List.length_pos_iff.mpr hz
          have hshift := ih hs.tail (List.length_pos_iff.mp (by omega))
            (List.count_eq_zero.mp (by omega)) hrest hrest' hrests
          omega
    | parameter p =>
      obtain ⟨v, u, us, rfl, -, -, -⟩ := hs.parameter hd h
      obtain ⟨x, z, rfl⟩ := List.exists_cons_of_ne_nil hz
      have hx : o.delimiter = x := (List.cons.inj heq).1
      exact absurd (hx ▸ List.mem_cons_self) hdz

end Segmented

/-! ### Divisions of a path -/

section Divisions

variable {a : Bool} {o : Options} {ts : List Token} {path e r : Text}

theorem Ends.eq_nil_or (hd : Fixed a o.delimiter) (h : Ends a o ts e r) :
    e = [] ∨ o.strict = false ∧ e = [o.delimiter] := by
  have hdelimiter : TextAlike a [o.delimiter] e → e = [o.delimiter] := fun ht => ht.single_eq hd
  unfold Ends at h
  split at h
  · exact h.1.imp_right fun ht => ⟨ht.1, hdelimiter ht.2⟩
  · exact h.1.imp_right fun ht => ⟨ht.1, hdelimiter ht.2.1⟩

theorem Division.path_eq_of_start (v : Division a o ts path) (hstart : o.fromStart = true) :
    path = v.body ++ (v.ending ++ v.left) := by
  have h := v.path_eq
  rwa [v.anchored hstart] at h

/-- Behind the same body the ending is the longest if no delimiter is left behind it. -/
theorem Division.length_ending_le (hd : Fixed a o.delimiter) (hstart : o.fromStart = true)
    (v w : Division a o ts path) (hbody : w.body = v.body)
    (hleft : v.left.head? ≠ some o.delimiter) :
    w.ending.length ≤ v.ending.length := by
  have hpath := (v.path_eq_of_start hstart).symm.trans (w.path_eq_of_start hstart)
  rw [hbody] at hpath
  have hrest := List.append_cancel_left hpath
  rcases w.ends.eq_nil_or hd with hw | ⟨-, hw⟩
  · rw [hw]
    exact Nat.zero_le _
  · rcases v.ends.eq_nil_or hd with hv | ⟨-, hv⟩
    · rw [hv, hw] at hrest
      exact absurd (congrArg List.head? hrest) hleft
    · rw [hv, hw]

/-- Without terminators a match of the whole path takes all of it, with at most a delimiter behind
what the tokens take. -/
theorem exists_takes_of_exec (hd : Fixed (!o.sensitive) o.delimiter) (hstart : o.fromStart = true)
    (htoEnd : o.toEnd = true) (hends : o.endsWith = []) {source : Text} {keys : List Key}
    {f : PathMatch} (h : Matcher.exec ⟨source, keys, compiledTokens o ts⟩ path = .ok (some f)) :
    ∃ x e vs, path = x ++ e ∧ TakesAt (!o.sensitive) ts [] x e vs ∧
      (e = [] ∨ o.strict = false ∧ e = [o.delimiter]) ∧
        f = ⟨0, path, Matcher.values keys vs⟩ := by
  obtain ⟨v, hf⟩ := exists_placement_of_exec h
  have hskipped := v.anchored hstart
  have hleft : v.left = [] := by
    have hcloses := v.ends
    rw [Ends, if_pos htoEnd] at hcloses
    simpa [MayEnd, hends] using hcloses.2
  have hpath := v.path_eq
  have htakes := v.takes
  rw [hskipped, hleft, List.append_nil] at hpath htakes
  refine ⟨v.body, v.ending, v.values, hpath, htakes, v.ends.eq_nil_or hd, ?_⟩
  rw [hf, hskipped]
  exact congrArg (fun x => PathMatch.mk 0 x _) hpath.symm

variable (hs : Segmented o ts) (hd : Fixed a o.delimiter) (hstart : o.fromStart = true)

include hs hd hstart

/-- A shorter body stops within a segment, and no ending is behind it. -/
theorem Division.le_or_exists (v w : Division a o ts path) : v.body.length ≤ w.body.length ∨
    ∃ z, z ≠ [] ∧ o.delimiter ∉ z ∧ v.body = w.body ++ z ∧ w.ending = [] ∧
      w.left = z ++ (v.ending ++ v.left) := by
  have hpath := (v.path_eq_of_start hstart).symm.trans (w.path_eq_of_start hstart)
  rcases List.append_eq_append_iff.mp hpath with ⟨z, hw, -⟩ | ⟨z, hv, hrest⟩
  · left
    rw [hw, List.length_append]
    exact Nat.le_add_right _ _
  · rcases eq_or_ne z [] with rfl | hz
    · left
      rw [hv, List.append_nil]
    · have hdz : o.delimiter ∉ z := w.takes.notMem_of_append hs hd (hv ▸ v.takes)
      refine Or.inr ⟨z, hz, hdz, hv, ?_⟩
      rcases w.ends.eq_nil_or hd with he | ⟨-, he⟩
      · rw [he] at hrest
        exact ⟨he, hrest⟩
      · obtain ⟨c, z, rfl⟩ := List.exists_cons_of_ne_nil hz
        rw [he] at hrest
        exact absurd ((List.cons.inj hrest).1 ▸ List.mem_cons_self) hdz

end Divisions

end PathTemplate.Matching
