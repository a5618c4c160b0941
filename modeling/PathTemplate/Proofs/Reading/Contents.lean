import PathTemplate.Proofs.Reading.Accepted

/-!
What a template that is compiled says of its patterns. Each of them is read inside the group of its
parameter, so each makes up a content, and then it does so wherever it stands and however deep. The
end of an expression can be exchanged for another one.
-/
namespace PathTemplate.Expression

open Matching

/-- Wherever the text stands and is read, `Q` holds. -/
def Shows (a : Bool) (t : Text) (Q : Prop) : Prop :=
  ∀ (b : Builder) (u : Text), b.Quiet a → Readable .path b (t ++ u) → Q

def ShowsInside (a : Bool) (t : Text) (Q : Prop) : Prop :=
  ∀ (b : Builder) (u : Text), b.Quiet a → b.frame.branch = {} → Seam u →
    Readable .path b (t ++ u) → Q

variable {a : Bool} {t : Text} {Q : Prop}

theorem Flat.showsInside (ht : Flat t) : ShowsInside a t (HasContent a t) :=
  fun _ _ hb hf hu hr => ht.hasContent hb hf hu hr

/-- An opening parenthesis leads to the inside. -/
private theorem ShowsInside.opened (h : ShowsInside a t Q) {pre : Text} {o : Opening}
    (hlex : ∀ u, lexeme .path (pre ++ (t ++ ')' :: u)) = some (.opening o, t ++ ')' :: u))
    (hopen : ∀ b c : Builder, b.openGroup .path o = some c → ∃ k i, c = b.inside o k i) :
    Shows a (pre ++ (t ++ [')'])) Q := by
  intro b u hb hr
  have htext : pre ++ (t ++ [')']) ++ u = pre ++ (t ++ ')' :: u) := by simp
  rw [htext] at hr
  obtain ⟨c, hc, hinside⟩ := hr.step (hlex u)
  have hstep : b.step .path (.opening o) = b.openGroup .path o := by
    simp [Builder.step, hb.comment]
  obtain ⟨k, i, rfl⟩ := hopen b c (hstep.symm.trans hc)
  exact h _ (')' :: u) (hb.inside o k i) rfl (seam_close u) hinside

namespace Shows

theorem inside (h : Shows a t Q) : ShowsInside a t Q := fun b u hb _ _ hr => h b u hb hr

theorem append (h : Shows a t Q) (v : Text) : Shows a (t ++ v) Q := by
  intro b u hb hr
  rw [List.append_assoc] at hr
  exact h b (v ++ u) hb hr

/-- What is read in front of the text hides nothing. -/
theorem behind (h : Shows a t Q) {pre : Text} {deep k : Nat} {is : Nat → List Item}
    (hpre : Writes .path a deep pre k is) : Shows a (pre ++ t) Q := by
  intro b u hb hr
  rw [List.append_assoc] at hr
  obtain ⟨c, hc⟩ := hr
  exact h _ u (hb.grow _ _) ⟨c, (hpre b (t ++ u) hb (.inr ⟨c, hc⟩)).rest hc⟩

theorem and {R : Prop} (h : Shows a t Q) (h' : Shows a t R) : Shows a t (Q ∧ R) :=
  fun b u hb hr => ⟨h b u hb hr, h' b u hb hr⟩

theorem imp {R : Prop} (h : Shows a t Q) (hR : Q → R) : Shows a t R :=
  fun b u hb hr => hR (h b u hb hr)

end Shows

theorem ShowsInside.bundled (h : ShowsInside a t Q) : Shows a (bundled t) Q := by
  rw [Matching.bundled, List.append_assoc]
  have hopen : ∀ b c : Builder, b.openGroup .path (.plain []) = some c →
      ∃ k i, c = b.inside (.plain []) k i := by
    intro b c hc
    rw [Builder.openGroup, Option.ite_none_left_eq_some] at hc
    exact ⟨0, none, (Option.some.inj hc.2).symm⟩
  exact h.opened (fun _ => rfl) hopen

theorem ShowsInside.parenthesized (h : ShowsInside a t Q) (ht : t.head? ≠ some '?') :
    Shows a (parenthesized t) Q := by
  have hlex : ∀ u, lexeme .path (['('] ++ (t ++ ')' :: u)) =
      some (.opening .capture, t ++ ')' :: u) := by
    intro u
    cases t with
    | nil => exact opening_capture .path (c := ')') (by decide) u
    | cons e t => exact opening_capture .path (fun he => ht (by rw [he]; rfl)) _
  have hopen : ∀ b c : Builder, b.openGroup .path .capture = some c →
      ∃ k i, c = b.inside .capture k i := by
    intro b c hc
    rw [Builder.openGroup, Option.ite_none_left_eq_some] at hc
    exact ⟨1, some (b.groups + 1), (Option.some.inj hc.2).symm⟩
  exact h.opened hlex hopen

end PathTemplate.Expression

namespace PathTemplate.Matching

open Expression

variable {a : Bool} {o : Options} {p : Parameter}

theorem showsInside_valueSource (hp : Flat p.pattern) :
    ShowsInside a (valueSource p) (HasContent a p.pattern) := by
  rw [valueSource]
  split
  · exact ((hp.showsInside.bundled.append _).append _).inside
  · exact hp.showsInside

/-- A parameter that is read tells of its pattern. -/
theorem shows_parameterSource (hp : Flat p.pattern) (hhead : p.pattern.head? ≠ some '?') :
    Shows a (parameterSource p) (HasContent a p.pattern) := by
  have hgroup : Shows a (parenthesized (valueSource p)) (HasContent a p.pattern) :=
    (showsInside_valueSource hp).parenthesized (head_valueSource hhead)
  have hled : ∀ c, Shows a (Quoting.char c ++ parenthesized (valueSource p))
      (HasContent a p.pattern) := fun c => hgroup.behind (writes_char a c)
  rw [parameterSource]
  cases p.optional <;> cases p.lead with
  | none =>
    first
      | exact hgroup
      | exact hgroup.append ['?']
  | some c =>
    first
      | exact hled c
      | exact (hled c).inside.bundled.append ['?']

/-- Tokens that are read tell of all their patterns. -/
theorem shows_tokens {ts : List Token}
    (h : ∀ p, .parameter p ∈ ts → Flat p.pattern ∧ p.pattern.head? ≠ some '?') :
    Shows a (ts.flatMap tokenSource) (∀ p, .parameter p ∈ ts → HasContent a p.pattern) := by
  induction ts with
  | nil => exact fun _ _ _ _ => nofun
  | cons t ts ih =>
    have hrest := ih fun p hp => h p (List.mem_cons_of_mem t hp)
    rw [List.flatMap_cons]
    cases t with
    | literal t =>
      refine (hrest.behind (writes_literal a t)).imp fun hts p hp => ?_
      exact hts p (by simpa using hp)
    | parameter q =>
      obtain ⟨hflat, hhead⟩ := h q List.mem_cons_self
      have hq := writes_parameterSource a (p := q) ⟨encloses_bodyContent a hflat,
        hflat.isSettled_bodyContent a, hhead⟩
      refine (((shows_parameterSource hflat hhead).append _).and (hrest.behind hq)).imp ?_
      rintro ⟨hfirst, hts⟩ p hp
      rcases List.mem_cons.mp hp with heq | hp
      · rwa [Token.parameter.inj heq]
      · exact hts p hp

/-- The patterns of tokens that are compiled need no room to be read. -/
theorem embeds_of_ofTokens {ts : List Token} {m : Matcher}
    (h : ∀ p, .parameter p ∈ ts → Flat p.pattern ∧ p.pattern.head? ≠ some '?')
    (hm : Matcher.ofTokens o ts = .ok m) :
    ∀ p, .parameter p ∈ ts → Embeds (!o.sensitive) 0 p := by
  obtain ⟨-, -, hread⟩ := read_of_build hm
  obtain ⟨b, hb⟩ := readable_of_read (isSome_read hread)
  have hstart : Writes .path (!o.sensitive) 0 (if o.fromStart then ['^'] else []) 0
      fun _ => if o.fromStart then [checkItem .path .textStart] else [] := by
    split
    · exact writes_caret .path _
    · exact Writes.nil
  have hshows : Shows (!o.sensitive) (tokensSource o ts)
      (∀ p, .parameter p ∈ ts → HasContent (!o.sensitive) p.pattern) :=
    ((shows_tokens h).behind hstart).append _
  have hcontents := hshows _ [] (quiet_flaggedInit _) (by
    rw [List.append_nil]
    exact ⟨b, (reads_flag o _).rest hb⟩)
  exact fun p hp =>
    ⟨(hcontents p hp).encloses, (h p hp).1.isSettled_bodyContent _, (h p hp).2⟩

end PathTemplate.Matching

namespace PathTemplate.Rendering

open Expression Matching

/-- The patterns of a template that a renderer accepts and that is compiled need no room to be
read. -/
theorem embeds_of_matcher {o : Options} {t : Text} {r : Renderer} {m : Matcher}
    (h : Renderer.compile o t = .ok r) (hclear : ClearPatterns (Template.tokens o t))
    (hm : Matcher.compile o (.template t) = .ok m) :
    ∀ p, .parameter p ∈ Template.tokens o t → Embeds (!o.sensitive) 0 p := by
  refine embeds_of_ofTokens (fun p hp => ?_) hm
  obtain ⟨c, hc, -⟩ := exists_validator_of_compile h hp
  exact ⟨flat_of_validator (Template.parenless_pattern hp) (hclear p hp) hc, head_of_validator hc⟩

end PathTemplate.Rendering
