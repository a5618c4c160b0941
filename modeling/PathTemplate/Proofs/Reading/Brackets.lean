import PathTemplate.Proofs.Reading.Readers

/-!
Sets in brackets settle at their closing bracket: nothing that follows it changes what is read.
-/
namespace PathTemplate.Expression.Bracket

/-! ### Items and ranges -/

theorem settles_item (d : Dialect) : Settles (fun v => v ≠ [] ∧ Whole v) (item d) := by
  intro t i r h
  unfold item at h
  split at h
  case _ => cases h
  case _ t =>
    have hescape : ∃ x, escape d true t = some (x, r) ∧
        ∀ u v, escape d true u = some (x, v) → item d ('\\' :: u) = some (i, v) := by
      split at h
      case _ heq =>
        obtain ⟨rfl, rfl⟩ := Prod.mk.inj (Option.some.inj h)
        exact ⟨_, heq, fun u v hu => by rw [item, hu]⟩
      case _ heq =>
        obtain ⟨rfl, rfl⟩ := Prod.mk.inj (Option.some.inj h)
        exact ⟨_, heq, fun u v hu => by rw [item, hu]⟩
      case _ => cases h
    obtain ⟨x, hx, hitem⟩ := hescape
    obtain ⟨v, rfl, hv, hsettled⟩ := settles_escape_bracketed d _ _ _ hx
    exact ⟨'\\' :: v, rfl, ⟨by simp, hv⟩, fun u => hitem _ u (hsettled u)⟩
  case _ c t hc =>
    obtain ⟨rfl, rfl⟩ := Prod.mk.inj (Option.some.inj h)
    have hne : c ≠ '\\' := hc
    refine ⟨[c], rfl, ⟨by simp, .bare hne .nil⟩, ?_⟩
    intro u
    rw [List.singleton_append, item]
    exact hne

theorem joinsRange_pair (a b : Char) (t : Text) :
    joinsRange (a :: b :: t) = (a == '-' && b != ']' && b != '-') := by
  unfold joinsRange
  split
  case _ heq =>
    rw [List.cons.injEq, List.cons.injEq] at heq
    simp [heq.1, heq.2.1]
  case _ heq =>
    rw [List.cons.injEq, List.cons.injEq] at heq
    simp [heq.1, heq.2.1]
  case _ hbracket hhyphen heq =>
    rw [List.cons.injEq, List.cons.injEq] at heq
    obtain ⟨rfl, rfl, -⟩ := heq
    have h1 : b ≠ ']' := hbracket
    have h2 : b ≠ '-' := hhyphen
    simp [h1, h2]
  case _ hother =>
    have ha : a ≠ '-' := fun ha => hother b t (by rw [ha])
    simp [ha]

/-- Whether a hyphen joins a range is seen before the closing bracket is passed. -/
theorem joinsRange_closed (w t u : Text) :
    joinsRange (w ++ ']' :: t) = joinsRange (w ++ ']' :: u) := by
  cases w with
  | nil => rfl
  | cons a w =>
    cases w with
    | nil => exact (joinsRange_pair a ']' t).trans (joinsRange_pair a ']' u).symm
    | cons b w => exact (joinsRange_pair a b _).trans (joinsRange_pair a b _).symm

theorem joinsRange_cons {t : Text} (h : joinsRange t = true) : t = '-' :: t.tail := by
  unfold joinsRange at h
  split at h
  · cases h
  · cases h
  · rfl
  · cases h

private theorem rangeOrItem_settles {d : Dialect} {t : Text} {s : CharSet} {w r : Text}
    (h : rangeOrItem d t = some (s, w ++ ']' :: r)) :
    ∃ v, t = v ++ (w ++ ']' :: r) ∧ v ≠ [] ∧ Whole v ∧
      ∀ u, rangeOrItem d (v ++ (w ++ ']' :: u)) = some (s, w ++ ']' :: u) := by
  simp only [rangeOrItem, Option.bind_eq_bind, Option.bind_eq_some_iff, Prod.exists] at h
  obtain ⟨a, q, hitem, h⟩ := h
  obtain ⟨v, rfl, ⟨hne, hv⟩, hsettled⟩ := settles_item d _ _ _ hitem
  split at h
  case isTrue hjoins =>
    rw [Option.bind_eq_some_iff] at h
    obtain ⟨⟨b, q'⟩, hitem', h⟩ := h
    have hq : q = '-' :: q.tail := joinsRange_cons hjoins
    obtain ⟨v', hv', ⟨hne', hwhole'⟩, hsettled'⟩ := settles_item d _ _ _ hitem'
    obtain ⟨s', hs, heq⟩ := Option.map_eq_some_iff.mp h
    obtain ⟨rfl, rfl⟩ := Prod.mk.inj heq
    refine ⟨v ++ '-' :: v', ?_, by simp, hv.append (.bare (by decide) hwhole'), ?_⟩
    · rw [hq, hv']
      simp
    · intro u
      have hjoins' : joinsRange ('-' :: (v' ++ (w ++ ']' :: u))) = true := by
        rw [← hjoins, hq, hv']
        obtain ⟨e, v', rfl⟩ := List.exists_cons_of_ne_nil hne'
        exact (joinsRange_pair '-' e _).trans (joinsRange_pair '-' e _).symm
      have htext : v ++ '-' :: v' ++ (w ++ ']' :: u) = v ++ ('-' :: (v' ++ (w ++ ']' :: u))) := by
        simp
      rw [htext, rangeOrItem, Option.bind_eq_bind, hsettled, Option.bind_some]
      simp only [hjoins', if_true, List.tail_cons, hsettled', Option.bind_some, hs,
        Option.map_some]
  case isFalse hjoins =>
    obtain ⟨rfl, rfl⟩ := Prod.mk.inj (Option.some.inj h)
    refine ⟨v, rfl, hne, hv, ?_⟩
    intro u
    have hjoins' : ¬ joinsRange (w ++ ']' :: u) = true := by
      rw [joinsRange_closed w u r]
      exact hjoins
    rw [rangeOrItem, Option.bind_eq_bind, hsettled, Option.bind_some]
    simp only [hjoins']
    rfl

/-! ### Classes by name -/

theorem not_mem_of_asciiClass? {name : Text} {s : CharSet} (h : asciiClass? name = some s) :
    ∀ c ∈ name, c ≠ '\\' ∧ c ≠ ']' := by
  obtain ⟨e, he, -⟩ := Option.map_eq_some_iff.mp h
  have hname : e.1.toList = name := by simpa using List.find?_some he
  have hall : namedClasses.all (·.1.toList.all fun c => c != '\\' && c != ']') = true := by decide
  intro c hc
  rw [← hname] at hc
  have hclass := List.all_eq_true.mp hall e (List.mem_of_find?_eq_some he)
  simpa using List.all_eq_true.mp hclass c hc

def Bracketed (v : Text) : Prop := Whole v ∧ ∃ u, v = u ++ [']'] ∧ ']' ∉ u

theorem settles_className : Settles Bracketed className := by
  intro t s r h
  unfold className at h
  cases hspan : t.span (· != ':') with
  | mk name q =>
    obtain ⟨rfl, hname, -⟩ := span_inv hspan
    rw [hspan] at h
    split at h
    case _ name r' heq =>
      obtain ⟨rfl, rfl⟩ := Prod.mk.inj heq
      obtain ⟨s', hs, heq⟩ := Option.map_eq_some_iff.mp h
      obtain ⟨rfl, rfl⟩ := Prod.mk.inj heq
      have hbare := not_mem_of_asciiClass? hs
      refine ⟨name ++ [':', ']'], by simp, ⟨?_, name ++ [':'], by simp, ?_⟩, ?_⟩
      · exact (whole_of_bare fun c hc => (hbare c hc).1).append
          (.bare (by decide) (.bare (by decide) .nil))
      · intro hmem
        rcases List.mem_append.mp hmem with hmem | hmem
        · exact (hbare _ hmem).2 rfl
        · simp at hmem
      · intro u
        have htext : name ++ [':', ']'] ++ u = name ++ ':' :: ']' :: u := by simp
        rw [className, htext, span_stop hname (by decide)]
        simp [hs]
    case _ => cases h

theorem settles_namedClass : Settles Bracketed namedClass := by
  intro t s r h
  unfold namedClass at h
  split at h
  case _ t =>
    refine settles_className.behind .compl [':', '^'] (fun _ => rfl) ?_ h
    intro v hv
    obtain ⟨hwhole, u, rfl, hu⟩ := hv
    exact ⟨.bare (by decide) (.bare (by decide) hwhole), ':' :: '^' :: u, rfl, by simp [hu]⟩
  case _ t hcaret =>
    obtain ⟨v, rfl, ⟨hwhole, w, rfl, hw⟩, hsettled⟩ := settles_className _ _ _ h
    refine ⟨':' :: (w ++ [']']), rfl, ⟨.bare (by decide) hwhole, ':' :: w, rfl, by simp [hw]⟩, ?_⟩
    intro u
    rw [List.cons_append, namedClass]
    · exact hsettled u
    · intro q hq
      cases w with
      | nil => simp at hq
      | cons e w =>
        rw [List.cons_append, List.cons_append] at hq
        exact hcaret (w ++ [']'] ++ r) (by rw [(List.cons.inj hq).1]; simp)
  case _ => cases h

/-- Whether a name starts here is seen before a closing bracket is passed. -/
theorem namedClass_eq_none {x y : Text} (h : namedClass (x ++ ']' :: y) = none) (y' : Text) :
    namedClass (x ++ ']' :: y') = none := by
  cases hread : namedClass (x ++ ']' :: y') with
  | none => rfl
  | some p =>
    obtain ⟨v, htext, ⟨-, u, rfl, hu⟩, hsettled⟩ := settles_namedClass _ p.1 p.2 hread
    have hprefix : ∃ z, x ++ [']'] = u ++ [']'] ++ z := by
      have heq : x ++ [']'] ++ y' = u ++ [']'] ++ p.2 := by simpa using htext
      rcases List.append_eq_append_iff.mp heq with ⟨z, hz, -⟩ | ⟨z, hz, -⟩
      · rcases List.eq_nil_or_concat z with rfl | ⟨z, c, rfl⟩
        · exact ⟨[], by simpa using hz.symm⟩
        · rw [List.concat_eq_append, ← List.append_assoc] at hz
          have hz' : u = x ++ [']'] ++ z := List.append_inj_left' hz rfl
          exact absurd (by simp [hz']) hu
      · exact ⟨z, hz⟩
    obtain ⟨z, hz⟩ := hprefix
    have hsome := hsettled (z ++ y)
    have hsame : u ++ [']'] ++ (z ++ y) = x ++ ']' :: y := by
      rw [← List.append_assoc, ← hz]
      simp
    rw [hsame, h] at hsome
    cases hsome

/-! ### Whole sets -/

/-- What stands first does not change behind a closing bracket. -/
private theorem head_closed {x q u : Text} {c : Char} (h : x ++ ']' :: u = c :: q) (r : Text) :
    ∃ q', x ++ ']' :: r = c :: q' := by
  cases x with
  | nil => exact ⟨r, by rw [← (List.cons.inj h).1]; rfl⟩
  | cons e x => exact ⟨x ++ ']' :: r, by rw [← (List.cons.inj h).1]; rfl⟩

theorem leadingHyphens_cons {p : Draft} {c : Char} (hc : c ≠ '-') (t : Text) :
    leadingHyphens p (c :: t) = (p, c :: t) := by
  rw [leadingHyphens]
  intro r hr
  exact hc (List.cons.inj hr).1

/-- Hyphens are taken up to a character that is none. -/
private theorem leadingHyphens_settles {p q : Draft} {t w r : Text}
    (h : leadingHyphens p t = (q, w ++ ']' :: r)) :
    ∃ v, t = v ++ (w ++ ']' :: r) ∧ Whole v ∧
      ∀ u, leadingHyphens p (v ++ (w ++ ']' :: u)) = (q, w ++ ']' :: u) := by
  induction t generalizing p with
  | nil =>
    rw [leadingHyphens] at h
    · simp at h
    · simp
  | cons c t ih =>
    by_cases hc : c = '-'
    · subst hc
      obtain ⟨v, rfl, hv, hsettled⟩ := ih h
      exact ⟨'-' :: v, rfl, .bare (by decide) hv, hsettled⟩
    · rw [leadingHyphens_cons hc] at h
      obtain ⟨rfl, ht⟩ := Prod.mk.inj h
      refine ⟨[], ht, .nil, ?_⟩
      intro u
      cases w with
      | nil => rfl
      | cons e w =>
        obtain ⟨rfl, -⟩ := List.cons.inj ht
        exact leadingHyphens_cons hc _

private theorem first_settles {p q : Draft} {t w r : Text}
    (h : first p t = (q, w ++ ']' :: r)) :
    ∃ v, t = v ++ (w ++ ']' :: r) ∧ Whole v ∧
      ∀ u, first p (v ++ (w ++ ']' :: u)) = (q, w ++ ']' :: u) := by
  unfold first at h
  split at h
  case _ t =>
    obtain ⟨rfl, rfl⟩ := Prod.mk.inj h
    exact ⟨[']'], rfl, .bare (by decide) .nil, fun _ => rfl⟩
  case _ hbracket =>
    obtain ⟨v, rfl, hv, hsettled⟩ := leadingHyphens_settles h
    refine ⟨v, rfl, hv, ?_⟩
    intro u
    rw [first]
    · exact hsettled u
    · intro q hq
      rw [← List.append_assoc] at hq hbracket
      obtain ⟨q', hq'⟩ := head_closed hq r
      exact hbracket q' hq'

private theorem start_settles {q : Draft} {t w r : Text} (h : start t = (q, w ++ ']' :: r)) :
    ∃ v, t = v ++ (w ++ ']' :: r) ∧ Whole v ∧
      ∀ u, start (v ++ (w ++ ']' :: u)) = (q, w ++ ']' :: u) := by
  unfold start at h
  split at h
  case _ t =>
    obtain ⟨v, rfl, hv, hsettled⟩ := first_settles h
    exact ⟨'^' :: v, rfl, .bare (by decide) hv, hsettled⟩
  case _ hcaret =>
    obtain ⟨v, rfl, hv, hsettled⟩ := first_settles h
    refine ⟨v, rfl, hv, ?_⟩
    intro u
    rw [start]
    · exact hsettled u
    · intro q hq
      rw [← List.append_assoc] at hq hcaret
      obtain ⟨q', hq'⟩ := head_closed hq r
      exact hcaret q' hq'

/-- The text is read to a closing bracket, whatever is left behind it: reading needs no more steps
than it takes characters. -/
private def Closes {α : Type} (f : Nat → Text → Option (α × Text)) (t : Text) (a : α) (r : Text) :
    Prop :=
  ∃ v, t = v ++ ']' :: r ∧ Whole v ∧ ∀ m u, v.length < m → f m (v ++ ']' :: u) = some (a, u)

/-- One step of reading, and the steps behind it. -/
private theorem Closes.step {α : Type} {f g : Nat → Text → Option (α × Text)} {t r : Text} {a : α}
    (k : α → α) (pre : Text) (hrest : Closes g t a r) (hpre : Whole pre) (hne : pre ≠ [])
    (hstep : ∀ v, t = v ++ ']' :: r → ∀ m u, pre.length ≤ m →
      f (m + 1) (pre ++ (v ++ ']' :: u)) = (g m (v ++ ']' :: u)).map fun p => (k p.1, p.2)) :
    Closes f (pre ++ t) (k a) r := by
  obtain ⟨v, rfl, hv, hread⟩ := hrest
  refine ⟨pre ++ v, by rw [List.append_assoc], hpre.append hv, ?_⟩
  intro m u hm
  have hpos := List.length_pos_iff.mpr hne
  rw [List.length_append] at hm
  obtain ⟨m, rfl⟩ : ∃ k, m = k + 1 := ⟨m - 1, by omega⟩
  rw [List.append_assoc, hstep v rfl m u (by omega), hread m u (by omega)]
  rfl

/-- A closing bracket that ends the reading. -/
private theorem Closes.bracket {α : Type} {f : Nat → Text → Option (α × Text)} {a : α}
    (hf : ∀ m u, f (m + 1) (']' :: u) = some (a, u)) {r : Text} : Closes f (']' :: r) a r := by
  refine ⟨[], rfl, .nil, ?_⟩
  intro m u hm
  obtain ⟨m, rfl⟩ : ∃ k, m = k + 1 := ⟨m - 1, by simp at hm; omega⟩
  exact hf m u

private def ClosesSet (d : Dialect) (p : Draft) : Text → CharSet → Text → Prop :=
  Closes fun m t => body d m p t

section Steps

variable {d : Dialect} {p q : Draft} {s s' : CharSet} {t r r' : Text}

private theorem ClosesSet.step (pre : Text) (hrest : ClosesSet d q t s r) (hpre : Whole pre)
    (hne : pre ≠ [])
    (hstep : ∀ v, t = v ++ ']' :: r → ∀ m u, pre.length ≤ m →
      body d (m + 1) p (pre ++ (v ++ ']' :: u)) = body d m q (v ++ ']' :: u)) :
    ClosesSet d p (pre ++ t) s r := by
  refine Closes.step id pre hrest hpre hne ?_
  intro v hv m u hm
  exact (hstep v hv m u hm).trans Option.map_id'.symm

private theorem ClosesSet.named (hnamed : namedClass t = some (s', r'))
    (hrest : ClosesSet d (p.add s') r' s r) : ClosesSet d p ('[' :: t) s r := by
  obtain ⟨v, rfl, ⟨hv, -⟩, hsettled⟩ := settles_namedClass _ _ _ hnamed
  refine hrest.step ('[' :: v) (.bare (by decide) hv) (by simp) ?_
  intro w _ m u _
  rw [List.cons_append, body]
  simp only [hsettled]

/-- A set inside a set. Its closing bracket bounds what the search for a name may look at. -/
private theorem ClosesSet.nested (hnamed : namedClass t = none) {t' : Text}
    (hstart : start t = (q, t')) (hset : ClosesSet d q t' s' r')
    (hrest : ClosesSet d (p.add s') r' s r) : ClosesSet d p ('[' :: t) s r := by
  obtain ⟨v, rfl, hv, hset⟩ := hset
  obtain ⟨v', rfl, hv', hstart⟩ := start_settles hstart
  have htext : ∀ y, '[' :: (v' ++ (v ++ ']' :: y)) = '[' :: (v' ++ v ++ [']']) ++ y := by simp
  rw [htext]
  refine hrest.step ('[' :: (v' ++ v ++ [']'])) ?_ (by simp) ?_
  · exact .bare (by decide) ((hv'.append hv).append (.bare (by decide) .nil))
  · intro w _ m u hm
    have hnone : namedClass (v' ++ (v ++ ']' :: (w ++ ']' :: u))) = none := by
      rw [← List.append_assoc] at hnamed ⊢
      exact namedClass_eq_none hnamed _
    have hlen : v.length < m := by
      simp only [List.length_cons, List.length_append] at hm
      omega
    rw [← htext, body]
    simp only [hnone, hstart, hset m _ hlen]

/-- An item or a range, where neither the bracket closes nor an operator stands nor a set opens. -/
private theorem ClosesSet.item {c : Char} (hitem : rangeOrItem d (c :: t) = some (s', r'))
    (hclose : c ≠ ']') (hopen : c ≠ '[')
    (hoperator : ∀ x ∈ ['&', '-', '~'], ∀ y, c = x → t ≠ x :: y)
    (hrest : ClosesSet d (p.add s') r' s r) : ClosesSet d p (c :: t) s r := by
  obtain ⟨w, rfl, hw, hread⟩ := hrest
  obtain ⟨v, hv, hne, hwhole, hsettled⟩ := rangeOrItem_settles hitem
  obtain ⟨e, v, rfl⟩ := List.exists_cons_of_ne_nil hne
  obtain ⟨he, ht⟩ := List.cons.inj hv
  obtain rfl : c = e := he
  obtain rfl : t = v ++ (w ++ ']' :: r) := ht
  rw [← List.cons_append]
  refine ClosesSet.step (c :: v) ⟨w, rfl, hw, hread⟩ hwhole (by simp) ?_
  intro w' hw' m u _
  obtain rfl : w = w' := (List.append_inj_left' hw' rfl)
  -- an operator would be there whatever follows the bracket
  have hsame : ∀ x ∈ ['&', '-', '~'], ∀ y, c = x → v ++ (w ++ ']' :: u) = x :: y → False := by
    intro x hx y hc hy
    rw [← List.append_assoc] at hy
    obtain ⟨z, hz⟩ := head_closed hy r
    exact hoperator x hx z hc (by rw [← List.append_assoc]; exact hz)
  have hsettled' := hsettled u
  rw [List.cons_append] at hsettled' ⊢
  rw [body]
  · rw [hsettled']
  · exact hclose
  · exact hsame '&' (by simp)
  · exact hsame '-' (by simp)
  · exact hsame '~' (by simp)
  · exact hopen

end Steps

/-- A set that is read to its closing bracket is read alike whatever follows the bracket. -/
private theorem body_settles {d : Dialect} (n : Nat) {p : Draft} {t : Text} {s : CharSet} {r : Text}
    (h : body d n p t = some (s, r)) : ClosesSet d p t s r := by
  induction n generalizing p t s r with
  | zero => cases h
  | succ n ih =>
    have hpair : ∀ c, c ≠ '\\' → Whole [c, c] := fun c hc => .bare hc (.bare hc .nil)
    unfold body at h
    split at h
    case _ => cases h
    case _ => cases h
    case _ =>
      obtain ⟨rfl, rfl⟩ := Prod.mk.inj (Option.some.inj h)
      exact Closes.bracket fun _ _ => rfl
    case _ k q hk =>
      obtain rfl : n = k := Nat.succ.inj hk
      exact (ih h).step ['&', '&'] (hpair _ (by decide)) (by simp) fun _ _ _ _ _ => rfl
    case _ k q hk =>
      obtain rfl : n = k := Nat.succ.inj hk
      exact (ih h).step ['-', '-'] (hpair _ (by decide)) (by simp) fun _ _ _ _ _ => rfl
    case _ k q hk =>
      obtain rfl : n = k := Nat.succ.inj hk
      exact (ih h).step ['~', '~'] (hpair _ (by decide)) (by simp) fun _ _ _ _ _ => rfl
    case _ k q hk =>
      obtain rfl : n = k := Nat.succ.inj hk
      split at h
      case _ s' r' hnamed => exact (ih h).named hnamed
      case _ hnamed =>
        cases hstart : start q with
        | mk p' q' =>
          simp only [hstart] at h
          split at h
          case _ s' r' hset => exact .nested hnamed hstart (ih hset) (ih h)
          case _ => cases h
    case _ k c q hclose hinter hdiff hsymm hopen hk =>
      obtain rfl : n = k := Nat.succ.inj hk
      split at h
      case _ s' r' hitem =>
        refine .item hitem hclose hopen ?_ (ih h)
        intro x hx y hc hq
        simp only [List.mem_cons, List.not_mem_nil, or_false] at hx
        rcases hx with rfl | rfl | rfl
        · exact hinter y hc hq
        · exact hdiff y hc hq
        · exact hsymm y hc hq
      case _ => cases h

/-- Reading a set settles at its closing bracket. -/
theorem settles_read (d : Dialect) :
    Settles (fun v => Whole v ∧ ∃ w, v = w ++ [']']) (read d) := by
  intro t s r h
  cases hstart : start t with
  | mk p q =>
    simp only [read, hstart] at h
    obtain ⟨v, rfl, hv, hread⟩ := body_settles _ h
    obtain ⟨v', rfl, hv', hstart'⟩ := start_settles hstart
    have htext : ∀ y, v' ++ (v ++ ']' :: y) = v' ++ v ++ [']'] ++ y := by simp
    refine ⟨v' ++ v ++ [']'], htext r, ⟨?_, v' ++ v, rfl⟩, ?_⟩
    · exact (hv'.append hv).append (.bare (by decide) .nil)
    · intro u
      rw [← htext, read, hstart']
      refine hread _ u ?_
      simp only [List.length_append, List.length_cons]
      omega

/-! ### Sets that are read -/

private theorem isSpelled_finish {p : Draft} (h : p.items.isSpelled = false) :
    p.finish.isSpelled = false := by
  obtain ⟨negated, pending, items⟩ := p
  cases negated with
  | true => rfl
  | false =>
    cases pending with
    | none => exact h
    | some a =>
      obtain ⟨a, op⟩ := a
      cases op <;> rfl

private theorem isSpelled_start (t : Text) : (start t).1.items.isSpelled = false := by
  have hhyphens : ∀ (t : Text) (p : Draft), p.items.isSpelled = false →
      (leadingHyphens p t).1.items.isSpelled = false := by
    intro t
    induction t with
    | nil => exact fun p hp => hp
    | cons c t ih =>
      intro p hp
      unfold leadingHyphens
      split
      case _ r heq =>
        obtain ⟨-, rfl⟩ := List.cons.inj heq
        exact ih _ rfl
      case _ => exact hp
  have hfirst : ∀ (t : Text) (p : Draft), p.items.isSpelled = false →
      (first p t).1.items.isSpelled = false := by
    intro t p hp
    unfold first
    split
    · rfl
    · exact hhyphens _ p hp
  unfold start
  split <;> exact hfirst _ _ rfl

private theorem isSpelled_body {d : Dialect} {n : Nat} {p : Draft} {t r : Text} {s : CharSet}
    (hp : p.items.isSpelled = false) (h : body d n p t = some (s, r)) : s.isSpelled = false := by
  fun_induction body d n p t with
  | case1 | case2 | case9 | case11 => cases h
  | case3 =>
    obtain ⟨rfl, -⟩ := Prod.mk.inj (Option.some.inj h)
    exact isSpelled_finish hp
  | case4 _ _ _ ih | case5 _ _ _ ih | case6 _ _ _ ih => exact ih rfl h
  | case7 _ _ _ _ _ _ ih => exact ih rfl h
  | case8 _ _ _ _ _ _ _ _ _ _ _ ih => exact ih rfl h
  | case10 _ _ _ _ _ _ _ _ _ _ _ _ ih => exact ih rfl h

/-- A set that is read is known. -/
theorem isSpelled_read {d : Dialect} {t r : Text} {s : CharSet} (h : read d t = some (s, r)) :
    s.isSpelled = false := isSpelled_body (isSpelled_start t) h

/-! ### Sets by their spelling -/

theorem settles_escaped : Settles Completes escaped := by
  intro t w r h
  unfold escaped at h
  split at h
  case _ hread =>
    obtain ⟨rfl, rfl⟩ := Prod.mk.inj (Option.some.inj h)
    obtain ⟨v, rfl, hv, hsettled⟩ := settles_escape_bracketed .path _ _ _ hread
    exact ⟨v, rfl, hv, fun u => by rw [escaped, hsettled]⟩
  case _ hread =>
    obtain ⟨rfl, rfl⟩ := Prod.mk.inj (Option.some.inj h)
    obtain ⟨v, rfl, hv, hsettled⟩ := settles_escape_bracketed .path _ _ _ hread
    exact ⟨v, rfl, hv, fun u => by rw [escaped, hsettled]; simp only [upTo_append]⟩
  case _ => cases h

/-- What stands in front of a closing bracket stands there whatever follows the bracket. -/
private theorem front_closed {v w u y : Text} (hw : ']' ∉ w) (h : v ++ ']' :: u = w ++ y)
    (r : Text) : ∃ z, v ++ ']' :: r = w ++ z := by
  rcases List.append_eq_append_iff.mp h with ⟨x, rfl, hx⟩ | ⟨x, rfl, -⟩
  · cases x with
    | nil => exact ⟨']' :: r, by rw [List.append_nil]⟩
    | cons e x => exact absurd (by rw [(List.cons.inj hx).1]; simp) hw
  · exact ⟨x ++ ']' :: r, List.append_assoc _ _ _⟩

/-- Text that is handed on in front of what is cut behind it. -/
private theorem Closes.handedOn {n deep deep' : Nat} {q r w : Text} (f : Text → Text) (pre : Text)
    (hcloses : ∀ {v}, spellFrom n deep' q = some (v, r) →
      Closes (fun m t => spellFrom m deep' t) q v r)
    (h : (spellFrom n deep' q).map (fun p => (f p.1, p.2)) = some (w, r)) (hpre : Whole pre)
    (hne : pre ≠ []) (hread : ∀ v, q = v ++ ']' :: r → ∀ m u,
      spellFrom (m + 1) deep (pre ++ (v ++ ']' :: u)) =
        (spellFrom m deep' (v ++ ']' :: u)).map fun p => (f p.1, p.2)) :
    Closes (fun m t => spellFrom m deep t) (pre ++ q) w r := by
  obtain ⟨p, hp, heq⟩ := Option.map_eq_some_iff.mp h
  obtain ⟨rfl, rfl⟩ := Prod.mk.inj heq
  exact (hcloses hp).step f pre hpre hne fun v hv m u _ => hread v hv m u

/-- A comment is passed and leaves nothing behind. -/
private theorem Closes.behindComment {deep : Nat} {t q w r : Text}
    (hrest : Closes (fun m t => spellFrom m deep t) q w r) (hskip : skipComment t = some q) :
    Closes (fun m t => spellFrom m deep t) ('(' :: '?' :: '#' :: t) w r := by
  obtain ⟨v, rfl, -, hv, hsettled⟩ := skipComment_settles hskip
  refine hrest.step id ('(' :: '?' :: '#' :: v)
    (.bare (by decide) (.bare (by decide) (.bare (by decide) hv))) (by simp) fun _ _ m u _ => ?_
  rw [List.cons_append, List.cons_append, List.cons_append, spellFrom, hsettled]
  exact Option.map_id'.symm

/-- A set that is cut at a bracket is cut there whatever follows. -/
private theorem spellFrom_settles (n : Nat) {deep : Nat} {t w r : Text}
    (h : spellFrom n deep t = some (w, r)) : Closes (fun m t => spellFrom m deep t) t w r := by
  induction n generalizing deep t w r with
  | zero => cases h
  | succ n ih =>
    unfold spellFrom at h
    split at h
    case _ => cases h
    case _ => cases h
    case _ n' q hn =>
      obtain rfl : n = n' := Nat.succ.inj hn
      split at h
      case _ x q' hread =>
        obtain ⟨v, rfl, hv, hsettled⟩ := settles_escaped _ _ _ hread
        refine .handedOn (x ++ ·) ('\\' :: v) ih h hv (by simp) fun _ _ m u => ?_
        rw [List.cons_append, spellFrom, hsettled]
      case _ => cases h
    case _ n' q hn =>
      obtain rfl : n = n' := Nat.succ.inj hn
      split at h
      case _ q' hskip =>
        exact (ih h).behindComment hskip
      case _ => cases h
    case _ n' q hn =>
      obtain rfl : n = n' := Nat.succ.inj hn
      exact .handedOn ('[' :: ·) ['['] ih h (.bare (by decide) .nil) (by simp) fun _ _ _ _ => rfl
    case _ =>
      obtain ⟨rfl, rfl⟩ := Prod.mk.inj (Option.some.inj h)
      exact .bracket fun _ _ => rfl
    case _ n' deep' q hn =>
      obtain rfl : n = n' := Nat.succ.inj hn
      exact .handedOn (']' :: ·) [']'] ih h (.bare (by decide) .nil) (by simp) fun _ _ _ _ => rfl
    case _ n' c q hbackslash hcomment hopen hn hlast hclose =>
      obtain rfl : n = n' := Nat.succ.inj hn
      refine .handedOn (c :: ·) [c] ih h (.bare hbackslash .nil) (by simp) fun v hv m u => ?_
      -- a comment would begin here whatever follows the bracket
      have hnone : ∀ y, c = '(' → v ++ ']' :: u = '?' :: '#' :: y → False := by
        intro y hc hy
        obtain ⟨z, hz⟩ := front_closed (w := ['?', '#']) (by decide) hy r
        exact hcomment z hc (hv.trans hz)
      rw [List.singleton_append, spellFrom] <;> assumption

/-- What stands for itself at the start is seen before the closing bracket is passed. -/
private theorem lead_settles {x r v q : Text} (h : lead x = (v, q ++ ']' :: r)) :
    x = v ++ (q ++ ']' :: r) ∧ Whole v ∧ ∀ u, lead (v ++ (q ++ ']' :: u)) = (v, q ++ ']' :: u) := by
  unfold lead at h
  split at h
  case _ =>
    obtain ⟨rfl, rfl⟩ := Prod.mk.inj h
    exact ⟨rfl, .bare (by decide) (.bare (by decide) .nil), fun _ => rfl⟩
  case _ =>
    obtain ⟨rfl, rfl⟩ := Prod.mk.inj h
    exact ⟨rfl, .bare (by decide) .nil, fun _ => rfl⟩
  case _ hcaret hbracket =>
    obtain ⟨rfl, rfl⟩ := Prod.mk.inj h
    refine ⟨rfl, .nil, fun u => ?_⟩
    rw [List.nil_append, lead]
    · intro y hy
      cases q with
      | nil => cases hy
      | cons c q =>
        obtain ⟨rfl, hq⟩ := List.cons.inj hy
        obtain ⟨z, hz⟩ := head_closed hq r
        exact hcaret z (by rw [List.cons_append, hz])
    · intro y hy
      obtain ⟨z, hz⟩ := head_closed hy r
      exact hbracket z hz

theorem settles_spell : Settles (fun v => Whole v ∧ ∃ w, v = w ++ [']']) spell := by
  intro t w r h
  cases hlead : lead t with
  | mk v q =>
    simp only [spell, hlead] at h
    obtain ⟨p, hp, heq⟩ := Option.map_eq_some_iff.mp h
    obtain ⟨rfl, rfl⟩ := Prod.mk.inj heq
    obtain ⟨x, rfl, hx, hread⟩ := spellFrom_settles _ hp
    obtain ⟨rfl, hv, hlead'⟩ := lead_settles hlead
    have htext : ∀ y, v ++ (x ++ ']' :: y) = v ++ x ++ [']'] ++ y := by simp
    refine ⟨v ++ x ++ [']'], htext _, ⟨?_, v ++ x, rfl⟩, ?_⟩
    · exact (hv.append hx).append (.bare (by decide) .nil)
    · intro u
      have hlength : x.length < (x ++ ']' :: u).length + 1 := by
        rw [List.length_append]
        omega
      simp only [← htext, spell, hlead', hread _ u hlength, Option.map_some]

/-- A set settles at its closing bracket in both dialects. -/
theorem settles_set (d : Dialect) : Settles (fun v => Whole v ∧ ∃ w, v = w ++ [']']) (set d) := by
  cases d with
  | segment => exact settles_read .segment
  | path =>
    intro t s r h
    obtain ⟨p, hp, heq⟩ := Option.map_eq_some_iff.mp h
    obtain ⟨rfl, rfl⟩ := Prod.mk.inj heq
    obtain ⟨v, rfl, hv, hspell⟩ := settles_spell _ _ _ hp
    refine ⟨v, rfl, hv, fun u => ?_⟩
    simp only [set, hspell, Option.map_some, upTo_append]

/-- A set that is known in paths is what the text says by itself, whatever follows it. -/
theorem read_of_set {t r : Text} {s : CharSet} (h : set .path t = some (s, r))
    (hs : s.isSpelled = false) : ∃ v, t = v ++ r ∧ ∀ u, read .path (v ++ u) = some (s, u) := by
  obtain ⟨p, hp, heq⟩ := Option.map_eq_some_iff.mp h
  obtain ⟨v, rfl, -, -⟩ := settles_spell _ _ _ hp
  rw [upTo_append] at heq
  obtain ⟨hagreed, rfl⟩ := Prod.mk.inj heq
  cases hboth : agreed v p.1 with
  | none =>
    rw [hboth] at hagreed
    rw [← hagreed] at hs
    cases hs
  | some s' =>
    obtain rfl : s' = s := by simpa [hboth] using hagreed
    refine ⟨v, rfl, fun u => ?_⟩
    unfold agreed at hboth
    split at hboth
    case _ s₁ s₂ hread _ =>
      split at hboth
      case isTrue =>
        obtain rfl := Option.some.inj hboth
        obtain ⟨v', hv', -, hsettled⟩ := settles_read .path _ _ _ hread
        rw [List.append_nil] at hv'
        rw [hv']
        exact hsettled u
      case isFalse => cases hboth
    case _ => cases hboth

end PathTemplate.Expression.Bracket
