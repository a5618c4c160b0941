import PathTemplate.Matching.Source
import PathTemplate.Proofs.Groups.Scanning
import PathTemplate.Proofs.Reading.Fragment

/-!
Scans that nothing disturbs: blanks count, and no comment hides what follows. Tame lexemes capture
nothing and keep a scan calm. What they do to the parentheses that wait does not depend on the
scan, until one of them closes a parenthesis that was there before.
-/
namespace PathTemplate.Expression

/-- The lexeme captures nothing, and blanks go on counting. -/
def Lexeme.Tame : Lexeme → Prop
  | .opening .capture => False
  | .opening (.named _) => False
  | .opening (.plain changes) => spacing false changes = false
  | .flags changes => spacing false changes = false
  | _ => True

def Pending.Quiet (p : Pending) : Prop := p.index = none ∧ p.spaced = false

namespace Scan

def Calm (σ : Scan) : Prop := σ.spaced = false ∧ σ.hidden = false

def deeper (σ : Scan) (own : List Pending) : Scan := { σ with pending := own ++ σ.pending }

variable {σ : Scan} {own own' : List Pending}

theorem marked_deeper (hown : ∀ p ∈ own, p.Quiet) (own' : List Pending) (k : Nat) :
    (σ.deeper own).marked (σ.deeper own') k = [] := by
  have hgroups : ¬ (σ.deeper own).groups < (σ.deeper own').groups := Nat.lt_irrefl _
  rw [marked, if_neg hgroups]
  split
  case isTrue hclose =>
    cases own with
    | nil =>
      simp only [deeper, List.nil_append, List.length_append] at hclose
      omega
    | cons p ps =>
      have hindex := (hown p List.mem_cons_self).1
      simp [deeper, hindex]
  case isFalse => rfl

/-- A tame lexeme keeps a scan calm, unless it closes a parenthesis from before. -/
theorem step_deeper {x : Lexeme} (hx : x.Tame) (hown : ∀ p ∈ own, p.Quiet) :
    (x = .close ∧ own = []) ∨ ∃ own', (∀ p ∈ own', p.Quiet) ∧
      ∀ σ : Scan, σ.Calm → (σ.deeper own).step x = some (σ.deeper own') := by
  have hkept : (∀ σ : Scan, σ.Calm → (σ.deeper own).step x = some (σ.deeper own)) →
      ∃ own', (∀ p ∈ own', p.Quiet) ∧
        ∀ σ : Scan, σ.Calm → (σ.deeper own).step x = some (σ.deeper own') := fun h => ⟨own, hown, h⟩
  have hopen : ∀ bundle : Bool, ∀ p ∈ ⟨none, bundle, false⟩ :: own, p.Quiet := by
    intro bundle p hp
    rcases List.mem_cons.mp hp with rfl | hp
    · exact ⟨rfl, rfl⟩
    · exact hown p hp
  cases x with
  | close =>
    cases own with
    | nil => exact .inl ⟨rfl, rfl⟩
    | cons p ps =>
      refine .inr ⟨ps, fun q hq => hown q (List.mem_cons_of_mem p hq), ?_⟩
      intro σ hσ
      have hspaced := (hown p List.mem_cons_self).2
      simp [step, leave, deeper, hσ.1, hσ.2, hspaced]
  | char c folds bare =>
    refine .inr (hkept fun σ hσ => ?_)
    simp [step, deeper, hσ.1, hσ.2]
  | flags changes =>
    refine .inr (hkept fun σ hσ => ?_)
    have hchanges : spacing false changes = false := hx
    simp [step, deeper, hσ.1, hσ.2, hchanges]
  | opening o =>
    right
    cases o with
    | capture => exact hx.elim
    | named name => exact hx.elim
    | plain changes =>
      refine ⟨_, hopen true, fun σ hσ => ?_⟩
      have hchanges : spacing false changes = false := hx
      simp [step, enter, push, deeper, hσ.1, hσ.2, hchanges]
    | _ =>
      refine ⟨_, hopen false, fun σ hσ => ?_⟩
      simp [step, enter, push, deeper, hσ.1, hσ.2]
  | _ =>
    refine .inr (hkept fun σ hσ => ?_)
    simp [step, deeper, hσ.2]

/-- Tame lexemes leave no marks, as far as they close no parenthesis from before. -/
theorem trace_deeper {cs : List Cut} (hcs : ∀ c ∈ cs, c.lexeme.Tame) (hown : ∀ p ∈ own, p.Quiet) :
    (∃ own', (∀ p ∈ own', p.Quiet) ∧ ∀ (σ : Scan) (k : Nat), σ.Calm →
      (σ.deeper own).trace k cs = some ([], σ.deeper own')) ∨
    ∃ (ds : List Cut) (c : Cut) (es : List Cut), cs = ds ++ c :: es ∧ c.lexeme = .close ∧
      ∀ (σ : Scan) (k : Nat), σ.Calm → (σ.deeper own).trace k ds = some ([], σ) := by
  induction cs generalizing own with
  | nil => exact .inl ⟨own, hown, fun σ k _ => rfl⟩
  | cons c cs ih =>
    rcases step_deeper (hcs c List.mem_cons_self) hown with ⟨hclose, rfl⟩ | ⟨own', hown', hstep⟩
    · exact .inr ⟨[], c, cs, rfl, hclose, fun σ k _ => rfl⟩
    · have hcons : ∀ (ds : List Cut) (τ σ : Scan) (k : Nat), σ.Calm →
          (σ.deeper own').trace (k + c.text.length) ds = some ([], τ) →
          (σ.deeper own).trace k (c :: ds) = some ([], τ) := by
        intro ds τ σ k hσ hds
        refine traceWith_cons_eq_some.mpr ⟨σ.deeper own', [], hstep σ hσ, hds, ?_⟩
        rw [marked_deeper hown, List.append_nil]
      rcases ih (fun d hd => hcs d (List.mem_cons_of_mem c hd)) hown' with
        ⟨own'', hown'', htrace⟩ | ⟨ds, d, es, rfl, hclose, htrace⟩
      · exact .inl ⟨own'', hown'', fun σ k hσ => hcons _ _ σ k hσ (htrace σ _ hσ)⟩
      · exact .inr ⟨c :: ds, d, es, rfl, hclose, fun σ k hσ => hcons _ _ σ k hσ (htrace σ _ hσ)⟩

/-- A lexeme that leaves the mark of an opening captures, wherever nothing hides it. -/
theorem step_of_opens {σ τ : Scan} {x : Lexeme} {k : Nat} {m : Mark} (h : σ.step x = some τ)
    (hm : m ∈ σ.marked τ k) (hopens : m.opens = true) :
    ∀ ρ : Scan, ρ.hidden = false → ρ.step x = some ρ.capture := by
  have hmore : σ.groups < τ.groups := by
    by_contra hno
    rw [marked, if_neg hno] at hm
    split at hm
    · obtain ⟨n, -, rfl⟩ := List.mem_map.mp hm
      cases hopens
    · cases hm
  have henter : ∃ o, x = .opening o ∧ ∀ ρ : Scan, ρ.enter o = ρ.capture := by
    rcases step_cases h with ⟨hidden, rfl⟩ | ⟨changes, -, rfl⟩ | ⟨o, rfl, rfl⟩ | ⟨-, hleave⟩
    · exact absurd hmore (Nat.lt_irrefl _)
    · exact absurd hmore (Nat.lt_irrefl _)
    · cases o with
      | capture => exact ⟨_, rfl, fun _ => rfl⟩
      | named name => exact ⟨_, rfl, fun _ => rfl⟩
      | _ => exact absurd hmore (Nat.lt_irrefl _)
    · unfold leave at hleave
      split at hleave
      · cases hleave
      · obtain rfl := Option.some.inj hleave
        exact absurd hmore (Nat.lt_irrefl _)
  obtain ⟨o, rfl, ho⟩ := henter
  intro ρ hρ
  simp [step, hρ, ho]

end Scan

/-! ### Steady texts -/

/-- The text is cut alike whatever follows it, and its lexemes are tame. -/
def Steady (t : Text) : Prop := ∃ cs, (∀ c ∈ cs, c.lexeme.Tame) ∧ ∀ u, Cuts (t ++ u) cs u

theorem steady_nil : Steady [] := ⟨[], by simp, Cuts.stop⟩

theorem Steady.append {t u : Text} (h : Steady t) (h' : Steady u) : Steady (t ++ u) := by
  obtain ⟨cs, htame, hcs⟩ := h
  obtain ⟨ds, htame', hds⟩ := h'
  refine ⟨cs ++ ds, List.forall_mem_append.mpr ⟨htame, htame'⟩, ?_⟩
  intro r
  rw [List.append_assoc]
  exact (hcs (u ++ r)).trans (hds r)

theorem steady_lexeme {t : Text} {x : Lexeme} (h : ∀ u, lexeme .path (t ++ u) = some (x, u))
    (hx : x.Tame) : Steady t :=
  ⟨[⟨t, x⟩], by simpa using hx, fun u => .more (h u) (.stop u)⟩

theorem steady_flatMap {α : Type} {f : α → Text} (h : ∀ x, Steady (f x)) (xs : List α) :
    Steady (xs.flatMap f) := by
  induction xs with
  | nil => exact steady_nil
  | cons x xs ih => exact (h x).append ih

theorem steady_char (c : Char) : Steady (Quoting.char c) := by
  by_cases hc : Quoting.isMeta c = true
  · rw [Quoting.char_of_isMeta hc]
    exact steady_lexeme (lexeme_quoted .path hc) trivial
  · rw [Bool.not_eq_true] at hc
    rw [Quoting.char_of_not_isMeta hc]
    exact steady_lexeme (lexeme_plain .path hc) trivial

theorem steady_literal (t : Text) : Steady (Quoting.literal t) := steady_flatMap steady_char t

theorem steady_close : Steady [')'] := steady_lexeme (fun _ => rfl) trivial

theorem steady_bar : Steady ['|'] := steady_lexeme (fun _ => rfl) trivial

theorem steady_question : Steady ['?'] := steady_lexeme (fun _ => rfl) trivial

theorem steady_caret : Steady ['^'] := steady_lexeme (fun _ => rfl) trivial

theorem steady_dollar : Steady ['$'] := steady_lexeme (fun _ => rfl) trivial

theorem steady_bundle : Steady "(?:".toList := steady_lexeme (fun _ => rfl) rfl

theorem steady_anyCase : Steady "(?i)".toList := steady_lexeme (fun _ => rfl) rfl

theorem Steady.bundled {t : Text} (h : Steady t) : Steady (Matching.bundled t) :=
  (steady_bundle.append h).append steady_close

theorem Steady.lookingAhead {t : Text} (h : Steady t) : Steady (Matching.lookingAhead t) := by
  have hahead : Steady "(?=".toList := steady_lexeme (fun _ => rfl) trivial
  exact (hahead.append h).append steady_close

theorem steady_join {ts : List Text} (h : ∀ t ∈ ts, Steady t) : Steady (Text.join ['|'] ts) := by
  induction ts with
  | nil => exact steady_nil
  | cons t ts ih =>
    have ht := h t List.mem_cons_self
    cases ts with
    | nil => exact ht
    | cons u ts =>
      rw [Text.join_cons_cons]
      exact (ht.append steady_bar).append (ih fun v hv => h v (List.mem_cons_of_mem t hv))

end PathTemplate.Expression
