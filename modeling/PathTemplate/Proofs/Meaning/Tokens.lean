import PathTemplate.Proofs.Meaning.Captures
import PathTemplate.Proofs.Meaning.Values

/-!
What the tokens of a template take from a path. A literal takes itself, and a parameter its lead
and a value, or nothing where it is optional. Values of default patterns can be told by themselves;
others may depend on what stands before and after them.
-/
namespace PathTemplate.Matching

open Expression

inductive Takes (a : Bool) (o : Options) : List Token → Text → List (Option Text) → Prop
  | nil : Takes a o [] [] []
  | literal {t w u : Text} {ts : List Token} {vs : List (Option Text)} :
      TextAlike a t w → Takes a o ts u vs → Takes a o (.literal t :: ts) (w ++ u) vs
  | absent {p : Parameter} {u : Text} {ts : List Token} {vs : List (Option Text)} :
      p.optional = true → Takes a o ts u vs → Takes a o (.parameter p :: ts) u (none :: vs)
  | present {p : Parameter} {w v u : Text} {ts : List Token} {vs : List (Option Text)} :
      TextAlike a p.leadText w → v ∈ valueTexts a o p → Takes a o ts u vs →
        Takes a o (.parameter p :: ts) (w ++ v ++ u) (some v :: vs)

/-- The text that tokens take between `b`, nearest character first, and `u`, and the value of each
of their parameters. -/
inductive TakesAt (a : Bool) : List Token → Text → Text → Text → List (Option Text) → Prop
  | nil {b u : Text} : TakesAt a [] b [] u []
  | literal {t b w x u : Text} {ts : List Token} {vs : List (Option Text)} :
      TextAlike a t w → TakesAt a ts (w.reverse ++ b) x u vs →
        TakesAt a (.literal t :: ts) b (w ++ x) u vs
  | absent {p : Parameter} {b x u : Text} {ts : List Token} {vs : List (Option Text)} :
      p.optional = true → TakesAt a ts b x u vs →
        TakesAt a (.parameter p :: ts) b x u (none :: vs)
  | present {p : Parameter} {b w v x u : Text} {ts : List Token} {vs : List (Option Text)} :
      TextAlike a p.leadText w → ValueAt a p (w.reverse ++ b) v (x ++ u) →
        TakesAt a ts ((w ++ v).reverse ++ b) x u vs →
          TakesAt a (.parameter p :: ts) b (w ++ v ++ x) u (some v :: vs)

namespace TakesAt

variable {a : Bool} {ts : List Token} {b w u : Text} {vs : List (Option Text)}

theorem length (h : TakesAt a ts b w u vs) : vs.length = (parameters ts).length := by
  induction h with
  | nil => rfl
  | literal _ _ ih => exact ih
  | absent _ _ ih => exact congrArg (· + 1) ih
  | present _ _ _ ih => exact congrArg (· + 1) ih

/-- Tokens with default patterns take the same texts everywhere. -/
theorem takes {o : Options} (h : TakesAt a ts b w u vs) (hts : DefaultPatterns o ts) :
    Takes a o ts w vs := by
  induction h with
  | nil => exact .nil
  | literal ht _ ih => exact .literal ht (ih hts.tail)
  | absent hopt _ ih => exact .absent hopt (ih hts.tail)
  | @present p _ _ _ _ _ _ _ hl hv _ ih =>
    exact .present hl ((valueAt_defaultPattern a (hts p List.mem_cons_self) _ _ _).mp hv)
      (ih hts.tail)

theorem ofTakes {o : Options} (h : Takes a o ts w vs) (hts : DefaultPatterns o ts) (b u : Text) :
    TakesAt a ts b w u vs := by
  induction h generalizing b with
  | nil => exact .nil
  | literal ht _ ih => exact .literal ht (ih hts.tail _)
  | absent hopt _ ih => exact .absent hopt (ih hts.tail _)
  | @present p _ _ _ _ _ hl hv _ ih =>
    exact .present hl ((valueAt_defaultPattern a (hts p List.mem_cons_self) _ _ _).mpr hv)
      (ih hts.tail _)

end TakesAt

section Items

variable (a : Bool) (p : Parameter)

private def Filled (b w u : Text) (vs : List (Option Text)) : Prop :=
  ∃ l v, TextAlike a p.leadText l ∧ ValueAt a p (l.reverse ++ b) v u ∧ w = l ++ v ∧ vs = [some v]

private theorem fills_group (g : Nat) :
    Fills [groupItem (g + 1) (valueContent a p)] (g + 1) 1
      fun b w u vs => ValueAt a p b w u ∧ vs = [some w] :=
  .group (local_valueContent a p) (g + 1)

private theorem filled_of_lead_none (hlead : p.lead = none) (b w u : Text)
    (vs : List (Option Text)) :
    (ValueAt a p b w u ∧ vs = [some w]) ↔ Filled a p b w u vs := by
  have htext : p.leadText = [] := by
    rw [Parameter.leadText, hlead]
    rfl
  constructor
  · intro h
    refine ⟨[], w, ?_, h.1, rfl, h.2⟩
    rw [htext]
    exact .nil
  · intro h
    obtain ⟨l, v, hl, hv, rfl, rfl⟩ := h
    rw [htext] at hl
    obtain rfl := List.forall₂_nil_left_iff.mp hl
    exact ⟨hv, rfl⟩

private theorem fills_led (g : Nat) {c : Char} (hlead : p.lead = some c) :
    Fills [charItem a c, groupItem (g + 1) (valueContent a p)] (g + 1) 1 (Filled a p) := by
  have htext : p.leadText = [c] := by
    rw [Parameter.leadText, hlead]
    rfl
  have h := (Fills.ofSpells (Spells.char a c) (g + 1)).append (fills_group a p g)
  rw [Nat.zero_add] at h
  refine h.congr fun b w u vs => ?_
  constructor
  · intro hw
    obtain ⟨l, -, v, -, ⟨⟨x, hx, rfl⟩, rfl⟩, ⟨hv, rfl⟩, rfl, rfl⟩ := hw
    refine ⟨[x], v, ?_, hv, rfl, rfl⟩
    rw [htext]
    exact .cons hx .nil
  · intro hw
    obtain ⟨l, v, hl, hv, rfl, rfl⟩ := hw
    rw [htext] at hl
    obtain ⟨x, z, hx, hz, rfl⟩ := List.forall₂_cons_left_iff.mp hl
    obtain rfl := List.forall₂_nil_left_iff.mp hz
    exact ⟨[x], [], v, [some v], ⟨⟨x, hx, rfl⟩, rfl⟩, ⟨hv, rfl⟩, rfl, rfl⟩

theorem fills_parameterItems (g : Nat) :
    Fills (parameterItems a g p) (g + 1) 1 fun b w u vs =>
      Filled a p b w u vs ∨ p.optional = true ∧ w = [] ∧ vs = [none] := by
  have hbare : p.lead = none →
      Fills [groupItem (g + 1) (valueContent a p)] (g + 1) 1 (Filled a p) :=
    fun hlead => (fills_group a p g).congr (filled_of_lead_none a p hlead)
  by_cases hopt : p.optional = true
  · have hR : ∀ b w u vs, (Filled a p b w u vs ∨ w = [] ∧ vs = List.replicate 1 none) ↔
        Filled a p b w u vs ∨ p.optional = true ∧ w = [] ∧ vs = [none] := by
      simp [hopt]
    cases hlead : p.lead with
    | none =>
      have hitems : parameterItems a g p =
          [loopItem (groupItem (g + 1) (valueContent a p)) (some 1)] := by
        simp [parameterItems, hopt, hlead]
      rw [hitems]
      exact (hbare hlead).optional.congr hR
    | some c =>
      have hitems : parameterItems a g p = [loopItem (bundledItem .path
          [charItem a c, groupItem (g + 1) (valueContent a p)]) (some 1)] := by
        simp [parameterItems, hopt, hlead]
      rw [hitems]
      exact ((fills_led a p g hlead).bundled .path).optional.congr hR
  · have hR : ∀ b w u vs, Filled a p b w u vs ↔
        Filled a p b w u vs ∨ p.optional = true ∧ w = [] ∧ vs = [none] := by
      simp [hopt]
    cases hlead : p.lead with
    | none =>
      have hitems : parameterItems a g p = [groupItem (g + 1) (valueContent a p)] := by
        simp [parameterItems, hopt, hlead]
      rw [hitems]
      exact (hbare hlead).congr hR
    | some c =>
      have hitems : parameterItems a g p =
          [charItem a c, groupItem (g + 1) (valueContent a p)] := by
        simp [parameterItems, hopt, hlead]
      rw [hitems]
      exact (fills_led a p g hlead).congr hR

/-- The items of tokens take what the tokens take, and give each parameter its value. -/
theorem fills_tokensItems (g : Nat) (ts : List Token) :
    Fills (tokensItems a g ts) (g + 1) (parameters ts).length (TakesAt a ts) := by
  induction ts generalizing g with
  | nil =>
    refine (Fills.ofSpells Spells.nil (g + 1)).congr fun b w u vs => ?_
    constructor
    · intro h
      rw [(Language.mem_one w).mp h.1, h.2]
      exact .nil
    · intro h
      cases h
      exact ⟨rfl, rfl⟩
  | cons t ts ih =>
    cases t with
    | literal t =>
      have h := (Fills.ofSpells (Spells.literal a t) (g + 1)).append (ih g)
      rw [Nat.zero_add] at h
      refine h.congr fun b w u vs => ?_
      constructor
      · intro hw
        obtain ⟨v, -, x, us, ⟨hv, rfl⟩, hx, rfl, rfl⟩ := hw
        exact .literal hv hx
      · intro hw
        cases hw with
        | literal hv hx => exact ⟨_, [], _, vs, ⟨hv, rfl⟩, hx, rfl, rfl⟩
    | parameter p =>
      have h := (fills_parameterItems a p g).append (ih (g + 1))
      rw [Nat.add_comm 1] at h
      refine h.congr fun b w u vs => ?_
      constructor
      · intro hw
        obtain ⟨v, ws, x, us, hv, hx, rfl, rfl⟩ := hw
        rcases hv with ⟨l, v, hl, hv, rfl, rfl⟩ | ⟨hopt, rfl, rfl⟩
        · exact .present hl hv hx
        · exact .absent hopt hx
      · intro hw
        cases hw with
        | absent hopt hx => exact ⟨[], [none], _, _, Or.inr ⟨hopt, rfl, rfl⟩, hx, rfl, rfl⟩
        | present hl hv hx =>
          exact ⟨_, [some _], _, _, Or.inl ⟨_, _, hl, hv, rfl, rfl⟩, hx, rfl, rfl⟩

end Items

end PathTemplate.Matching
