import PathTemplate.Expression.Compiled
import PathTemplate.Proofs.Reading.Cutting

/-!
Where the capture groups of a text open and close. Reading a text leaves a trace of marks, each
with the number of its group and its place, and the trace of two texts that follow each other is
the trace of the first and then that of the second.
-/
namespace PathTemplate.Expression

/-- A place in a text where a capture group opens or closes. -/
structure Mark where
  group : Nat
  place : Nat
  opens : Bool
  deriving DecidableEq, Repr

def Mark.shift (g k : Nat) (m : Mark) : Mark := ⟨g + m.group, k + m.place, m.opens⟩

def Mark.opened (ms : List Mark) : Nat := (ms.filter Mark.opens).length

/-- Takes the lexemes in turn, the first one at the given place. Each step leaves marks. -/
def traceWith {S : Type} (step : S → Lexeme → Option S) (marked : S → S → Nat → List Mark) (s : S)
    (place : Nat) : List Cut → Option (List Mark × S)
  | [] => some ([], s)
  | c :: cs => do
    let s' ← step s c.lexeme
    let (ms, s'') ← traceWith step marked s' (place + c.text.length) cs
    return (marked s s' place ++ ms, s'')

namespace Builder

/-- The marks of one step. A group opens as it gets its number, and it closes with its frame. -/
def marked (b b' : Builder) (place : Nat) : List Mark :=
  if b.groups < b'.groups then [⟨b'.groups, place, true⟩]
  else if b'.outer.length < b.outer.length then b.frame.index.toList.map (⟨·, place, false⟩)
  else []

def trace : Builder → Nat → List Cut → Option (List Mark × Builder) :=
  traceWith (step .path) marked

end Builder

/-- Where the capture groups of the text open and close, in the order of reading. -/
def groupMarks (t : Text) : List Mark :=
  match (cuts t).bind (Builder.init.trace 0) with
  | some (ms, _) => ms
  | none => []

section Trace

variable {S : Type} {step : S → Lexeme → Option S} {marked : S → S → Nat → List Mark}

theorem traceWith_cons_eq_some {s s'' : S} {k : Nat} {c : Cut} {cs : List Cut} {ms : List Mark} :
    traceWith step marked s k (c :: cs) = some (ms, s'') ↔ ∃ s' ns, step s c.lexeme = some s' ∧
      traceWith step marked s' (k + c.text.length) cs = some (ns, s'') ∧
      ms = marked s s' k ++ ns := by
  simp only [traceWith, Option.bind_eq_bind, Option.bind_eq_some_iff, Option.pure_def,
    Option.some.injEq, Prod.mk.injEq, Prod.exists]
  constructor
  · intro h
    obtain ⟨s', hstep, ns, d, htrace, rfl, rfl⟩ := h
    exact ⟨s', ns, hstep, htrace, rfl⟩
  · intro h
    obtain ⟨s', ns, hstep, htrace, rfl⟩ := h
    exact ⟨s', hstep, ns, s'', htrace, rfl, rfl⟩

theorem length_texts_cons (c : Cut) (cs : List Cut) :
    (Cut.texts (c :: cs)).length = c.text.length + (Cut.texts cs).length := by
  simp [Cut.texts]

theorem traceWith_append_eq_some {s s'' : S} {k : Nat} {cs ds : List Cut} {ms : List Mark} :
    traceWith step marked s k (cs ++ ds) = some (ms, s'') ↔ ∃ s' ns ns',
      traceWith step marked s k cs = some (ns, s') ∧
      traceWith step marked s' (k + (Cut.texts cs).length) ds = some (ns', s'') ∧
      ms = ns ++ ns' := by
  induction cs generalizing s k ms with
  | nil => simp [traceWith, Cut.texts]
  | cons c cs ih =>
    rw [List.cons_append, traceWith_cons_eq_some, length_texts_cons, ← Nat.add_assoc]
    constructor
    · intro h
      obtain ⟨d, ns, hstep, hrest, rfl⟩ := h
      obtain ⟨s', ps, qs, hcs, hds, rfl⟩ := ih.mp hrest
      exact ⟨s', marked s d k ++ ps, qs, traceWith_cons_eq_some.mpr ⟨d, ps, hstep, hcs, rfl⟩, hds,
        (List.append_assoc _ _ _).symm⟩
    · intro h
      obtain ⟨s', ns, qs, hcs, hds, rfl⟩ := h
      obtain ⟨d, ps, hstep, hrest, rfl⟩ := traceWith_cons_eq_some.mp hcs
      exact ⟨d, ps ++ qs, hstep, ih.mpr ⟨s', ps, qs, hrest, hds, rfl⟩, List.append_assoc _ _ _⟩

/-- Marks stand where their lexemes begin, and so within the text that is read. -/
theorem place_of_mem_traceWith (hmarked : ∀ s s' k, ∀ m ∈ marked s s' k, m.place = k) {s s' : S}
    {k : Nat} {t u : Text} {cs : List Cut} {ms : List Mark} (hcuts : Cuts t cs u)
    (h : traceWith step marked s k cs = some (ms, s')) :
    ∀ m ∈ ms, k ≤ m.place ∧ m.place < k + (Cut.texts cs).length := by
  induction hcuts generalizing s k ms with
  | stop =>
    obtain ⟨rfl, -⟩ := Prod.mk.inj (Option.some.inj h)
    simp
  | @more v r u x cs hx hrest' ih =>
    obtain ⟨d, ns, -, hrest, rfl⟩ := traceWith_cons_eq_some.mp h
    have hpos := (Cuts.more hx hrest').text_length_pos
    intro m hm
    rw [length_texts_cons]
    rcases List.mem_append.mp hm with hm | hm
    · rw [hmarked _ _ _ m hm]
      omega
    · have hplace := ih hrest m hm
      omega

/-- A mark that is left is left by one of the lexemes. -/
theorem exists_cut_of_mem_traceWith (hmarked : ∀ s s' k, ∀ m ∈ marked s s' k, m.place = k)
    {s s' : S} {k : Nat} {cs : List Cut} {ms : List Mark}
    (h : traceWith step marked s k cs = some (ms, s')) {m : Mark} (hm : m ∈ ms) :
    ∃ ds c es, cs = ds ++ c :: es ∧ m.place = k + (Cut.texts ds).length := by
  induction cs generalizing s k ms with
  | nil =>
    obtain ⟨rfl, -⟩ := Prod.mk.inj (Option.some.inj h)
    cases hm
  | cons c cs ih =>
    obtain ⟨d, ns, -, hrest, rfl⟩ := traceWith_cons_eq_some.mp h
    rcases List.mem_append.mp hm with hm | hm
    · exact ⟨[], c, cs, rfl, by rw [hmarked _ _ _ m hm]; rfl⟩
    · obtain ⟨ds, e, es, rfl, hplace⟩ := ih hrest hm
      refine ⟨c :: ds, e, es, rfl, ?_⟩
      rw [hplace, length_texts_cons, Nat.add_assoc]

end Trace

end PathTemplate.Expression
