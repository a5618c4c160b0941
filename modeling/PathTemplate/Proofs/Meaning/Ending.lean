import PathTemplate.Proofs.Meaning.Languages
import PathTemplate.Proofs.Reading.TokenItems

/-!
What follows the tokens in a path: a delimiter that the options allow, and then the end of the
path, a terminator, or a delimiter with which the path goes on.
-/
namespace PathTemplate.Expression

open State

def Precedes (is : List Item) (K : Text → Text → Prop) : Prop :=
  ∀ et, Step.Local (Step.inTurn (is.map fun i => i.expr.paths et)) fun _ w u => K w u

namespace Precedes

variable {is js : List Item} {K L : Text → Text → Prop}

theorem congr (h : Precedes is K) (hK : ∀ w u, K w u ↔ L w u) : Precedes is L := by
  have : K = L := by
    funext w u
    exact propext (hK w u)
  rwa [this] at h

theorem ofSpells {l : Language Char} (h : Spells is l) : Precedes is fun w _ => w ∈ l :=
  fun et s t => h et s t

theorem nil : Precedes [] fun w _ => w = [] := ofSpells Spells.nil

theorem append (h : Precedes is K) (h' : Precedes js L) :
    Precedes (is ++ js) fun w u => ∃ v x, w = v ++ x ∧ K v (x ++ u) ∧ L x u := by
  intro et s t
  rw [List.map_append, Step.inTurn_append]
  simp only [List.mem_flatMap, h et s, h' et _ t]
  constructor
  · intro ht
    obtain ⟨r, ⟨v, hv, hsv, hg⟩, x, hx, hrx, hg'⟩ := ht
    rw [hrx.rest] at hv
    exact ⟨v ++ x, ⟨v, x, rfl, hv, hx⟩, hsv.trans hrx, hg'.trans hg⟩
  · intro ht
    obtain ⟨_, ⟨v, x, rfl, hv, hx⟩, hs, hg⟩ := ht
    obtain ⟨r, hsv, hrx, hgr⟩ := hs.split
    rw [← hrx.rest] at hv
    exact ⟨r, ⟨v, hv, hsv, hgr⟩, x, hx, hrx, hg.trans hgr.symm⟩

/-- Items that take nothing only say what has to follow the ones in front of them. -/
theorem before {P : Text → Prop} (h : Precedes is K)
    (h' : Precedes js fun w u => w = [] ∧ P u) : Precedes (is ++ js) fun w u => K w u ∧ P u := by
  refine (h.append h').congr fun w u => ?_
  constructor
  · intro hw
    obtain ⟨v, x, rfl, hv, rfl, hu⟩ := hw
    rw [List.append_nil]
    exact ⟨hv, hu⟩
  · intro hw
    exact ⟨w, [], (List.append_nil w).symm, hw.1, rfl, hw.2⟩

theorem bundled (h : Precedes is K) (d : Dialect) : Precedes [bundledItem d is] K := by
  intro et s t
  have hpaths := h et s t
  rw [← Branch.paths_ofItems] at hpaths
  rw [List.map_singleton, Step.inTurn_single]
  exact hpaths

theorem optional {i : Item} (h : Precedes [i] K) :
    Precedes [loopItem i (some 1)] fun w u => w = [] ∨ K w u := by
  intro et s t
  have hmem : t ∈ Step.inTurn ([loopItem i (some 1)].map fun i => i.expr.paths et) s ↔
      t ∈ Step.inTurn ([i].map fun i => i.expr.paths et) s ∨ t = s := by
    rw [List.map_singleton, List.map_singleton, Step.inTurn_single, Step.inTurn_single]
    simp [loopItem, Expr.paths, Step.loop, Step.times, Step.upTo, Step.mem_prefer]
  rw [hmem, h et s t]
  constructor
  · intro ht
    rcases ht with ⟨w, hw, hs⟩ | rfl
    · exact ⟨w, Or.inr hw, hs⟩
    · exact ⟨[], Or.inl rfl, passes_self t, rfl⟩
  · intro ht
    obtain ⟨w, rfl | hw, hs, hg⟩ := ht
    · exact Or.inr (hs.eq (passes_self s) hg)
    · exact Or.inl ⟨w, hw, hs, hg⟩

theorem optionalUnless {i : Item} (h : Precedes [i] K) (b : Bool) :
    Precedes (if b then [] else [loopItem i (some 1)]) fun w u => w = [] ∨ b = false ∧ K w u := by
  cases b with
  | true => exact nil.congr fun w u => by simp
  | false => exact h.optional.congr fun w u => by simp

/-- Whether the items can be passed at all depends on what comes. -/
theorem exists_mem_iff (h : Precedes is K) (et : EmptyTurn) (s : State) :
    (∃ t, t ∈ Step.inTurn (is.map fun i => i.expr.paths et) s) ↔
      ∃ w u, s.rest = w ++ u ∧ K w u := by
  constructor
  · intro ht
    obtain ⟨t, ht⟩ := ht
    obtain ⟨w, hw, hs, -⟩ := (h et s t).mp ht
    exact ⟨w, t.rest, hs.rest, hw⟩
  · intro hw
    obtain ⟨w, u, hrest, hw⟩ := hw
    exact ⟨s.past w u, (h et s _).mpr ⟨w, hw, passes_past hrest, rfl⟩⟩

theorem check_textEnd (d : Dialect) :
    Precedes [checkItem d .textEnd] fun w u => w = [] ∧ u = [] := by
  intro et s t
  rw [List.map_singleton, Step.inTurn_single]
  simp only [checkItem, Expr.paths, Assertion.holds, List.isEmpty_iff]
  constructor
  · intro ht
    split at ht
    case isTrue hrest =>
      rw [List.mem_singleton.mp ht]
      exact ⟨[], ⟨rfl, hrest⟩, passes_self s, rfl⟩
    case isFalse => simp at ht
  · intro ht
    obtain ⟨w, ⟨rfl, hrest⟩, hs, hg⟩ := ht
    rw [if_pos (by rw [hs.rest, hrest]; rfl), List.mem_singleton]
    exact hs.eq (passes_self s) hg

theorem mem_check_textStart (d : Dialect) (et : EmptyTurn) (s t : State) :
    t ∈ Step.inTurn ([checkItem d .textStart].map fun i => i.expr.paths et) s ↔
      t = s ∧ s.before = [] := by
  rw [List.map_singleton, Step.inTurn_single]
  simp only [checkItem, Expr.paths, Assertion.holds, List.isEmpty_iff]
  split
  case isTrue hbefore => simp [hbefore]
  case isFalse hbefore => simp [hbefore]

/-- A look-ahead stays where it is, and asks for one of its alternatives. -/
theorem ahead {as : List Alternative} {P : Text → Prop} (hne : as ≠ [])
    (hsilent : ∀ p ∈ as, ∃ K, Precedes p.2 K)
    (hP : ∀ et s, (∃ p ∈ as, ∃ t, t ∈ Step.inTurn (p.2.map fun i => i.expr.paths et) s) ↔
      P s.rest) :
    Precedes [aheadItem (alternativeExprs as)] fun w u => w = [] ∧ P u := by
  intro et s t
  have hes : alternativeExprs as ≠ [] := by simpa [alternativeExprs] using hne
  have hmem : ∀ r, r ∈ (Builder.altAll (alternativeExprs as)).paths
        (Builder.altAll (alternativeExprs as)).emptyTurn s ↔
      ∃ p ∈ as, r ∈ Step.inTurn (p.2.map fun i => i.expr.paths
        (Builder.altAll (alternativeExprs as)).emptyTurn) s := by
    intro r
    rw [Builder.paths_altAll hes, List.mem_flatMap]
    generalize (Builder.altAll (alternativeExprs as)).emptyTurn = et'
    simp only [alternativeExprs, List.mem_map, exists_exists_and_eq_and, Branch.paths_ofItems]
  rw [List.map_singleton, Step.inTurn_single]
  simp only [aheadItem, Expr.paths, List.mem_map, hmem]
  constructor
  · intro ht
    obtain ⟨r, ⟨p, hp, hr⟩, rfl⟩ := ht
    obtain ⟨K, hK⟩ := hsilent p hp
    obtain ⟨w, -, -, hg⟩ := (hK _ s r).mp hr
    have hsame : s.withGroups r = s := by
      rw [State.withGroups, hg]
    rw [hsame]
    exact ⟨[], ⟨rfl, (hP _ s).mp ⟨p, hp, r, hr⟩⟩, passes_self s, rfl⟩
  · intro ht
    obtain ⟨w, ⟨rfl, hu⟩, hs, hg⟩ := ht
    rw [show t.rest = s.rest from hs.rest.symm] at hu
    obtain ⟨p, hp, r, hr⟩ := (hP _ s).mpr hu
    obtain ⟨K, hK⟩ := hsilent p hp
    obtain ⟨w, -, -, hgr⟩ := (hK _ s r).mp hr
    refine ⟨r, ⟨p, hp, hr⟩, ?_⟩
    rw [State.withGroups, hgr, hs.eq (passes_self s) hg]

end Precedes

end PathTemplate.Expression

namespace PathTemplate.Matching

open Expression

/-- A path may end here: nothing follows, or a terminator. -/
def MayEnd (a : Bool) (o : Options) (r : Text) : Prop :=
  r = [] ∨ ∃ e ∈ o.endsWith, ∃ w u, r = w ++ u ∧ TextAlike a e w

def Closes (a : Bool) (o : Options) (e r : Text) : Prop :=
  (e = [] ∨ o.strict = false ∧ TextAlike a [o.delimiter] e) ∧ MayEnd a o r

def GoesOn (a : Bool) (o : Options) (ts : List Token) (e r : Text) : Prop :=
  (e = [] ∨ o.strict = false ∧ TextAlike a [o.delimiter] e ∧ MayEnd a o r) ∧
    (endsDelimited o ts = true ∨ (∃ c u, r = c :: u ∧ Alike a o.delimiter c) ∨ MayEnd a o r)

/-- Behind the tokens the match takes `e`, and leaves `r`. -/
def Ends (a : Bool) (o : Options) (ts : List Token) (e r : Text) : Prop :=
  if o.toEnd then Closes a o e r else GoesOn a o ts e r

section Items

variable (a : Bool) (o : Options)

private theorem silent_terminators : ∀ p ∈ terminators a o, ∃ K, Precedes p.2 K := by
  intro p hp
  rcases List.mem_append.mp hp with h | h
  · obtain ⟨t, -, rfl⟩ := List.mem_map.mp h
    exact ⟨_, .ofSpells (Spells.literal a t)⟩
  · rw [List.mem_singleton.mp h]
    exact ⟨_, .check_textEnd .path⟩

private theorem terminators_found (et : EmptyTurn) (s : State) :
    (∃ p ∈ terminators a o, ∃ t, t ∈ Step.inTurn (p.2.map fun i => i.expr.paths et) s) ↔
      MayEnd a o s.rest := by
  have hend : (∃ t, t ∈ Step.inTurn ([checkItem .path .textEnd].map fun i => i.expr.paths et) s) ↔
      s.rest = [] := by
    rw [(Precedes.check_textEnd .path).exists_mem_iff et s]
    constructor
    · intro h
      obtain ⟨w, u, hrest, rfl, rfl⟩ := h
      exact hrest
    · intro h
      exact ⟨[], [], h, rfl, rfl⟩
  have hliteral : ∀ e : Text,
      (∃ t, t ∈ Step.inTurn ((e.map (charItem a)).map fun i => i.expr.paths et) s) ↔
        ∃ w u, s.rest = w ++ u ∧ TextAlike a e w :=
    fun e => (Precedes.ofSpells (Spells.literal a e)).exists_mem_iff et s
  rw [MayEnd, ← hend]
  simp only [terminators, List.mem_append, List.mem_map, List.mem_singleton]
  constructor
  · intro h
    obtain ⟨p, ⟨e, he, rfl⟩ | rfl, ht⟩ := h
    · exact Or.inr ⟨e, he, (hliteral e).mp ht⟩
    · exact Or.inl ht
  · intro h
    rcases h with ht | ⟨e, he, ht⟩
    · exact ⟨_, Or.inr rfl, ht⟩
    · exact ⟨_, Or.inl ⟨e, he, rfl⟩, (hliteral e).mpr ht⟩

theorem precedes_endItem :
    Precedes [endItem a o] fun w u => w = [] ∧ MayEnd a o u :=
  .ahead (terminators_ne_nil a) (silent_terminators a o) (terminators_found a o)

theorem precedes_boundary :
    Precedes [aheadItem (alternativeExprs (boundaries a o))] fun w u =>
      w = [] ∧ ((∃ c v, u = c :: v ∧ Alike a o.delimiter c) ∨ MayEnd a o u) := by
  refine .ahead nofun ?_ fun et s => ?_
  · intro p hp
    rcases List.mem_cons.mp hp with rfl | hp
    · exact ⟨_, .ofSpells (Spells.char a o.delimiter)⟩
    · exact silent_terminators a o p hp
  · have hchar := (Precedes.ofSpells (Spells.char a o.delimiter)).exists_mem_iff et s
    simp only [boundaries, List.mem_cons, exists_eq_or_imp, terminators_found, hchar]
    constructor
    · intro h
      rcases h with ⟨_, u, hrest, c, hc, rfl⟩ | h
      · exact Or.inl ⟨c, u, hrest, hc⟩
      · exact Or.inr h
    · intro h
      rcases h with ⟨c, u, hrest, hc⟩ | h
      · exact Or.inl ⟨[c], u, hrest, c, hc, rfl⟩
      · exact Or.inr h

private theorem precedes_delimiter :
    Precedes [charItem a o.delimiter] fun w _ => TextAlike a [o.delimiter] w :=
  .ofSpells (Spells.literal a [o.delimiter])

private theorem precedes_closing : Precedes (closingItems a o) (Closes a o) := by
  have hend : Precedes (if o.endsWith.isEmpty then [checkItem .path .textEnd] else [endItem a o])
      fun w u => w = [] ∧ MayEnd a o u := by
    split
    case isTrue he =>
      refine (Precedes.check_textEnd .path).congr fun w u => ?_
      simp [MayEnd, List.isEmpty_iff.mp he]
    case isFalse => exact precedes_endItem a o
  exact ((precedes_delimiter a o).bundled .path |>.optionalUnless o.strict).before hend

private theorem precedes_open (ts : List Token) :
    Precedes (openItems a o ts) (GoesOn a o ts) := by
  have hdelimiter := (precedes_delimiter a o).before (precedes_endItem a o)
  have hboundary : Precedes
      (if endsDelimited o ts then [] else [aheadItem (alternativeExprs (boundaries a o))])
      fun w u => w = [] ∧ (endsDelimited o ts = true ∨
        (∃ c v, u = c :: v ∧ Alike a o.delimiter c) ∨ MayEnd a o u) := by
    split
    case isTrue he => exact Precedes.nil.congr fun w u => by simp [he]
    case isFalse he => exact (precedes_boundary a o).congr fun w u => by simp [he]
  exact (hdelimiter.bundled .path |>.optionalUnless o.strict).before hboundary

theorem precedes_endingItems (ts : List Token) :
    Precedes (endingItems a o ts) (Ends a o ts) := by
  unfold endingItems Ends
  split
  · exact precedes_closing a o
  · exact precedes_open a o ts

end Items

end PathTemplate.Matching
