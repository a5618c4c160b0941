import PathTemplate.Matching.Matcher
import PathTemplate.Proofs.Groups.Builders
import PathTemplate.Proofs.Groups.Calm

/-!
The parts that the expression of an input is put together from: texts that are cut alike whatever
follows them, the groups of parameters, and expressions written by hand. An expression written by
hand stands in front of a seam.
-/
namespace PathTemplate.Matching

open Expression

inductive Part
  | text (t : Text)
  | group (p : Parameter)
  | written (w : Written)

namespace Part

def source : Part → Text
  | text t => t
  | group p => parenthesized (valueSource p)
  | written w => w.source

def keys : Part → List Key
  | text _ => []
  | group p => [.ofParameter p]
  | written w => w.keys

/-- Where the groups for the keys of the part open and close, behind `g` other groups and `k`
characters. The group of a parameter is all of its part. -/
def marks (g k : Nat) : Part → List Mark
  | text _ => []
  | group p => [⟨g + 1, k, true⟩, ⟨g + 1, k + (valueSource p).length + 1, false⟩]
  | written w => (groupMarks w.source).map (Mark.shift g k)

end Part

def partsSource (ps : List Part) : Text := ps.flatMap Part.source

def partsKeys (ps : List Part) : List Key := ps.flatMap Part.keys

def partsMarks (g k : Nat) : List Part → List Mark
  | [] => []
  | p :: ps => p.marks g k ++ partsMarks (g + p.keys.length) (k + p.source.length) ps

/-! ### The parts of an input -/

def parameterParts (p : Parameter) : List Part :=
  match p.optional, p.lead with
  | true, none => [.group p, .text ['?']]
  | true, some c => [.text ("(?:".toList ++ Quoting.char c), .group p, .text [')', '?']]
  | false, none => [.group p]
  | false, some c => [.text (Quoting.char c), .group p]

def tokenParts : Token → List Part
  | .literal t => [.text (Quoting.literal t)]
  | .parameter p => parameterParts p

def tokensParts (o : Options) (ts : List Token) : List Part :=
  .text (if o.fromStart then ['^'] else []) :: ts.flatMap tokenParts ++
    [.text (if o.toEnd then closingSource o else openSource o ts)]

namespace Input

mutual

def parts (o : Options) : Input → List Part
  | template t => tokensParts o (Template.tokens o t)
  | written w => [.written w]
  | anyOf is => .text "(?:".toList :: alternatives o is ++ [.text [')']]

def alternatives (o : Options) : List Input → List Part
  | [] => []
  | [i] => parts o i
  | i :: j :: is => parts o i ++ .text ['|'] :: alternatives o (j :: is)

end

end Input

theorem partsSource_append (ps qs : List Part) :
    partsSource (ps ++ qs) = partsSource ps ++ partsSource qs := List.flatMap_append

theorem partsKeys_append (ps qs : List Part) :
    partsKeys (ps ++ qs) = partsKeys ps ++ partsKeys qs := List.flatMap_append

theorem partsSource_cons (p : Part) (ps : List Part) :
    partsSource (p :: ps) = p.source ++ partsSource ps := List.flatMap_cons

theorem partsKeys_cons (p : Part) (ps : List Part) :
    partsKeys (p :: ps) = p.keys ++ partsKeys ps := List.flatMap_cons

theorem partsSource_tokenParts (t : Token) : partsSource (tokenParts t) = tokenSource t := by
  cases t with
  | literal t => simp [partsSource, tokenParts, tokenSource, Part.source]
  | parameter p =>
    simp only [tokenParts, tokenSource, parameterParts, parameterSource]
    cases p.optional <;> cases p.lead <;> simp [partsSource, Part.source, bundled]

theorem partsKeys_tokenParts (t : Token) :
    partsKeys (tokenParts t) = t.parameter?.toList.map Key.ofParameter := by
  cases t with
  | literal t => rfl
  | parameter p =>
    simp only [tokenParts, parameterParts]
    split <;> rfl

theorem partsSource_tokensParts (o : Options) (ts : List Token) :
    partsSource (tokensParts o ts) = tokensSource o ts := by
  have htokens : partsSource (ts.flatMap tokenParts) = ts.flatMap tokenSource := by
    rw [partsSource, List.flatMap_assoc]
    exact congrArg (ts.flatMap ·) (funext partsSource_tokenParts)
  rw [tokensParts, List.cons_append, partsSource_cons, partsSource_append, htokens]
  simp [partsSource, Part.source, tokensSource]

theorem partsKeys_tokensParts (o : Options) (ts : List Token) :
    partsKeys (tokensParts o ts) = tokensKeys ts := by
  have htokens : partsKeys (ts.flatMap tokenParts) = tokensKeys ts := by
    induction ts with
    | nil => rfl
    | cons t ts ih =>
      rw [List.flatMap_cons, partsKeys_append, partsKeys_tokenParts, ih]
      cases t <;> rfl
  rw [tokensParts, List.cons_append, partsKeys_cons, partsKeys_append, htokens]
  simp [partsKeys, Part.keys]

mutual

theorem partsSource_parts (o : Options) (i : Input) : partsSource (i.parts o) = i.source o := by
  match i with
  | .template t => exact partsSource_tokensParts o _
  | .written w => simp [Input.parts, Input.source, partsSource, Part.source]
  | .anyOf is =>
    rw [Input.parts, Input.source, List.cons_append, partsSource_cons, partsSource_append,
      partsSource_alternatives o is]
    simp [partsSource, Part.source, bundled]

theorem partsSource_alternatives (o : Options) (is : List Input) :
    partsSource (Input.alternatives o is) = Text.join ['|'] (Input.sources o is) := by
  match is with
  | [] => rfl
  | [i] => exact partsSource_parts o i
  | i :: j :: is =>
    have hrest := partsSource_alternatives o (j :: is)
    rw [Input.alternatives, partsSource_append, partsSource_parts o i, partsSource_cons, hrest]
    simp [Input.sources, Text.join, Part.source]

end

mutual

theorem partsKeys_parts (o : Options) (i : Input) : partsKeys (i.parts o) = i.keys o := by
  match i with
  | .template t => exact partsKeys_tokensParts o _
  | .written w => simp [Input.parts, Input.keys, partsKeys, Part.keys]
  | .anyOf is =>
    rw [Input.parts, Input.keys, List.cons_append, partsKeys_cons, partsKeys_append,
      partsKeys_alternatives o is]
    simp [partsKeys, Part.keys]

theorem partsKeys_alternatives (o : Options) (is : List Input) :
    partsKeys (Input.alternatives o is) = Input.allKeys o is := by
  match is with
  | [] => rfl
  | [i] =>
    rw [Input.alternatives, partsKeys_parts o i, Input.allKeys, Input.allKeys, List.append_nil]
  | i :: j :: is =>
    have hrest := partsKeys_alternatives o (j :: is)
    rw [Input.alternatives, partsKeys_append, partsKeys_parts o i, partsKeys_cons, hrest,
      Input.allKeys]
    rfl

end

/-! ### How parts are joined -/

/-- In front of this text the part is cut as it is by itself, groups apart. -/
def Part.Before (u : Text) : Part → Prop
  | text t => Steady t
  | group _ => True
  | written _ => Seam u

def Joined (u : Text) : List Part → Prop
  | [] => True
  | p :: ps => p.Before (partsSource ps ++ u) ∧ Joined u ps

theorem Joined.append {u : Text} {ps qs : List Part} (h : Joined (partsSource qs ++ u) ps)
    (h' : Joined u qs) : Joined u (ps ++ qs) := by
  induction ps with
  | nil => exact h'
  | cons p ps ih =>
    rw [List.cons_append, Joined, partsSource_append, List.append_assoc]
    exact ⟨h.1, ih h.2⟩

/-- Without expressions written by hand the text that follows does not matter. -/
theorem joined_of_steady {ps : List Part} (h : ∀ p ∈ ps, ∀ u, p.Before u) (u : Text) :
    Joined u ps := by
  induction ps with
  | nil => trivial
  | cons p ps ih =>
    exact ⟨h p List.mem_cons_self _, ih fun q hq => h q (List.mem_cons_of_mem p hq)⟩

theorem before_tokenParts {t : Token} {p : Part} (hp : p ∈ tokenParts t) (u : Text) :
    p.Before u := by
  cases t with
  | literal t =>
    rw [List.mem_singleton.mp hp]
    exact steady_literal t
  | parameter q =>
    have hclose : Steady [')', '?'] := steady_close.append steady_question
    simp only [tokenParts, parameterParts] at hp
    split at hp <;> simp only [List.mem_cons, List.not_mem_nil, or_false] at hp
    case _ =>
      rcases hp with rfl | rfl
      · trivial
      · exact steady_question
    case _ c _ _ =>
      rcases hp with rfl | rfl | rfl
      · exact steady_bundle.append (steady_char c)
      · trivial
      · exact hclose
    case _ =>
      rw [hp]
      trivial
    case _ c _ _ =>
      rcases hp with rfl | rfl
      · exact steady_char c
      · trivial

theorem steady_terminators (o : Options) : Steady (terminatorSource o) := by
  refine steady_join ?_
  intro t ht
  rcases List.mem_append.mp ht with ht | ht
  · obtain ⟨w, -, rfl⟩ := List.mem_map.mp ht
    exact steady_literal w
  · rw [List.mem_singleton.mp ht]
    exact steady_dollar

theorem steady_closing (o : Options) : Steady (closingSource o) := by
  refine Steady.append ?_ ?_
  · split
    · exact steady_nil
    · exact (steady_char o.delimiter).bundled.append steady_question
  · split
    · exact steady_dollar
    · exact (steady_terminators o).lookingAhead

theorem steady_open (o : Options) (ts : List Token) : Steady (openSource o ts) := by
  refine Steady.append ?_ ?_
  · split
    · exact steady_nil
    · have hend := (steady_terminators o).lookingAhead
      exact ((steady_char o.delimiter).append hend).bundled.append steady_question
  · split
    · exact steady_nil
    · have hend := steady_bar.append (steady_terminators o)
      exact ((steady_char o.delimiter).append hend).lookingAhead

theorem joined_tokensParts (o : Options) (ts : List Token) (u : Text) :
    Joined u (tokensParts o ts) := by
  refine joined_of_steady ?_ u
  intro p hp u
  rcases List.mem_append.mp hp with hp | hp
  · rcases List.mem_cons.mp hp with rfl | hp
    · rw [Part.Before]
      split
      · exact steady_caret
      · exact steady_nil
    · obtain ⟨t, -, ht⟩ := List.mem_flatMap.mp hp
      exact before_tokenParts ht u
  · rw [List.mem_singleton.mp hp, Part.Before]
    split
    · exact steady_closing o
    · exact steady_open o ts

mutual

theorem joined_parts (o : Options) (i : Input) {u : Text} (hu : Seam u) : Joined u (i.parts o) := by
  match i with
  | .template t => exact joined_tokensParts o _ u
  | .written w => exact ⟨hu, trivial⟩
  | .anyOf is =>
    refine ⟨steady_bundle, ?_⟩
    exact (joined_alternatives o is (seam_close u)).append ⟨steady_close, trivial⟩

theorem joined_alternatives (o : Options) (is : List Input) {u : Text} (hu : Seam u) :
    Joined u (Input.alternatives o is) := by
  match is with
  | [] => trivial
  | [i] => exact joined_parts o i hu
  | i :: j :: is =>
    refine Joined.append ?_ ⟨steady_bar, joined_alternatives o (j :: is) hu⟩
    exact joined_parts o i (seam_bar _)

end

end PathTemplate.Matching
