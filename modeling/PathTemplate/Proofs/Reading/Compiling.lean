import PathTemplate.Proofs.Reading.TokenItems

/-!
Templates with default patterns can always be compiled: their expressions are read, and no loop in
them asks for more turns than it allows. Without terminators the expressions are plain.
-/
namespace PathTemplate.Expression

/-- A property that expressions get from their parts, or from nothing if they are left out. Where
`a` holds, case does not count in their sets and letters. -/
structure Inherited (a : Bool) (P : Expr → Prop) : Prop where
  empty : P .empty
  one : ∀ s, s.isSpelled = false → P (.one s a)
  char : ∀ c, P (charItem a c).expr
  check : ∀ x, x.aboutWords = false → P (.check x)
  cat : ∀ e f, P e → P f → P (.cat e f)
  optional : ∀ e, P e → P (.loop e 0 (some 1) true)

structure ThroughLoops (a : Bool) (P : Expr → Prop) : Prop extends Inherited a P where
  group : ∀ i e, P e → P (.group i e)
  loop : ∀ e lo hi greedy, hi.all (lo ≤ ·) = true → P e → P (.loop e lo hi greedy)

structure ThroughAhead (a : Bool) (P : Expr → Prop) : Prop extends Inherited a P where
  alt : ∀ e f, P e → P f → P (.alt e f)
  ahead : ∀ e, P e → P (.ahead true e)

theorem throughLoops_isPlain (a : Bool) : ThroughLoops a fun e => e.isPlain = true := by
  refine ⟨⟨rfl, fun _ _ => rfl, fun _ => rfl, ?_, ?_, fun _ h => h⟩, fun _ _ h => h,
    fun _ _ _ _ _ h => h⟩
  · intro x hx
    simp [Expr.isPlain, hx]
  · intro e f he hf
    simp [Expr.isPlain, he, hf]

private theorem inherited_isSettled (a : Bool) : Inherited a fun e => e.isSettled = true := by
  refine ⟨rfl, ?_, fun _ => rfl, fun _ _ => rfl, ?_, fun _ h => h⟩
  · intro s hs
    simp [Expr.isSettled, hs]
  · intro e f he hf
    simp [Expr.isSettled, he, hf]

theorem throughLoops_isSettled (a : Bool) : ThroughLoops a fun e => e.isSettled = true :=
  ⟨inherited_isSettled a, fun _ _ h => h, fun _ _ _ _ _ h => h⟩

theorem throughAhead_isSettled (a : Bool) : ThroughAhead a fun e => e.isSettled = true := by
  refine ⟨inherited_isSettled a, ?_, fun _ h => h⟩
  intro e f he hf
  simp [Expr.isSettled, he, hf]

private theorem inherited_boundsOk (a : Bool) :
    Inherited a fun e => ∀ plain, e.boundsOk plain = true := by
  refine ⟨fun _ => rfl, fun _ _ _ => rfl, fun _ _ => rfl, fun _ _ _ => rfl, ?_, ?_⟩
  · intro e f he hf plain
    simp [Expr.boundsOk, he plain, hf plain]
  · intro e he plain
    simp [Expr.boundsOk, he plain]

theorem throughLoops_boundsOk (a : Bool) :
    ThroughLoops a fun e => ∀ plain, e.boundsOk plain = true := by
  refine ⟨inherited_boundsOk a, fun _ _ h => h, ?_⟩
  intro e lo hi greedy hle he plain
  simp only [Expr.boundsOk, he plain, hle, Bool.or_true, Bool.and_true]

theorem throughAhead_boundsOk (a : Bool) :
    ThroughAhead a fun e => ∀ plain, e.boundsOk plain = true := by
  refine ⟨inherited_boundsOk a, ?_, fun e he _ => he e.isPlain⟩
  intro e f he hf plain
  simp [Expr.boundsOk, he plain, hf plain]

/-- A check that goes through sequences looks at every item. -/
theorem all_ofItems {f : Expr → Bool} (hempty : f .empty = true)
    (hcat : ∀ e g, f (.cat e g) = (f e && f g)) (is : List Item) :
    f (Branch.ofItems is).expr = is.all fun i => f i.expr := by
  have hpush : ∀ (b : Branch) (i : Item), f (b.push i).expr = (f b.expr && f i.expr) := by
    intro b i
    obtain ⟨e, r, g⟩ := i
    have hlast : (b.push ⟨e, r, g⟩).joined = Branch.join b.joined ⟨e, r, g⟩ := rfl
    rw [Branch.expr, hlast, Branch.expr]
    cases b.joined <;> cases e <;> simp [Branch.join, hempty, hcat]
  have hfold : ∀ (is : List Item) (b : Branch),
      f (is.foldl Branch.push b).expr = (f b.expr && is.all fun i => f i.expr) := by
    intro is
    induction is with
    | nil => exact fun b => (Bool.and_true _).symm
    | cons i is ih =>
      intro b
      rw [List.foldl_cons, ih, hpush, List.all_cons, Bool.and_assoc]
  have hstart : f (Branch.expr {}) = true := hempty
  rw [Branch.ofItems, hfold, hstart, Bool.true_and]

/-- A check that goes through alternatives looks at every one of them. -/
theorem Builder.all_altAll {f : Expr → Bool} (hempty : f .empty = true)
    (halt : ∀ e g, f (.alt e g) = (f e && f g)) (es : List Expr) : f (altAll es) = es.all f := by
  have hfold : ∀ (es : List Expr) (e : Expr), f (es.foldl Expr.alt e) = (f e && es.all f) := by
    intro es
    induction es with
    | nil => exact fun e => (Bool.and_true _).symm
    | cons g es ih =>
      intro e
      rw [List.foldl_cons, ih, halt, List.all_cons, Bool.and_assoc]
  cases es with
  | nil => exact hempty
  | cons e es => exact hfold es e

def Throughout (P : Expr → Prop) (is : List Item) : Prop := ∀ i ∈ is, P i.expr

namespace Throughout

variable {a : Bool} {P : Expr → Prop} {is js : List Item} {i : Item}

theorem nil : Throughout P [] := nofun

theorem append (h : Throughout P is) (h' : Throughout P js) : Throughout P (is ++ js) := by
  intro i hi
  rcases List.mem_append.mp hi with hi | hi
  · exact h i hi
  · exact h' i hi

theorem cons (h : Throughout P [i]) (h' : Throughout P is) : Throughout P (i :: is) := h.append h'

theorem single (h : P i.expr) : Throughout P [i] := by
  intro j hj
  rw [List.mem_singleton.mp hj]
  exact h

theorem ofItems (hP : Inherited a P) (h : Throughout P is) : P (Branch.ofItems is).expr := by
  have hfold : ∀ (is : List Item) (b : Branch), b.Holds P → Throughout P is →
      (is.foldl Branch.push b).Holds P := by
    intro is
    induction is with
    | nil => exact fun b hb _ => hb
    | cons i is ih =>
      intro b hb his
      exact ih (b.push i) (hb.push hP.cat (his i List.mem_cons_self))
        fun j hj => his j (List.mem_cons_of_mem i hj)
  exact (hfold is {} .empty h).expr hP.empty hP.cat

theorem enclosed {c : Content} (h : P c.expr) (d : Dialect) : Throughout P [enclosedItem d c] :=
  single h

theorem bundled (hP : Inherited a P) (h : Throughout P is) (d : Dialect) :
    Throughout P [bundledItem d is] := enclosed (h.ofItems hP) d

theorem optional (hP : Inherited a P) (h : Throughout P [i]) : Throughout P [loopItem i (some 1)] :=
  single (hP.optional _ (h i List.mem_cons_self))

theorem group (hP : ThroughLoops a P) {c : Content} (h : P c.expr) (k : Nat) :
    Throughout P [groupItem k c] := single (hP.group k _ h)

theorem zeroOrMore (hP : ThroughLoops a P) (h : Throughout P [i]) :
    Throughout P [loopItem i none] :=
  single (hP.loop _ 0 none true rfl (h i List.mem_cons_self))

theorem chars (hP : Inherited a P) (t : Text) : Throughout P (t.map (charItem a)) := by
  intro i hi
  obtain ⟨c, -, rfl⟩ := List.mem_map.mp hi
  exact hP.char c

theorem check (hP : Inherited a P) (d : Dialect) {x : Assertion} (hx : x.aboutWords = false) :
    Throughout P [checkItem d x] := single (hP.check x hx)

theorem lazyItem (hP : ThroughLoops a P) (d : Dialect) (cs : List Char) :
    Throughout P [lazyItem d cs a] := single (hP.loop _ 1 none false rfl (hP.one _ rfl))

theorem ahead (hP : ThroughAhead a P) {as : List Alternative} (h : ∀ p ∈ as, Throughout P p.2) :
    Throughout P [aheadItem (alternativeExprs as)] := by
  refine single (hP.ahead _ (Builder.holds_altAll hP.empty hP.alt fun e he => ?_))
  obtain ⟨p, hp, rfl⟩ := List.mem_map.mp he
  exact (h p hp).ofItems hP.toInherited

end Throughout

end PathTemplate.Expression

namespace PathTemplate.Matching

open Expression

section Items

variable {P : Expr → Prop} {a : Bool} (hP : ThroughLoops a P) {o : Options}

include hP

private theorem throughout_valueContent {p : Parameter}
    (h : P (bodyContent a p.pattern).expr) : P (valueContent a p).expr := by
  have hbody : Throughout P [bodyItem a p] := .enclosed h .path
  unfold valueContent
  split
  · refine Throughout.ofItems hP.toInherited (hbody.cons (.zeroOrMore hP ?_))
    exact ((Throughout.chars hP.toInherited [p.delimiter]).cons hbody).bundled hP.toInherited
      .path
  · exact h

theorem throughout_parameterItems (g : Nat) {p : Parameter}
    (h : P (bodyContent a p.pattern).expr) : Throughout P (parameterItems a g p) := by
  have hgroup : Throughout P [groupItem (g + 1) (valueContent a p)] :=
    .group hP (throughout_valueContent hP h) (g + 1)
  have hled := fun c => (Throughout.chars hP.toInherited [c]).cons hgroup
  unfold parameterItems
  split
  · exact hgroup.optional hP.toInherited
  · exact ((hled _).bundled hP.toInherited .path).optional hP.toInherited
  · exact hgroup
  · exact hled _

private theorem throughout_tokensItems (g : Nat) {ts : List Token}
    (h : ∀ p, .parameter p ∈ ts → P (bodyContent a p.pattern).expr) :
    Throughout P (tokensItems a g ts) := by
  intro i hi
  rcases eq_char_or_mem_of_mem_tokensItems hi with ⟨c, rfl⟩ | ⟨p, k, hp, hi⟩
  · exact hP.char c
  · exact throughout_parameterItems hP k (h p hp) i hi

/-- What holds of the patterns and of the items at the end holds of the whole expression. -/
theorem throughout_expressionItems (g : Nat) {ts : List Token}
    (h : ∀ p, .parameter p ∈ ts → P (bodyContent a p.pattern).expr)
    (hend : Throughout P (endingItems a o ts)) : Throughout P (expressionItems a o g ts) := by
  refine .append (.append ?_ (throughout_tokensItems hP g h)) hend
  split
  · exact .check hP.toInherited .path rfl
  · exact .nil

private theorem throughout_bodies {ts : List Token} (h : DefaultPatterns o ts) :
    ∀ p, .parameter p ∈ ts → P (bodyContent a p.pattern).expr := by
  intro p hp
  rw [bodyContent_defaultPattern a (h p hp)]
  exact (Throughout.lazyItem hP .path (excluded o p)).ofItems hP.toInherited

end Items

section Endings

variable {P : Expr → Prop} {a : Bool} (o : Options)

private theorem throughout_delimiter (hP : Inherited a P) : Throughout P [charItem a o.delimiter] :=
  .chars hP [o.delimiter]

/-- Where the path has to end without a terminator, nothing looks ahead for its end. -/
theorem throughout_endingItems_of_toEnd (hP : Inherited a P) {o : Options} (hend : o.toEnd = true)
    (hw : o.endsWith = []) (ts : List Token) : Throughout P (endingItems a o ts) := by
  simp only [endingItems, closingItems, hend, hw, List.isEmpty_nil, if_true]
  refine .append ?_ (.check hP .path rfl)
  split
  · exact .nil
  · exact ((throughout_delimiter o hP).bundled hP .path).optional hP

private theorem throughout_terminators (hP : Inherited a P) :
    ∀ p ∈ terminators a o, Throughout P p.2 := by
  intro p hp
  rcases List.mem_append.mp hp with h | h
  · obtain ⟨t, -, rfl⟩ := List.mem_map.mp h
    exact .chars hP t
  · rw [List.mem_singleton.mp h]
    exact .check hP .path rfl

theorem throughout_endingItems (hP : ThroughAhead a P) (ts : List Token) :
    Throughout P (endingItems a o ts) := by
  have hterminators := throughout_terminators o hP.toInherited
  have hend := Throughout.ahead hP hterminators
  have hdelimiter := throughout_delimiter o hP.toInherited
  unfold endingItems closingItems openItems
  split
  · refine .append ?_ ?_
    · split
      · exact .nil
      · exact (hdelimiter.bundled hP.toInherited .path).optional hP.toInherited
    · split
      · exact .check hP.toInherited .path rfl
      · exact hend
  · refine .append ?_ ?_
    · split
      · exact .nil
      · exact ((hdelimiter.cons hend).bundled hP.toInherited .path).optional hP.toInherited
    · split
      · exact .nil
      · refine Throughout.ahead hP fun p hp => ?_
        rcases List.mem_cons.mp hp with rfl | hp
        · exact hdelimiter
        · exact hterminators p hp

end Endings

def compiledTokens (o : Options) (ts : List Token) : Compiled :=
  ⟨(Branch.ofItems (expressionItems (!o.sensitive) o 0 ts)).expr, (parameters ts).length⟩

/-- What is built has been read. -/
theorem read_of_build {o : Options} {source : Text} {keys : List Key} {m : Matcher}
    (h : Matcher.build o source keys = .ok m) :
    m.source = source ∧ m.keys = keys ∧
      Compiled.read .path (Matcher.flagged o source) = some m.compiled := by
  rw [Matcher.build] at h
  split at h
  case _ c hc =>
    obtain rfl := Except.ok.inj h
    exact ⟨rfl, rfl, hc⟩
  case _ => cases h

section Build

variable {o : Options} {source : Text} {keys : List Key} {deep k : Nat} {is : Nat → List Item}
  {m : Matcher}

/-- What can be compiled at all is compiled from the items of its source, if their sets are known,
and then no plain loop asks for too much. -/
theorem build_inv (h : Writes .path (!o.sensitive) deep source k is)
    (hs : (Branch.ofItems (is 0)).expr.isSettled = true)
    (hm : Matcher.build o source keys = .ok m) :
    (Branch.ofItems (is 0)).expr.boundsOk (Branch.ofItems (is 0)).expr.isPlain = true ∧
      m = ⟨source, keys, ⟨(Branch.ofItems (is 0)).expr, k⟩⟩ := by
  obtain ⟨rfl, rfl, hread⟩ := read_of_build hm
  rw [read_of_isSettled (read_flagged_of_isSome h (isSome_read hread)) (.inr hs)] at hread
  split at hread
  case isTrue hbounds =>
    obtain hcompiled := Option.some.inj hread
    exact ⟨hbounds, by rw [hcompiled]⟩
  case isFalse => cases hread

theorem eq_of_build (h : Writes .path (!o.sensitive) deep source k is)
    (hs : (Branch.ofItems (is 0)).expr.isSettled = true)
    (hm : Matcher.build o source keys = .ok m) :
    m = ⟨source, keys, ⟨(Branch.ofItems (is 0)).expr, k⟩⟩ := (build_inv h hs hm).2

end Build

section Settled

variable {o : Options} {ts : List Token} {n : Nat}

/-- All sets of an expression are known if those of its patterns are. -/
theorem settled_expressionItems {a : Bool} (g : Nat) (hts : ∀ p, .parameter p ∈ ts → Embeds a n p) :
    Throughout (fun e => e.isSettled = true) (expressionItems a o g ts) :=
  throughout_expressionItems (throughLoops_isSettled a) g (fun p hp => (hts p hp).settled)
    (throughout_endingItems o (throughAhead_isSettled a) ts)

theorem isSettled_compiledTokens (hts : ∀ p, .parameter p ∈ ts → Embeds (!o.sensitive) n p) :
    (compiledTokens o ts).expr.isSettled = true :=
  (settled_expressionItems 0 hts).ofItems (throughLoops_isSettled (!o.sensitive)).toInherited

theorem settled_tokensSource (hts : ∀ p, .parameter p ∈ ts → Embeds (!o.sensitive) n p) :
    Settled (Matcher.flagged o (tokensSource o ts)) := by
  intro e k hread
  have hsome : (Expression.read .path (Matcher.flagged o (tokensSource o ts))).isSome = true := by
    rw [hread, Option.isSome_some]
  rw [read_flagged_of_isSome (writes_tokensSource (!o.sensitive) hts) hsome] at hread
  obtain ⟨rfl, -⟩ := Prod.mk.inj (Option.some.inj hread)
  exact isSettled_compiledTokens hts

end Settled

/-- A matcher of tokens whose patterns keep to their groups is compiled from the items of the
tokens. -/
theorem eq_of_ofTokens {o : Options} {ts : List Token} {n : Nat} {m : Matcher}
    (hts : ∀ p, .parameter p ∈ ts → Embeds (!o.sensitive) n p) (h : Matcher.ofTokens o ts = .ok m) :
    m = ⟨tokensSource o ts, tokensKeys ts, compiledTokens o ts⟩ :=
  eq_of_build (writes_tokensSource (!o.sensitive) (o := o) hts) (isSettled_compiledTokens hts) h

/-- Tokens are compiled where there is room for their patterns and no plain loop asks for too
much. -/
theorem ofTokens_eq_of_embeds {o : Options} {ts : List Token} {n : Nat} (hn : n + 4 ≤ 63)
    (hts : ∀ p, .parameter p ∈ ts → Embeds (!o.sensitive) n p)
    (hbounds : (compiledTokens o ts).expr.boundsOk (compiledTokens o ts).expr.isPlain = true) :
    Matcher.ofTokens o ts = .ok ⟨tokensSource o ts, tokensKeys ts, compiledTokens o ts⟩ := by
  have hread : Compiled.read .path (Matcher.flagged o (tokensSource o ts)) =
      some (compiledTokens o ts) :=
    (read_of_isSettled (read_flagged (writes_tokensSource (!o.sensitive) hts) hn)
      (.inr (isSettled_compiledTokens hts))).trans (if_pos hbounds)
  rw [Matcher.ofTokens, Matcher.build, hread]

/-- Tokens with default patterns can always be compiled. -/
theorem ofTokens_eq {o : Options} {ts : List Token} (h : DefaultPatterns o ts) :
    Matcher.ofTokens o ts = .ok ⟨tokensSource o ts, tokensKeys ts, compiledTokens o ts⟩ := by
  have hP := throughLoops_boundsOk (!o.sensitive)
  have hbounds := (throughout_expressionItems hP 0 (throughout_bodies hP h)
    (throughout_endingItems o (throughAhead_boundsOk _) ts)).ofItems hP.toInherited
  exact ofTokens_eq_of_embeds (n := 0) (by omega)
    (fun p hp => embeds_defaultPattern _ (h p hp)) (hbounds _)

theorem compile_template_eq {o : Options} {t : Text}
    (h : DefaultPatterns o (Template.tokens o t)) :
    Matcher.compile o (.template t) = .ok ⟨tokensSource o (Template.tokens o t),
      tokensKeys (Template.tokens o t), compiledTokens o (Template.tokens o t)⟩ := ofTokens_eq h

theorem compile_template_eq_of_tokens {o : Options} {t : Text} {ts : List Token}
    (ht : Template.tokens o t = ts) (h : DefaultPatterns o ts) :
    Matcher.compile o (.template t) =
      .ok ⟨tokensSource o ts, tokensKeys ts, compiledTokens o ts⟩ := by
  subst ht
  exact compile_template_eq h

/-- Without terminators no search for a whole path is ever given up. -/
theorem isPlain_compiledTokens {o : Options} (hend : o.toEnd = true) (hw : o.endsWith = [])
    {ts : List Token} (h : DefaultPatterns o ts) : (compiledTokens o ts).expr.isPlain = true :=
  have hP := throughLoops_isPlain (!o.sensitive)
  (throughout_expressionItems hP 0 (throughout_bodies hP h)
    (throughout_endingItems_of_toEnd hP.toInherited hend hw ts)).ofItems hP.toInherited

theorem exists_ok_of_map {ε α β : Type} {f : α → β} {x : Except ε α} {b : β}
    (h : x.map f = .ok b) : ∃ v, x = .ok v ∧ f v = b := by
  cases x with
  | error e => cases h
  | ok v => exact ⟨v, rfl, Except.ok.inj h⟩

end PathTemplate.Matching
