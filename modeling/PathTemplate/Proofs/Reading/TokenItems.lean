import PathTemplate.Matching.Matcher
import PathTemplate.Proofs.Reading.Bodies

/-!
What the expression of a list of tokens is read as: the items of the tokens one after the other,
and behind them those of the end. The pattern of a parameter is a body that holds its own
alternatives, with the value of the parameter as the group around it.
-/
namespace PathTemplate.Matching

open Expression

def excluded (o : Options) (p : Parameter) : List Char :=
  if p.delimiter = o.delimiter then [p.delimiter] else [p.delimiter, o.delimiter]

theorem excluded_ne_nil (o : Options) (p : Parameter) : excluded o p ≠ [] := by
  rw [excluded]
  split <;> simp

def parameters (ts : List Token) : List Parameter := ts.filterMap Token.parameter?

theorem mem_parameters {ts : List Token} {p : Parameter} :
    p ∈ parameters ts ↔ .parameter p ∈ ts := by
  rw [parameters, List.mem_filterMap]
  constructor
  · rintro ⟨t, ht, hp⟩
    cases t with
    | literal t => cases hp
    | parameter q => rwa [← Option.some.inj hp]
  · exact fun h => ⟨_, h, rfl⟩

theorem length_tokensKeys (ts : List Token) : (tokensKeys ts).length = (parameters ts).length := by
  rw [tokensKeys, List.length_map, parameters]

/-- Every parameter takes the pattern that a template gives it when it names none. -/
def DefaultPatterns (o : Options) (ts : List Token) : Prop :=
  ∀ p, .parameter p ∈ ts → p.pattern = Template.defaultPattern p.delimiter o.delimiter

/-- A template in which no parameter has a body has default patterns only. -/
theorem defaultPatterns_tokens {o : Options} {t : Text}
    (h : ∀ m, .mark m ∈ Template.pieces t → m.body = none) :
    DefaultPatterns o (Template.tokens o t) := by
  intro p hp
  obtain ⟨m, i, lead, hm, rfl⟩ := Template.exists_mark_of_mem_tokens hp
  simp [Template.Mark.parameter, h m hm]

theorem defaultPatterns_of_all {o : Options} {t : Text}
    (h : (Template.pieces t).all (fun x => match x with
      | .mark m => m.body.isNone
      | _ => true) = true) : DefaultPatterns o (Template.tokens o t) := by
  refine defaultPatterns_tokens fun m hm => ?_
  simpa using List.all_eq_true.mp h _ hm

theorem DefaultPatterns.tail {o : Options} {t : Token} {ts : List Token}
    (h : DefaultPatterns o (t :: ts)) : DefaultPatterns o ts :=
  fun p hp => h p (List.mem_cons_of_mem t hp)

/-! ### Items -/

section Items

variable (a : Bool) (o : Options)

def bodyItem (p : Parameter) : Item := enclosedItem .path (bodyContent a p.pattern)

def furtherItem (p : Parameter) : Item :=
  bundledItem .path [charItem a p.delimiter, bodyItem a p]

def valueContent (p : Parameter) : Content :=
  if p.repeats then .ofItems [bodyItem a p, loopItem (furtherItem a p) none]
  else bodyContent a p.pattern

/-- `g` is the number of groups before the parameter. -/
def parameterItems (g : Nat) (p : Parameter) : List Item :=
  let group := groupItem (g + 1) (valueContent a p)
  match p.optional, p.lead with
  | true, none => [loopItem group (some 1)]
  | true, some c => [loopItem (bundledItem .path [charItem a c, group]) (some 1)]
  | false, none => [group]
  | false, some c => [charItem a c, group]

def tokensItems (g : Nat) : List Token → List Item
  | [] => []
  | .literal t :: ts => t.map (charItem a) ++ tokensItems g ts
  | .parameter p :: ts => parameterItems a g p ++ tokensItems (g + 1) ts

variable {a} in
/-- The items of tokens are those of their parameters, and characters. -/
theorem eq_char_or_mem_of_mem_tokensItems {g : Nat} {ts : List Token} {i : Item}
    (h : i ∈ tokensItems a g ts) :
    (∃ c, i = charItem a c) ∨ ∃ p k, .parameter p ∈ ts ∧ i ∈ parameterItems a k p := by
  induction ts generalizing g with
  | nil => cases h
  | cons t ts ih =>
    have hlater : i ∈ tokensItems a (g + 1) ts ∨ i ∈ tokensItems a g ts →
        (∃ c, i = charItem a c) ∨ ∃ p k, .parameter p ∈ t :: ts ∧ i ∈ parameterItems a k p := by
      intro hi
      rcases hi.elim ih ih with hchar | ⟨p, k, hp, hi⟩
      · exact .inl hchar
      · exact .inr ⟨p, k, List.mem_cons_of_mem t hp, hi⟩
    cases t with
    | literal t =>
      rcases List.mem_append.mp h with hi | hi
      · obtain ⟨c, -, rfl⟩ := List.mem_map.mp hi
        exact .inl ⟨c, rfl⟩
      · exact hlater (.inr hi)
    | parameter p =>
      rcases List.mem_append.mp h with hi | hi
      · exact .inr ⟨p, g, List.mem_cons_self, hi⟩
      · exact hlater (.inl hi)

def terminators : List Alternative :=
  o.endsWith.map (fun t => (Quoting.literal t, t.map (charItem a))) ++
    [(['$'], [checkItem .path .textEnd])]

def endItem : Item := aheadItem (alternativeExprs (terminators a o))

def closingItems : List Item :=
  (if o.strict then [] else [loopItem (bundledItem .path [charItem a o.delimiter]) (some 1)]) ++
    if o.endsWith.isEmpty then [checkItem .path .textEnd] else [endItem a o]

def boundaries : List Alternative :=
  (Quoting.char o.delimiter, [charItem a o.delimiter]) :: terminators a o

def openItems (ts : List Token) : List Item :=
  (if o.strict then []
    else [loopItem (bundledItem .path [charItem a o.delimiter, endItem a o]) (some 1)]) ++
  if endsDelimited o ts then [] else [aheadItem (alternativeExprs (boundaries a o))]

def endingItems (ts : List Token) : List Item :=
  if o.toEnd then closingItems a o else openItems a o ts

def expressionItems (g : Nat) (ts : List Token) : List Item :=
  (if o.fromStart then [checkItem .path .textStart] else []) ++ tokensItems a g ts ++
    endingItems a o ts

end Items

/-! ### Patterns -/

/-- The pattern makes up its content where there is room for `n` groups, knows all of its sets, and
does not mark the parenthesis in front of it. -/
structure Embeds (a : Bool) (n : Nat) (p : Parameter) : Prop where
  encloses : Encloses .path a n p.pattern 0 fun _ => bodyContent a p.pattern
  settled : (bodyContent a p.pattern).expr.isSettled = true
  unmarked : p.pattern.head? ≠ some '?'

def defaultContent (a : Bool) (o : Options) (p : Parameter) : Content :=
  .ofItems [lazyItem .path (excluded o p) a]

section Default

variable (a : Bool) {o : Options} {p : Parameter}

theorem flat_defaultPattern
    (hp : p.pattern = Template.defaultPattern p.delimiter o.delimiter) : Flat p.pattern := by
  refine ⟨[⟨'[' :: '^' :: (Quoting.literal (excluded o p) ++ [']']), .set (outside (excluded o p))⟩,
    ⟨['+'], .plus⟩, ⟨['?'], .question⟩], ?_, fun u _ => ?_⟩
  · intro c hc
    simp only [List.mem_cons, List.not_mem_nil, or_false] at hc
    rcases hc with rfl | rfl | rfl <;> trivial
  · have htext : p.pattern ++ u =
        ('[' :: '^' :: (Quoting.literal (excluded o p) ++ [']'])) ++ '+' :: '?' :: u := by
      rw [hp]
      simp [Template.defaultPattern, excluded]
    have hset : lexeme .path
        (('[' :: '^' :: (Quoting.literal (excluded o p) ++ [']'])) ++ '+' :: '?' :: u) =
          some (.set (outside (excluded o p)), '+' :: '?' :: u) := by
      simp only [List.cons_append, List.append_assoc, List.nil_append, lexeme,
        Bracket.set_outside .path (excluded_ne_nil o p), Option.map_some]
    rw [htext]
    exact .more hset (.more (v := ['+']) rfl (.more (v := ['?']) rfl (.stop u)))

theorem bodyContent_defaultPattern
    (hp : p.pattern = Template.defaultPattern p.delimiter o.delimiter) :
    bodyContent a p.pattern = defaultContent a o p := by
  refine bodyContent_eq (flat_defaultPattern hp) ?_ (Nat.zero_le _)
  rw [hp]
  exact (writes_lazyRun .path a (excluded_ne_nil o p)).encloses

theorem embeds_defaultPattern
    (hp : p.pattern = Template.defaultPattern p.delimiter o.delimiter) : Embeds a 0 p := by
  refine ⟨?_, (flat_defaultPattern hp).isSettled_bodyContent a, ?_⟩
  · rw [bodyContent_defaultPattern a hp, hp]
    exact (writes_lazyRun .path a (excluded_ne_nil o p)).encloses
  · rw [hp]
    simp [Template.defaultPattern]

end Default

/-! ### Values -/

section Writes

variable (a : Bool) {o : Options} {p : Parameter} {n : Nat}

private theorem writes_further (hp : Embeds a n p) :
    Writes .path a (n + 2) (bundled (Quoting.char p.delimiter ++ bundled p.pattern)) 0
      fun _ => [furtherItem a p] :=
  ((((writes_char a p.delimiter).weaken (Nat.zero_le (n + 1))).append
    hp.encloses.bundled).bundled)

theorem encloses_valueSource (hp : Embeds a n p) :
    Encloses .path a (n + 2) (valueSource p) 0 fun _ => valueContent a p := by
  rw [valueSource, valueContent]
  split
  · have hfirst := (hp.encloses.bundled).weaken (show n + 1 ≤ n + 2 by omega)
    have hrest := (writes_further a hp).repeated fun _ =>
      ⟨repeatable_bundledItem_pair .path (i := charItem a _) nofun rfl _, rfl⟩
    rw [List.append_assoc]
    exact (hfirst.append hrest).encloses
  · exact hp.encloses.weaken (by omega)

theorem head_valueSource (hp : p.pattern.head? ≠ some '?') : (valueSource p).head? ≠ some '?' := by
  rw [valueSource]
  split
  · simp [bundled]
  · exact hp

/-! ### Tokens -/

theorem writes_parameterSource (hp : Embeds a n p) :
    Writes .path a (n + 4) (parameterSource p) 1 fun g => parameterItems a g p := by
  have hgroup : Writes .path a (n + 3) (parenthesized (valueSource p)) 1
      fun g => [groupItem (g + 1) (valueContent a p)] :=
    (encloses_valueSource a hp).parenthesized (head_valueSource hp.unmarked)
  have hled : ∀ c : Char, Writes .path a (n + 3)
      (Quoting.char c ++ parenthesized (valueSource p)) 1
        fun g => [charItem a c, groupItem (g + 1) (valueContent a p)] := by
    intro c
    have h := ((writes_char a c).weaken (Nat.zero_le (n + 3))).append hgroup
    rw [Nat.zero_add] at h
    exact h
  rw [parameterSource]
  cases hopt : p.optional <;> cases hlead : p.lead with
  | none =>
    simp only [parameterItems, hopt, hlead]
    first
      | exact hgroup.weaken (by omega)
      | exact (hgroup.optional fun _ => ⟨rfl, rfl⟩).weaken (by omega)
  | some c =>
    simp only [parameterItems, hopt, hlead]
    first
      | exact (hled c).weaken (by omega)
      | exact (hled c).bundled.optional fun _ =>
          ⟨repeatable_bundledItem_pair .path (i := charItem a _) nofun rfl _, rfl⟩

theorem writes_tokens {ts : List Token} (h : ∀ p, .parameter p ∈ ts → Embeds a n p) :
    Writes .path a (n + 4) (ts.flatMap tokenSource) (parameters ts).length
      fun g => tokensItems a g ts := by
  induction ts with
  | nil => exact Writes.nil.weaken (Nat.zero_le _)
  | cons t ts ih =>
    have hrest := ih fun p hp => h p (List.mem_cons_of_mem t hp)
    rw [List.flatMap_cons]
    cases t with
    | literal t =>
      have hlit := ((writes_literal a t).weaken (Nat.zero_le (n + 4))).append hrest
      rw [Nat.zero_add] at hlit
      exact hlit
    | parameter p =>
      have hpar := (writes_parameterSource a (h p (by simp))).append hrest
      rw [Nat.add_comm 1] at hpar
      exact hpar

/-! ### The end -/

theorem terminatorSource_eq :
    terminatorSource o = Text.join ['|'] ((terminators a o).map Prod.fst) := by
  simp [terminatorSource, terminators, Function.comp_def]

private theorem writes_of_mem_terminators :
    ∀ q ∈ terminators a o, Writes .path a 0 q.1 0 fun _ => q.2 := by
  intro q hq
  rcases List.mem_append.mp hq with h | h
  · obtain ⟨t, _, rfl⟩ := List.mem_map.mp h
    exact writes_literal a t
  · rw [List.mem_singleton.mp h]
    exact writes_dollar .path a

theorem terminators_ne_nil : terminators a o ≠ [] := by
  simp [terminators]

private theorem writes_end :
    Writes .path a 1 (lookingAhead (terminatorSource o)) 0 fun _ => [endItem a o] := by
  obtain ⟨q, qs, hqs⟩ := List.exists_cons_of_ne_nil (terminators_ne_nil a (o := o))
  have h := writes_lookingAhead q qs (hqs ▸ writes_of_mem_terminators a)
  rw [← hqs, ← terminatorSource_eq] at h
  exact h

private theorem writes_boundary :
    Writes .path a 1 (lookingAhead (Quoting.char o.delimiter ++ '|' :: terminatorSource o)) 0
      fun _ => [aheadItem (alternativeExprs (boundaries a o))] := by
  obtain ⟨q, qs, hqs⟩ := List.exists_cons_of_ne_nil (terminators_ne_nil a (o := o))
  have htext : Quoting.char o.delimiter ++ '|' :: terminatorSource o =
      Text.join ['|'] ((boundaries a o).map Prod.fst) := by
    rw [terminatorSource_eq a, boundaries, hqs]
    simp [Text.join_cons_cons]
  have h := writes_lookingAhead (Quoting.char o.delimiter, [charItem a o.delimiter])
    (terminators a o) fun r hr => by
      rcases List.mem_cons.mp hr with rfl | hr
      · exact writes_char a o.delimiter
      · exact writes_of_mem_terminators a r hr
  rw [htext]
  exact h

private theorem writes_closing :
    Writes .path a 4 (closingSource o) 0 fun _ => closingItems a o := by
  have hdelimiter := ((writes_char a o.delimiter).bundled).optional fun _ =>
    ⟨repeatable_bundledItem_single .path nofun rfl, rfl⟩
  have hend : Writes .path a 4
      (if o.endsWith.isEmpty then ['$'] else lookingAhead (terminatorSource o)) 0
        fun _ => if o.endsWith.isEmpty then [checkItem .path .textEnd] else [endItem a o] := by
    split
    · exact (writes_dollar .path a).weaken (by omega)
    · exact (writes_end a).weaken (by omega)
  rw [closingSource]
  simp only [closingItems]
  split
  · exact hend
  · exact (hdelimiter.weaken (by omega)).append hend

private theorem writes_open (ts : List Token) :
    Writes .path a 4 (openSource o ts) 0 fun _ => openItems a o ts := by
  have hdelimiter := ((((writes_char a o.delimiter).weaken (Nat.zero_le 1)).append
    (writes_end a (o := o))).bundled).optional fun _ =>
      ⟨repeatable_bundledItem_pair .path (i := charItem a _) nofun rfl _, rfl⟩
  have hboundary : Writes .path a 4
      (if endsDelimited o ts then []
        else lookingAhead (Quoting.char o.delimiter ++ '|' :: terminatorSource o)) 0
        fun _ => if endsDelimited o ts then []
          else [aheadItem (alternativeExprs (boundaries a o))] := by
    split
    · exact Writes.nil.weaken (by omega)
    · exact (writes_boundary a).weaken (by omega)
  rw [openSource]
  simp only [openItems]
  split
  · exact hboundary
  · exact (hdelimiter.weaken (by omega)).append hboundary

/-! ### The whole expression -/

theorem writes_tokensSource {ts : List Token} (h : ∀ p, .parameter p ∈ ts → Embeds a n p) :
    Writes .path a (n + 4) (tokensSource o ts) (parameters ts).length
      fun g => expressionItems a o g ts := by
  have hstart : Writes .path a (n + 4) (if o.fromStart then ['^'] else []) 0
      fun _ => if o.fromStart then [checkItem .path .textStart] else [] := by
    split
    · exact (writes_caret .path a).weaken (by omega)
    · exact Writes.nil.weaken (by omega)
  have hend : Writes .path a (n + 4) (if o.toEnd then closingSource o else openSource o ts) 0
      fun _ => endingItems a o ts := by
    simp only [endingItems]
    split
    · exact (writes_closing a).weaken (by omega)
    · exact (writes_open a ts).weaken (by omega)
  have hall := (hstart.append (writes_tokens a h)).append hend
  rw [Nat.zero_add] at hall
  exact hall

end Writes

def Builder.flaggedInit (a : Bool) : Builder :=
  if a then
    Builder.push { Builder.init with flags := { anyCase := true } }
      { expr := .empty, repeatable := false }
  else Builder.init

private theorem finish_flaggedInit (d : Dialect) (a : Bool) (k : Nat) (is : List Item) :
    ((Builder.flaggedInit a).grow k is).finish d = some ((Branch.ofItems is).expr, k) := by
  have hexpr : (is.foldl Branch.push (Builder.flaggedInit a).frame.branch).expr =
      (Branch.ofItems is).expr := by
    cases a with
    | false => rfl
    | true => cases is <;> rfl
  have hmix : ((Builder.flaggedInit a).grow k is).mixesReferences = false := by
    cases a <;> simp [Builder.mixesReferences, Builder.grow, Builder.flaggedInit, Builder.init,
      Builder.push, Builder.setBranch]
  rw [Builder.finish, hmix]
  cases a <;> simp_all [Builder.grow, Builder.flaggedInit, Builder.init, Builder.push,
    Builder.setBranch, Builder.alternatives, Builder.altAll]

theorem quiet_flaggedInit (a : Bool) : (Builder.flaggedInit a).Quiet a := by
  cases a <;> exact ⟨rfl, rfl, rfl, rfl, rfl⟩

private theorem outer_flaggedInit (a : Bool) : (Builder.flaggedInit a).outer = [] := by
  cases a <;> rfl

private theorem groups_flaggedInit (a : Bool) : (Builder.flaggedInit a).groups = 0 := by
  cases a <;> rfl

/-- A text that adds items wherever it stands is read as these items when it stands alone. -/
private theorem read_of_writes {d : Dialect} {a : Bool} {deep k : Nat} {t u : Text}
    {is : Nat → List Item} (hu : Reads d Builder.init u (Builder.flaggedInit a) t)
    (h : Writes d a deep t k is) (hdeep : Room d (Builder.flaggedInit a) deep t) :
    Expression.read d u = some ((Branch.ofItems (is 0)).expr, k) := by
  have hread := h _ [] (quiet_flaggedInit a) (by rwa [List.append_nil])
  rw [List.append_nil, groups_flaggedInit] at hread
  rw [(hu.trans hread).read_eq, finish_flaggedInit]

theorem read_unflagged {d : Dialect} {deep k : Nat} {t : Text} {is : Nat → List Item}
    (h : Writes d false deep t k is) (hdeep : deep ≤ d.depth) :
    Expression.read d t = some ((Branch.ofItems (is 0)).expr, k) :=
  read_of_writes (.stop _ _) h (.inl (by rw [outer_flaggedInit]; simpa using hdeep))

theorem reads_flag (o : Options) (t : Text) :
    Reads .path Builder.init (Matcher.flagged o t) (Builder.flaggedInit (!o.sensitive)) t := by
  rw [Matcher.flagged]
  cases o.sensitive with
  | true => exact .stop _ _
  | false => exact .one rfl (by simp; omega) rfl

theorem read_flagged {o : Options} {deep k : Nat} {t : Text} {is : Nat → List Item}
    (h : Writes .path (!o.sensitive) deep t k is) (hdeep : deep ≤ 63) :
    Expression.read .path (Matcher.flagged o t) = some ((Branch.ofItems (is 0)).expr, k) :=
  read_of_writes (reads_flag o t) h
    (.inl (by rw [outer_flaggedInit]; simpa [Dialect.depth] using hdeep))

/-- An expression that can be read is read as the items of its text. -/
theorem read_flagged_of_isSome {o : Options} {deep k : Nat} {t : Text} {is : Nat → List Item}
    (h : Writes .path (!o.sensitive) deep t k is)
    (hread : (Expression.read .path (Matcher.flagged o t)).isSome = true) :
    Expression.read .path (Matcher.flagged o t) = some ((Branch.ofItems (is 0)).expr, k) := by
  obtain ⟨b, hb⟩ := readable_of_read hread
  exact read_of_writes (reads_flag o t) h (.inr ⟨b, (reads_flag o t).rest hb⟩)

end PathTemplate.Matching
