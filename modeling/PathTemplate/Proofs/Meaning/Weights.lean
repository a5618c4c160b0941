import Mathlib.Tactic.Linarith
import PathTemplate.Proofs.Meaning.Shortest

/-!
How long a search for segments takes. At each place of a path the tokens and the ending spend no
more steps than they weigh, so a search gives up only where the weight times the length of the path
exceeds the limit.
-/
namespace PathTemplate.Matching

open Expression State Expression.Task

/-! ### Weights -/

/-- What a token weighs: the steps that it takes for each place of the text. -/
def tokenWeight : Token → Nat
  | .literal t => t.length
  | .parameter _ => 10

def terminatorsWeight (o : Options) : Nat := (o.endsWith.map fun e => 2 * e.length + 3).sum + 11

/-- The number of steps that a search takes at most for each place of a path. -/
def weight (o : Options) (ts : List Token) : Nat :=
  2 * (ts.map tokenWeight).sum + (o.endsWith.length + 4) * terminatorsWeight o

/-- The matcher gives this answer to the path. It gives up instead only where `w`, times the length
of the path, exceeds the limit. -/
def Matcher.AnswersWithin (m : Matcher) (w : Nat) (path : Text) (f : PathMatch) : Prop :=
  m.exec path = .ok (some f) ∨ m.exec path = .error ⟨path⟩ ∧ stepLimit < w * (path.length + 1)

theorem Matcher.AnswersWithin.exec_eq {m : Matcher} {w : Nat} {path : Text} {f : PathMatch}
    (h : m.AnswersWithin w path f) (hfits : w * (path.length + 1) ≤ stepLimit) :
    m.exec path = .ok (some f) := h.resolve_right fun hgave => Nat.not_lt_of_le hfits hgave.2

/-! ### Tokens -/

section Tokens

variable {a : Bool} {o : Options} {ts : List Token} {p : Parameter} {et : EmptyTurn} {s : State}

private theorem tokensItems_append (a : Bool) (g : Nat) (ts ts' : List Token) :
    tokensItems a g (ts ++ ts') =
      tokensItems a g ts ++ tokensItems a (g + (parameters ts).length) ts' := by
  induction ts generalizing g with
  | nil => rfl
  | cons t ts ih =>
    cases t with
    | literal t => rw [List.cons_append, tokensItems, ih, tokensItems, List.append_assoc]; rfl
    | parameter p =>
      rw [List.cons_append, tokensItems, ih, tokensItems, List.append_assoc, Nat.add_assoc,
        Nat.add_comm 1]
      rfl

/-- No two places behind the tokens have the delimiter ahead. -/
private theorem apart_of_delimiter (hs : Segmented o ts) (hd : Fixed a o.delimiter) (g : Nat)
    (et : EmptyTurn) (s : State) :
    (itemsWays (tokensItems a g ts) et s).Pairwise fun t u =>
      t.rest.head? = some o.delimiter → ¬ u.rest.head? = some o.delimiter := by
  refine (ascends_tokensItems hs hd g et s).imp_of_mem fun {t u} ht hu hlt hdt _ => ?_
  obtain ⟨z, hz, hdz, hrest, -⟩ := exists_between hs hd ht hu hlt
  obtain ⟨x, z, rfl⟩ := List.exists_cons_of_ne_nil hz
  rw [hrest] at hdt
  exact hdz (Option.some.inj hdt ▸ List.mem_cons_self)

private theorem sum_le_of_apart {α : Type} {q : α → Prop} [DecidablePred q] {l : List α}
    (h : l.Pairwise fun x y => q x → ¬ q y) (n : Nat) :
    (l.map fun x => 1 + if q x then n else 0).sum ≤ l.length + n := by
  induction l with
  | nil => exact Nat.zero_le _
  | cons x l ih =>
    obtain ⟨hx, hl⟩ := List.pairwise_cons.mp h
    rw [List.map_cons, List.sum_cons, List.length_cons]
    by_cases hq : q x
    · have hnone : (l.map fun y => 1 + if q y then n else 0) = List.replicate l.length 1 := by
        rw [← List.map_const']
        exact List.map_congr_left fun y hy => by rw [if_neg (hx y hy hq)]
      rw [if_pos hq, hnone, List.sum_replicate_nat]
      omega
    · have := ih hl
      rw [if_neg hq]
      omega

private theorem rest_of_mem_char (hd : Fixed a o.delimiter) {r : State}
    (hr : r ∈ (charItem a o.delimiter).expr.paths et s) : s.rest = o.delimiter :: r.rest := by
  rw [← itemsWays_single] at hr
  obtain ⟨w, ⟨x, hx, rfl⟩, hsr, -⟩ := (Spells.char a o.delimiter et s r).mp hr
  rw [(hd x).1.mp hx]
  exact hsr.rest

/-- A parameter spends steps on the rest of the text if its lead is ahead, and else one. -/
private theorem spends_parameterItems (hs : Segmented o (.parameter p :: ts))
    (hd : Fixed a o.delimiter) (g : Nat) (s : State) :
    Spends (1 + if s.rest.head? = some o.delimiter then 4 * s.rest.length + 9 else 0)
      (tasks .fails (parameterItems a g p)) s := by
  rw [parameterItems_segmented hs]
  have hlead := Spends.one (.single o.delimiter) (a && !Quoting.isMeta o.delimiter) .fails s
  have hgroup : ∀ r ∈ (charItem a o.delimiter).expr.paths .fails s,
      Spends (4 * s.rest.length + 9) [.run (groupItem (g + 1) (defaultContent a o p)).expr .fails]
        r := by
    intro r hr
    have hrun := spends_run (outside (excluded o p)) a r
    have hways := Step.Ascends.length_le (ascends_run (outside (excluded o p)) a .fails)
      (Expr.forward_paths _ .fails) r
    refine (hrun.group (g + 1) hways).mono ?_
    rw [rest_of_mem_char hd hr, List.length_cons]
    omega
  have hboth : ∀ n, ((charItem a o.delimiter).expr.paths .fails s).length ≤ n →
      Spends (1 + n * (4 * s.rest.length + 9)) (tasks .fails [charItem a o.delimiter,
        groupItem (g + 1) (defaultContent a o p)]) s :=
    fun n hn => hlead.append_of_le (fun r hr => hgroup r (by rwa [allWays_single] at hr))
      (by rwa [allWays_single])
  split
  case isTrue => exact (hboth 1 (length_paths_one_le _ _ _ s)).mono (by omega)
  case isFalse hhead =>
    refine (hboth 0 (Nat.le_of_eq (List.length_eq_zero_iff.mpr
      (List.eq_nil_iff_forall_not_mem.mpr fun r hr => hhead ?_)))).mono (by omega)
    rw [rest_of_mem_char hd hr]
    rfl

theorem forward_itemsWays (is : List Item) (et : EmptyTurn) : Step.Forward (itemsWays is et) := by
  intro s t ht
  refine Expr.forward_paths (Branch.ofItems is).expr et s t ?_
  rwa [Branch.paths_ofItems]

/-- The places behind the tokens are not more than the places of the text. -/
theorem length_tokensWays_le (hs : Segmented o ts) (hd : Fixed a o.delimiter) (g : Nat)
    (et : EmptyTurn) (s : State) :
    (itemsWays (tokensItems a g ts) et s).length ≤ s.rest.length + 1 :=
  (ascends_tokensItems hs hd g et).length_le (forward_itemsWays _ et) s

/-- The tokens spend no more than they weigh for each place of the text. From all places behind the
tokens before it, a parameter goes on at one only. -/
theorem spends_tokensItems (hs : Segmented o ts) (hd : Fixed a o.delimiter) (g : Nat) (s : State) :
    Spends ((ts.map tokenWeight).sum * (s.rest.length + 1)) (tasks .fails (tokensItems a g ts))
      s := by
  induction ts using List.reverseRecOn with
  | nil => exact (Spends.nil s).mono (Nat.zero_le _)
  | append_singleton ts t ih =>
    have hts : Segmented o ts := hs.of_sublist fun t ht => List.mem_append_left _ ht
    have hways := length_tokensWays_le hts hd g .fails s
    have hshorter : ∀ r ∈ allWays (tasks .fails (tokensItems a g ts)) s,
        r.rest.length ≤ s.rest.length := by
      intro r hr
      rw [allWays_tasks] at hr
      obtain ⟨w, hw⟩ := forward_itemsWays _ .fails s r hr
      rw [hw.rest, List.length_append]
      omega
    rw [← allWays_tasks] at hways
    rw [tokensItems_append, tasks_append, List.map_append, List.sum_append, Nat.add_mul]
    cases t with
    | literal t =>
      have hitems : tokensItems a (g + (parameters ts).length) [.literal t] =
          t.map (charItem a) := List.append_nil _
      have hchars : ∀ r, Spends t.length (tasks .fails (t.map (charItem a))) r :=
        fun r => (spends_briefs (by simpa using fun c _ => brief_char a c) r).mono (by simp)
      rw [hitems]
      refine ((ih hts).append_of_le (fun r _ => hchars r) hways).mono
        (Nat.add_le_add_left ?_ _)
      rw [Nat.mul_comm]
      exact Nat.mul_le_mul_right _ (by simp [tokenWeight])
    | parameter p =>
      have hp : Segmented o (.parameter p :: []) := hs.of_sublist (by simp)
      have hitems : tokensItems a (g + (parameters ts).length) [.parameter p] =
          parameterItems a (g + (parameters ts).length) p := List.append_nil _
      rw [hitems]
      refine ((ih hts).append (f := fun r =>
        1 + if r.rest.head? = some o.delimiter then 4 * s.rest.length + 9 else 0)
        fun r hr => (spends_parameterItems hp hd _ r).mono ?_).mono (Nat.add_le_add_left ?_ _)
      · have := hshorter r hr
        split <;> omega
      · have hsum := sum_le_of_apart (apart_of_delimiter hts hd g .fails s)
          (4 * s.rest.length + 9)
        rw [← allWays_tasks] at hsum
        simp only [List.map_singleton, List.sum_singleton, tokenWeight]
        omega

end Tokens

/-! ### Endings -/

section Endings

variable (a : Bool) (o : Options) (ts : List Token) (s : State)

private theorem brief_of_mem_terminators : ∀ q ∈ terminators a o, ∀ i ∈ q.2, i.Brief := by
  intro q hq i hi
  rcases List.mem_append.mp hq with hq | hq
  · obtain ⟨t, -, rfl⟩ := List.mem_map.mp hq
    obtain ⟨c, -, rfl⟩ := List.mem_map.mp hi
    exact brief_char a c
  · rw [List.mem_singleton.mp hq, List.mem_singleton] at hi
    rw [hi]
    exact brief_check .path .textEnd

private theorem brief_of_mem_boundaries : ∀ q ∈ boundaries a o, ∀ i ∈ q.2, i.Brief := by
  intro q hq i hi
  rcases List.mem_cons.mp hq with rfl | hq
  · rw [List.mem_singleton.mp hi]
    exact brief_char a o.delimiter
  · exact brief_of_mem_terminators a o q hq i hi

private theorem lookWeight_terminators :
    lookWeight (terminators a o) + 5 = terminatorsWeight o := by
  simp [lookWeight, terminators, terminatorsWeight, List.map_map, Function.comp_def]

private theorem lookWeight_boundaries : lookWeight (boundaries a o) = terminatorsWeight o := by
  have := lookWeight_terminators a o
  simp only [lookWeight, boundaries, List.map_cons, List.sum_cons, List.length_singleton] at this ⊢
  omega

private theorem length_terminators : (terminators a o).length = o.endsWith.length + 1 := by
  simp [terminators]

variable {a o s} {et : EmptyTurn} {is : List Item} {c n : Nat}

private theorem spends_optionalItems (hne : ∀ i ∈ is, i.expr ≠ .empty)
    (h : Spends c (tasks et is) s) (hn : (itemsWays is et s).length ≤ n) :
    Spends (c + is.length + n + 4)
      (tasks et (if o.strict then [] else [loopItem (bundledItem .path is) (some 1)])) s := by
  split
  · exact (Spends.nil s).mono (Nat.zero_le _)
  · rw [← List.append_nil (tasks et is)] at h
    rw [itemsWays, ← Branch.paths_ofItems] at hn
    exact ((spends_ofItems hne h).optional hn).mono (by omega)

private theorem length_optionalItems_le (hn : (itemsWays is et s).length ≤ n) :
    (itemsWays (if o.strict then [] else [loopItem (bundledItem .path is) (some 1)]) et s).length ≤
      n + 1 := by
  split
  · exact Nat.le_add_left 1 n
  · rw [itemsWays, ← Branch.paths_ofItems] at hn
    rw [itemsWays_single]
    simp only [loopItem, Expr.paths, Step.loop, Step.times, Step.upTo, Step.prefer,
      List.flatMap_singleton, List.flatMap_singleton', if_true, Nat.zero_min, Nat.sub_zero]
    rw [List.length_append]
    exact Nat.succ_le_succ hn

variable (a o s et)

private theorem spends_endItem : Spends (lookWeight (terminators a o)) (tasks et [endItem a o]) s :=
  spends_aheadItem (terminators_ne_nil a) (brief_of_mem_terminators a o) et s

private theorem spends_delimiterItem : Spends 1 (tasks et [charItem a o.delimiter]) s :=
  (brief_char a o.delimiter).spends et s

private theorem length_delimiterWays_le :
    (itemsWays [charItem a o.delimiter] et s).length ≤ 1 := by
  rw [itemsWays_single]
  exact (brief_char a o.delimiter).single et s

private theorem le_terminatorsWeight : 11 + 3 * o.endsWith.length ≤ terminatorsWeight o := by
  have hsum : ∀ es : List Text, 3 * es.length ≤ (es.map fun e => 2 * e.length + 3).sum := by
    intro es
    induction es with
    | nil => exact Nat.le_refl 0
    | cons e es ih =>
      rw [List.map_cons, List.sum_cons, List.length_cons]
      omega
  have := hsum o.endsWith
  rw [terminatorsWeight]
  omega

private theorem spends_closingItems :
    Spends ((o.endsWith.length + 3) * terminatorsWeight o + o.endsWith.length + 3)
      (tasks et (closingItems a o)) s := by
  have hlook := lookWeight_terminators a o
  have hle := le_terminatorsWeight o
  have hlast : ∀ r, Spends (terminatorsWeight o) (tasks et
      (if o.endsWith.isEmpty then [checkItem .path .textEnd] else [endItem a o])) r := by
    intro r
    split
    · exact ((brief_check .path .textEnd).spends et r).mono (by omega)
    · exact (spends_endItem a o r et).mono (by omega)
  have hways := length_delimiterWays_le a o s et
  have hfirst := spends_optionalItems (o := o) (by simp [charItem])
    (spends_delimiterItem a o s et) hways
  rw [closingItems, tasks_append]
  refine (hfirst.append_of_le (n := 2) (fun r _ => hlast r) ?_).mono ?_
  · rw [allWays_tasks]
    exact length_optionalItems_le hways
  · rw [Nat.add_mul, List.length_singleton]
    omega

private theorem spends_openItems :
    Spends ((o.endsWith.length + 3) * terminatorsWeight o + o.endsWith.length + 3)
      (tasks et (openItems a o ts)) s := by
  have hlook := lookWeight_terminators a o
  have hend : Spends (1 + 1 * lookWeight (terminators a o))
      (tasks et ([charItem a o.delimiter] ++ [endItem a o])) s := by
    refine (spends_delimiterItem a o s et).append_of_le (fun r _ => spends_endItem a o r et) ?_
    rw [allWays_tasks]
    exact length_delimiterWays_le a o s et
  have hways : (itemsWays ([charItem a o.delimiter] ++ [endItem a o]) et s).length ≤
      o.endsWith.length + 1 := by
    refine Step.length_flatMap_le (fun r => (brief_char a o.delimiter).single et r) (fun r => ?_) s
    rw [← length_terminators a o]
    exact (Nat.le_of_eq (congrArg List.length (itemsWays_single _ et r))).trans
      (length_aheadItem_le (terminators_ne_nil a) (brief_of_mem_terminators a o) et r)
  have hfirst := spends_optionalItems (o := o) (by simp [charItem, endItem, aheadItem]) hend hways
  have hlast : ∀ r, Spends (terminatorsWeight o) (tasks et (if endsDelimited o ts then []
      else [aheadItem (alternativeExprs (boundaries a o))])) r := by
    intro r
    split
    · exact (Spends.nil r).mono (Nat.zero_le _)
    · rw [← lookWeight_boundaries a o]
      exact spends_aheadItem (show boundaries a o ≠ [] from List.cons_ne_nil _ _)
        (brief_of_mem_boundaries a o) et r
  rw [openItems, tasks_append]
  refine (hfirst.append_of_le (n := o.endsWith.length + 2) (fun r _ => hlast r) ?_).mono ?_
  · rw [allWays_tasks]
    exact length_optionalItems_le hways
  · rw [Nat.add_mul, Nat.add_mul, List.length_append, List.length_singleton, List.length_singleton]
    omega

/-- What the ending spends at each place behind the tokens. -/
theorem spends_endingItems :
    Spends ((o.endsWith.length + 3) * terminatorsWeight o + o.endsWith.length + 3)
      (tasks et (endingItems a o ts)) s := by
  rw [endingItems]
  split
  · exact spends_closingItems a o s et
  · exact spends_openItems a o ts s et

end Endings

/-! ### Searches -/

section Searches

variable {o : Options} {ts : List Token} {path : Text} (hs : Segmented o ts)
  (hd : Fixed (!o.sensitive) o.delimiter) (hstart : o.fromStart = true)

private theorem length_tokensItems_le (hs : Segmented o ts) (a : Bool) (g : Nat) :
    (tokensItems a g ts).length ≤ (ts.map tokenWeight).sum := by
  induction ts generalizing g with
  | nil => exact Nat.le_refl 0
  | cons t ts ih =>
    rw [List.map_cons, List.sum_cons]
    cases t with
    | literal t =>
      rw [tokensItems, List.length_append, List.length_map]
      exact Nat.add_le_add_left (ih hs.tail g) t.length
    | parameter p =>
      rw [tokensItems, List.length_append, parameterItems_segmented hs]
      exact Nat.add_le_add (by simp [tokenWeight]) (ih hs.tail (g + 1))

private theorem length_endingItems_le (a : Bool) (o : Options) (ts : List Token) :
    (endingItems a o ts).length ≤ 2 := by
  rw [endingItems, closingItems, openItems]
  split <;> rw [List.length_append] <;> split <;> split <;> simp

private theorem expr_ne_empty_of_mem_tokensItems (a : Bool) (g : Nat) (ts : List Token) :
    ∀ i ∈ tokensItems a g ts, i.expr ≠ .empty := by
  intro i hi
  rcases eq_char_or_mem_of_mem_tokensItems hi with ⟨c, rfl⟩ | ⟨p, k, -, hi⟩
  · exact (brief_char a c).nonempty
  · unfold parameterItems at hi
    split at hi
    all_goals simp only [List.mem_cons, List.not_mem_nil, or_false] at hi
    · rw [hi]
      exact Expr.noConfusion
    · rw [hi]
      exact Expr.noConfusion
    · rw [hi]
      exact Expr.noConfusion
    · rcases hi with rfl | rfl
      · exact (brief_char a _).nonempty
      · exact Expr.noConfusion

private theorem expr_ne_empty_of_mem_endingItems (a : Bool) (o : Options) (ts : List Token) :
    ∀ i ∈ endingItems a o ts, i.expr ≠ .empty := by
  intro i hi
  rw [endingItems, closingItems, openItems] at hi
  split at hi
  all_goals
    rcases List.mem_append.mp hi with hi | hi
    all_goals split at hi
    all_goals first
      | rw [List.mem_singleton.mp hi]
        exact Expr.noConfusion
      | exact absurd hi List.not_mem_nil

private theorem weight_enough {w t e x : Nat} (hx : 1 ≤ x) (ht : 11 + 3 * e ≤ t) :
    1 + 1 * (w * x + x * ((e + 3) * t + e + 3)) + (w + 3) + 1 + 3 ≤
      (2 * w + (e + 4) * t) * x := by
  have hwx : w ≤ w * x := Nat.le_mul_of_pos_right w hx
  have htx : (11 + 3 * e) * x ≤ t * x := Nat.mul_le_mul_right x ht
  nlinarith

include hs hd hstart

/-- What the whole expression spends at the start of a path. -/
theorem spends_compiledTokens (path : Text) :
    Spends (weight o ts * (path.length + 1) - 3) [.run (compiledTokens o ts).expr .fails]
      (State.between [] path (parameters ts).length) := by
  have hways := length_tokensWays_le hs hd 0 .fails (State.between [] path (parameters ts).length)
  rw [← allWays_tasks] at hways
  have htokens := (spends_tokensItems hs hd 0
    (State.between [] path (parameters ts).length)).append_of_le
      (fun r _ => spends_endingItems (!o.sensitive) o ts r .fails) hways
  have hall : Spends (1 + 1 * ((ts.map tokenWeight).sum * (path.length + 1) + (path.length + 1) *
      ((o.endsWith.length + 3) * terminatorsWeight o + o.endsWith.length + 3)))
      (tasks .fails [checkItem .path .textStart] ++
        (tasks .fails (tokensItems (!o.sensitive) 0 ts) ++
          tasks .fails (endingItems (!o.sensitive) o ts)))
      (State.between [] path (parameters ts).length) := by
    refine Spends.append_of_le ((brief_check .path .textStart).spends .fails _)
      (fun r hr => ?_) (Nat.le_refl 1)
    obtain rfl := List.mem_singleton.mp hr
    exact htokens
  have hitems : expressionItems (!o.sensitive) o 0 ts = [checkItem .path .textStart] ++
      (tokensItems (!o.sensitive) 0 ts ++ endingItems (!o.sensitive) o ts) := by
    rw [expressionItems, hstart, if_pos rfl, List.append_assoc]
  have hlength : (expressionItems (!o.sensitive) o 0 ts).length ≤
      (ts.map tokenWeight).sum + 3 := by
    have h₁ := length_tokensItems_le hs (!o.sensitive) 0
    have h₂ := length_endingItems_le (!o.sensitive) o ts
    rw [hitems, List.length_append, List.length_append, List.length_singleton]
    omega
  have hne : ∀ i ∈ expressionItems (!o.sensitive) o 0 ts, i.expr ≠ .empty := by
    intro i hi
    rw [hitems, List.singleton_append] at hi
    rcases List.mem_cons.mp hi with rfl | hi
    · exact (brief_check .path .textStart).nonempty
    · rcases List.mem_append.mp hi with hi | hi
      · exact expr_ne_empty_of_mem_tokensItems _ 0 ts i hi
      · exact expr_ne_empty_of_mem_endingItems _ o ts i hi
  rw [← tasks_append, ← tasks_append, ← hitems,
    ← List.append_nil (tasks .fails (expressionItems (!o.sensitive) o 0 ts))] at hall
  refine (spends_ofItems hne hall).mono ?_
  have henough := weight_enough (w := (ts.map tokenWeight).sum) (Nat.le_add_left 1 path.length)
    (le_terminatorsWeight o)
  rw [weight]
  omega

/-- A search for a path that can be divided is not given up as long as the weight of the template,
times the length of the path, is within the limit. -/
theorem exec_ne_error {source : Text} {keys : List Key} (v : Division (!o.sensitive) o ts path)
    (hfits : weight o ts * (path.length + 1) ≤ stepLimit) :
    Matcher.exec ⟨source, keys, compiledTokens o ts⟩ path ≠ .error ⟨path⟩ := by
  obtain ⟨r, hr⟩ := exists_mem_paths_of_division hs.defaults v
  rw [v.anchored hstart, ← v.path_eq_of_start hstart] at hr
  have hpositive : 3 ≤ weight o ts * (path.length + 1) := by
    have := weight_enough (w := (ts.map tokenWeight).sum) (Nat.le_add_left 1 path.length)
      (le_terminatorsWeight o)
    rw [weight]
    omega
  have hfind := (compiledTokens o ts).find_ne_gaveUp_of_spends path
    (spends_compiledTokens hs hd hstart path) hr (by omega)
  intro he
  rw [Matcher.exec] at he
  split at he <;> simp_all

/-- The first match is the answer, as far as the search is not given up. -/
theorem answersWithin_of_shortest {source : Text} {keys : List Key}
    (v : Division (!o.sensitive) o ts path)
    (hbody : ∀ w : Division (!o.sensitive) o ts path, v.body.length ≤ w.body.length)
    (hending : ∀ w : Division (!o.sensitive) o ts path, w.body = v.body →
      w.ending.length ≤ v.ending.length) :
    Matcher.AnswersWithin ⟨source, keys, compiledTokens o ts⟩ (weight o ts) path
      ⟨0, v.body ++ v.ending, Matcher.values keys v.values⟩ := by
  by_cases hgave : Matcher.exec ⟨source, keys, compiledTokens o ts⟩ path = .error ⟨path⟩
  · refine Or.inr ⟨hgave, ?_⟩
    by_contra hfits
    exact exec_ne_error hs hd hstart v (Nat.le_of_not_lt hfits) hgave
  · exact Or.inl (exec_eq_of_shortest hs hd hstart hgave v hbody hending)

end Searches

end PathTemplate.Matching
