/-!
Texts are lists of characters. A text is measured in the bytes of its UTF-8 form only where a
position is shown to a caller.
-/
namespace PathTemplate

abbrev Text := List Char

namespace Text

/-- What holds of every character of a text is decided over the text, not over all characters. -/
instance decidableAll (p : Char → Prop) [DecidablePred p] (t : Text) :
    Decidable (∀ c ∈ t, p c) :=
  List.decidableBAll p t

def utf8Size : Text → Nat
  | [] => 0
  | c :: t => c.utf8Size + utf8Size t

/-- Is `w` written at the end of `t`? -/
def endsWith (t w : Text) : Bool := w.isSuffixOf t

/-- The texts in order, with `sep` between neighbours. -/
def join (sep : Text) : List Text → Text
  | [] => []
  | [t] => t
  | t :: ts => t ++ sep ++ join sep ts

/-- Cuts `t` at every `sep`. -/
def split (sep : Char) : Text → List Text
  | [] => [[]]
  | c :: t =>
    match split sep t with
    | [] => [[c]]
    | w :: ws => if c = sep then [] :: w :: ws else (c :: w) :: ws

theorem utf8Size_append (s t : Text) : utf8Size (s ++ t) = utf8Size s + utf8Size t := by
  induction s with
  | nil => simp [utf8Size]
  | cons c s ih => simp [utf8Size, ih, Nat.add_assoc]

theorem utf8Size_reverse (t : Text) : utf8Size t.reverse = utf8Size t := by
  induction t with
  | nil => rfl
  | cons c t ih => simp [utf8Size, utf8Size_append, ih, Nat.add_comm]

theorem join_cons_cons (sep s t : Text) (ts : List Text) :
    join sep (s :: t :: ts) = s ++ sep ++ join sep (t :: ts) := rfl

/-- Cutting a joined text gives back its parts when no part holds the separator. -/
theorem split_join (sep : Char) (t : Text) (ts : List Text)
    (h : ∀ w ∈ t :: ts, sep ∉ w) : split sep (join [sep] (t :: ts)) = t :: ts := by
  have plain : ∀ w : Text, sep ∉ w → split sep w = [w] := by
    intro w hw
    induction w with
    | nil => rfl
    | cons c w ih =>
      have hc : c ≠ sep := fun e => hw (by simp [e])
      have := ih (fun m => hw (List.mem_cons_of_mem _ m))
      simp [split, this, hc]
  have front : ∀ (w u : Text), sep ∉ w → split sep (w ++ sep :: u) = w :: split sep u := by
    intro w u hw
    have some : ∃ a as, split sep u = a :: as := by
      cases u with
      | nil => exact ⟨[], [], rfl⟩
      | cons c u =>
        simp only [split]
        split
        · exact ⟨_, _, rfl⟩
        · split <;> exact ⟨_, _, rfl⟩
    obtain ⟨a, as, ha⟩ := some
    induction w with
    | nil => simp [split, ha]
    | cons c w ih =>
      have hc : c ≠ sep := fun e => hw (by simp [e])
      have := ih (fun m => hw (List.mem_cons_of_mem _ m))
      simp [split, this, hc]
  induction ts generalizing t with
  | nil => exact plain t (h t (by simp))
  | cons u us ih =>
    have ht : sep ∉ t := h t (by simp)
    have := ih u (fun w hw => h w (List.mem_cons_of_mem _ hw))
    rw [join_cons_cons, List.append_assoc, List.singleton_append, front t _ ht, this]

end Text

end PathTemplate
