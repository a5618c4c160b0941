import PathTemplate.Options
import PathTemplate.Quoting
import PathTemplate.Template.Piece

/-!
From templates to tokens. The characters between two parameters form a stretch; its last
character leads the next parameter if the options allow it and the stretch holds no escape.
-/
namespace PathTemplate.Template

structure Letter where
  char : Char
  escaped : Bool
  deriving DecidableEq, Repr

/-- The characters since the last parameter, latest first. -/
abbrev Stretch := List Letter

namespace Stretch

def text (s : Stretch) : Text := (s.map Letter.char).reverse

def literal (s : Stretch) : List Token := if s.isEmpty then [] else [.literal (text s)]

/-- The character that leads the parameter after the stretch. -/
def lead? (o : Options) (s : Stretch) : Option Char :=
  match s with
  | [] => none
  | l :: _ => if !s.any Letter.escaped && o.mayLead l.char then some l.char else none

/-- What is left for a literal. -/
def withoutLead (o : Options) (s : Stretch) : Stretch := if (lead? o s).isSome then s.tail else s

end Stretch

/-- One or more characters that are neither the delimiter of the parameter nor the delimiter of
the options. -/
def defaultPattern (delimiter standard : Char) : Text :=
  let excluded := if delimiter = standard then [delimiter] else [delimiter, standard]
  "[^".toList ++ Quoting.literal excluded ++ "]+?".toList

def Mark.parameter (m : Mark) (o : Options) (index : Nat) (lead : Option Char) : Parameter where
  name := match m.name with
    | some t => .named t
    | none => .index index
  lead := lead
  delimiter := lead.getD o.delimiter
  optional := m.modifier == some .optional || m.modifier == some .zeroOrMore
  repeats := m.modifier == some .oneOrMore || m.modifier == some .zeroOrMore
  pattern := match m.body with
    | some b => Quoting.groupBody b
    | none => defaultPattern (lead.getD o.delimiter) o.delimiter

/-- The tokens of the remaining pieces. `index` is the number of the next parameter without a
name, and `s` the stretch that is open. -/
def tokensFrom (o : Options) (index : Nat) (s : Stretch) : List Piece → List Token
  | [] => s.literal
  | .plain c :: ps => tokensFrom o index (⟨c, false⟩ :: s) ps
  | .escaped c :: ps => tokensFrom o index (⟨c, true⟩ :: s) ps
  | .mark m :: ps =>
    (s.withoutLead o).literal ++ .parameter (m.parameter o index (s.lead? o)) ::
      tokensFrom o (if m.name.isNone then index + 1 else index) [] ps

/-- The tokens of a template. -/
def tokens (o : Options) (t : Text) : List Token := tokensFrom o 0 [] (pieces t)

end PathTemplate.Template
