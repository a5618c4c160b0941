import PathTemplate.Text.Basic

/-!
Quoting inside written expressions. A literal text is quoted so that it matches itself; the body
of a group keeps its own operators but can neither open nor close a group, nor end the text.
-/
namespace PathTemplate.Quoting

/-- The characters with a meaning of their own somewhere in an expression. -/
def isMeta (c : Char) : Bool := "\\.+*?()|[]\x7b\x7d^$#&-~".toList.contains c

def char (c : Char) : Text := if isMeta c then ['\\', c] else [c]

def literal (t : Text) : Text := t.flatMap char

def isGuarded (c : Char) : Bool := c == '(' || c == ')' || c == '$'

/-- Backslash pairs are kept as they are; bare parentheses and dollar signs are quoted. -/
def groupBody : Text → Text
  | [] => []
  | ['\\'] => ['\\']
  | '\\' :: c :: t => '\\' :: c :: groupBody t
  | c :: t => if isGuarded c then '\\' :: c :: groupBody t else c :: groupBody t

theorem groupBody_cons {c : Char} (hc : c ≠ '\\') (t : Text) :
    groupBody (c :: t) = (if isGuarded c then ['\\', c] else [c]) ++ groupBody t := by
  rw [groupBody]
  · split <;> rfl
  · exact fun h _ => hc h
  · exact fun _ _ h _ => hc h

end PathTemplate.Quoting
