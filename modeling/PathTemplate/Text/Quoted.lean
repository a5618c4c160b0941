import PathTemplate.Text.Basic
import PathTemplate.Unicode.Category

/-!
Texts and characters in quotes, for people to read: what cannot be printed is written by its
number.
-/
namespace PathTemplate.Text

open Unicode

def unprintable : List Category :=
  [.control, .format, .privateUse, .lineSeparator, .paragraphSeparator, .spaceSeparator]

def isPrintable (c : Char) : Bool :=
  c == ' ' || (!unprintable.any (·.holds c) && Category.all.any (·.holds c))

/-- Marks are printed only after a character that carries them. -/
def needsCarrier (c : Char) : Bool :=
  Category.holds .nonspacingMark c || Category.holds .enclosingMark c

def byNumber (c : Char) : Text := "\\u\x7b".toList ++ Nat.toDigits 16 c.toNat ++ ['\x7d']

def escapeWith (quote : Char) (first : Bool) (c : Char) : Text :=
  if c = quote || c = '\\' then ['\\', c]
  else if c = '\n' then ['\\', 'n']
  else if c = '\r' then ['\\', 'r']
  else if c = '\t' then ['\\', 't']
  else if c.toNat = 0 then ['\\', '0']
  else if !isPrintable c || (first && needsCarrier c) then byNumber c
  else [c]

def quoteChar (c : Char) : Text := '\'' :: escapeWith '\'' true c ++ ['\'']

def quote : Text → Text
  | [] => ['"', '"']
  | c :: t => '"' :: escapeWith '"' true c ++ t.flatMap (escapeWith '"' false) ++ ['"']

end PathTemplate.Text
