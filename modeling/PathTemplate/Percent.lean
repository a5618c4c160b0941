import PathTemplate.Text.Basic

/-!
Percent encoding of a component of a path: ASCII letters, digits and a few marks stand for
themselves, every other character for the bytes of its UTF-8 form.
-/
namespace PathTemplate.Percent

def isSafeMark (c : Char) : Bool := "-_.!~*'()".toList.contains c

def isSafe (c : Char) : Bool := c.isAlphanum || isSafeMark c

def hexDigit (n : Nat) : Char := if n < 10 then Char.ofNat (48 + n) else Char.ofNat (55 + n)

def encodeByte (b : UInt8) : Text := ['%', hexDigit (b.toNat / 16), hexDigit (b.toNat % 16)]

def encodeChar (c : Char) : Text :=
  if isSafe c then [c] else (String.utf8EncodeChar c).flatMap encodeByte

def encode (t : Text) : Text := t.flatMap encodeChar

theorem encode_append (s t : Text) : encode (s ++ t) = encode s ++ encode t :=
  List.flatMap_append

end PathTemplate.Percent
