import Propositional.Text.Unprintable

/- The quoted form of a text, as it stands in a message. A quotation mark and a
   backslash get a backslash in front, a few control characters have a letter
   escape, and every other character that has no visible form of its own is
   written as its number in hexadecimal. -/
namespace Propositional

/-- The digits of a number in base 16, in lower case. -/
def hexadecimal (n : Nat) : String := String.ofList (Nat.toDigits 16 n)

/-- The form of one character inside quotation marks. -/
def quotedChar (c : Char) : String :=
  if c = '\x00' then "\\0"
  else if c = '\t' then "\\t"
  else if c = '\n' then "\\n"
  else if c = '\r' then "\\r"
  else if c = '\x22' then "\\\""
  else if c = '\x5c' then "\\\\"
  else if isUnprintable c then "\\u\x7b" ++ hexadecimal c.toNat ++ "\x7d"
  else String.singleton c

/-- The text between quotation marks. -/
def quoted (text : String) : String :=
  "\"" ++ String.join (text.toList.map quotedChar) ++ "\""

end Propositional
