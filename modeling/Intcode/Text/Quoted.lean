import Intcode.Text.Printable
import Intcode.Text.Combining

/-!
# Quoted text

How `Error::Parse` quotes its token: a text between double quotes in which every character can be
told apart on a screen. The quote and the backslash take a backslash, four control characters have a
short escape, and whatever is combining or not printable becomes its code point in braces.
-/

namespace Intcode.Text.Quoted

/-- The escape of a character by its code point, in lower-case hexadecimal. -/
def codePoint (c : Char) : List Char :=
  "\\u\x7b".toList ++ Nat.toDigits 16 c.toNat ++ "\x7d".toList

/-- The written form of one character. -/
def escape (c : Char) : List Char :=
  if c = '\x00' then ['\\', '0']
  else if c = '\t' then ['\\', 't']
  else if c = '\n' then ['\\', 'n']
  else if c = '\r' then ['\\', 'r']
  else if c = '"' ∨ c = '\\' then ['\\', c]
  else if isCombining c || !isPrintable c then codePoint c
  else [c]

/-- The text between double quotes, every character escaped where it needs to be. -/
def encode (s : String) : String :=
  String.ofList ('"' :: s.toList.flatMap escape ++ ['"'])

end Intcode.Text.Quoted
