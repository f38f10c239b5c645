/-
  Lox.Text.Quoted
  ────────────────────────────────
  **TEXT BETWEEN DOUBLE QUOTES, EVERY CHARACTER VISIBLE.**

  The quote and the backslash are escaped, the common controls have short
  names, and every other character that cannot be seen is written by its code
  point.  A single quote needs no escape.
-/
import Lox.Text.Unprintable

namespace Lox.Text

/-- The hexadecimal digits of a code point. -/
def hex (n : Nat) : List Char := Nat.toDigits 16 n

/-- How a character is written between double quotes. -/
def escape (c : Char) : List Char :=
  if c = '"' then ['\\', '"']
  else if c = '\\' then ['\\', '\\']
  else if c = '\n' then ['\\', 'n']
  else if c = '\r' then ['\\', 'r']
  else if c = '\t' then ['\\', 't']
  else if c.toNat = 0 then ['\\', '0']
  else if isUnprintable c then ['\\', 'u', '\x7b'] ++ hex c.toNat ++ ['\x7d']
  else [c]

/-- A text between double quotes, every character of it visible. -/
def quoted (s : String) : String :=
  String.ofList ('"' :: (s.toList.flatMap escape ++ ['"']))

end Lox.Text
