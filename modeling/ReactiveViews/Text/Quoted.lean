import ReactiveViews.Text.Unprintable
import ReactiveViews.Text.Extender

/-!
# Quoted text

How a text is shown inside a message: between double quotes, with a backslash before a
double quote or a backslash, the short escapes for tab, line feed, carriage return and the
zero character, and the hexadecimal form for every other character that could not be told
apart on a screen (one that is not shown, or one that is drawn on its neighbour).
-/

namespace ReactiveViews.Text

/-- The hexadecimal escape of a character, in lower case without leading zeros. -/
def hexEscape (c : Char) : List Char :=
  ['\\', 'u', Char.ofNat 0x7B] ++ Nat.toDigits 16 c.toNat ++ [Char.ofNat 0x7D]

/-- One character as it stands between the quotes. -/
def escape (c : Char) : List Char :=
  if c = '"' then ['\\', '"']
  else if c = '\\' then ['\\', '\\']
  else if c = '\t' then ['\\', 't']
  else if c = '\n' then ['\\', 'n']
  else if c = '\r' then ['\\', 'r']
  else if c = Char.ofNat 0 then ['\\', '0']
  else if 0x20 ≤ c.toNat ∧ c.toNat < 0x7F then [c]
  else if isExtender c || isUnprintable c then hexEscape c
  else [c]

/-- A text between double quotes, every character in its escaped form. -/
def quote (s : String) : String :=
  String.ofList ('"' :: (s.toList.flatMap escape ++ ['"']))

end ReactiveViews.Text
