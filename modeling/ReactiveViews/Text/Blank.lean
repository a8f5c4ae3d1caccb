/-!
# White space

The characters that separate tokens and that no tag descriptor may hold: the
25 characters with the Unicode property `White_Space`. `trim` removes them from
both ends of a text.

## Scope

The table is the property as Unicode defines it since version 6.3; no later
version has changed it.
-/

namespace ReactiveViews.Text

/-- White space: the controls from tab to carriage return, the space, the next-line
control, and the space, line and paragraph separators. -/
def isBlank (c : Char) : Bool :=
  let n := c.toNat
  (9 ≤ n && n ≤ 13) || n == 0x20 || n == 0x85 || n == 0xA0 || n == 0x1680 ||
    (0x2000 ≤ n && n ≤ 0x200A) || n == 0x2028 || n == 0x2029 || n == 0x202F ||
    n == 0x205F || n == 0x3000

/-- A list of characters without the white space at its two ends. -/
def trimChars (cs : List Char) : List Char :=
  ((cs.dropWhile isBlank).reverse.dropWhile isBlank).reverse

/-- A text without the white space at its two ends. -/
def trim (s : String) : String := String.ofList (trimChars s.toList)

end ReactiveViews.Text
