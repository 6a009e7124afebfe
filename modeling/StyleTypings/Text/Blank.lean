/-
Blanks — the characters that count as white space.

A blank is a character with the Unicode property White_Space.  The property is
closed (it gains no characters in new editions of the standard), so it is
written out here as a test on code points rather than kept as a table.
-/

namespace StyleTypings

/-- Whether a character is white space. -/
def isBlank (c : Char) : Bool :=
  let n := c.toNat
  (0x9 ≤ n && n ≤ 0xD) || n == 0x20 || n == 0x85 || n == 0xA0 || n == 0x1680 ||
  (0x2000 ≤ n && n ≤ 0x200A) || n == 0x2028 || n == 0x2029 || n == 0x202F ||
  n == 0x205F || n == 0x3000

end StyleTypings
