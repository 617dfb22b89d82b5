/-!
Blank characters and the trimming of texts. Two sets occur: the white space of Unicode, which may
stand around the strings of a registry document and around numbers, and that set with the four
information separators, which may stand around type expressions.
-/

namespace Prosaic.Text

/-- White space in the sense of the Unicode property of that name. -/
def isBlank (c : Char) : Bool :=
  let n := c.toNat
  (0x09 ≤ n && n ≤ 0x0d) || n == 0x20 || n == 0x85 || n == 0xa0 || n == 0x1680
    || (0x2000 ≤ n && n ≤ 0x200a) || n == 0x2028 || n == 0x2029 || n == 0x202f || n == 0x205f
    || n == 0x3000

/-- A blank character or one of the separators U+001C to U+001F. -/
def isBlankOrSeparator (c : Char) : Bool :=
  isBlank c || (0x1c ≤ c.toNat && c.toNat ≤ 0x1f)

def trimBoth (p : Char → Bool) (cs : List Char) : List Char :=
  ((cs.dropWhile p).reverse.dropWhile p).reverse

def trimBlank (s : String) : String :=
  String.ofList (trimBoth isBlank s.toList)

def trimBlankOrSeparator (s : String) : String :=
  String.ofList (trimBoth isBlankOrSeparator s.toList)

end Prosaic.Text
