import Prosaic.Text.Digit
import Prosaic.Text.Printable

/-!
Texts between quotes. Messages show a text between single quotes, or between double quotes when it
holds a single quote and no double one, with everything unprintable escaped. A string literal is
plain ASCII: between double quotes, with short escapes for the common control characters and four
hexadecimal digits for every other code unit outside the printable range. A character beyond the
basic plane is written there as its two surrogates.
-/

namespace Prosaic.Text

def quoteFor (s : String) : Char :=
  if s.toList.contains '\'' && !s.toList.contains '"' then '"' else '\''

/-- One character as it is shown between a pair of `quote`s. -/
def shownChar (quote c : Char) : List Char :=
  if c = quote || c = '\\' then ['\\', c]
  else if c = '\n' then ['\\', 'n']
  else if c = '\r' then ['\\', 'r']
  else if c = '\t' then ['\\', 't']
  else if isPrintable c then [c]
  else if c.toNat < 0x100 then '\\' :: 'x' :: hex 2 c.toNat
  else if c.toNat < 0x10000 then '\\' :: 'u' :: hex 4 c.toNat
  else '\\' :: 'U' :: hex 8 c.toNat

def quoted (s : String) : String :=
  let quote := quoteFor s
  String.ofList (quote :: s.toList.flatMap (shownChar quote) ++ [quote])

/-! ### Literals -/

/-- The escape of one 16-bit code unit. -/
def escapedUnit (n : Nat) : List Char :=
  '\\' :: 'u' :: hex 4 n

def literalChar (c : Char) : List Char :=
  if c = '"' then ['\\', '"']
  else if c = '\\' then ['\\', '\\']
  else if c = '\n' then ['\\', 'n']
  else if c = '\r' then ['\\', 'r']
  else if c = '\t' then ['\\', 't']
  else if c = '\x08' then ['\\', 'b']
  else if c = '\x0c' then ['\\', 'f']
  else if 0x20 ≤ c.toNat && c.toNat ≤ 0x7e then [c]
  else if c.toNat < 0x10000 then escapedUnit c.toNat
  else
    let n := c.toNat - 0x10000
    escapedUnit (0xd800 + n / 0x400) ++ escapedUnit (0xdc00 + n % 0x400)

def literal (s : String) : String :=
  String.ofList ('"' :: s.toList.flatMap literalChar ++ ['"'])

end Prosaic.Text
