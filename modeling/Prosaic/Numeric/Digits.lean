import Prosaic.Numeric.Decimal
import Prosaic.Text.Blank
import Prosaic.Text.Digit

/-!
Digits as settings and configuration files write them. An underscore may stand between two digits. A
setting may use the decimal digits of any script and have white space around it.
-/

namespace Prosaic.Digits

def isDigit (c : Char) : Bool := '0' ≤ c && c ≤ '9'

def valueIn (base : Nat) (ds : List Nat) : Nat :=
  ds.foldl (fun n d => base * n + d) 0

def digitValue (c : Char) : Nat := c.toNat - '0'.toNat

def value (ds : List Char) : Nat := valueIn 10 (ds.map digitValue)

/-! ### Runs of digits -/

/-- The digits behind a digit, without the underscores between them, and what follows. -/
def moreDigits (p : Char → Bool) : List Char → List Char × List Char
  | '_' :: c :: cs =>
    if p c then
      let (ds, rest) := moreDigits p cs
      (c :: ds, rest)
    else ([], '_' :: c :: cs)
  | c :: cs =>
    if p c then
      let (ds, rest) := moreDigits p cs
      (c :: ds, rest)
    else ([], c :: cs)
  | [] => ([], [])

/-- The digits at the front of a text, and what follows. There may be none. -/
def run (p : Char → Bool) : List Char → List Char × List Char
  | c :: cs =>
    if p c then
      let (ds, rest) := moreDigits p cs
      (c :: ds, rest)
    else ([], c :: cs)
  | [] => ([], [])

def sign : List Char → Bool × List Char
  | '-' :: cs => (true, cs)
  | '+' :: cs => (false, cs)
  | cs => (false, cs)

def exponent? : List Char → Option (Int × List Char)
  | mark :: cs =>
    if mark = 'e' || mark = 'E' then
      let (negative, cs) := sign cs
      let (ds, rest) := run isDigit cs
      if ds.isEmpty then none
      else
        let n : Int := value ds
        some (if negative then -n else n, rest)
    else none
  | [] => none

/-- The double that the digits before and behind a point stand for, with an exponent. -/
def double (negative : Bool) (whole fraction : List Char) (exponent : Int) : Binary64 :=
  .ofDecimal negative (value (whole ++ fraction)) (exponent - fraction.length)

/-! ### Settings -/

/-- The text of a setting without the white space around it, and with its digits in ASCII. -/
def normalised (s : String) : List Char :=
  (Text.trimBoth Text.isBlank s.toList).map fun c =>
    match Text.decimalDigit? c with
    | some d => Char.ofNat ('0'.toNat + d)
    | none => c

def integer? (s : String) : Option Int :=
  let (negative, cs) := sign (normalised s)
  let (ds, rest) := run isDigit cs
  if ds.isEmpty || !rest.isEmpty then none
  else
    let n : Int := value ds
    some (if negative then -n else n)

def word? (negative : Bool) (cs : List Char) : Option Binary64 :=
  match String.ofList (cs.map Char.toLower) with
  | "inf" | "infinity" => some (.infinite negative)
  | "nan" => some .nan
  | _ => none

def fraction : List Char → List Char × List Char
  | '.' :: cs => run isDigit cs
  | cs => ([], cs)

/-- The double nearest to what a setting stands for. Digits may be missing on one side of the
point. -/
def real? (s : String) : Option Binary64 :=
  let (negative, cs) := sign (normalised s)
  match word? negative cs with
  | some x => some x
  | none =>
    let (whole, rest) := run isDigit cs
    let (behind, rest) := fraction rest
    if whole.isEmpty && behind.isEmpty then none
    else if rest.isEmpty then some (double negative whole behind 0)
    else
      match exponent? rest with
      | some (e, []) => some (double negative whole behind e)
      | _ => none

end Prosaic.Digits
