import Prosaic.Numeric.Binary64

/-!
Decimal texts of doubles. The digits come from exact arithmetic, either as few as determine the
double or a fixed number of them; a style then says where the point goes and when an exponent is
written. Numbers as programs and documents write them are integers, with their exact value whatever
its size, or have a point and are doubles.
-/

namespace Prosaic

structure Decimal where
  digits : Nat
  exponent : Int
  deriving DecidableEq, Repr, Inhabited

namespace Decimal

def dropZeros : Nat → Decimal → Decimal
  | 0, d => d
  | fuel + 1, d =>
    if d.digits ≠ 0 ∧ d.digits % 10 = 0 then dropZeros fuel ⟨d.digits / 10, d.exponent + 1⟩ else d

/-- The power of ten of the first digit of `num / den`, found by stepping from a guess. -/
def leadingPower (num den : Nat) : Int :=
  let guess : Int := ((num.log2 : Int) - den.log2) * 30103 / 100000
  let reaches (p : Int) : Bool := den * Nat.pow 10 p.toNat ≤ num * Nat.pow 10 (-p).toNat
  if reaches (guess + 1) then guess + 1
  else if reaches guess then guess
  else if reaches (guess - 1) then guess - 1
  else guess - 2

def inUnits (num den : Nat) (exponent : Int) : Nat × Nat :=
  (num * Nat.pow 10 (-exponent).toNat, den * Nat.pow 10 exponent.toNat)

/-- The first `count` digits of `num / den`, the last one rounded, a half to the even neighbour. -/
def ofRatio (num den count : Nat) : Decimal :=
  let exponent := leadingPower num den - (count - 1 : Nat)
  let (n, d) := inUnits num den exponent
  dropZeros (count + 1) ⟨Binary64.roundQuotient n d, exponent⟩

/-- The numbers that round to a positive double: the ends of the interval in quarters of the
double's unit, and whether the ends themselves belong to it. -/
structure Interval where
  low : Nat
  high : Nat
  closed : Bool

/-- The interval around `mantissa * 2 ^ exponent`; below a power of two it is half as wide. -/
def Interval.around (mantissa : Nat) (exponent : Int) : Interval :=
  let narrow := mantissa = Nat.pow 2 52 ∧ Binary64.minExponent < exponent
  ⟨4 * mantissa - (if narrow then 1 else 2), 4 * mantissa + 2, mantissa % 2 = 0⟩

def Interval.holds (i : Interval) (exponent : Int) (digits : Nat) (power : Int) : Bool :=
  let value := digits * Nat.pow 10 power.toNat * Nat.pow 2 (-exponent).toNat
  let unit := Nat.pow 10 (-power).toNat * Nat.pow 2 exponent.toNat
  if i.closed then i.low * unit ≤ value && value ≤ i.high * unit
  else i.low * unit < value && value < i.high * unit

/-- The decimal with `count` digits that is nearest to `mantissa * 2 ^ exponent` among those that
read back as it. -/
def shortOf? (mantissa : Nat) (exponent : Int) (count : Nat) : Option Decimal :=
  let num := mantissa * Nat.pow 2 exponent.toNat
  let den := Nat.pow 2 (-exponent).toNat
  let power := leadingPower num den - (count - 1 : Nat)
  let (n, d) := inUnits num den power
  let below := n / d
  let interval := Interval.around mantissa exponent
  let fits (digits : Nat) := interval.holds (exponent - 2) digits power
  let nearest := Binary64.roundQuotient n d
  if fits nearest then some ⟨nearest, power⟩
  else if fits below then some ⟨below, power⟩
  else if fits (below + 1) then some ⟨below + 1, power⟩
  else none

/-- The shortest decimal that reads back as `mantissa * 2 ^ exponent`; seventeen digits always
do. -/
def shortest (mantissa : Nat) (exponent : Int) : Decimal :=
  match (List.range 17).findSome? fun n => shortOf? mantissa exponent (n + 1) with
  | some d => dropZeros 18 d
  | none => ⟨mantissa, exponent⟩

structure Style where
  /-- The powers of ten of the first digit that are written without an exponent. -/
  positional : Int → Bool
  /-- What follows an integer that is written without an exponent. -/
  wholeSuffix : String

/-- An exponent is written below `10 ^ -4` and from `10 ^ 16` on; integers keep one decimal. -/
def Style.plain : Style := ⟨fun p => -4 ≤ p && p < 16, ".0"⟩

/-- An exponent is written below `10 ^ -4` and from `10 ^ 6` on; integers have no point. -/
def Style.brief : Style := ⟨fun p => -4 ≤ p && p < 6, ""⟩

def exponentText (p : Int) : String :=
  let digits := toString p.natAbs
  let sign := if p < 0 then "-" else "+"
  "e" ++ sign ++ (if digits.length < 2 then "0" ++ digits else digits)

/-- Writes the digits `ds` whose first one stands at `10 ^ power`. -/
def Style.write (style : Style) (ds : List Char) (power : Int) : String :=
  if style.positional power then
    if power < 0 then
      "0." ++ String.ofList (List.replicate (-power - 1).toNat '0' ++ ds)
    else
      let whole := power.toNat + 1
      if ds.length ≤ whole then
        String.ofList (ds ++ List.replicate (whole - ds.length) '0') ++ style.wholeSuffix
      else String.ofList (ds.take whole) ++ "." ++ String.ofList (ds.drop whole)
  else
    let fraction := ds.drop 1
    String.ofList (ds.take 1) ++ (if fraction.isEmpty then "" else "." ++ String.ofList fraction)
      ++ exponentText power

def write (style : Style) (d : Decimal) : String :=
  let ds := (toString d.digits).toList
  style.write ds (d.exponent + (ds.length : Int) - 1)

end Decimal

namespace Binary64

def textWith (style : Decimal.Style) (choose : Nat → Int → Decimal) : Binary64 → String
  | .finite negative m e =>
    let sign := if negative then "-" else ""
    if m = 0 then sign ++ "0" ++ style.wholeSuffix else sign ++ (choose m e).write style
  | .infinite negative => if negative then "-inf" else "inf"
  | .nan => "nan"

def text : Binary64 → String :=
  textWith .plain Decimal.shortest

def briefText : Binary64 → String :=
  textWith .brief fun m e => Decimal.ofRatio (m * Nat.pow 2 e.toNat) (Nat.pow 2 (-e).toNat) 6

end Binary64

/-! ### Numbers -/

inductive Number
  | integer (n : Int)
  | real (x : Binary64)
  deriving DecidableEq, Repr, Inhabited

end Prosaic
