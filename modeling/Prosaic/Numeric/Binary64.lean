/-!
Double precision numbers in exact arithmetic. A finite double is a sign and a natural number times a
power of two; every operation computes the exact result first and rounds it once, to the nearest
double, of two equally near ones to the one with an even mantissa.
-/

namespace Prosaic

/-- A double precision number. Finite ones are `±mantissa * 2 ^ exponent`. -/
inductive Binary64
  | finite (negative : Bool) (mantissa : Nat) (exponent : Int)
  | infinite (negative : Bool)
  | nan
  deriving DecidableEq, Repr, Inhabited

namespace Binary64

/-- The quotient rounded to the nearest integer; a half goes to the even neighbour. -/
def roundQuotient (num den : Nat) : Nat :=
  let q := num / den
  let twice := 2 * (num % den)
  if twice < den then q else if den < twice then q + 1 else q + q % 2

def minExponent : Int := -1074

def maxExponent : Int := 971

/-- `num / den` in units of `2 ^ exponent`, as a numerator and a denominator. -/
def inUnits (num den : Nat) (exponent : Int) : Nat × Nat :=
  (num * Nat.pow 2 (-exponent).toNat, den * Nat.pow 2 exponent.toNat)

/-- The exponent that gives a quotient fifty-three binary digits, or the smallest there is. -/
def unitExponent (num den : Nat) : Int :=
  let guess : Int := (num.log2 : Int) - den.log2 - 52
  let (n, d) := inUnits num den guess
  max minExponent (if n < Nat.pow 2 52 * d then guess - 1 else guess)

/-- The double nearest to `num / den`; beyond the largest one lies infinity. -/
def ofRatio (negative : Bool) (num den : Nat) : Binary64 :=
  if num = 0 then .finite negative 0 minExponent
  else
    let exponent := unitExponent num den
    let (n, d) := inUnits num den exponent
    let mantissa := roundQuotient n d
    if mantissa = Nat.pow 2 53 then
      if exponent < maxExponent then .finite negative (Nat.pow 2 52) (exponent + 1)
      else .infinite negative
    else if exponent ≤ maxExponent then .finite negative mantissa exponent
    else .infinite negative

def ofInt (n : Int) : Binary64 := ofRatio (n < 0) n.natAbs 1

/-- The double nearest to `±digits * 10 ^ exponent`. Exponents out of reach are decided without
computing the power. -/
def ofDecimal (negative : Bool) (digits : Nat) (exponent : Int) : Binary64 :=
  if digits = 0 then .finite negative 0 minExponent
  else if 400 < exponent then .infinite negative
  else if exponent < -(400 + (digits.log2 : Int)) then .finite negative 0 minExponent
  else ofRatio negative (digits * Nat.pow 10 exponent.toNat) (Nat.pow 10 (-exponent).toNat)

def zero : Binary64 := .finite false 0 minExponent

def isFinite : Binary64 → Bool
  | .finite .. => true
  | _ => false

def isNegative : Binary64 → Bool
  | .finite negative _ _ => negative
  | .infinite negative => negative
  | .nan => false

/-- A finite double in units of `2 ^ exponent`, for an exponent not above its own. -/
def scaled (negative : Bool) (mantissa : Nat) (own exponent : Int) : Int :=
  let n : Int := (mantissa * Nat.pow 2 (own - exponent).toNat : Nat)
  if negative then -n else n

/-- The order of the numbers that the doubles stand for; NaN stands for none. -/
def lt : Binary64 → Binary64 → Bool
  | .finite s m e, .finite s' m' e' =>
    let unit := min e e'
    scaled s m e unit < scaled s' m' e' unit
  | .nan, _ | _, .nan => false
  | .infinite s, .infinite s' => s && !s'
  | .infinite s, .finite .. => s
  | .finite .., .infinite s => !s

def add : Binary64 → Binary64 → Binary64
  | .finite s m e, .finite s' m' e' =>
    let unit := min e e'
    let sum := scaled s m e unit + scaled s' m' e' unit
    if sum = 0 then .finite (s && s') 0 minExponent
    else ofRatio (sum < 0) (sum.natAbs * Nat.pow 2 unit.toNat) (Nat.pow 2 (-unit).toNat)
  | .nan, _ | _, .nan => .nan
  | .infinite s, .infinite s' => if s = s' then .infinite s else .nan
  | .infinite s, .finite .. => .infinite s
  | .finite .., .infinite s => .infinite s

def wholePart (mantissa : Nat) (exponent : Int) : Nat :=
  mantissa * Nat.pow 2 exponent.toNat / Nat.pow 2 (-exponent).toNat

def isWhole (mantissa : Nat) (exponent : Int) : Bool :=
  mantissa % Nat.pow 2 (-exponent).toNat = 0

def truncate? : Binary64 → Option Int
  | .finite negative m e => some (scaled negative (wholePart m e) 0 0)
  | _ => none

end Binary64

end Prosaic
