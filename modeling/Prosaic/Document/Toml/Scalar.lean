import Prosaic.Document.Toml.Scan
import Prosaic.Numeric.Digits

/-!
Reading the numbers and moments of TOML documents. Each reader takes the longest piece that it can
off the front of a text; what does not fit stays for others.
-/

namespace Prosaic.Document.Toml

/-! ### Moments -/

def fixedDigits? (width : Nat) (cs : List Char) : Option (Nat × List Char) :=
  let ds := cs.take width
  if ds.length = width && ds.all Digits.isDigit then some (Digits.value ds, cs.drop width) else none

def twoDigits? (least most : Nat) (cs : List Char) : Option (Nat × List Char) :=
  (fixedDigits? 2 cs).filter fun (n, _) => least ≤ n && n ≤ most

def char? (c : Char) : List Char → Option (List Char)
  | d :: cs => if d = c then some cs else none
  | [] => none

def date? (cs : List Char) : Option (CalendarDate × List Char) := do
  let (year, cs) ← fixedDigits? 4 cs
  let cs ← char? '-' cs
  let (month, cs) ← twoDigits? 1 12 cs
  let cs ← char? '-' cs
  let (day, cs) ← twoDigits? 1 31 cs
  return (⟨year, month, day⟩, cs)

/-- Six digits of the fraction of a second count; there may be more. -/
def microseconds (cs : List Char) : Nat × List Char :=
  match cs with
  | '.' :: rest =>
    let ds := rest.takeWhile Digits.isDigit
    if ds.isEmpty then (0, cs)
    else
      let first := ds.take 6
      (Digits.value first * Nat.pow 10 (6 - first.length), rest.dropWhile Digits.isDigit)
  | _ => (0, cs)

def time? (cs : List Char) : Option (TimeOfDay × List Char) := do
  let (hour, cs) ← twoDigits? 0 23 cs
  let cs ← char? ':' cs
  let (minute, cs) ← twoDigits? 0 59 cs
  let cs ← char? ':' cs
  let (second, cs) ← twoDigits? 0 59 cs
  let (fraction, cs) := microseconds cs
  return (⟨hour, minute, second, fraction⟩, cs)

def offsetSize? (cs : List Char) : Option (Int × List Char) := do
  let (hour, cs) ← twoDigits? 0 23 cs
  let cs ← char? ':' cs
  let (minute, cs) ← twoDigits? 0 59 cs
  return (60 * hour + minute, cs)

def offset (cs : List Char) : Option Int × List Char :=
  let read : Option (Int × List Char) := match cs with
    | 'Z' :: rest | 'z' :: rest => some (0, rest)
    | '+' :: rest => offsetSize? rest
    | '-' :: rest => (offsetSize? rest).map fun (n, rest) => (-n, rest)
    | _ => none
  match read with
  | some (n, rest) => (some n, rest)
  | none => (none, cs)

def timeOfDate? : List Char → Option ((TimeOfDay × Option Int) × List Char)
  | c :: cs =>
    if c = 'T' || c = 't' || c = ' ' then
      (time? cs).map fun (t, rest) =>
        let (offset, rest) := offset rest
        ((t, offset), rest)
    else none
  | [] => none

/-- A date with or without a time, or a time alone. -/
def moment? (cs : List Char) : Option (Moment × List Char) :=
  match date? cs with
  | some (d, rest) =>
    match timeOfDate? rest with
    | some ((t, offset), rest) => some (.dateTime d t offset, rest)
    | none => some (.date d, rest)
  | none => (time? cs).map fun (t, rest) => (.time t, rest)

def hasDay : Moment → Bool
  | .date d => d.isValid
  | .time _ => true
  | .dateTime d _ _ => d.isValid

/-! ### Numbers -/

def isBinaryDigit (c : Char) : Bool := c == '0' || c == '1'

def isOctalDigit (c : Char) : Bool := '0' ≤ c && c ≤ '7'

def isHexDigit (c : Char) : Bool := (Text.hexValue? c).isSome

def basedDigits? (base : Nat) (p : Char → Bool) (cs : List Char) : Option (Int × List Char) :=
  let (ds, rest) := Digits.run p cs
  if ds.isEmpty then none
  else some ((Digits.valueIn base (ds.filterMap Text.hexValue?) : Nat), rest)

def basedInteger? : List Char → Option (Int × List Char)
  | '0' :: 'x' :: cs => basedDigits? 16 isHexDigit cs
  | '0' :: 'b' :: cs => basedDigits? 2 isBinaryDigit cs
  | '0' :: 'o' :: cs => basedDigits? 8 isOctalDigit cs
  | _ => none

/-- The digits before the point: a lone zero, or digits that start with another one. -/
def wholeDigits? : List Char → Option (List Char × List Char)
  | '0' :: cs => some (['0'], cs)
  | cs =>
    let (ds, rest) := Digits.run Digits.isDigit cs
    if ds.isEmpty then none else some (ds, rest)

/-- The digits behind the point; a point without one belongs to what follows. -/
def fractionDigits? : List Char → Option (List Char × List Char)
  | '.' :: cs =>
    let (ds, rest) := Digits.run Digits.isDigit cs
    if ds.isEmpty then none else some (ds, rest)
  | _ => none

/-- A number in base ten. With a fraction or an exponent it is a double. -/
def decimal? (cs : List Char) : Option (Number × List Char) := do
  let (negative, cs) := Digits.sign cs
  let (whole, cs) ← wholeDigits? cs
  match fractionDigits? cs, cs with
  | none, cs =>
    match Digits.exponent? cs with
    | none =>
      let n : Int := Digits.value whole
      return (.integer (if negative then -n else n), cs)
    | some (e, cs) => return (.real (Digits.double negative whole [] e), cs)
  | some (behind, cs), _ =>
    match Digits.exponent? cs with
    | none => return (.real (Digits.double negative whole behind 0), cs)
    | some (e, cs) => return (.real (Digits.double negative whole behind e), cs)

def specialNumber? (cs : List Char) : Option (Number × List Char) :=
  let (negative, rest) := Digits.sign cs
  match rest with
  | 'i' :: 'n' :: 'f' :: rest => some (.real (.infinite negative), rest)
  | 'n' :: 'a' :: 'n' :: rest => some (.real .nan, rest)
  | _ => none

def number? (cs : List Char) : Option (Number × List Char) :=
  ((basedInteger? cs).map fun (n, rest) => (.integer n, rest)).or
    ((decimal? cs).or (specialNumber? cs))

def plainScalar : Reader Document := do
  let cs ← get
  match moment? cs with
  | some (m, rest) =>
    if hasDay m then
      set rest
      return .moment m
    else reject .day
  | none =>
    match number? cs with
    | some (n, rest) =>
      set rest
      return .number n
    | none => reject .value

end Prosaic.Document.Toml
