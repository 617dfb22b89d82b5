import Prosaic.Document.Value
import Prosaic.Text.Digit

/-!
Reading JSON documents. The grammar is the usual one, with the words for NaN and the infinities
besides; the first place that fits no rule decides the error.
-/

namespace Prosaic.Document.Json

inductive Error
  | value
  | key
  | colon
  | comma
  | extraData
  | unterminatedString
  | escape
  | unicodeEscape
  | controlCharacter
  | byteOrderMark
  deriving DecidableEq, Repr

def Error.message : Error → String
  | value => "Expecting value"
  | key => "Expecting property name enclosed in double quotes"
  | colon => "Expecting ':' delimiter"
  | comma => "Expecting ',' delimiter"
  | extraData => "Extra data"
  | unterminatedString => "Unterminated string starting at"
  | escape => "Invalid \\escape"
  | unicodeEscape => "Invalid \\uXXXX escape"
  | controlCharacter => "Invalid control character at"
  | byteOrderMark => "Unexpected UTF-8 BOM (decode using utf-8-sig)"

def isSpace (c : Char) : Bool :=
  c == ' ' || c == '\t' || c == '\n' || c == '\r'

def skipSpace (cs : List Char) : List Char :=
  cs.dropWhile isSpace

/-! ### Strings -/

def hexUnit? (a b c d : Char) : Option Nat := do
  let a ← Text.hexValue? a
  let b ← Text.hexValue? b
  let c ← Text.hexValue? c
  let d ← Text.hexValue? d
  return ((a * 16 + b) * 16 + c) * 16 + d

def isHighSurrogate (n : Nat) : Bool := 0xd800 ≤ n && n < 0xdc00

def isLowSurrogate (n : Nat) : Bool := 0xdc00 ≤ n && n < 0xe000

/-- The character of a code unit that is not part of a pair; half a pair is none. -/
def unitChar (n : Nat) : Char :=
  if 0xd800 ≤ n && n < 0xe000 then '\ufffd' else Char.ofNat n

def shortEscape? (c : Char) : Option Char :=
  if c = '"' then some '"'
  else if c = '\\' then some '\\'
  else if c = '/' then some '/'
  else if c = 'b' then some '\x08'
  else if c = 'f' then some '\x0c'
  else if c = 'n' then some '\n'
  else if c = 'r' then some '\r'
  else if c = 't' then some '\t'
  else none

inductive StringUnit
  | char (c : Char)
  | escaped (n : Nat)

/-- The characters that the units of a string stand for; a high surrogate joins with the escaped
low one behind it. -/
def joinUnits : List StringUnit → List Char
  | [] => []
  | .char c :: rest => c :: joinUnits rest
  | .escaped high :: .escaped low :: rest =>
    if isHighSurrogate high && isLowSurrogate low then
      Char.ofNat (0x10000 + (high - 0xd800) * 0x400 + (low - 0xdc00)) :: joinUnits rest
    else unitChar high :: joinUnits (.escaped low :: rest)
  | .escaped n :: rest => unitChar n :: joinUnits rest

def consFirst {α β : Type} (a : α) (reading : List α × β) : List α × β :=
  (a :: reading.1, reading.2)

/-- Reads the inside of a string up to its closing quote, and what follows. An escaped code unit
must not end the text. -/
def stringUnits : List Char → Except Error (List StringUnit × List Char)
  | [] => .error .unterminatedString
  | '"' :: rest => .ok ([], rest)
  | ['\\'] => .error .unterminatedString
  | '\\' :: 'u' :: a :: b :: c :: d :: next :: rest =>
    match hexUnit? a b c d with
    | none => .error .unicodeEscape
    | some n => (stringUnits (next :: rest)).map (consFirst (.escaped n))
  | '\\' :: c :: rest =>
    if c = 'u' then .error .unicodeEscape
    else
      match shortEscape? c with
      | none => .error .escape
      | some c => (stringUnits rest).map (consFirst (.char c))
  | c :: rest =>
    if c.toNat < 0x20 then .error .controlCharacter
    else (stringUnits rest).map (consFirst (.char c))

def stringBody (cs : List Char) : Except Error (String × List Char) :=
  (stringUnits cs).map fun (units, rest) => (String.ofList (joinUnits units), rest)

/-! ### Numbers -/

def isDigit (c : Char) : Bool := '0' ≤ c && c ≤ '9'

def digitsValue (ds : List Char) : Nat :=
  ds.foldl (fun n d => 10 * n + (d.toNat - '0'.toNat)) 0

/-- The digits of the integer part: a lone zero, or digits that start with another one. -/
def wholeDigits? : List Char → Option (List Char × List Char)
  | '0' :: rest => some (['0'], rest)
  | cs =>
    let ds := cs.takeWhile isDigit
    if ds.isEmpty then none else some (ds, cs.dropWhile isDigit)

/-- The digits behind the point; a point without a digit behind it belongs to what follows. -/
def fractionDigits : List Char → Option (List Char) × List Char
  | '.' :: cs =>
    let ds := cs.takeWhile isDigit
    if ds.isEmpty then (none, '.' :: cs) else (some ds, cs.dropWhile isDigit)
  | cs => (none, cs)

def exponent? (cs : List Char) : Option (Int × List Char) :=
  match cs with
  | mark :: rest =>
    if mark = 'e' || mark = 'E' then
      let (sign, rest) := match rest with
        | '+' :: rest => (1, rest)
        | '-' :: rest => ((-1 : Int), rest)
        | rest => (1, rest)
      let ds := rest.takeWhile isDigit
      if ds.isEmpty then none else some (sign * digitsValue ds, rest.dropWhile isDigit)
    else none
  | [] => none

/-- Reads a number. One with a fraction or an exponent is a double. -/
def number? (negative : Bool) (cs : List Char) : Option (Number × List Char) := do
  let (whole, rest) ← wholeDigits? cs
  let (fraction, rest) := fractionDigits rest
  let ds := fraction.getD []
  match fraction, exponent? rest with
  | none, none =>
    let n : Int := digitsValue whole
    return (.integer (if negative then -n else n), rest)
  | _, none =>
    return (.real (.ofDecimal negative (digitsValue (whole ++ ds)) (-(ds.length : Int))), rest)
  | _, some (e, rest) =>
    return (.real (.ofDecimal negative (digitsValue (whole ++ ds)) (e - ds.length)), rest)

/-! ### Values -/

def word? : List Char → List Char → Option (List Char)
  | [], cs => some cs
  | w :: ws, c :: cs => if w = c then word? ws cs else none
  | _, [] => none

def scalar (cs : List Char) : Except Error (Document × List Char) :=
  match cs with
  | '"' :: rest => (stringBody rest).map fun (s, rest) => (.string s, rest)
  | '-' :: rest =>
    match word? "Infinity".toList rest with
    | some rest => .ok (.number (.real (.infinite true)), rest)
    | none =>
      match number? true rest with
      | some (n, rest) => .ok (.number n, rest)
      | none => .error .value
  | _ =>
    let words : List (String × Document) :=
      [("null", .null), ("true", .boolean true), ("false", .boolean false),
       ("NaN", .number (.real .nan)), ("Infinity", .number (.real (.infinite false)))]
    match words.findSome? fun (w, d) => (word? w.toList cs).map (d, ·) with
    | some reading => .ok reading
    | none =>
      match number? false cs with
      | some (n, rest) => .ok (.number n, rest)
      | none => .error .value

mutual

/-- Reads a value; the depth of a value is bounded by the length of its text, the fuel. -/
def value : Nat → List Char → Except Error (Document × List Char)
  | 0, _ => .error .value
  | fuel + 1, '[' :: rest =>
    match skipSpace rest with
    | ']' :: rest => .ok (.array [], rest)
    | rest => (elements fuel rest).map fun (ds, rest) => (.array ds, rest)
  | fuel + 1, '\x7b' :: rest =>
    match skipSpace rest with
    | '\x7d' :: rest => .ok (.table [], rest)
    | rest => (entries fuel rest).map fun (ps, rest) => (.table (Keyed.ofPairs ps), rest)
  | _ + 1, cs => scalar cs

def elements : Nat → List Char → Except Error (List Document × List Char)
  | 0, _ => .error .value
  | fuel + 1, cs => do
    let (d, rest) ← value fuel cs
    match skipSpace rest with
    | ']' :: rest => .ok ([d], rest)
    | ',' :: rest =>
      let (ds, rest) ← elements fuel (skipSpace rest)
      .ok (d :: ds, rest)
    | _ => .error .comma

def entries : Nat → List Char → Except Error (List (String × Document) × List Char)
  | 0, _ => .error .key
  | fuel + 1, '"' :: cs => do
    let (key, rest) ← stringBody cs
    let ':' :: rest := skipSpace rest | .error .colon
    let (d, rest) ← value fuel (skipSpace rest)
    match skipSpace rest with
    | '\x7d' :: rest => .ok ([(key, d)], rest)
    | ',' :: rest =>
      let (ps, rest) ← entries fuel (skipSpace rest)
      .ok ((key, d) :: ps, rest)
    | _ => .error .comma
  | _ + 1, _ => .error .key

end

def read (s : String) : Except Error Document := do
  let cs := s.toList
  if cs.head? = some '\ufeff' then .error .byteOrderMark
  else
    let (d, rest) ← value (cs.length + 1) (skipSpace cs)
    if (skipSpace rest).isEmpty then .ok d else .error .extraData

end Prosaic.Document.Json
