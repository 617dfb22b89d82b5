import Prosaic.Document.Value
import Prosaic.Numeric.Digits

/-!
Numbers in configuration documents. A number may be given as a number, as a truth value or as a text
that spells it.
-/

namespace Prosaic.Settings

inductive BadNumber
  | integerText (s : String)
  | realText (s : String)
  | notInteger (kind : String)
  | notReal (kind : String)
  | nanAsInteger
  /-- Infinite as an integer, or beyond all doubles. -/
  | tooLarge
  deriving DecidableEq, Repr

/-- The text of a bad integer is shown up to so many characters. -/
def shownLength : Nat := 200

def BadNumber.message : BadNumber → String
  | integerText s =>
    "invalid literal for int() with base 10: "
      ++ String.ofList ((Text.quoted s).toList.take shownLength)
  | realText s => "could not convert string to float: " ++ Text.quoted s
  | notInteger kind =>
    "int() argument must be a string, a bytes-like object or a real number, not '" ++ kind ++ "'"
  | notReal kind => "float() argument must be a string or a real number, not '" ++ kind ++ "'"
  | nanAsInteger => "cannot convert float NaN to integer"
  | tooLarge => "number out of range"

def kindName : Document → String
  | .null => "NoneType"
  | .boolean _ => "bool"
  | .number (.integer _) => "int"
  | .number (.real _) => "float"
  | .string _ => "str"
  | .moment m => m.kind
  | .array _ => "list"
  | .table _ => "dict"

def integerOfText (s : String) : Except BadNumber Int :=
  match Digits.integer? s with
  | some n => .ok n
  | none => .error (.integerText s)

def realOfText (s : String) : Except BadNumber Binary64 :=
  match Digits.real? s with
  | some x => .ok x
  | none => .error (.realText s)

/-- The integer that a value stands for. A number with a fraction loses it. -/
def integerOf : Document → Except BadNumber Int
  | .string s => integerOfText s
  | .number (.integer n) => .ok n
  | .number (.real .nan) => .error .nanAsInteger
  | .number (.real x) =>
    match x.truncate? with
    | some n => .ok n
    | none => .error .tooLarge
  | .boolean b => .ok (if b then 1 else 0)
  | d => .error (.notInteger (kindName d))

def realOf : Document → Except BadNumber Binary64
  | .string s => realOfText s
  | .number (.integer n) =>
    let x := Binary64.ofInt n
    if x.isFinite then .ok x else .error .tooLarge
  | .number (.real x) => .ok x
  | .boolean b => .ok (.ofInt (if b then 1 else 0))
  | d => .error (.notReal (kindName d))

end Prosaic.Settings
