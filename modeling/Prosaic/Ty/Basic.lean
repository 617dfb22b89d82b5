/-!
Types. Base and list types are compared by structure, domain and record types by name alone, so what
a name stands for is kept apart from the type, in a definition. The error type belongs to an
expression that was already reported; it goes with every other type, so that one mistake is reported
once.
-/

namespace Prosaic

inductive Base
  | boolean | number | string | dateTime
  deriving DecidableEq, Repr, Inhabited

namespace Base

def text : Base → String
  | boolean => "Boolean"
  | number => "Number"
  | string => "String"
  | dateTime => "DateTime"

def all : List Base := [boolean, number, string, dateTime]

def ofText? (s : String) : Option Base :=
  all.find? fun b => b.text == s

theorem ofText?_text (b : Base) : ofText? b.text = some b := by
  cases b <;> decide

end Base

/-- A type. A function without a result returns nothing. -/
inductive Ty
  | base (b : Base)
  | list (element : Ty)
  | domain (name : String)
  | record (name : String)
  | function (parameters : List Ty) (returns : Option Ty)
  | error
  deriving Repr, Inhabited

namespace Ty

abbrev boolean : Ty := .base .boolean
abbrev number : Ty := .base .number
abbrev string : Ty := .base .string
abbrev dateTime : Ty := .base .dateTime

/-! ### Equality -/

mutual

def decEq : (a b : Ty) → Decidable (a = b)
  | .base a, .base b => decidable_of_iff (a = b) (by simp)
  | .list a, .list b => @decidable_of_iff _ (a = b) (by simp) (decEq a b)
  | .domain a, .domain b => decidable_of_iff (a = b) (by simp)
  | .record a, .record b => decidable_of_iff (a = b) (by simp)
  | .function as none, .function bs none => @decidable_of_iff _ (as = bs) (by simp) (decEqAll as bs)
  | .function as (some a), .function bs (some b) =>
    have := decEq a b
    have := decEqAll as bs
    decidable_of_iff (as = bs ∧ a = b) (by simp)
  | .error, .error => .isTrue rfl
  | .function _ none, .function _ (some _) | .function _ (some _), .function _ none =>
    .isFalse (by simp)
  | .base _, .list _ | .base _, .domain _ | .base _, .record _ | .base _, .function ..
  | .base _, .error
  | .list _, .base _ | .list _, .domain _ | .list _, .record _ | .list _, .function ..
  | .list _, .error
  | .domain _, .base _ | .domain _, .list _ | .domain _, .record _ | .domain _, .function ..
  | .domain _, .error
  | .record _, .base _ | .record _, .list _ | .record _, .domain _ | .record _, .function ..
  | .record _, .error
  | .function .., .base _ | .function .., .list _ | .function .., .domain _
  | .function .., .record _
  | .function .., .error
  | .error, .base _ | .error, .list _ | .error, .domain _ | .error, .record _
  | .error, .function .. =>
    .isFalse nofun

def decEqAll : (as bs : List Ty) → Decidable (as = bs)
  | [], [] => .isTrue rfl
  | a :: as, b :: bs =>
    have := decEq a b
    have := decEqAll as bs
    decidable_of_iff (a = b ∧ as = bs) (by simp)
  | [], _ :: _ | _ :: _, [] => .isFalse nofun

end

instance : DecidableEq Ty := decEq

@[induction_eliminator]
theorem inductionOn {motive : Ty → Prop} (base : ∀ b, motive (.base b))
    (list : ∀ element, motive element → motive (.list element))
    (domain : ∀ name, motive (.domain name)) (record : ∀ name, motive (.record name))
    (function : ∀ parameters returns, motive (.function parameters returns))
    (error : motive .error) : ∀ t, motive t
  | .base b => base b
  | .list t => list t (inductionOn base list domain record function error t)
  | .domain name => domain name
  | .record name => record name
  | .function parameters returns => function parameters returns
  | .error => error

/-! ### Text -/

mutual

def text : Ty → String
  | .base b => b.text
  | .list t => "List of " ++ t.text
  | .domain name => name
  | .record name => name
  | .function parameters none => "(" ++ ", ".intercalate (texts parameters) ++ ") -> nothing"
  | .function parameters (some t) =>
    "(" ++ ", ".intercalate (texts parameters) ++ ") -> " ++ t.text
  | .error => "<error>"

def texts : List Ty → List String
  | [] => []
  | t :: ts => t.text :: texts ts

end

def textOrNothing : Option Ty → String
  | some t => t.text
  | none => "nothing"

/-! ### The error type -/

def isError (t : Ty) : Bool := t = .error

/-- Whether a type is the error type or a list, however nested, of it. -/
def containsError : Ty → Bool
  | .error => true
  | .list t => t.containsError
  | _ => false

/-- Equality, except that anything goes with a type that contains an error. -/
def same (actual expected : Ty) : Bool :=
  actual.containsError || expected.containsError || actual = expected

def sameResult (actual expected : Option Ty) : Bool :=
  actual.any containsError || expected.any containsError || actual = expected

/-! ### Definitions -/

/-- What the name of a domain type stands for. With values it is a set of string literals; without
an underlying type nothing can be converted to or from it. -/
structure Domain where
  underlying : Option Ty
  values : List String
  /-- Declared outside the program. -/
  external : Bool
  deriving Repr, Inhabited

def Domain.allows (d : Domain) (value : String) : Bool :=
  d.values.contains value

structure Record where
  fields : List (String × Ty)
  /-- Declared outside the program. -/
  external : Bool
  deriving Repr, Inhabited

def Record.field? (r : Record) (name : String) : Option Ty :=
  r.fields.lookup name

end Ty

def isBuiltinTypeName (name : String) : Bool :=
  name == "List" || (Base.ofText? name).isSome

end Prosaic
