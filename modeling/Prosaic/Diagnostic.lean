import Prosaic.Source.Position

/-!
Diagnostics: findings about a program, each with a stable code, a message, the place it is about,
the phase that found it and possibly a hint at the remedy.
-/

namespace Prosaic

/-- The phases of a compilation, in the order in which they run. -/
inductive Phase
  | lex | parse | types | effects | emit
  deriving DecidableEq, Repr, Inhabited

def Phase.rank : Phase → Nat
  | lex => 0
  | parse => 1
  | types => 2
  | effects => 3
  | emit => 4

/-- A line and a column, as reported. Reports made elsewhere may hold any numbers. -/
structure Location where
  line : Int
  column : Int
  deriving DecidableEq, Repr, Inhabited

def Position.location (p : Position) : Location := ⟨p.line, p.column⟩

structure Diagnostic where
  code : String
  message : String
  location : Location
  hint : Option String
  phase : Phase
  deriving DecidableEq, Repr, Inhabited

namespace Diagnostic

/-! ### Codes -/

def syntaxError : String := "SIGIL_SYNTAX_ERROR"
def typeMismatch : String := "SIGIL_TYPE_MISMATCH"
def rebind : String := "SIGIL_REBIND"
def missingReturn : String := "SIGIL_MISSING_RETURN"
def unresolvedName : String := "SIGIL_UNRESOLVED_NAME"
def unknownField : String := "SIGIL_UNKNOWN_FIELD"
def unknownType : String := "SIGIL_UNKNOWN_TYPE"
def arityMismatch : String := "SIGIL_ARITY_MISMATCH"
def duplicateDeclaration : String := "SIGIL_DUPLICATE_DECLARATION"
def purityViolation : String := "SIGIL_PURITY_VIOLATION"
def unresolvedCall : String := "SIGIL_UNRESOLVED_CALL"
def resourceLimit : String := "SIGIL_RESOURCE_LIMIT"

/-- A diagnostic on one line of text. An empty hint counts as none. -/
def describe (d : Diagnostic) : String :=
  let text := toString d.location.line ++ ":" ++ toString d.location.column
    ++ " [" ++ d.code ++ "] " ++ d.message
  match d.hint with
  | some hint => if hint.isEmpty then text else text ++ " Hint: " ++ hint
  | none => text

end Diagnostic

end Prosaic
