import Prosaic.Diagnostic.Findings
import Prosaic.Grammar.Declaration
import Prosaic.Purity.Check
import Prosaic.Token.Scan
import Prosaic.TypeScript.Lowering
import Prosaic.TypeScript.Print

/-!
Compilations. A source text passes through the phases in order, and each phase runs only if the ones
before it found nothing. The outcome is a module of the target language or the findings of a single
phase, never both.
-/

namespace Prosaic

inductive Outcome
  | emitted (source : String)
  | rejected (found : List Diagnostic)
  deriving DecidableEq, Repr, Inhabited

namespace Outcome

/-- An outcome has no findings beside an emitted module. -/
def of? (source : Option String) (found : List Diagnostic) : Option Outcome :=
  match source with
  | none => some (.rejected found)
  | some text => if found.isEmpty then some (.emitted text) else none

/-- The findings of a phase in the order in which they are reported. -/
def ofFound (found : List Diagnostic) : Outcome := .rejected (Findings.ofList found).sorted

def isEmitted : Outcome → Bool
  | emitted _ => true
  | rejected _ => false

def found : Outcome → List Diagnostic
  | emitted _ => []
  | rejected ds => ds

def document : Outcome → Document
  | emitted text => .table [("target_source", .string text)]
  | rejected ds => .table [("diagnostics", (Findings.ofList ds).document)]

end Outcome

/-- The findings of a checking phase. One that exceeds a limit has found nothing else. -/
def Checked.found {α : Type} (c : Checked α) (phase : Phase) (findings : α → List Diagnostic) :
    List Diagnostic :=
  match c.result with
  | .error e => [e.diagnostic phase]
  | .ok a => findings a

def Program.emit (p : Program) (registry : Registry) (target : Target) :
    Except TypeScript.Defect String :=
  return (← TypeScript.lower p registry).text target

/-- Continues with a phase if the one before found nothing, and only then runs it. -/
@[macro_inline]
def unlessFound (found : List Diagnostic) (next : Except TypeScript.Defect Outcome) :
    Except TypeScript.Defect Outcome :=
  if found.isEmpty then next else .ok (.ofFound found)

def Program.compile (p : Program) (registry : Registry) (target : Target) (budget : Budget) :
    Except TypeScript.Defect Outcome :=
  let typed := p.checkTypes registry budget
  unlessFound (typed.found .types id) <|
    let labelled := typed.program.checkPurity registry typed.budget
    unlessFound (labelled.found .effects PurityReport.found) <|
      return .emitted (← labelled.program.emit registry target)

/-- Compiles a source text against a registry. The tokens of a text always end with its end, so they
can always be read. -/
def compile (source : String) (registry : Registry) (target : Target) (budget : Budget) :
    Except TypeScript.Defect Outcome :=
  match Token.scan source with
  | .error e => .ok (.ofFound [e.diagnostic])
  | .ok tokens =>
    match Program.read tokens budget with
    | none => .ok (.rejected [])
    | some r => unlessFound r.found (r.program.compile registry target r.budget)

end Prosaic
