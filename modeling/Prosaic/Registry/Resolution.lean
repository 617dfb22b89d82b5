import Prosaic.Fault
import Prosaic.Registry.Basic
import Prosaic.Registry.Entry

/-!
Registries from documents. The types of a document are resolved in the order in which they are
declared, each after the types that it is made from; records come last, so that they may refer to
one another and to themselves.
-/

namespace Prosaic.Registry

inductive Defect
  | invalid (problems : List Problem)
  | shadowsBuiltin (name : String)
  | operationAndHelper (names : List String)
  | unknownType (name context : String)
  | emptyExpression (context : String)
  | cycle (name : String)
  deriving DecidableEq, Repr

namespace Defect

def message : Defect → String
  | invalid problems =>
    "Invalid domain registry: " ++ "; ".intercalate (problems.map Problem.message)
  | shadowsBuiltin name => "Registry type '" ++ name ++ "' shadows a built-in type."
  | operationAndHelper names =>
    "Names declared as both operation and helper: " ++ ", ".intercalate names ++ "."
  | unknownType name context => "Unknown type '" ++ name ++ "' in " ++ context ++ "."
  | emptyExpression context => "Empty type expression in " ++ context ++ "."
  | cycle name => "Type alias cycle through '" ++ name ++ "'."

def hint : Defect → Option String
  | invalid _ =>
    some "Check the registry against the documented 'types', 'operations' and 'helpers' shape."
  | _ => none

def fault (d : Defect) : Fault := { Fault.ofMessage d.message with hint := d.hint }

end Defect

/-! ### Type expressions -/

/-- A type expression: a name, or a list of what another expression denotes. -/
structure Expression where
  /-- How many lists there are around the name. -/
  depth : Nat
  name : String
  deriving DecidableEq, Repr, Inhabited

namespace Expression

def listOf : List Char := "List of ".toList

def peel : Nat → List Char → Expression
  | 0, cs => ⟨0, String.ofList cs⟩
  | fuel + 1, cs =>
    let cs := Text.trimBoth Text.isBlankOrSeparator cs
    if listOf.isPrefixOf cs then
      let inner := peel fuel (cs.drop listOf.length)
      ⟨inner.depth + 1, inner.name⟩
    else ⟨0, String.ofList cs⟩

/-- Reads an expression. Every list word takes characters away. -/
def ofText (s : String) : Expression :=
  let cs := s.toList
  peel (cs.length + 1) cs

def wrap : Nat → Ty → Ty
  | 0, t => t
  | n + 1, t => .list (wrap n t)

end Expression

/-! ### Names -/

/-- The types that are resolved so far, in the order in which they were. -/
structure Resolved where
  types : Keyed Ty
  domains : Keyed Ty.Domain
  deriving Repr, Inhabited

namespace Resolved

def none : Resolved := ⟨[], []⟩

def add (r : Resolved) (name : String) (t : Ty) : Resolved :=
  { r with types := r.types ++ [(name, t)] }

def addDomain (r : Resolved) (name : String) (d : Ty.Domain) : Resolved :=
  { r with domains := r.domains ++ [(name, d)] }

end Resolved

def resolveWith (named : String → Resolved → Except Defect (Ty × Resolved)) (expression : String)
    (context : String) (r : Resolved) : Except Defect (Ty × Resolved) :=
  let e := Expression.ofText expression
  if e.name.isEmpty then .error (.emptyExpression context)
  else do
    let (t, r) ← named e.name r
    return (Expression.wrap e.depth t, r)

/-- The type of what a name stands for. A record is known by its name alone. -/
def define (named : String → String → Resolved → Except Defect (Ty × Resolved)) (name : String)
    (entry : TypeEntry) (r : Resolved) : Except Defect (Ty × Resolved) :=
  match entry with
  | .record _ => .ok (.record name, r)
  | .synonym target =>
    let context := "alias '" ++ name ++ "'"
    resolveWith (named · context) target context r
  | .domain (some underlying) values => do
    let context := "domain type '" ++ name ++ "'"
    let (t, r) ← resolveWith (named · context) underlying context r
    return (.domain name, r.addDomain name ⟨some t, values, true⟩)
  | .domain .none values =>
    let underlying := if values.isEmpty then .none else some Ty.string
    .ok (.domain name, r.addDomain name ⟨underlying, values, true⟩)

/-- The type of a name. `pending` are the names that wait for it; as each of them has an entry, and
none waits for itself, so many levels are enough as there are entries. -/
def resolveName (entries : Keyed TypeEntry) :
    Nat → List String → String → String → Resolved → Except Defect (Ty × Resolved)
  | fuel, pending, name, context, r =>
    match Base.ofText? name with
    | some b => .ok (.base b, r)
    | .none =>
      match r.types.lookup name with
      | some t => .ok (t, r)
      | .none =>
        match entries.lookup name with
        | .none => .error (.unknownType name context)
        | some entry =>
          if pending.contains name then .error (.cycle name)
          else
            match fuel with
            | 0 => .error (.cycle name)
            | fuel + 1 => do
              let (t, r) ← define (resolveName entries fuel (name :: pending)) name entry r
              return (t, r.add name t)

def resolveTop (entries : Keyed TypeEntry) (name context : String) (r : Resolved) :
    Except Defect (Ty × Resolved) :=
  resolveName entries (entries.length + 1) [] name context r

def resolveNames (entries : Keyed TypeEntry) : List String → Resolved → Except Defect Resolved
  | [], r => .ok r
  | name :: rest, r => do
    let (_, r) ← resolveTop entries name ("type '" ++ name ++ "'") r
    resolveNames entries rest r

def resolveExpression (entries : Keyed TypeEntry) (r : Resolved) (context expression : String) :
    Except Defect Ty :=
  return (← resolveWith (resolveTop entries · context) expression context r).1

/-! ### Records and signatures -/

def resolveRecords (entries : Keyed TypeEntry) (r : Resolved) : Except Defect (Keyed Ty.Record) :=
  let records := r.types.filterMap fun (name, _) =>
    match entries.lookup name with
    | some (.record fields) => some (name, fields)
    | _ => .none
  records.mapM fun (name, fields) => do
    let fields ← fields.mapM fun (field, expression) => do
      let context := "field '" ++ name ++ "." ++ field ++ "'"
      return (field, ← resolveExpression entries r context expression)
    return (name, ⟨fields, true⟩)

/-- A callable without a result says so by an absent or an empty expression. -/
def resolveReturns (entries : Keyed TypeEntry) (r : Resolved) (context : String) :
    Option String → Except Defect (Option Ty)
  | some expression =>
    if expression.isEmpty then .ok .none
    else return some (← resolveExpression entries r context expression)
  | .none => .ok .none

def resolveSignature (entries : Keyed TypeEntry) (r : Resolved) (name : String)
    (c : CallableEntry) : Except Defect Signature := do
  let parameters ← c.parameters.mapM fun p => do
    let context := "parameter '" ++ p.name ++ "' of '" ++ name ++ "'"
    return (p.name, ← resolveExpression entries r context p.type)
  let returns ← resolveReturns entries r ("return type of '" ++ name ++ "'") c.returns
  return ⟨parameters, returns⟩

def resolveCallables (entries : Keyed TypeEntry) (r : Resolved) (cs : Keyed CallableEntry) :
    Except Defect (Keyed Signature) :=
  cs.mapM fun (name, c) => return (name, ← resolveSignature entries r name c)

/-! ### Registries -/

def nameDefect? (e : Entries) : Option Defect :=
  match e.types.keys.find? isBuiltinTypeName with
  | some name => some (.shadowsBuiltin name)
  | .none =>
    let shared := (e.operations.keys.filter e.helpers.keys.contains).mergeSort fun a b => a ≤ b
    if shared.isEmpty then .none else some (.operationAndHelper shared)

def ofEntries (e : Entries) : Except Defect Registry :=
  match nameDefect? e with
  | some d => .error d
  | .none => do
    let r ← resolveNames e.types e.types.keys .none
    let records ← resolveRecords e.types r
    let operations ← resolveCallables e.types r e.operations
    let helpers ← resolveCallables e.types r e.helpers
    return ⟨r.types, r.domains, records, operations, helpers⟩

def ofDocument (entries : Keyed Document) : Except Defect Registry :=
  match readEntries entries with
  | .error problems => .error (.invalid problems)
  | .ok e => ofEntries e

end Prosaic.Registry
