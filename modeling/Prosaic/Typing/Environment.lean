import Prosaic.Diagnostic
import Prosaic.Registry.Basic
import Prosaic.Text.Similarity
import Prosaic.Ty.Scope

/-!
The environment of a type check: what the names of types and functions stand for, in the program and
in the registry, and how the check reports what it finds.
-/

namespace Prosaic

def typeFinding (code message : String) (start : Position) (hint : Option String) : Diagnostic :=
  ⟨code, message, start.location, hint, .types⟩

structure DeclaredFunction where
  line : Nat
  signature : Signature
  deriving Repr, Inhabited

structure TypeEnv where
  registry : Registry
  functions : List (String × DeclaredFunction)
  /-- The types that the program declares. -/
  types : List (String × Ty)
  domains : List (String × Ty.Domain)
  records : List (String × Ty.Record)
  deriving Repr, Inhabited

namespace TypeEnv

/-- The type of a name: a base type, one that the program declares, or one of the registry. -/
def type? (env : TypeEnv) (name : String) : Option Ty :=
  match Base.ofText? name with
  | some b => some (.base b)
  | none => (env.types.lookup name).or (env.registry.type? name)

def domain? (env : TypeEnv) : Ty → Option Ty.Domain
  | .domain name => (env.domains.lookup name).or (env.registry.domains.lookup name)
  | _ => none

/-- The type that values of a domain type are made from. -/
def underlying? (env : TypeEnv) (t : Ty) : Option Ty :=
  (env.domain? t).bind Ty.Domain.underlying

def record? (env : TypeEnv) : Ty → Option Ty.Record
  | .record name => (env.records.lookup name).or (env.registry.records.lookup name)
  | _ => none

def typeNames (env : TypeEnv) : List String :=
  Base.all.map Base.text ++ env.types.map Prod.fst ++ env.registry.types.map Prod.fst

/-! ### Type references -/

def unknownType (knownNames : List String) (name : String) (start : Position) : Diagnostic :=
  let hint := match Text.suggestName name knownNames with
    | some s => "Did you mean '" ++ s ++ "'?"
    | none =>
      "Declare it with 'Define type' or 'Define record', or add it to the domain registry."
  typeFinding Diagnostic.unknownType ("Unknown type '" ++ name ++ "'") start (some hint)

/-- The finding that `List` stands without the type of its elements. -/
def bareList (start : Position) : Diagnostic :=
  typeFinding Diagnostic.unknownType "'List' needs an element type" start
    (some "Write 'List of <Type>', for example 'List of String'.")

def resolve (env : TypeEnv) : TypeRef → Ty × List Diagnostic
  | .named name span =>
    if name = "List" then (.error, [bareList span.start])
    else
      match env.type? name with
      | some t => (t, [])
      | none => (.error, [unknownType env.typeNames name span.start])
  | .list element _ =>
    let (t, found) := env.resolve element
    (.list t, found)

def resolveAll (env : TypeEnv) : List TypeRef → List Ty × List Diagnostic
  | [] => ([], [])
  | r :: rs =>
    let (t, found) := env.resolve r
    let (ts, more) := env.resolveAll rs
    (t :: ts, found ++ more)

end TypeEnv

end Prosaic
