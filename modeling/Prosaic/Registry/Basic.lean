import Prosaic.Program.Tree

/-!
Registries: the types, operations and helpers that are declared outside a program. Operations have
effects; helpers are pure.
-/

namespace Prosaic

/-- What a call has to pass, with the names of the parameters, and what it returns. -/
structure Signature where
  parameters : List (String × Ty)
  returns : Option Ty
  deriving Repr, Inhabited

namespace Signature

def arity (s : Signature) : Nat := s.parameters.length

def ty (s : Signature) : Ty := .function (s.parameters.map Prod.snd) s.returns

end Signature

/-- A registry in which every name is resolved. The names of `types` include the aliases; `domains`
and `records` define the names that stand for themselves. -/
structure Registry where
  types : List (String × Ty)
  domains : List (String × Ty.Domain)
  records : List (String × Ty.Record)
  operations : List (String × Signature)
  helpers : List (String × Signature)
  deriving Repr, Inhabited

namespace Registry

def empty : Registry := ⟨[], [], [], [], []⟩

/-- The type of a name, base types included. -/
def type? (r : Registry) (name : String) : Option Ty :=
  match Base.ofText? name with
  | some b => some (.base b)
  | none => r.types.lookup name

def callable? (r : Registry) (name : String) : Option (Signature × Purity) :=
  match r.operations.lookup name with
  | some s => some (s, .effectful)
  | none => (r.helpers.lookup name).map fun s => (s, .pure)

def isOperation (r : Registry) (name : String) : Bool := (r.operations.lookup name).isSome

def isHelper (r : Registry) (name : String) : Bool := (r.helpers.lookup name).isSome

def declaredNames (r : Registry) : List String :=
  r.types.map Prod.fst ++ r.operations.map Prod.fst ++ r.helpers.map Prod.fst

def describe (r : Registry) : String :=
  "DomainRegistry(types=" ++ toString r.types.length ++ ", operations="
    ++ toString r.operations.length ++ ", helpers=" ++ toString r.helpers.length ++ ")"

end Registry

end Prosaic
