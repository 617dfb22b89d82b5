import Prosaic.Program.Tree

/-!
Modules of the target language as trees. A reference knows whether its name is imported, so what a
module imports can be read off it; how the tree is written, with which parentheses and under which
identifiers, is left to the printer.
-/

namespace Prosaic.TypeScript

/-- A name that refers to a declaration of the module or, if it is imported, of the domain
module. -/
structure Reference where
  name : String
  imported : Bool
  deriving DecidableEq, Repr, Inhabited

inductive TypeExpr
  | primitive (b : Base)
  | array (element : TypeExpr)
  | reference (r : Reference)
  deriving DecidableEq, Repr, Inhabited

/-- Expressions. Variables carry the identifier under which they are declared. -/
inductive Term
  | number (digits : String)
  | string (value : String)
  | boolean (b : Bool)
  | array (elements : List Term)
  | variable (identifier : String)
  | unary (op : UnaryOp) (operand : Term)
  | binary (op : BinaryOp) (left right : Term)
  | call (callee : Reference) (awaited : Bool) (args : List Term)
  | cast (value : Term) (target : TypeExpr)
  | member (base : Term) (field : String)
  deriving Repr, Inhabited

inductive Command
  | const (identifier : String) (init : Term)
  | branch (condition : Term) (thenBlock : List Command) (otherwise : Option (List Command))
  | forOf (identifier : String) (iterable : Term) (body : List Command)
  | return (value : Option Term)
  | expression (value : Term)
  deriving Repr, Inhabited

inductive TypeBody
  | synonym (a : TypeExpr)
  | literals (values : List String)
  deriving DecidableEq, Repr, Inhabited

/-- Exported declarations. An asynchronous function returns a promise. -/
inductive Item
  | type (name : String) (body : TypeBody)
  | interface (name : String) (fields : List (String × TypeExpr))
  | function (name : String) (isAsync : Bool) (parameters : List (String × TypeExpr))
      (returns : Option TypeExpr) (body : List Command)
  deriving Repr, Inhabited

structure Module where
  items : List Item
  deriving Repr, Inhabited

/-! ### References -/

def TypeExpr.references : TypeExpr → List Reference
  | primitive _ => []
  | array e => e.references
  | reference r => [r]

structure References where
  types : List Reference
  values : List Reference

namespace References

def none : References := ⟨[], []⟩

def append (a b : References) : References := ⟨a.types ++ b.types, a.values ++ b.values⟩

instance : Append References := ⟨append⟩

def ofTypes (as : List TypeExpr) : References := ⟨as.flatMap TypeExpr.references, []⟩

end References

mutual

def Term.references : Term → References
  | .number _ | .string _ | .boolean _ | .variable _ => .none
  | .array es => Term.referencesAll es
  | .unary _ e => e.references
  | .binary _ l r => l.references ++ r.references
  | .call callee _ args => (⟨[], [callee]⟩ : References) ++ Term.referencesAll args
  | .cast e t => e.references ++ References.ofTypes [t]
  | .member e _ => e.references

def Term.referencesAll : List Term → References
  | [] => .none
  | e :: es => e.references ++ Term.referencesAll es

end

mutual

def Command.references : Command → References
  | .const _ e => e.references
  | .branch c t none => c.references ++ Command.referencesAll t
  | .branch c t (some o) => c.references ++ Command.referencesAll t ++ Command.referencesAll o
  | .forOf _ e b => e.references ++ Command.referencesAll b
  | .return none => .none
  | .return (some e) => e.references
  | .expression e => e.references

def Command.referencesAll : List Command → References
  | [] => .none
  | c :: cs => c.references ++ Command.referencesAll cs

end

def Item.references : Item → References
  | .type _ (.synonym a) => .ofTypes [a]
  | .type _ (.literals _) => .none
  | .interface _ fields => .ofTypes (fields.map Prod.snd)
  | .function _ _ parameters returns body =>
    .ofTypes (parameters.map Prod.snd ++ returns.toList) ++ Command.referencesAll body

/-- The imported names among some references, each once and in ascending order. -/
def importedNames (rs : List Reference) : List String :=
  (((rs.filter Reference.imported).map Reference.name).eraseDups).mergeSort fun a b => a ≤ b

namespace Module

def references (m : Module) : References :=
  m.items.foldr (fun i rs => i.references ++ rs) .none

def typeImports (m : Module) : List String := importedNames m.references.types

def valueImports (m : Module) : List String := importedNames m.references.values

end Module

end Prosaic.TypeScript
