import Prosaic.Document.Value
import Prosaic.Text.Blank

/-!
The entries of a registry document, before any type name is resolved. A document is read as a whole:
every flaw is reported, with the path to it, in the order of the known keys and of the document.
What one part says about another is looked at only if the parts themselves are sound.
-/

namespace Prosaic.Registry

/-! ### Flaws -/

inductive Flaw
  | missing
  | unknownKey
  | notText
  | notList
  | notTable
  /-- Neither a table nor anything else that could stand for the named part. -/
  | notPart (part : String)
  | notKind
  | badName (what name : String)
  | repeatedParameters (names : List String)
  | recordOnlyFields
  | domainOnlyValues
  | valuesNotText
  | repeatedValues
  | aliasWithoutTarget
  | aliasOnlyTarget
  deriving DecidableEq, Repr

namespace Flaw

/-- Flaws that lie in what a value says, not in its shape. -/
def inValue (text : String) : String := "Value error, " ++ text

def message : Flaw → String
  | missing => "Field required"
  | unknownKey => "Extra inputs are not permitted"
  | notText => "Input should be a valid string"
  | notList => "Input should be a valid list"
  | notTable => "Input should be a valid dictionary"
  | notPart part => "Input should be a valid dictionary or instance of " ++ part
  | notKind => "Input should be 'domain', 'record' or 'alias'"
  | badName what name =>
    inValue (what ++ " " ++ Text.quoted name ++ " is not a valid identifier")
  | repeatedParameters names => inValue ("duplicate parameter names: " ++ ", ".intercalate names)
  | recordOnlyFields => inValue "record types only accept 'fields'"
  | domainOnlyValues => inValue "domain types accept 'underlying' and 'values' only"
  | valuesNotText => inValue "a domain type with literal values must have underlying type String"
  | repeatedValues => inValue "domain values must be unique"
  | aliasWithoutTarget => inValue "alias types require 'target'"
  | aliasOnlyTarget => inValue "alias types only accept 'target'"

end Flaw

structure Problem where
  path : List String
  flaw : Flaw
  deriving DecidableEq, Repr

def Problem.message (p : Problem) : String :=
  if p.path.isEmpty then p.flaw.message
  else ".".intercalate p.path ++ ": " ++ p.flaw.message

/-! ### Reading -/

/-- What was read, or all problems. -/
abbrev Read (α : Type) := Except (List Problem) α

namespace Read

variable {α β γ : Type}

def problems : Read α → List Problem
  | .error ps => ps
  | .ok _ => []

/-- Two parts of a value; the problems of both count. -/
def both (a : Read α) (b : Read β) : Read (α × β) :=
  match a, b with
  | .ok a, .ok b => .ok (a, b)
  | a, b => .error (a.problems ++ b.problems)

def all : List (Read α) → Read (List α)
  | [] => .ok []
  | a :: rest => (both a (all rest)).map fun (a, rest) => a :: rest

def ensure (path : List String) (flaw? : α → Option Flaw) (a : Read α) : Read α :=
  a.bind fun a =>
    match flaw? a with
    | some flaw => .error [⟨path, flaw⟩]
    | none => .ok a

end Read

abbrev Reader (α : Type) := List String → Document → Read α

namespace Reader

variable {α β : Type}

def text : Reader String
  | _, .string s => .ok (Text.trimBlank s)
  | path, _ => .error [⟨path, .notText⟩]

def optional (r : Reader α) : Reader (Option α)
  | _, .null => .ok none
  | path, d => (r path d).map some

def list (r : Reader α) : Reader (List α)
  | path, .array ds => Read.all (ds.zipIdx.map fun (d, i) => r (path ++ [toString i]) d)
  | path, _ => .error [⟨path, .notList⟩]

/-- A table in which every key is a name. White space around names does not count. -/
def table (r : Reader α) : Reader (Keyed α)
  | path, .table entries =>
    (Read.all (entries.map fun (key, d) =>
      (r (path ++ [key]) d).map fun a => (Text.trimBlank key, a))).map Keyed.ofPairs
  | path, _ => .error [⟨path, .notTable⟩]

def required (r : Reader α) (path : List String) (entries : Keyed Document) (key : String) :
    Read α :=
  match entries.lookup key with
  | some d => r (path ++ [key]) d
  | none => .error [⟨path ++ [key], .missing⟩]

/-- The value of a key that has a value without being there. -/
def orElse (r : Reader α) (absent : α) (path : List String) (entries : Keyed Document)
    (key : String) : Read α :=
  match entries.lookup key with
  | some d => r (path ++ [key]) d
  | none => .ok absent

def only (known : List String) (path : List String) (entries : Keyed Document) : Read Unit :=
  let unknown := entries.keys.filter fun key => !known.contains key
  if unknown.isEmpty then .ok ()
  else .error (unknown.map fun key => ⟨path ++ [key], .unknownKey⟩)

end Reader

/-! ### Names -/

def isNameStart (c : Char) : Bool := c.isAlpha || c == '_'

/-- Names consist of ASCII letters, digits and underscores and do not start with a digit. -/
def isName (s : String) : Bool :=
  match s.toList with
  | [] => false
  | c :: cs => isNameStart c && cs.all fun c => isNameStart c || c.isDigit

def nameFlaw? (what name : String) : Option Flaw :=
  if isName name then none else some (.badName what name)

/-! ### Entries -/

structure ParameterEntry where
  name : String
  type : String
  deriving DecidableEq, Repr, Inhabited

structure CallableEntry where
  parameters : List ParameterEntry
  returns : Option String
  deriving DecidableEq, Repr, Inhabited

/-- What a type name stands for. Types are expressions. -/
inductive TypeEntry
  | domain (underlying : Option String) (values : List String)
  | record (fields : Keyed String)
  | synonym (target : String)
  deriving DecidableEq, Repr, Inhabited

structure Entries where
  types : Keyed TypeEntry
  operations : Keyed CallableEntry
  helpers : Keyed CallableEntry
  deriving DecidableEq, Repr, Inhabited

/-! ### Parameters and callables -/

def readParameter : Reader ParameterEntry
  | path, .table entries =>
    let name := (Reader.text.required path entries "name").ensure (path ++ ["name"])
      (nameFlaw? "parameter name")
    let type := Reader.text.required path entries "type"
    let only := Reader.only ["name", "type"] path entries
    (name.both (type.both only)).map fun (name, type, _) => ⟨name, type⟩
  | path, _ => .error [⟨path, .notPart "ParameterModel"⟩]

def repeated (names : List String) : List String :=
  (names.filter fun n => 1 < names.count n).eraseDups.mergeSort fun a b => a ≤ b

def CallableEntry.flaw? (c : CallableEntry) : Option Flaw :=
  let names := repeated (c.parameters.map ParameterEntry.name)
  if names.isEmpty then none else some (.repeatedParameters names)

def readCallable : Reader CallableEntry
  | path, .table entries =>
    let parameters := (Reader.list readParameter).orElse [] path entries "parameters"
    let returns := (Reader.optional .text).orElse none path entries "returns"
    let description := (Reader.optional .text).orElse none path entries "description"
    let only := Reader.only ["parameters", "returns", "description"] path entries
    let parts := parameters.both (returns.both (description.both only))
    Read.ensure path CallableEntry.flaw? (parts.map fun (parameters, returns, _) =>
      (⟨parameters, returns⟩ : CallableEntry))
  | path, _ => .error [⟨path, .notPart "CallableModel"⟩]

/-! ### Types -/

inductive Kind
  | domain | record | synonym
  deriving DecidableEq, Repr

/-- White space around a kind counts. -/
def readKind : Reader Kind
  | _, .string "domain" => .ok .domain
  | _, .string "record" => .ok .record
  | _, .string "alias" => .ok .synonym
  | path, _ => .error [⟨path, .notKind⟩]

structure TypeParts where
  kind : Kind
  underlying : Option String
  values : List String
  fields : Keyed String
  target : Option String

namespace TypeParts

/-- Whether an expression is absent; an empty one is. -/
def isAbsent (expression : Option String) : Bool := expression.all String.isEmpty

def flaw? (t : TypeParts) : Option Flaw :=
  match t.kind with
  | .record =>
    if !isAbsent t.underlying || !t.values.isEmpty || !isAbsent t.target then
      some .recordOnlyFields
    else t.fields.keys.findSome? (nameFlaw? "field name")
  | .domain =>
    if !t.fields.isEmpty || !isAbsent t.target then some .domainOnlyValues
    else if !t.values.isEmpty && t.underlying.any (· != "String") then some .valuesNotText
    else if t.values.eraseDups.length != t.values.length then some .repeatedValues
    else none
  | .synonym =>
    if isAbsent t.target then some .aliasWithoutTarget
    else if !t.fields.isEmpty || !t.values.isEmpty || !isAbsent t.underlying then
      some .aliasOnlyTarget
    else none

def entry (t : TypeParts) : TypeEntry :=
  match t.kind with
  | .record => .record t.fields
  | .domain => .domain (t.underlying.filter fun s => !s.isEmpty) t.values
  | .synonym => .synonym (t.target.getD "")

end TypeParts

def readType : Reader TypeEntry
  | path, .table entries =>
    let kind := Reader.required readKind path entries "kind"
    let underlying := (Reader.optional .text).orElse none path entries "underlying"
    let values := (Reader.list .text).orElse [] path entries "values"
    let fields := (Reader.table .text).orElse [] path entries "fields"
    let target := (Reader.optional .text).orElse none path entries "target"
    let description := (Reader.optional .text).orElse none path entries "description"
    let only := Reader.only
      ["kind", "underlying", "values", "fields", "target", "description"] path entries
    let parts := kind.both (underlying.both (values.both (fields.both (target.both
      (description.both only)))))
    let sound := Read.ensure path TypeParts.flaw?
      (parts.map fun (kind, underlying, values, fields, target, _) =>
        (⟨kind, underlying, values, fields, target⟩ : TypeParts))
    sound.map TypeParts.entry
  | path, _ => .error [⟨path, .notPart "TypeDefinitionModel"⟩]

/-! ### Documents -/

/-- A table of named things. The first name that is none is reported. -/
def readNamed {α : Type} (r : Reader α) (entries : Keyed Document) (key : String) :
    Read (Keyed α) :=
  Read.ensure [key] (fun named => named.keys.findSome? (nameFlaw? "name"))
    ((Reader.table r).orElse [] [] entries key)

def readEntries (entries : Keyed Document) : Read Entries :=
  let types := readNamed readType entries "types"
  let operations := readNamed readCallable entries "operations"
  let helpers := readNamed readCallable entries "helpers"
  let only := Reader.only ["types", "operations", "helpers"] [] entries
  let parts := types.both (operations.both (helpers.both only))
  parts.map fun (types, operations, helpers, _) =>
    ⟨types, operations, helpers⟩

end Prosaic.Registry
