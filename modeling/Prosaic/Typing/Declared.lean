import Prosaic.Typing.Environment

/-!
The declarations of a program, whatever their order. Names are registered first, so that
declarations may refer to later ones; then type declarations are resolved on demand, each cycle of
them being reported once; then the fields of records and the signatures of functions.
-/

namespace Prosaic

/-! ### Names -/

/-- The finding that a declaration uses a name that is taken, if it is. `lines` are the lines of the
declarations registered so far. -/
def nameConflict (registry : Registry) (lines : List (String × Nat)) (d : Decl) :
    Option Diagnostic :=
  let duplicate (message hint : String) :=
    some (typeFinding Diagnostic.duplicateDeclaration message d.nameStart (some hint))
  if isBuiltinTypeName d.name then
    duplicate ("'" ++ d.name ++ "' is a built-in type and cannot be redeclared")
      ("Choose a different name than '" ++ d.name ++ "'.")
  else if registry.declaredNames.contains d.name then
    duplicate ("'" ++ d.name ++ "' is already declared in the domain registry")
      ("Use the registry's '" ++ d.name ++ "' directly or choose a different name.")
  else
    match lines.lookup d.name with
    | some line =>
      duplicate ("'" ++ d.name ++ "' is already declared at line " ++ toString line)
        "Each function, type and record needs a unique name."
    | none => none

/-- Marks the declarations whose names can be registered and reports the others. A function without
a readable name is passed over. -/
def registerNames (registry : Registry) :
    List (String × Nat) → List Decl → List (Decl × Bool) × List Diagnostic
  | _, [] => ([], [])
  | lines, d :: ds =>
    if d.name = unreadableName then
      let (marked, found) := registerNames registry lines ds
      ((d, false) :: marked, found)
    else
      match nameConflict registry lines d with
      | some conflict =>
        let (marked, found) := registerNames registry lines ds
        ((d, false) :: marked, conflict :: found)
      | none =>
        let (marked, found) := registerNames registry ((d.name, d.span.start.line) :: lines) ds
        ((d, true) :: marked, found)

/-! ### Type declarations -/

structure Aliases where
  types : List (String × Ty)
  domains : List (String × Ty.Domain)
  found : List Diagnostic

namespace Aliases

def report (a : Aliases) (d : Diagnostic) : Aliases := { a with found := a.found ++ [d] }

def define (a : Aliases) (name : String) (domain : Ty.Domain) : Aliases :=
  match a.types.lookup name with
  | some _ => a
  | none =>
    { a with types := (name, .domain name) :: a.types, domains := (name, domain) :: a.domains }

def cyclic (a : Aliases) (t : TypeDecl) : Aliases :=
  let found := typeFinding Diagnostic.unknownType
    ("Type '" ++ t.name ++ "' is defined in terms of itself") t.span.start
    (some "Define the type as a base type or a set of string literals.")
  { a.report found with types := (t.name, .error) :: a.types }

def reference (named : String → Position → Aliases → Ty × Aliases) :
    TypeRef → Aliases → Ty × Aliases
  | .named name span, a =>
    if name = "List" then (.error, a.report (TypeEnv.bareList span.start))
    else named name span.start a
  | .list element _, a =>
    let (t, a) := reference named element a
    (.list t, a)

/-- The type of a declared name, resolving its declaration first where needed. `open_` are the names
whose declarations are being resolved; each step opens one more, so the number of declarations is
fuel enough. -/
def resolve (registry : Registry) (declared : List TypeDecl) (knownNames : List String) :
    Nat → List String → TypeDecl → Aliases → Ty × Aliases
  | 0, _, _, a => (.error, a)
  | fuel + 1, open_, t, a =>
    match a.types.lookup t.name with
    | some ty => (ty, a)
    | none =>
      if open_.contains t.name then (.error, a.cyclic t)
      else
        let named (name : String) (start : Position) (a : Aliases) : Ty × Aliases :=
          match Base.ofText? name with
          | some b => (.base b, a)
          | none =>
            match a.types.lookup name with
            | some ty => (ty, a)
            | none =>
              match declared.find? fun t => t.name == name with
              | some other =>
                resolve registry declared knownNames fuel (t.name :: open_) other a
              | none =>
                match registry.type? name with
                | some ty => (ty, a)
                | none => (.error, a.report (TypeEnv.unknownType knownNames name start))
        let (domain, a) : Ty.Domain × Aliases := match t.body with
          | .literals values => (⟨some .string, values, false⟩, a)
          | .reference ref =>
            let (ty, a) := reference named ref a
            (⟨some ty, [], false⟩, a)
        let a := a.define t.name domain
        ((a.types.lookup t.name).getD .error, a)

end Aliases

/-! ### Records and functions -/

/-- The fields of a record, without the repeated ones, and what is wrong with them. -/
def recordFields (env : TypeEnv) (record : String) :
    List (String × Ty) → List Typed → List (String × Ty) × List Diagnostic
  | known, [] => (known, [])
  | known, f :: fs =>
    match known.lookup f.name with
    | some _ =>
      let (fields, found) := recordFields env record known fs
      (fields, typeFinding Diagnostic.duplicateDeclaration
        ("Record '" ++ record ++ "' declares field '" ++ f.name ++ "' more than once") f.span.start
        (some "Remove or rename the repeated field.") :: found)
    | none =>
      let (t, found) := env.resolve f.ty
      let (fields, more) := recordFields env record (known ++ [(f.name, t)]) fs
      (fields, found ++ more)

def recordDefinitions (env : TypeEnv) :
    List RecordDecl → List (String × Ty.Record) × List Diagnostic
  | [] => ([], [])
  | r :: rs =>
    let (fields, found) := recordFields env r.name [] r.fields
    let (records, more) := recordDefinitions env rs
    ((r.name, ⟨fields, false⟩) :: records, found ++ more)

def TypeEnv.signature (env : TypeEnv) (f : FunctionDecl) : Signature × List Diagnostic :=
  let (types, found) := env.resolveAll (f.parameters.map Typed.ty)
  let parameters := (f.parameters.map Typed.name).zip types
  match f.returns with
  | none => (⟨parameters, none⟩, found)
  | some ref =>
    let (t, more) := env.resolve ref
    (⟨parameters, some t⟩, found ++ more)

def TypeEnv.signatures (env : TypeEnv) : List FunctionDecl → List Signature × List Diagnostic
  | [] => ([], [])
  | f :: fs =>
    let (s, found) := env.signature f
    let (ss, more) := env.signatures fs
    (s :: ss, found ++ more)

/-! ### All declarations -/

/-- What a program declares: the environment of its bodies, and the signatures of all its functions
in order, registered or not. -/
structure Declared where
  env : TypeEnv
  signatures : List Signature
  found : List Diagnostic

def registered (marked : List (Decl × Bool)) : List Decl :=
  (marked.filter Prod.snd).map Prod.fst

def Declared.of (registry : Registry) (program : Program) : Declared :=
  let (marked, nameFindings) := registerNames registry [] program.declarations
  let own : Program := { program with declarations := registered marked }
  let recordTypes := own.records.map fun r => (r.name, Ty.record r.name)
  let aliases := own.types
  let env : TypeEnv := ⟨registry, [], recordTypes ++ aliases.map fun t => (t.name, .error), [], []⟩
  let resolved := aliases.foldl
    (fun a t => (a.resolve registry aliases env.typeNames (aliases.length + 1) [] t).2)
    (⟨recordTypes, [], []⟩ : Aliases)
  let env : TypeEnv := ⟨registry, [], resolved.types, resolved.domains, []⟩
  let (records, recordFindings) := recordDefinitions env own.records
  let env := { env with records := records }
  let (signatures, signatureFindings) := env.signatures program.functions
  let functions := ((marked.filterMap fun (d, ok) =>
      match d with
      | .function f => some (f, ok)
      | _ => none).zip signatures).filterMap fun ((f, ok), s) =>
    if ok then some (f.name.text, ⟨f.span.start.line, s⟩) else none
  ⟨{ env with functions := functions }, signatures,
    nameFindings ++ resolved.found ++ recordFindings ++ signatureFindings⟩

end Prosaic
