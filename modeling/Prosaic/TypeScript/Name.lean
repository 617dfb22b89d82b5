import Prosaic.Program.Tree

/-!
Names of the target language. One that the language reserves is written with an underscore behind
it. A declaration hides an outer one in the whole of its block, also before the place where it
stands, so a local that shadows another one gets a name of its own: one that nothing else in the
function or around it has.
-/

namespace Prosaic.TypeScript

def reservedWords : List String :=
  ["any", "arguments", "as", "async", "await", "boolean", "break", "case", "catch", "class",
   "const", "continue", "debugger", "declare", "default", "delete", "do", "else", "enum",
   "eval", "export", "extends", "false", "finally", "for", "from", "function", "get", "if",
   "implements", "import", "in", "instanceof", "interface", "let", "module", "namespace",
   "never", "new", "null", "number", "object", "of", "package", "private", "protected",
   "public", "require", "return", "set", "static", "string", "super", "switch", "symbol",
   "this", "throw", "true", "try", "type", "typeof", "undefined", "unknown", "var", "void",
   "while", "with", "yield"]

/-- The types that emitted modules rely on, and one more that is predefined. -/
def reservedTypeNames : List String :=
  reservedWords ++ ["Array", "Date", "Promise", "ReadonlyArray", "bigint"]

def identifier (name : String) : String :=
  if reservedWords.contains name then name ++ "_" else name

def typeIdentifier (name : String) : String :=
  if reservedTypeNames.contains name then name ++ "_" else name

/-! ### Names of locals -/

mutual

def bound : Stmt → List String
  | .bind name _ _ => [name.text]
  | .branch _ t none _ => boundAll t
  | .branch _ t (some o) _ => boundAll t ++ boundAll o
  | .forEach item _ body _ => item.text :: boundAll body
  | .call .. | .return .. | .expression .. => []

def boundAll : List Stmt → List String
  | [] => []
  | s :: ss => bound s ++ boundAll ss

end

def numbered (name : String) (k : Nat) : String := name ++ "_" ++ toString k

def firstFree (taken : List String) (name : String) : Nat → Nat → String
  | 0, k => numbered name k
  | fuel + 1, k =>
    if taken.contains (numbered name k) then firstFree taken name fuel (k + 1)
    else numbered name k

/-- A numbered name that is not taken. Among one more numbers than there are taken names, one is
free. -/
def freshName (taken : List String) (name : String) : String :=
  firstFree taken name taken.length 1

/-- The identifiers of the names in scope, innermost block first, and those that no new local may
have. -/
structure Locals where
  blocks : List (List (String × String))
  taken : List String
  deriving Repr, Inhabited

namespace Locals

/-- The locals at the start of a function: its parameters, and as taken also what the module
declares or imports and what the body binds. -/
def ofFunction (moduleNames : List String) (f : FunctionDecl) : Locals :=
  let parameters := f.parameters.map fun p => (p.name, identifier p.name)
  ⟨[parameters],
    moduleNames ++ parameters.map Prod.snd ++ (boundAll f.body).map identifier⟩

def find? (l : Locals) (name : String) : Option String :=
  l.blocks.findSome? fun b => b.lookup name

def resolve (l : Locals) (name : String) : String :=
  (l.find? name).getD (identifier name)

def enter (l : Locals) : Locals := { l with blocks := [] :: l.blocks }

def leave (l : Locals) : Locals := { l with blocks := l.blocks.tail }

def add (l : Locals) (name chosen : String) : Locals :=
  match l.blocks with
  | [] => { l with blocks := [[(name, chosen)]] }
  | b :: rest => { l with blocks := ((name, chosen) :: b) :: rest }

def declare (l : Locals) (name : String) : String × Locals :=
  if (l.find? name).isSome then
    let chosen := freshName l.taken name
    (chosen, { l with taken := chosen :: l.taken }.add name chosen)
  else (identifier name, l.add name (identifier name))

end Locals

end Prosaic.TypeScript
