import Prosaic.Target
import Prosaic.Text.Quoted
import Prosaic.TypeScript.Name
import Prosaic.TypeScript.Tree

/-!
Writing modules of the target language. Parentheses stand only where the grammar would otherwise
group the operands differently: around an operand that binds more weakly, around the same prefix
twice, and around what a dot or a cast would take apart.
-/

namespace Prosaic.TypeScript

/-! ### Types -/

def primitiveText : Base → String
  | .boolean => "boolean"
  | .number => "number"
  | .string => "string"
  | .dateTime => "Date"

def TypeExpr.text : TypeExpr → String
  | primitive b => primitiveText b
  | array e => "ReadonlyArray<" ++ e.text ++ ">"
  | reference r => typeIdentifier r.name

/-! ### Expressions -/

def unarySymbol : UnaryOp → String
  | .not => "!"
  | .negate => "-"

def binarySymbol : BinaryOp → String
  | .or => "||"
  | .and => "&&"
  | .is => "==="
  | .isNot => "!=="
  | .less => "<"
  | .greater => ">"
  | .lessEqual => "<="
  | .greaterEqual => ">="
  | .add => "+"
  | .subtract => "-"
  | .multiply => "*"
  | .divide => "/"

def precedence : BinaryOp → Nat
  | .or => 1
  | .and => 2
  | .is | .isNot => 3
  | .less | .greater | .lessEqual | .greaterEqual => 4
  | .add | .subtract => 5
  | .multiply | .divide => 6

def parenthesised (needed : Bool) (text : String) : String :=
  if needed then "(" ++ text ++ ")" else text

namespace Term

def groupsUnder (op : UnaryOp) : Term → Bool
  | .binary .. => true
  | .unary inner _ => inner = op
  | _ => false

def groupsLeftOf (op : BinaryOp) : Term → Bool
  | .binary inner _ _ => precedence inner < precedence op
  | _ => false

def groupsRightOf (op : BinaryOp) : Term → Bool
  | .binary inner _ _ => precedence inner ≤ precedence op
  | _ => false

/-- Whether an expression needs parentheses before a dot or a cast. -/
def groupsBefore : Term → Bool
  | .binary .. | .unary .. => true
  | .call _ awaited _ => awaited
  | _ => false

mutual

def text : Term → String
  | .number digits => digits
  | .string value => Text.literal value
  | .boolean b => if b then "true" else "false"
  | .array es => "[" ++ ", ".intercalate (texts es) ++ "]"
  | .variable x => x
  | .unary op e => unarySymbol op ++ parenthesised (e.groupsUnder op) e.text
  | .binary op l r =>
    parenthesised (l.groupsLeftOf op) l.text ++ " " ++ binarySymbol op ++ " "
      ++ parenthesised (r.groupsRightOf op) r.text
  | .call callee awaited args =>
    (if awaited then "await " else "") ++ identifier callee.name ++ "("
      ++ ", ".intercalate (texts args) ++ ")"
  | .cast e t => "(" ++ parenthesised e.groupsBefore e.text ++ " as " ++ t.text ++ ")"
  | .member e field => parenthesised e.groupsBefore e.text ++ "." ++ field

def texts : List Term → List String
  | [] => []
  | e :: es => e.text :: texts es

end

end Term

/-! ### Statements -/

structure Line where
  depth : Nat
  text : String
  deriving DecidableEq, Repr

/-- An empty line is not indented. -/
def Line.write (indent : String) (l : Line) : String :=
  if l.text.isEmpty then "" else String.join (List.replicate l.depth indent) ++ l.text

mutual

def Command.lines (depth : Nat) : Command → List Line
  | .const x e => [⟨depth, "const " ++ x ++ " = " ++ e.text ++ ";"⟩]
  | .branch c t none =>
    ⟨depth, "if (" ++ c.text ++ ") \x7b"⟩ :: Command.linesAll (depth + 1) t ++ [⟨depth, "\x7d"⟩]
  | .branch c t (some o) =>
    ⟨depth, "if (" ++ c.text ++ ") \x7b"⟩ :: Command.linesAll (depth + 1) t
      ++ ⟨depth, "\x7d else \x7b"⟩ :: Command.linesAll (depth + 1) o ++ [⟨depth, "\x7d"⟩]
  | .forOf x e b =>
    ⟨depth, "for (const " ++ x ++ " of " ++ e.text ++ ") \x7b"⟩ :: Command.linesAll (depth + 1) b
      ++ [⟨depth, "\x7d"⟩]
  | .return none => [⟨depth, "return;"⟩]
  | .return (some e) => [⟨depth, "return " ++ e.text ++ ";"⟩]
  | .expression e => [⟨depth, e.text ++ ";"⟩]

def Command.linesAll (depth : Nat) : List Command → List Line
  | [] => []
  | c :: cs => c.lines depth ++ Command.linesAll depth cs

end

/-! ### Declarations -/

def TypeBody.text : TypeBody → String
  | synonym a => a.text
  | literals values => " | ".intercalate (values.map Text.literal)

def parameterText (p : String × TypeExpr) : String := p.1 ++ ": " ++ p.2.text

def returnText : Option TypeExpr → String
  | some a => a.text
  | none => "void"

def Item.lines : Item → List Line
  | .type name body => [⟨0, "export type " ++ typeIdentifier name ++ " = " ++ body.text ++ ";"⟩]
  | .interface name fields =>
    ⟨0, "export interface " ++ typeIdentifier name ++ " \x7b"⟩
      :: fields.map (fun f => ⟨1, "readonly " ++ parameterText f ++ ";"⟩) ++ [⟨0, "\x7d"⟩]
  | .function name isAsync parameters returns body =>
    let head := identifier name ++ "(" ++ ", ".intercalate (parameters.map parameterText) ++ "): "
    let opening :=
      if isAsync then "export async function " ++ head ++ "Promise<" ++
        returnText returns ++ "> \x7b"
      else "export function " ++ head ++ returnText returns ++ " \x7b"
    ⟨0, opening⟩ :: Command.linesAll 1 body ++ [⟨0, "\x7d"⟩]

/-! ### Modules -/

def headerLine : String := "// Generated by sigil. Do not edit by hand."

/-- The names of an import clause; a reserved one is imported under its identifier. -/
def importClause (rename : String → String) (names : List String) : String :=
  ", ".intercalate (names.map fun n => if rename n = n then n else n ++ " as " ++ rename n)

def importLine (opening : String) (rename : String → String) (names : List String)
    (source : String) :
    List String :=
  if names.isEmpty then []
  else [opening ++ " \x7b " ++ importClause rename names ++ " \x7d from " ++
    Text.literal source ++ ";"]

def Module.preamble (m : Module) (target : Target) : List String :=
  (if target.header then [headerLine] else [])
    ++ importLine "import type" typeIdentifier m.typeImports target.domainModule
    ++ importLine "import" identifier m.valueImports target.domainModule

/-- The declarations, with an empty line between any two. -/
def Module.body (m : Module) : List Line :=
  [(⟨0, ""⟩ : Line)].intercalate (m.items.map Item.lines)

def Module.text (m : Module) (target : Target) : String :=
  let preamble := m.preamble target
  let body := m.body.map (Line.write target.indent)
  let between := if preamble.isEmpty || body.isEmpty then [] else [""]
  "\n".intercalate (preamble ++ between ++ body) ++ "\n"

end Prosaic.TypeScript
