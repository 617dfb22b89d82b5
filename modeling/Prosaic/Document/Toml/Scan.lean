import Prosaic.Document.Value
import Prosaic.Source.Position
import Prosaic.Text.Digit

/-!
Reading TOML: the errors, and the pieces that statements and values are made of, which are keys,
strings, comments and white space. An error knows what was left to be read, and so its place.
-/

namespace Prosaic.Document.Toml

abbrev Key := List String

inductive Cause
  | statement
  | lineEnd
  | keyStart
  | equals
  | tableEnd
  | arrayTableEnd
  | declaredTwice (key : Key)
  | redefined (key : Key)
  | immutable (key : Key)
  | overwrite
  | repeatedKey (name : String)
  | arrayEnd
  | inlineTableEnd
  | backslash
  | hexDigits
  | notScalar
  | stringEnd
  | expected (closing : String)
  | illegal (c : Char)
  | invalid (c : Char)
  | day
  | value
  deriving DecidableEq, Repr

/-- How messages show a key; a single part has a comma behind it. -/
def keyText (key : Key) : String :=
  match key with
  | [part] => "(" ++ Text.quoted part ++ ",)"
  | parts => "(" ++ ", ".intercalate (parts.map Text.quoted) ++ ")"

def Cause.message : Cause → String
  | statement => "Invalid statement"
  | lineEnd => "Expected newline or end of document after a statement"
  | keyStart => "Invalid initial character for a key part"
  | equals => "Expected '=' after a key in a key/value pair"
  | tableEnd => "Expected ']' at the end of a table declaration"
  | arrayTableEnd => "Expected ']]' at the end of an array declaration"
  | declaredTwice key => "Cannot declare " ++ keyText key ++ " twice"
  | redefined key => "Cannot redefine namespace " ++ keyText key
  | immutable key => "Cannot mutate immutable namespace " ++ keyText key
  | overwrite => "Cannot overwrite a value"
  | repeatedKey name => "Duplicate inline table key " ++ Text.quoted name
  | arrayEnd => "Unclosed array"
  | inlineTableEnd => "Unclosed inline table"
  | backslash => "Unescaped '\\' in a string"
  | hexDigits => "Invalid hex value"
  | notScalar => "Escaped character is not a Unicode scalar value"
  | stringEnd => "Unterminated string"
  | expected closing => "Expected " ++ Text.quoted closing
  | illegal c => "Illegal character " ++ Text.quoted c.toString
  | invalid c => "Found invalid character " ++ Text.quoted c.toString
  | day => "Invalid date or datetime"
  | value => "Invalid value"

/-- An error, and what was left to be read where it arose. -/
structure Failure where
  cause : Cause
  rest : List Char
  deriving DecidableEq, Repr

def Failure.place (f : Failure) (text : List Char) : String :=
  if f.rest.isEmpty then "end of document"
  else
    let p := Position.first.after (text.take (text.length - f.rest.length))
    "line " ++ toString p.line ++ ", column " ++ toString p.column

def Failure.message (f : Failure) (text : List Char) : String :=
  f.cause.message ++ " (at " ++ f.place text ++ ")"

/-! ### Readers -/

abbrev Reader := StateT (List Char) (Except Failure)

def reject {α : Type} (cause : Cause) : Reader α := fun cs => .error ⟨cause, cs⟩

def rejectAt {α : Type} (cause : Cause) (rest : List Char) : Reader α :=
  fun _ => .error ⟨cause, rest⟩

def skipWhile (p : Char → Bool) : Reader Unit := modify (List.dropWhile p)

def peek : Reader (Option Char) := return (← get).head?

def comesNext (s : String) : Reader Bool := return s.toList.isPrefixOf (← get)

def skip (n : Nat) : Reader Unit := modify (List.drop n)

/-! ### White space and comments -/

def isSpace (c : Char) : Bool := c == ' ' || c == '\t'

def isSpaceOrLineEnd (c : Char) : Bool := isSpace c || c == '\n'

/-- Control characters, of which comments and strings may hold the tab only. -/
def isControl (c : Char) : Bool := (c.toNat < 0x20 && c != '\t') || c.toNat == 0x7f

def isControlInLines (c : Char) : Bool := isControl c && c != '\n'

def split? (stop : List Char) : List Char → Option (List Char × List Char)
  | [] => if stop.isEmpty then some ([], []) else none
  | c :: cs =>
    if stop.isPrefixOf (c :: cs) then some ([], c :: cs)
    else (split? stop cs).map fun (before, rest) => (c :: before, rest)

/-- Reads up to, but not including, an occurrence of a text. -/
def upTo (forbidden : Char → Bool) (before rest : List Char) : Reader (List Char) := do
  match before.find? forbidden with
  | some c => rejectAt (.invalid c) ((before ++ rest).dropWhile fun c => !forbidden c)
  | none =>
    set rest
    return before

def skipComment : Reader Unit := do
  if (← peek) = some '#' then
    let cs := (← get).drop 1
    let line := cs.takeWhile (· != '\n')
    let _ ← upTo isControl line (cs.dropWhile (· != '\n'))
  else return ()

/-- Skips white space, line ends and comments. Every comment takes a character. -/
def skipBlankLines : Nat → Reader Unit
  | 0 => return ()
  | fuel + 1 => do
    skipWhile isSpaceOrLineEnd
    if (← peek) = some '#' then
      skipComment
      skipBlankLines fuel
    else return ()

def skipBetween : Reader Unit := do skipBlankLines ((← get).length + 1)

/-! ### Strings -/

def shortEscape? (c : Char) : Option Char :=
  if c = 'b' then some '\x08'
  else if c = 't' then some '\t'
  else if c = 'n' then some '\n'
  else if c = 'f' then some '\x0c'
  else if c = 'r' then some '\r'
  else if c = '"' then some '"'
  else if c = '\\' then some '\\'
  else none

def hexChar (width : Nat) : Reader Char := do
  let cs ← get
  let ds := (cs.take width).filterMap Text.hexValue?
  if ds.length ≠ width then reject .hexDigits
  else
    set (cs.drop width)
    let n := ds.foldl (fun n d => 16 * n + d) 0
    if n < 0xd800 || (0xe000 ≤ n && n < 0x110000) then return Char.ofNat n
    else reject .notScalar

/-- Reads an escaped line end: white space that holds one stands for nothing. -/
def lineContinuation (c : Char) : Reader (List Char) := do
  if c ≠ '\n' then skipWhile isSpace
  match ← peek with
  | none => return []
  | some next =>
    if c = '\n' || next = '\n' then
      skipWhile isSpaceOrLineEnd
      return []
    else reject .backslash

def escape (inLines : Bool) : Reader (List Char) := do
  let c? ← peek
  skip 1
  match c? with
  | none => reject .backslash
  | some c =>
    if inLines && isSpaceOrLineEnd c then lineContinuation c
    else if c = 'u' then return [← hexChar 4]
    else if c = 'U' then return [← hexChar 8]
    else
      match shortEscape? c with
      | some c => return [c]
      | none => reject .backslash

/-- Reads a string up to its closing quotes. The length of the text is fuel enough. -/
def quotedChars (inLines : Bool) : Nat → Reader (List Char)
  | 0 => reject .stringEnd
  | fuel + 1 => do
    match ← peek with
    | none => reject .stringEnd
    | some '"' =>
      if !inLines then
        skip 1
        return []
      else if ← comesNext "\"\"\"" then
        skip 3
        return []
      else
        skip 1
        return '"' :: (← quotedChars inLines fuel)
    | some '\\' =>
      skip 1
      let cs ← escape inLines
      return cs ++ (← quotedChars inLines fuel)
    | some c =>
      if (if inLines then isControlInLines c else isControl c) then reject (.illegal c)
      else
        skip 1
        return c :: (← quotedChars inLines fuel)

def quotedBody (inLines : Bool) : Reader (List Char) := do
  quotedChars inLines ((← get).length + 1)

def literalBody (closing : String) (forbidden : Char → Bool) : Reader (List Char) := do
  match split? closing.toList (← get) with
  | none => rejectAt (.expected closing) []
  | some (before, rest) =>
    let body ← upTo forbidden before rest
    skip closing.length
    return body

/-- Up to two more quotes belong to a string of several lines. -/
def lastQuotes (quote : Char) : Reader (List Char) := do
  let more := ((← get).take 2).takeWhile (· == quote)
  skip more.length
  return more

/-- Reads a string of several lines behind its opening quotes. A line end that comes first does not
count. -/
def lines (quote : Char) (body : Reader (List Char)) : Reader (List Char) := do
  if (← peek) = some '\n' then skip 1
  let cs ← body
  return cs ++ (← lastQuotes quote)

def lineString? : Reader (Option String) := do
  match ← peek with
  | some '"' =>
    skip 1
    return some (String.ofList (← quotedBody false))
  | some '\'' =>
    skip 1
    return some (String.ofList (← literalBody "'" isControl))
  | _ => return none

def string? : Reader (Option String) := do
  if ← comesNext "\"\"\"" then
    skip 3
    return some (String.ofList (← lines '"' (quotedBody true)))
  else if ← comesNext "'''" then
    skip 3
    return some (String.ofList (← lines '\'' (literalBody "'''" isControlInLines)))
  else lineString?

/-! ### Keys -/

def isBareKeyChar (c : Char) : Bool := c.isAlphanum || c == '-' || c == '_'

def startsKey (c : Char) : Bool := isBareKeyChar c || c == '"' || c == '\''

def keyPart : Reader String := do
  match ← lineString? with
  | some s => return s
  | none =>
    let cs ← get
    let part := cs.takeWhile isBareKeyChar
    if part.isEmpty then reject .keyStart
    else
      set (cs.dropWhile isBareKeyChar)
      return String.ofList part

/-- Reads a dotted key of at most so many parts. -/
def keyParts : Nat → Reader Key
  | 0 => reject .keyStart
  | fuel + 1 => do
    let part ← keyPart
    skipWhile isSpace
    if (← peek) = some '.' then
      skip 1
      skipWhile isSpace
      return part :: (← keyParts fuel)
    else return [part]

def key : Reader Key := do keyParts ((← get).length + 1)

end Prosaic.Document.Toml
