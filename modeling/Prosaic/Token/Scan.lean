import Prosaic.Fault
import Prosaic.Text.Quoted
import Prosaic.Token

/-!
Scanning a source text into tokens. Blanks, line ends and comments only separate tokens. What stands
at the front of the remaining text is decided from its characters and the one character before it,
and taken off as a whole; positions are counted along the way.

A dot has three meanings. Between digits it is a decimal point. Right behind a name character or a
closing bracket, and right before a name that is not reserved, it selects a field. Every other dot
ends a statement.
-/

namespace Prosaic.Token

inductive ScanError.Cause
  | unterminatedString
  | numberTooLarge (lexeme : String)
  | unexpectedCharacter (c : Char)
  deriving DecidableEq, Repr

structure ScanError where
  cause : ScanError.Cause
  start : Position
  deriving DecidableEq, Repr

namespace ScanError

/-- A literal of more than twenty characters is shown by its first seventeen. -/
def Cause.message : Cause → String
  | unterminatedString => "Unterminated string literal"
  | numberTooLarge lexeme =>
    let shown :=
      if lexeme.length ≤ 20 then lexeme else String.ofList (lexeme.toList.take 17) ++ "..."
    "Number literal " ++ shown ++ " is too large"
  | unexpectedCharacter c => "Unexpected character " ++ Text.quoted (String.singleton c)

def Cause.hint : Cause → Option String
  | unterminatedString => some "Close the string with a matching '\"' on the same line."
  | numberTooLarge _ => some "Numbers must fit in a 64-bit floating point value."
  | unexpectedCharacter c =>
    if c = '=' then some "Use 'is' to compare values and 'Let name be value.' to bind them."
    else if c = '\'' then some "String literals use double quotes."
    else none

def fault (e : ScanError) : Fault :=
  ⟨e.cause.message, none, some e.start.location, some Diagnostic.syntaxError, e.cause.hint⟩

def diagnostic (e : ScanError) : Diagnostic :=
  ⟨Diagnostic.syntaxError, e.cause.message, e.start.location, e.cause.hint, .lex⟩

end ScanError

/-! ### Classes of characters -/

def isNameStart (c : Char) : Bool :=
  ('a' ≤ c && c ≤ 'z') || ('A' ≤ c && c ≤ 'Z') || c == '_'

def isDigit (c : Char) : Bool :=
  '0' ≤ c && c ≤ '9'

def isNameChar (c : Char) : Bool :=
  isNameStart c || isDigit c

def isSeparator (c : Char) : Bool :=
  c == ' ' || c == '\t' || c == '\r' || c == '\n'

/-! ### Strings -/

def unescape (c : Char) : Char :=
  if c = 'n' then '\n' else if c = 't' then '\t' else if c = 'r' then '\r' else c

/-- Reads the inside of a string up to its closing quote: the value, the text with the quote, and
what follows. A line end closes no string, unless a backslash precedes it. -/
def stringBody : List Char → Option (List Char × List Char × List Char)
  | [] => none
  | '"' :: rest => some ([], ['"'], rest)
  | '\n' :: _ => none
  | ['\\'] => none
  | '\\' :: c :: rest =>
    (stringBody rest).map fun (value, raw, rest) => (unescape c :: value, '\\' :: c :: raw, rest)
  | c :: rest => (stringBody rest).map fun (value, raw, rest) => (c :: value, c :: raw, rest)

/-! ### Numbers -/

def digitsValue (ds : List Char) : Nat :=
  ds.foldl (fun n d => 10 * n + (d.toNat - '0'.toNat)) 0

/-- The digits behind a decimal point, if the text continues with a point and a digit. -/
def fraction? : List Char → Option (List Char)
  | '.' :: d :: rest => if isDigit d then some ((d :: rest).takeWhile isDigit) else none
  | _ => none

def nearest (whole fraction : List Char) : Binary64 :=
  Binary64.ofDecimal false (digitsValue (whole ++ fraction)) (-(fraction.length : Int))

/-- A numeric literal: its text and its value. Without a point the value is exact, but even then it
has to fit in a double. -/
def numeral (cs : List Char) : List Char × Option Number :=
  let whole := cs.takeWhile isDigit
  match fraction? (cs.dropWhile isDigit) with
  | some fraction =>
    let value := nearest whole fraction
    (whole ++ '.' :: fraction, if value.isFinite then some (.real value) else none)
  | none =>
    (whole, if (nearest whole []).isFinite then some (.integer (digitsValue whole)) else none)

/-! ### Words and signs -/

def wordKind (word : String) : Kind :=
  match Keyword.ofText? word with
  | some k => .keyword k
  | none => .identifier word

/-- Whether a dot between `before` and `rest` selects a field. -/
def selectsField (before : Option Char) (rest : List Char) : Bool :=
  (match before with
    | some c => isNameChar c || c == ')' || c == ']'
    | none => false)
  && (match rest with
    | c :: _ => isNameStart c
    | [] => false)
  && (Keyword.ofText? (String.ofList (rest.takeWhile isNameChar))).isNone

/-- The sign at the front of a text, the longer one where two fit. -/
def sign? : List Char → Option Sign
  | '<' :: '=' :: _ => some .lessEqual
  | '>' :: '=' :: _ => some .greaterEqual
  | ':' :: _ => some .colon
  | ',' :: _ => some .comma
  | '(' :: _ => some .openParen
  | ')' :: _ => some .closeParen
  | '[' :: _ => some .openBracket
  | ']' :: _ => some .closeBracket
  | '+' :: _ => some .plus
  | '-' :: _ => some .minus
  | '*' :: _ => some .star
  | '/' :: _ => some .slash
  | '<' :: _ => some .less
  | '>' :: _ => some .greater
  | _ => none

/-! ### The whole text -/

/-- What stands at the front of a text: something that only separates, or a token, with the text
that it takes. -/
structure Piece where
  taken : List Char
  kind : Option Kind
  deriving DecidableEq, Repr

def piece (before : Option Char) (c : Char) (rest : List Char) : Except ScanError.Cause Piece :=
  if isSeparator c then .ok ⟨[c], none⟩
  else if c = '-' ∧ rest.head? = some '-' then .ok ⟨(c :: rest).takeWhile (· != '\n'), none⟩
  else if c = '"' then
    match stringBody rest with
    | some (value, raw, _) => .ok ⟨c :: raw, some (.string (String.ofList value))⟩
    | none => .error .unterminatedString
  else if isDigit c then
    match numeral (c :: rest) with
    | (taken, some value) => .ok ⟨taken, some (.number value)⟩
    | (taken, none) => .error (.numberTooLarge (String.ofList taken))
  else if isNameStart c then
    let word := (c :: rest).takeWhile isNameChar
    .ok ⟨word, some (wordKind (String.ofList word))⟩
  else if c = '.' then
    .ok ⟨[c], some (if selectsField before rest then .sign .dot else .terminator)⟩
  else
    match sign? (c :: rest) with
    | some sign => .ok ⟨sign.text.toList, some (.sign sign)⟩
    | none => .error (.unexpectedCharacter c)

/-- Scans a text that starts at `start` behind the character `before`. Every piece takes at least
one character, so the length of the text bounds the number of pieces. -/
def scanFrom : Nat → Option Char → Position → List Char → Except ScanError (List Token)
  | fuel + 1, before, start, c :: rest =>
    match piece before c rest with
    | .error cause => .error ⟨cause, start⟩
    | .ok p =>
      let stop := start.after p.taken
      match scanFrom fuel p.taken.getLast? stop ((c :: rest).drop p.taken.length) with
      | .error e => .error e
      | .ok tokens =>
        match p.kind with
        | some kind => .ok (⟨kind, String.ofList p.taken, ⟨start, stop⟩⟩ :: tokens)
        | none => .ok tokens
  | _, _, start, _ => .ok [⟨.eof, "", ⟨start, start⟩⟩]

def scan (source : String) : Except ScanError (List Token) :=
  let cs := source.toList
  scanFrom cs.length none .first cs

end Prosaic.Token
