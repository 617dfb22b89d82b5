import Prosaic.Keyword
import Prosaic.Numeric.Decimal
import Prosaic.Source.Position

/-!
Tokens: the words, literals and signs of a source text, each with the text it was read from and the
place of that text.
-/

namespace Prosaic

/-- The signs of the language. A dot is one only where it selects a field; elsewhere it ends a
statement. -/
inductive Sign
  | colon | comma | openParen | closeParen | openBracket | closeBracket
  | plus | minus | star | slash | less | greater | lessEqual | greaterEqual | dot
  deriving DecidableEq, Repr, Inhabited

def Sign.text : Sign → String
  | colon => ":"
  | comma => ","
  | openParen => "("
  | closeParen => ")"
  | openBracket => "["
  | closeBracket => "]"
  | plus => "+"
  | minus => "-"
  | star => "*"
  | slash => "/"
  | less => "<"
  | greater => ">"
  | lessEqual => "<="
  | greaterEqual => ">="
  | dot => "."

inductive Token.Kind
  | keyword (word : Keyword)
  | identifier (name : String)
  | string (value : String)
  | number (value : Number)
  | sign (sign : Sign)
  | terminator
  | eof
  deriving DecidableEq, Repr, Inhabited

structure Token where
  kind : Token.Kind
  lexeme : String
  span : Span
  deriving DecidableEq, Repr, Inhabited

namespace Token

def isKeyword (t : Token) (word : Keyword) : Bool :=
  t.kind = .keyword word

def isSign (t : Token) (sign : Sign) : Bool :=
  t.kind = .sign sign

def isEof (t : Token) : Bool :=
  t.kind = .eof

def isTerminator (t : Token) : Bool :=
  t.kind = .terminator

def keyword? (t : Token) : Option Keyword :=
  match t.kind with
  | .keyword word => some word
  | _ => none

def describe (t : Token) : String :=
  match t.kind with
  | .eof => "end of input"
  | .terminator => "'.'"
  | .string value => "string \"" ++ value ++ "\""
  | _ => "'" ++ t.lexeme ++ "'"

end Token

end Prosaic
