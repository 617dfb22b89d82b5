import Prosaic.Text.Similarity

/-!
The reserved words. They are case-sensitive: `If` opens a statement, while `if` only names the
construct that `End if.` closes. A word that is none of them may still be a slip for one, which is
what the suggestions are about.
-/

namespace Prosaic

/-- The reserved words of the language. A trailing underscore only keeps a name apart. -/
inductive Keyword
  | let_ | be
  | if_ | then_ | otherwise
  | for_ | each | in_
  | call | with_
  | return_
  | end_
  | define | function | effectful | taking | as_ | returning | type | record
  | ifCloser | forCloser
  | of | is | and | or | not | true_ | false_
  deriving DecidableEq, Repr, Inhabited

namespace Keyword

def text : Keyword → String
  | let_ => "Let"
  | be => "be"
  | if_ => "If"
  | then_ => "then"
  | otherwise => "Otherwise"
  | for_ => "For"
  | each => "each"
  | in_ => "in"
  | call => "Call"
  | with_ => "with"
  | return_ => "Return"
  | end_ => "End"
  | define => "Define"
  | function => "function"
  | effectful => "effectful"
  | taking => "taking"
  | as_ => "as"
  | returning => "returning"
  | type => "type"
  | record => "record"
  | ifCloser => "if"
  | forCloser => "for"
  | of => "of"
  | is => "is"
  | and => "and"
  | or => "or"
  | not => "not"
  | true_ => "true"
  | false_ => "false"

def all : List Keyword :=
  [let_, be, if_, then_, otherwise, for_, each, in_, call, with_, return_, end_, define, function,
   effectful, taking, as_, returning, type, record, ifCloser, forCloser, of, is, and, or, not,
   true_, false_]

def ofText? (s : String) : Option Keyword :=
  all.find? fun k => k.text == s

theorem ofText?_text (k : Keyword) : ofText? k.text = some k := by
  cases k <;> decide

def startsStatement : Keyword → Bool
  | let_ | if_ | for_ | call | return_ => true
  | _ => false

/-- The words that start a statement, in alphabetical order. -/
def statementStarters : List Keyword := [call, for_, if_, let_, return_]

/-- Words that are probably meant for a reserved one: other letter case, and habits from other
languages. -/
def slips : List (String × Keyword) :=
  [("let", let_), ("define", define), ("call", call), ("otherwise", otherwise),
   ("else", otherwise), ("Else", otherwise), ("end", end_), ("Function", function),
   ("Effectful", effectful), ("Then", then_), ("Each", each), ("Of", of), ("Is", is),
   ("True", true_), ("False", false_),
   ("def", define), ("fn", function), ("return", return_), ("elif", otherwise), ("var", let_),
   ("const", let_), ("async", effectful)]

/-- The most likely of some spellings for an unexpected word: a known slip decides, otherwise the
most similar spelling. -/
def suggest (unknown : String) (candidates : List String) : Option String :=
  match slips.lookup unknown with
  | some k => some k.text
  | none => Text.closest? (3, 4) unknown candidates

def suggestAny (unknown : String) : Option String :=
  suggest unknown (all.map text)

end Keyword

end Prosaic
