import Prosaic.Terminal.Emoji
import Prosaic.Terminal.Layout

/-!
Messages with markup. A word in brackets that starts with a small letter or one of three signs is a
tag; tags say in which style a terminal shows what lies between them. An odd number of backslashes
before a tag makes it plain text, and every two of them stand for one. Between tags a backslash
before a bracket is dropped and emoji stand for their names. Here the text alone is kept.
-/

namespace Prosaic.Terminal

/-! ### Pieces -/

inductive Piece
  | text (cs : List Char)
  /-- The inside of a tag, and how many backslashes stand before it. -/
  | tag (backslashes : Nat) (inner : List Char)
  deriving DecidableEq, Repr

def startsTag (c : Char) : Bool := ('a' ≤ c && c ≤ 'z') || c = '#' || c = '/' || c = '@'

/-- The inside of a tag behind its opening bracket, and what follows the tag. -/
def inner? : List Char → Option (List Char × List Char)
  | [] => none
  | c :: cs =>
    if startsTag c then
      let inner := cs.takeWhile fun d => d != '[' && d != ']'
      match cs.drop inner.length with
      | ']' :: rest => some (c :: inner, rest)
      | _ => none
    else none

theorem length_of_inner? {cs inner rest : List Char} (h : inner? cs = some (inner, rest)) :
    rest.length < cs.length := by
  cases cs with
  | nil => cases h
  | cons c cs =>
    simp only [inner?] at h
    split at h
    · split at h
      · rename_i heq
        have hdrop := congrArg List.length heq
        simp only [List.length_drop, List.length_cons] at hdrop
        cases h
        simp only [List.length_cons]
        omega
      · cases h
    · cases h

def tag? (cs : List Char) : Option (Piece × List Char) :=
  let backslashes := cs.takeWhile (· == '\\')
  match cs.drop backslashes.length with
  | '[' :: rest => (inner? rest).map fun (inner, rest) => (.tag backslashes.length inner, rest)
  | _ => none

theorem length_of_tag? {cs rest : List Char} {p : Piece} (h : tag? cs = some (p, rest)) :
    rest.length < cs.length := by
  simp only [tag?] at h
  split at h
  · rename_i heq
    have hdrop := congrArg List.length heq
    simp only [List.length_drop, List.length_cons] at hdrop
    obtain ⟨⟨inner, rest'⟩, hinner, he⟩ := Option.map_eq_some_iff.mp h
    cases he
    have := length_of_inner? hinner
    dsimp only
    omega
  · cases h

/-- The text in front of other pieces; no text is no piece. -/
def consText (text : List Char) (ps : List Piece) : List Piece :=
  if text.isEmpty then ps else .text text.reverse :: ps

/-- The pieces of markup; `text` is what has been read of the first one, the last character
first. -/
def piecesFrom (text : List Char) : List Char → List Piece
  | [] => consText text []
  | c :: cs =>
    match h : tag? (c :: cs) with
    | some (p, rest) =>
      have : rest.length < cs.length + 1 := length_of_tag? h
      consText text (p :: piecesFrom [] rest)
    | none => piecesFrom (c :: text) cs
  termination_by cs => cs.length

def pieces (cs : List Char) : List Piece := piecesFrom [] cs

/-! ### Plain text -/

def backslashes (n : Nat) : List Char := List.replicate n '\\'

def bracketed (inner : List Char) : List Char := '[' :: inner ++ [']']

def unescapeBrackets : List Char → List Char
  | '\\' :: '[' :: cs => '[' :: unescapeBrackets cs
  | c :: cs => c :: unescapeBrackets cs
  | [] => []

def Piece.shown : Piece → List Char
  | text cs => withEmoji (unescapeBrackets cs)
  | tag n inner => backslashes (n / 2) ++ if n % 2 = 1 then withEmoji (bracketed inner) else []

def shown (markup : List Char) : List Char := (pieces markup).flatMap Piece.shown

/-! ### Writing markup -/

def Piece.escaped : Piece → List Char
  | text cs => cs
  | tag n inner => backslashes (2 * n + 1) ++ bracketed inner

/-- A backslash alone at the end is doubled, as a tag may follow. -/
def closed (cs : List Char) : List Char :=
  match cs.reverse with
  | '\\' :: c :: _ => if c = '\\' then cs else cs ++ ['\\']
  | ['\\'] => cs ++ ['\\']
  | _ => cs

def escape (cs : List Char) : List Char := closed ((pieces cs).flatMap Piece.escaped)

inductive Style
  | good | bad
  deriving DecidableEq, Repr

def Style.name : Style → String
  | good => "green"
  | bad => "red"

def styled (style : Style) (markup : List Char) : List Char :=
  bracketed style.name.toList ++ markup ++ bracketed ('/' :: style.name.toList)

/-! ### Messages -/

def display (markup : List Char) : String := String.ofList (layOut (shown markup)) ++ "\n"

def successLine (message : String) : String := display (styled .good (escape message.toList))

def errorLine (message : String) : String :=
  display (styled .bad "error:".toList ++ ' ' :: escape message.toList)

def plainText (s : String) : String := String.ofList (layOut s.toList)

end Prosaic.Terminal
