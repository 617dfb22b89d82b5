import Prosaic.Terminal.EmojiName
import Prosaic.Text.Blank
import Prosaic.Text.Digit

/-!
Emoji by name. In a message a name between two colons stands for the emoji of that name. Behind the
name a variant may ask that it is shown as text or as a picture.
-/

namespace Prosaic.Terminal

/-! ### The table -/

/-- The words of a text; `word` is what has been read of the first one, the last character first. -/
def wordsFrom (word : List Char) : List Char → List (List Char)
  | [] => if word.isEmpty then [] else [word.reverse]
  | c :: cs =>
    if c = ' ' || c = '\n' then
      if word.isEmpty then wordsFrom [] cs else word.reverse :: wordsFrom [] cs
    else wordsFrom (c :: word) cs

/-- The characters whose code points are written with lines between them. -/
def charactersFrom (n : Nat) : List Char → List Char
  | [] => [Char.ofNat n]
  | '_' :: cs => Char.ofNat n :: charactersFrom 0 cs
  | c :: cs => charactersFrom (16 * n + (Text.hexValue? c).getD 0) cs

def emojiEntry (word : List Char) : List Char × List Char :=
  let name := word.takeWhile (· != '=')
  (name, charactersFrom 0 (word.drop (name.length + 1)))

def emojiEntries : List (List Char × List Char) := (wordsFrom [] emojiTable.toList).map emojiEntry

/-! ### Names -/

/-- A letter of a name in lower case. Beyond ASCII only letters that names hold are known. -/
def nameLetter (c : Char) : Char :=
  match c with
  | 'Ã' => 'ã'
  | 'Å' | '\u212b' => 'å'
  | 'Ç' => 'ç'
  | 'É' => 'é'
  | 'Í' => 'í'
  | 'Ô' => 'ô'
  | '\u212a' => 'k'
  | _ => c.toLower

def emoji? (name : List Char) : Option (List Char) := emojiEntries.lookup (name.map nameLetter)

inductive Variant
  | text | picture
  deriving DecidableEq, Repr

namespace Variant

def mark : Variant → List Char
  | text => ['-', 't', 'e', 'x', 't']
  | picture => ['-', 'e', 'm', 'o', 'j', 'i']

def selector : Variant → Char
  | text => '\ufe0e'
  | picture => '\ufe0f'

end Variant

def splitVariant (body : List Char) : List Char × Option Variant :=
  match [Variant.text, .picture].find? fun v => v.mark.isSuffixOf body with
  | some v => (body.take (body.length - v.mark.length), some v)
  | none => (body, none)

def emojiFor? (body : List Char) : Option (List Char) :=
  let (name, variant) := splitVariant body
  (emoji? name).map fun text => text ++ (variant.map Variant.selector).toList

/-! ### Messages -/

/-- What stands up to the next colon, if nothing blank does, and what follows the colon. -/
def code? (cs : List Char) : Option (List Char × List Char) :=
  let body := cs.takeWhile fun c => c != ':' && !Text.isBlankOrSeparator c
  match cs.drop body.length with
  | ':' :: rest => some (body, rest)
  | _ => none

theorem length_of_code? {cs body rest : List Char} (h : code? cs = some (body, rest)) :
    rest.length < cs.length := by
  simp only [code?] at h
  split at h
  · rename_i heq
    have hdrop := congrArg List.length heq
    simp only [List.length_drop, List.length_cons] at hdrop
    cases h
    omega
  · cases h

/-- A text with emoji for their names. What stands between two colons and is no name stays, and its
second colon starts nothing. -/
def withEmoji : List Char → List Char
  | [] => []
  | c :: cs =>
    if c = ':' then
      match h : code? cs with
      | some (body, rest) =>
        have := length_of_code? h
        (emojiFor? body).getD (':' :: body ++ [':']) ++ withEmoji rest
      | none => c :: withEmoji cs
    else c :: withEmoji cs
  termination_by cs => cs.length

end Prosaic.Terminal
