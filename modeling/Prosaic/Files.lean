/-!
What a program sees of files. A path is a root and a list of names; empty names and single dots say
nothing and are left out, double dots stay until a path is resolved. A program asks for paths and is
told what is there, so the same program runs on a real file system and on one that is only given by
its answers.
-/

namespace Prosaic

/-- A path. Its root is empty if it is relative. -/
structure Path where
  root : String
  names : List String
  deriving DecidableEq, Repr, Inhabited

namespace Path

def splitNames (s : String) : List String :=
  (s.splitOn "/").filter fun n => !n.isEmpty && n != "."

/-- Two slashes at the front are a root of their own; more count as one. -/
def rootOf (s : String) : String :=
  let slashes := (s.toList.takeWhile (· == '/')).length
  if slashes = 0 then "" else if slashes = 2 then "//" else "/"

def ofText (s : String) : Path := ⟨rootOf s, splitNames s⟩

def text (p : Path) : String :=
  if p.root.isEmpty && p.names.isEmpty then "." else p.root ++ "/".intercalate p.names

def isAbsolute (p : Path) : Bool := !p.root.isEmpty

def isNameable (p : Path) : Bool := p.names.all fun n => !n.toList.contains '\x00'

def parent (p : Path) : Path := { p with names := p.names.dropLast }

def join (directory p : Path) : Path :=
  if p.isAbsolute then p else ⟨directory.root, directory.names ++ p.names⟩

/-- One name further; a double dot leads back, and at the root nowhere. -/
def step (names : List String) (name : String) : List String :=
  if name = ".." then names.dropLast else names ++ [name]

def resolve (workingDirectory p : Path) : Path :=
  let whole := workingDirectory.join p
  ⟨if whole.isAbsolute then "/" else whole.root, whole.names.foldl step []⟩

/-- What follows the last dot of the last name, unless the dot is its first or last character. -/
def extension (p : Path) : String :=
  let name := ((p.names.getLast?).getD "").toList
  let behind := (name.reverse.takeWhile (· != '.')).reverse
  if behind.isEmpty || name.length ≤ behind.length + 1 then "" else String.ofList behind

end Path

/-! ### Files -/

/-- Why nothing can be read at a path, other than that nothing is there. -/
inductive Unreadable
  | directory
  | notDirectory
  | nameTooLong
  /-- The path holds a character that no name can have. -/
  | noName
  | other (reason : String)
  deriving DecidableEq, Repr

def Unreadable.reason : Unreadable → String
  | directory => "Is a directory"
  | notDirectory => "Not a directory"
  | nameTooLong => "File name too long"
  | noName => "No file has such a name"
  | other reason => reason

inductive FileEntry
  | file (text : String)
  | missing
  | unreadable (why : Unreadable)
  deriving DecidableEq, Repr

namespace FileEntry

/-- Whether something is there. A path through a file leads nowhere, and so does one that is no
name; whether there is something behind a name that is too long cannot be told, and it counts as
present. -/
def isPresent : FileEntry → Bool
  | file _ => true
  | missing | unreadable .notDirectory | unreadable .noName => false
  | unreadable _ => true

end FileEntry

abbrev Files (m : Type → Type) := Path → m FileEntry

/-- A text with a line feed for every line end, be it one, a carriage return or both. -/
def lineFeeds : List Char → List Char
  | '\r' :: '\n' :: cs => '\n' :: lineFeeds cs
  | c :: cs => (if c = '\r' then '\n' else c) :: lineFeeds cs
  | [] => []

def sourceText (s : String) : String := String.ofList (lineFeeds s.toList)

end Prosaic
