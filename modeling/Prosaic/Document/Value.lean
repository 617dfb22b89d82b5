import Prosaic.Document.Moment
import Prosaic.Numeric.Decimal
import Prosaic.Text.Quoted

/-!
Documents: the values that a registry or a configuration file is made of. The entries of a table
keep the order in which their keys first appear.
-/

namespace Prosaic

abbrev Keyed (α : Type) := List (String × α)

namespace Keyed

variable {α : Type}

/-- Adds an entry; a key that is there keeps its place and gets the new value. -/
def insert (entries : Keyed α) (key : String) (value : α) : Keyed α :=
  match entries with
  | [] => [(key, value)]
  | (k, v) :: rest => if k = key then (k, value) :: rest else (k, v) :: insert rest key value

/-- The entries of a list in which keys may repeat; the last one of a key counts. -/
def ofPairs (pairs : List (String × α)) : Keyed α :=
  pairs.foldl (fun entries p => insert entries p.1 p.2) []

def keys (entries : Keyed α) : List String := entries.map Prod.fst

end Keyed

inductive Document
  | null
  | boolean (b : Bool)
  | number (n : Number)
  | string (s : String)
  | moment (m : Moment)
  | array (elements : List Document)
  | table (entries : List (String × Document))
  deriving Repr, Inhabited

namespace Document

def get? (d : Document) (key : String) : Option Document :=
  match d with
  | .table entries => entries.lookup key
  | _ => none

/-- Absent values, zeros and empty texts, lists and tables count as nothing. -/
def isBlank : Document → Bool
  | .null => true
  | .boolean b => !b
  | .number (.integer n) => n = 0
  | .number (.real (.finite _ m _)) => m = 0
  | .number (.real _) => false
  | .string s => s.isEmpty
  | .moment _ => false
  | .array elements => elements.isEmpty
  | .table entries => entries.isEmpty

/-! ### The compact form -/

mutual

def compact : Document → String
  | .null => "null"
  | .boolean b => if b then "true" else "false"
  | .number (.integer n) => toString n
  | .number (.real x) => x.text
  | .string s => Text.literal s
  | .moment m => Text.literal m.text
  | .array elements => "[" ++ ",".intercalate (compactAll elements) ++ "]"
  | .table entries => "\x7b" ++ ",".intercalate (compactEntries entries) ++ "\x7d"

def compactAll : List Document → List String
  | [] => []
  | d :: ds => d.compact :: compactAll ds

def compactEntries : List (String × Document) → List String
  | [] => []
  | (key, d) :: rest => (Text.literal key ++ ":" ++ d.compact) :: compactEntries rest

end

/-! ### The shown form -/

mutual

/-- A document as messages show it: texts between single quotes, lists and tables in brackets. -/
def shown : Document → String
  | .null => "None"
  | .boolean b => if b then "True" else "False"
  | .number (.integer n) => toString n
  | .number (.real x) => x.text
  | .string s => Text.quoted s
  | .moment m => m.shown
  | .array elements => "[" ++ ", ".intercalate (shownAll elements) ++ "]"
  | .table entries => "\x7b" ++ ", ".intercalate (shownEntries entries) ++ "\x7d"

def shownAll : List Document → List String
  | [] => []
  | d :: ds => d.shown :: shownAll ds

def shownEntries : List (String × Document) → List String
  | [] => []
  | (key, d) :: rest => (Text.quoted key ++ ": " ++ d.shown) :: shownEntries rest

end

/-- A document as a plain text: a text or a moment stands for itself. -/
def plain : Document → String
  | .string s => s
  | .moment m => m.text
  | d => d.shown

end Document

end Prosaic
