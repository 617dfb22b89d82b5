import Prosaic.Document.Toml.Scalar

/-!
Reading the values of TOML documents, and the tables that dotted keys reach.
-/

namespace Prosaic.Document.Toml

/-! ### Tables behind keys -/

def changeLast (change : Keyed Document → Option (Keyed Document)) :
    List Document → Option (List Document)
  | [] => none
  | [.table entries] => (change entries).map fun entries => [.table entries]
  | [_] => none
  | d :: ds => (changeLast change ds).map (d :: ·)

/-- Changes the table behind a key; tables that are missing on the way are made. The way leads
through the last table of a list if `intoLists` says so, and through no other value. -/
def changeAt (intoLists : Bool) (change : Keyed Document → Option (Keyed Document)) :
    Key → Keyed Document → Option (Keyed Document)
  | [], entries => change entries
  | part :: key, entries =>
    match entries.lookup part with
    | none => (changeAt intoLists change key []).map fun inner =>
        Keyed.insert entries part (.table inner)
    | some (.table inner) => (changeAt intoLists change key inner).map fun inner =>
        Keyed.insert entries part (.table inner)
    | some (.array ds) =>
      if intoLists then
        (changeLast (changeAt intoLists change key) ds).map fun ds =>
          Keyed.insert entries part (.array ds)
      else none
    | some _ => none

def addNew (name : String) (d : Document) (entries : Keyed Document) : Option (Keyed Document) :=
  match entries.lookup name with
  | none => some (entries ++ [(name, d)])
  | some _ => none

def addTable (name : String) (entries : Keyed Document) : Option (Keyed Document) :=
  match entries.lookup name with
  | none => some (entries ++ [(name, .array [.table []])])
  | some (.array ds) => some (Keyed.insert entries name (.array (ds ++ [.table []])))
  | some _ => none

def splitLast : Key → Key × String
  | [] => ([], "")
  | [part] => ([], part)
  | part :: key =>
    let (parent, last) := splitLast key
    (part :: parent, last)

/-- Whether a key leads into what one of some keys stands for. -/
def leadsInto (sealed : List Key) (key : Key) : Bool :=
  sealed.any fun s => s.isPrefixOf key

def isClosed : Document → Bool
  | .table _ | .array _ => true
  | _ => false

/-! ### Values -/

/-- A table in the making, with the keys of the closed values in it. -/
structure InlineTable where
  entries : Keyed Document
  closed : List Key

namespace InlineTable

def empty : InlineTable := ⟨[], []⟩

def add (t : InlineTable) (key : Key) (d : Document) : Reader InlineTable := do
  let (parent, name) := splitLast key
  if leadsInto t.closed key then reject (.immutable key)
  else
    match changeAt false some parent t.entries with
    | none => reject .overwrite
    | some _ =>
      match changeAt false (addNew name d) parent t.entries with
      | none => reject (.repeatedKey name)
      | some entries => return ⟨entries, if isClosed d then key :: t.closed else t.closed⟩

end InlineTable

mutual

/-- Reads a value. The length of the text is fuel enough. -/
def value : Nat → Reader Document
  | 0 => reject .value
  | fuel + 1 => do
    match ← string? with
    | some s => return .string s
    | none =>
      if ← comesNext "true" then
        skip 4
        return .boolean true
      else if ← comesNext "false" then
        skip 5
        return .boolean false
      else if (← peek) = some '[' then
        skip 1
        skipBetween
        return .array (← elements fuel)
      else if (← peek) = some '\x7b' then
        skip 1
        skipWhile isSpace
        if (← peek) = some '\x7d' then
          skip 1
          return .table []
        else return .table (← inlineEntries fuel .empty)
      else plainScalar

/-- Reads the elements of an array up to its closing bracket. A comma may stand behind the last. -/
def elements : Nat → Reader (List Document)
  | 0 => reject .arrayEnd
  | fuel + 1 => do
    if (← peek) = some ']' then
      skip 1
      return []
    else
      let d ← value fuel
      skipBetween
      match ← peek with
      | some ']' =>
        skip 1
        return [d]
      | some ',' =>
        skip 1
        skipBetween
        return d :: (← elements fuel)
      | _ => reject .arrayEnd

def keyValue : Nat → Reader (Key × Document)
  | 0 => reject .equals
  | fuel + 1 => do
    let k ← key
    if (← peek) = some '=' then
      skip 1
      skipWhile isSpace
      return (k, ← value fuel)
    else reject .equals

/-- Reads the entries of an inline table up to its closing brace. No comma stands behind the
last. -/
def inlineEntries : Nat → InlineTable → Reader (Keyed Document)
  | 0, _ => reject .inlineTableEnd
  | fuel + 1, t => do
    let (k, d) ← keyValue fuel
    let t ← t.add k d
    skipWhile isSpace
    match ← peek with
    | some '\x7d' =>
      skip 1
      return t.entries
    | some ',' =>
      skip 1
      skipWhile isSpace
      inlineEntries fuel t
    | _ => reject .inlineTableEnd

end

end Prosaic.Document.Toml
