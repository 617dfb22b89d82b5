import Prosaic.Document.Toml.Value

/-!
Reading TOML documents statement by statement. A document in the making knows which keys must not be
used again, and for what: a table is declared once, a value in brackets or braces is complete, and
what dotted keys have opened under one header is closed at the next.
-/

namespace Prosaic.Document.Toml

structure Draft where
  entries : Keyed Document
  /-- The table that keys are relative to. -/
  header : Key
  /-- The tables that cannot be declared any more. -/
  declared : List Key
  /-- The tables that dotted keys opened under the present header. -/
  opened : List Key
  /-- The values that nothing can be added to. -/
  closed : List Key
  deriving Repr, Inhabited

namespace Draft

def empty : Draft := ⟨[], [], [], [], []⟩

/-- The next header closes what dotted keys have opened. -/
def closeOpened (d : Draft) : Draft :=
  { d with declared := d.opened ++ d.declared, opened := [] }

def forget (d : Draft) (key : Key) : Draft :=
  { d with
    declared := d.declared.filter fun k => !key.isPrefixOf k
    closed := d.closed.filter fun k => !key.isPrefixOf k }

end Draft

/-- The keys that lead to the tables of a dotted key, under a header. -/
def waypoints (header : Key) (key : Key) : List Key :=
  (List.range (key.length - 1)).map fun i => header ++ key.take (i + 1)

/-! ### Headers -/

def tableHeader (d : Draft) : Reader Draft := do
  skipWhile isSpace
  let k ← key
  if d.declared.contains k || leadsInto d.closed k then reject (.declaredTwice k)
  else
    match changeAt true some k d.entries with
    | none => reject .overwrite
    | some entries =>
      if ← comesNext "]" then
        skip 1
        return { d with entries := entries, header := k, declared := k :: d.declared }
      else reject .tableEnd

/-- Reads the header of a further table of a list, behind its brackets. What was declared in the
table before it can be declared again. -/
def listHeader (d : Draft) : Reader Draft := do
  skipWhile isSpace
  let k ← key
  if leadsInto d.closed k then reject (.immutable k)
  else
    let d := d.forget k
    let (parent, name) := splitLast k
    match changeAt true (addTable name) parent d.entries with
    | none => reject .overwrite
    | some entries =>
      if ← comesNext "]]" then
        skip 2
        return { d with entries := entries, header := k, declared := k :: d.declared }
      else reject .arrayTableEnd

/-! ### Entries -/

def Draft.add (d : Draft) (k : Key) (v : Document) : Reader Draft := do
  let ways := waypoints d.header k
  match ways.find? d.declared.contains with
  | some way => reject (.redefined way)
  | none =>
    let full := d.header ++ k
    let (parent, name) := splitLast full
    if leadsInto d.closed parent then reject (.immutable parent)
    else
      match changeAt true (addNew name v) parent d.entries with
      | none => reject .overwrite
      | some entries =>
        return { d with
          entries := entries
          opened := ways ++ d.opened
          closed := if isClosed v then full :: d.closed else d.closed }

def entry (d : Draft) : Reader Draft := do
  let (k, v) ← keyValue ((← get).length + 2)
  d.add k v

/-! ### Documents -/

def lineEnd : Reader Unit := do
  skipWhile isSpace
  skipComment
  match ← peek with
  | none => return ()
  | some '\n' => skip 1
  | some _ => reject .lineEnd

def statement (d : Draft) : Reader Draft := do
  match ← peek with
  | none | some '\n' | some '#' => return d
  | some '[' =>
    skip 1
    if ← comesNext "[" then
      skip 1
      listHeader d.closeOpened
    else tableHeader d.closeOpened
  | some c => if startsKey c then entry d else reject .statement

/-- Reads statements up to the end. Every one takes its line end at least. -/
def statements : Nat → Draft → Reader Draft
  | 0, d => return d
  | fuel + 1, d => do
    skipWhile isSpace
    if (← get).isEmpty then return d
    else
      let d ← statement d
      lineEnd
      statements fuel d

def unifyLineEnds : List Char → List Char
  | '\r' :: '\n' :: cs => '\n' :: unifyLineEnds cs
  | c :: cs => c :: unifyLineEnds cs
  | [] => []

/-- Reads a whole text; an error is told with its place. -/
def read (s : String) : Except String (Keyed Document) :=
  let cs := unifyLineEnds s.toList
  match (statements (cs.length + 1) .empty).run cs with
  | .ok (d, _) => .ok d.entries
  | .error f => .error (f.message cs)

end Prosaic.Document.Toml
