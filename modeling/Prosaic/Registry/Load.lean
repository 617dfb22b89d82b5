import Prosaic.Document.Json
import Prosaic.Document.Toml.Statement
import Prosaic.Files
import Prosaic.Registry.Resolution

/-!
Registries from files. The extension of a file tells how its document is written.
-/

namespace Prosaic

inductive Document.ReadError
  | json (e : Document.Json.Error)
  | toml (message : String)
  deriving DecidableEq, Repr

def Document.ReadError.message (path : Path) : Document.ReadError → String
  | json e => "Invalid JSON in " ++ path.text ++ ": " ++ e.message
  | toml message => "Invalid TOML in " ++ path.text ++ ": " ++ message

def Document.readFile (path : Path) (text : String) :
    Except Document.ReadError Document :=
  if path.extension = "toml" then ((Toml.read text).mapError .toml).map .table
  else (Json.read text).mapError .json

namespace Registry

/-- What keeps a registry from being loaded. -/
inductive LoadDefect
  | missing (path : Path)
  | unreadable (path : Path) (why : Unreadable)
  | document (path : Path) (e : Document.ReadError)
  | notATable (path : Path)
  | defect (d : Defect)

def faultAt (path : Path) (message : String) : Fault :=
  { Fault.ofMessage message with path := some path.text }

/-- The fault to report. A file that is there and cannot be read has none. -/
def LoadDefect.fault? : LoadDefect → Option Fault
  | missing path => some (faultAt path ("Registry file " ++ path.text ++ " does not exist."))
  | unreadable .. => none
  | document path e => some (faultAt path (e.message path))
  | notATable path => some (faultAt path
      ("Registry file " ++ path.text ++ " must contain an object at the top level."))
  | defect d => some d.fault

def ofEntry (path : Path) : FileEntry → Except LoadDefect Registry
  | .missing => .error (.missing path)
  | .unreadable why => .error (.unreadable path why)
  | .file text =>
    match Document.readFile path text with
    | .error e => .error (.document path e)
    | .ok (.table entries) => (ofDocument entries).mapError .defect
    | .ok _ => .error (.notATable path)

def load {m : Type → Type} [Monad m] (files : Files m) (path : Path) :
    m (Except LoadDefect Registry) :=
  return ofEntry path (← files path)

end Registry

end Prosaic
