import Prosaic.Budget
import Prosaic.Document.Json
import Prosaic.Document.Toml.Statement
import Prosaic.Files
import Prosaic.Registry.Load
import Prosaic.Settings.Conversion
import Prosaic.Target

/-!
Settings: where the registry is, what the emitted module looks like and what a compilation may use.
They come from a configuration file, and over it from environment variables; what neither says has a
standard value.
-/

namespace Prosaic

structure Settings where
  root : Path
  registry : Option Path
  target : Target
  limits : Limits
  /-- The keys of the configuration document. -/
  keys : List String
  deriving Repr

namespace Settings

/-! ### Defects -/

inductive Defect
  | missing (path : Path)
  | unreadable (path : Path) (why : Unreadable)
  | document (path : Path) (e : Document.ReadError)
  /-- A path that is to be resolved holds a character that no name can have. -/
  | noName (path : Path)
  /-- A document or a section is not a table. -/
  | notATable
  | limit (b : BadNumber)
  | environment (name value : String)
  | target (f : Fault)

namespace Defect

/-- The fault to report. A document of another form, a file that is there and cannot be read, a path
that is no name and a number out of range have none. -/
def fault? : Defect → Option Fault
  | missing path => some
      (Registry.faultAt path ("Configuration file " ++ path.text ++ " does not exist."))
  | document path e => some (Registry.faultAt path (e.message path))
  | limit .tooLarge => none
  | limit b => some (.ofMessage ("Invalid [limits] value: " ++ b.message))
  | environment name value => some (.ofMessage
      ("Environment variable " ++ name ++ " must be a number, got " ++ Text.quoted value ++ "."))
  | target f => some f
  | unreadable .. | noName _ | notATable => none

end Defect

/-! ### Sections -/

/-- A section of a document. One that is blank is as good as none. -/
def section? (entries : Keyed Document) (key : String) : Except Defect (Keyed Document) :=
  match entries.lookup key with
  | none => .ok []
  | some (.table section_) => .ok section_
  | some d => if d.isBlank then .ok [] else .error .notATable

/-- A text in a section; a blank value counts as none. -/
def textOr (standard : String) (entries : Keyed Document) (key : String) : String :=
  match entries.lookup key with
  | some d => if d.isBlank then standard else d.plain
  | none => standard

def targetOf (entries : Keyed Document) : Except Defect Target := do
  let asked ← section? entries "target"
  let standard := Target.standard
  let target : Target :=
    ⟨textOr standard.language asked "language", textOr standard.domainModule asked "domain_module",
      textOr standard.indent asked "indent",
      ((asked.lookup "header").map fun d => !d.isBlank).getD standard.header⟩
  match target.fault? with
  | some f => .error (.target f)
  | none => .ok target

def numberOr {α : Type} (read : Document → Except BadNumber α) (standard : α)
    (entries : Keyed Document) (key : String) : Except Defect α :=
  match entries.lookup key with
  | some d => (read d).mapError .limit
  | none => .ok standard

def limitsOf (entries : Keyed Document) : Except Defect Limits := do
  let asked ← section? entries "limits"
  let standard := Limits.standard
  return ⟨← numberOr integerOf standard.nestingDepth asked "max_nesting_depth",
    ← numberOr integerOf standard.nodes asked "max_nodes",
    ← numberOr realOf standard.timeBudget asked "time_budget_seconds"⟩

/-! ### Environment variables -/

abbrev Environment := String → Option String

/-- A number from an environment variable; an empty one counts as none. -/
def overridden {α : Type} (environment : Environment) (name : String)
    (read : String → Except BadNumber α) (otherwise : α) : Except Defect α :=
  match environment name with
  | none => .ok otherwise
  | some value =>
    if value.isEmpty then .ok otherwise
    else (read value).mapError fun _ => .environment name value

def withEnvironment (environment : Environment) (limits : Limits) : Except Defect Limits :=
  return ⟨← overridden environment "SIGIL_MAX_NESTING_DEPTH" integerOfText limits.nestingDepth,
    ← overridden environment "SIGIL_MAX_NODES" integerOfText limits.nodes,
    ← overridden environment "SIGIL_TIME_BUDGET" realOfText limits.timeBudget⟩

/-! ### Documents -/

def resolved (workingDirectory p : Path) : Except Defect Path :=
  if p.isNameable then .ok (Path.resolve workingDirectory p) else .error (.noName p)

def registryOf (workingDirectory path : Path) (entries : Keyed Document) :
    Except Defect (Option Path) :=
  match entries.lookup "registry" with
  | none => .ok none
  | some d =>
    if d.isBlank then .ok none
    else
      let asked := Path.ofText d.plain
      if asked.isAbsolute then .ok (some asked)
      else (resolved workingDirectory (path.parent.join asked)).map some

def ofDocument (workingDirectory root path : Path) (environment : Environment) :
    Document → Except Defect Settings
  | .table entries => do
    let registry ← registryOf workingDirectory path entries
    let target ← targetOf entries
    let limits ← limitsOf entries
    let limits ← withEnvironment environment limits
    return ⟨root, registry, target, limits, Keyed.keys entries⟩
  | _ => .error .notATable

def standard (root : Path) (environment : Environment) : Except Defect Settings :=
  return ⟨root, none, .standard, ← withEnvironment environment .standard, []⟩

/-! ### Files -/

/-- The names of configuration files, the preferred one first. -/
def fileNames : List String := ["sigil.toml", ".sigilrc"]

def firstPresent {m : Type → Type} [Monad m] (files : Files m) :
    List Path → m (Option (Path × FileEntry))
  | [] => return none
  | path :: rest => do
    let found ← files path
    if found.isPresent then return some (path, found) else firstPresent files rest

def ofEntry (workingDirectory root path : Path) (environment : Environment) :
    FileEntry → Except Defect Settings
  | .missing => .error (.missing path)
  | .unreadable why => .error (.unreadable path why)
  | .file text =>
    match Document.readFile path text with
    | .error e => .error (.document path e)
    | .ok d => ofDocument workingDirectory root path environment d

def loadAt {m : Type → Type} [Monad m] (files : Files m) (workingDirectory root : Path)
    (asked : Option Path) (environment : Environment) : m (Except Defect Settings) := do
  match asked with
  | some path =>
    match ← firstPresent files [path] with
    | some (path, found) => return ofEntry workingDirectory root path environment found
    | none => return .error (.missing path)
  | none =>
    let candidates := fileNames.map fun name => root.join ⟨"", [name]⟩
    match ← firstPresent files candidates with
    | some (path, found) => return ofEntry workingDirectory root path environment found
    | none => return standard root environment

/-- Loads the settings for the sources under a root directory: from the file that is asked for, or
else from the one in the root directory. -/
def load {m : Type → Type} [Monad m] (files : Files m) (workingDirectory root : Path)
    (asked : Option Path) (environment : Environment) : m (Except Defect Settings) :=
  match resolved workingDirectory root with
  | .error d => return .error d
  | .ok root => loadAt files workingDirectory root asked environment

end Settings

end Prosaic
