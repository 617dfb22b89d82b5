import Prosaic.CommandLine.Arguments
import Prosaic.Compilation
import Prosaic.Settings.Basic
import Prosaic.Terminal.Markup

/-!
Runs of the program. A run reads a source file, the settings and the registry, compiles, and
responds with what is to be written where. Nothing is written here; that is left to whoever asked.
-/

namespace Prosaic.CommandLine

/-! ### Responses -/

inductive Shown
  | nothing
  | help
  | version
  /-- What has succeeded. -/
  | success (message : String)
  /-- An emitted module. -/
  | source (s : String)
  | document (d : Document)
  /-- The findings about a file, for people. -/
  | findings (file : String) (found : List Diagnostic)
  deriving Repr

structure Response where
  exitCode : Nat
  shown : Shown
  /-- What went wrong. -/
  error : Option String
  /-- A text to be written to a file first. -/
  output : Option (Path × String)
  deriving Repr

/-- The exit codes. -/
def success : Nat := 0

def rejection : Nat := 1

def misuse : Nat := 2

namespace Response

def showing (exitCode : Nat) (shown : Shown) : Response := ⟨exitCode, shown, none, none⟩

def failing (message : String) : Response :=
  ⟨misuse, .nothing, some message, none⟩

def writing (path : Path) (source : String) (shown : Shown) : Response :=
  ⟨success, shown, none, some (path, source)⟩

end Response

inductive Breakdown
  /-- The path of the source file is no name. -/
  | source (path : Path)
  | settings (d : Settings.Defect)
  | registry (d : Registry.LoadDefect)
  | lowering (d : TypeScript.Defect)

def versionText : String := "sigil 0.1.0\n"

def helpText : String :=
  "usage: sigil [--version] [--log-level LEVEL] COMMAND FILE [OPTIONS]\n\n"
    ++ "commands:\n"
    ++ "  compile   Compile a source file\n"
    ++ "  check     Report diagnostics without emitting code\n\n"
    ++ "options:\n"
    ++ "  --registry PATH      Domain registry file (JSON or TOML)\n"
    ++ "  --config PATH        Configuration file (defaults to ./sigil.toml or ./.sigilrc)\n"
    ++ "  --format text|json   Output format for diagnostics (default: text)\n"
    ++ "  --out PATH           Write the generated module to this path (compile only)\n"

def Shown.printed : Shown → String
  | nothing => ""
  | help => helpText
  | version => versionText
  | success message => Terminal.successLine message
  | source s => Terminal.plainText s
  | document d => d.compact ++ "\n"
  | findings file found =>
    "\n".intercalate ((file ++ ": " ++ toString found.length ++ " diagnostic(s)")
      :: found.map Diagnostic.describe) ++ "\n"

def Response.complaint (r : Response) : String := (r.error.map Terminal.errorLine).getD ""

/-! ### Inputs -/

structure Inputs where
  registry : Registry
  target : Target
  limits : Limits

/-- A defect of the settings is reported if it is a fault. -/
def settingsStop (d : Settings.Defect) : Except Breakdown Response :=
  match d.fault? with
  | some f => .ok (.failing f.format)
  | none => .error (.settings d)

def registryStop (d : Registry.LoadDefect) : Except Breakdown Response :=
  match d.fault? with
  | some f => .ok (.failing f.format)
  | none => .error (.registry d)

/-- An option with an empty value counts as absent. -/
def given (value : Option String) : Option String := value.filter fun s => !s.isEmpty

def loadRegistry {m : Type → Type} [Monad m] (files : Files m) :
    Option Path → m (Except Registry.LoadDefect Registry)
  | some path => Registry.load files path
  | none => return .ok .empty

/-- Loads the settings and the registry; the outer error is the response to a defect. -/
def loadInputs {m : Type → Type} [Monad m] (files : Files m) (workingDirectory : Path)
    (environment : Settings.Environment) (i : Invocation) :
    m (Except (Except Breakdown Response) Inputs) := do
  let asked := (given i.config).map Path.ofText
  match ← Settings.load files workingDirectory workingDirectory asked environment with
  | .error d => return .error (settingsStop d)
  | .ok settings =>
    let path := ((given i.registry).map Path.ofText).or settings.registry
    match ← loadRegistry files path with
    | .error d => return .error (registryStop d)
    | .ok registry => return .ok ⟨registry, settings.target, settings.limits⟩

/-! ### Commands -/

/-- The findings as a document, an empty list if there are none. -/
def findingsDocument (o : Outcome) : Document :=
  .table [("diagnostics", (Findings.ofList o.found).document)]

def checkResponse (file : String) (i : Invocation) (o : Outcome) : Response :=
  let code := if o.isEmitted then success else rejection
  if i.json then .showing code (.document (findingsDocument o))
  else if o.isEmitted then .showing code (.success (file ++ ": no diagnostics"))
  else .showing code (.findings file o.found)

def compileResponse (file : String) (i : Invocation) (o : Outcome) : Response :=
  match o with
  | .rejected found =>
    .showing rejection (if i.json then .document o.document else .findings file found)
  | .emitted source =>
    match given i.out with
    | some out =>
      let path := Path.ofText out
      .writing path source
        (if i.json then .document (.table [("output", .string path.text)])
          else .success ("Wrote " ++ path.text))
    | none => .showing success (if i.json then .document o.document else .source source)

def Command.response (command : Command) (file : String) (i : Invocation) (o : Outcome) :
    Response :=
  match command with
  | compile => compileResponse file i o
  | check => checkResponse file i o

def unreadableSource (path : Path) (reason : String) : Response :=
  .failing ("cannot read " ++ path.text ++ ": " ++ reason)

def respond (command : Command) (file : String) (i : Invocation) (source : String)
    (inputs : Inputs) (clock : Clock) : Except Breakdown Response :=
  match compile source inputs.registry inputs.target (.start inputs.limits clock) with
  | .error d => .error (.lowering d)
  | .ok o => .ok (command.response file i o)

def runCommand {m : Type → Type} [Monad m] (files : Files m) (workingDirectory : Path)
    (environment : Settings.Environment) (clock : Clock) (command : Command) (file : String)
    (i : Invocation) : m (Except Breakdown Response) := do
  let path := Path.ofText file
  match ← files path with
  | .missing => return .ok (unreadableSource path "No such file or directory")
  | .unreadable .noName => return .error (.source path)
  | .unreadable why => return .ok (unreadableSource path why.reason)
  | .file text =>
    match ← loadInputs files workingDirectory environment i with
    | .error response => return response
    | .ok inputs => return respond command file i (sourceText text) inputs clock

def run {m : Type → Type} [Monad m] (files : Files m) (workingDirectory : Path)
    (environment : Settings.Environment) (clock : Clock) (arguments : List String) :
    m (Except Breakdown Response) := do
  match Request.ofArguments arguments with
  | .help => return .ok (.showing success .help)
  | .version => return .ok (.showing success .version)
  | .misuse => return .ok (.showing misuse .nothing)
  | .run command file i => runCommand files workingDirectory environment clock command file i

end Prosaic.CommandLine
