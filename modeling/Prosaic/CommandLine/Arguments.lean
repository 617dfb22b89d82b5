import Prosaic.Text.Digit

/-!
Command line arguments. A word that starts with a dash is an option if it is one that is known, or
the beginning of just one; a double dash alone ends the options. A word in the place of an option
that is not known is refused in the end, but what comes before and behind it is still looked at, so
help can be asked for anywhere.
-/

namespace Prosaic.CommandLine

/-! ### Options -/

inductive OptionKind
  | help
  | version
  /-- It has a value; if there are choices, one of these. -/
  | value (choices : List String)
  deriving DecidableEq, Repr

/-- An option, with a name that starts with two dashes and possibly a letter behind one dash. -/
structure OptionSpec where
  name : String
  letter : Option Char
  kind : OptionKind
  deriving DecidableEq, Repr

def helpOption : OptionSpec := ⟨"--help", some 'h', .help⟩

def valueOption (name : String) (choices : List String) : OptionSpec := ⟨name, none, .value choices⟩

def mainOptions : List OptionSpec :=
  [helpOption, ⟨"--version", none, .version⟩,
   valueOption "--log-level" ["debug", "info", "warning", "error"]]

def commonOptions : List OptionSpec :=
  [helpOption, valueOption "--registry" [], valueOption "--config" [],
   valueOption "--format" ["text", "json"]]

inductive Command
  | compile | check
  deriving DecidableEq, Repr

def Command.ofText? : String → Option Command
  | "compile" => some .compile
  | "check" => some .check
  | _ => none

def Command.options : Command → List OptionSpec
  | compile => commonOptions ++ [valueOption "--out" []]
  | check => commonOptions

/-! ### Words -/

inductive Word
  | argument (s : String)
  /-- The double dash. -/
  | separator
  | known (option : OptionSpec) (value : Option String)
  /-- A letter behind a dash, and what follows it in the word. -/
  | letter (option : OptionSpec) (rest : List Char)
  | unknown
  deriving DecidableEq, Repr

def splitValue (cs : List Char) : List Char × Option String :=
  let name := cs.takeWhile (· != '=')
  match cs.drop name.length with
  | [] => (name, none)
  | _ :: value => (name, some (String.ofList value))

def withoutLineFeed (cs : List Char) : List Char :=
  if cs.getLast? = some '\n' then cs.dropLast else cs

/-- Whether a word looks like a negative number. A line feed may follow it. -/
def isNegativeNumber (cs : List Char) : Bool :=
  let isDigit (c : Char) : Bool := (Text.decimalDigit? c).isSome
  match withoutLineFeed cs with
  | '-' :: rest =>
    let behind := rest.dropWhile isDigit
    match behind with
    | [] => !rest.isEmpty
    | '.' :: fraction => !fraction.isEmpty && fraction.all isDigit
    | _ => false
  | _ => false

def otherWord (s : String) : Word :=
  if isNegativeNumber s.toList || s.toList.contains ' ' then .argument s else .unknown

/-- What a word is among some options; a beginning that fits several is refused. -/
def Word.of? (options : List OptionSpec) (s : String) : Option Word :=
  match s.toList with
  | '-' :: '-' :: rest =>
    if rest.isEmpty then some .separator
    else
      let (name, value) := splitValue s.toList
      match options.find? fun o => o.name == s, options.find? fun o => o.name.toList == name with
      | some o, _ => some (.known o none)
      | none, some o => some (.known o value)
      | none, none =>
        match options.filter fun o => name.isPrefixOf o.name.toList with
        | [] => some (otherWord s)
        | [o] => some (.known o value)
        | _ => none
  | '-' :: c :: rest =>
    match options.find? fun o => o.letter = some c with
    | some o => some (.letter o rest)
    | none => some (otherWord s)
  | _ => some (.argument s)

/-- The words of a command line; behind the double dash there are arguments only. -/
def words? (options : List OptionSpec) : List String → Option (List Word)
  | [] => some []
  | s :: rest => do
    let w ← Word.of? options s
    if w = .separator then return w :: rest.map .argument
    else return w :: (← words? options rest)

/-! ### Requests -/

structure Invocation where
  file : Option String
  registry : Option String
  config : Option String
  json : Bool
  out : Option String
  deriving DecidableEq, Repr, Inhabited

def Invocation.none : Invocation := ⟨.none, .none, .none, false, .none⟩

inductive Request
  | help
  | version
  /-- Nothing that could be done. -/
  | misuse
  | run (command : Command) (file : String) (invocation : Invocation)
  deriving DecidableEq, Repr

def Invocation.set (i : Invocation) (o : OptionSpec) (value : String) : Invocation :=
  match o.name with
  | "--registry" => { i with registry := some value }
  | "--config" => { i with config := some value }
  | "--format" => { i with json := value == "json" }
  | "--out" => { i with out := some value }
  | _ => i

def OptionSpec.accepts (o : OptionSpec) (value : String) : Bool :=
  match o.kind with
  | .value [] => true
  | .value choices => choices.contains value
  | _ => false

/-- The value of an option that is written behind an equals sign, if it may have it. A double dash
there stands for an empty value, whatever the choices. -/
def OptionSpec.written? (o : OptionSpec) (value : String) : Option String :=
  match o.kind with
  | .value _ =>
    if value = "--" then some "" else if o.accepts value then some value else none
  | _ => none

def OptionSpec.asks (o : OptionSpec) : Request :=
  match o.kind with
  | .help => .help
  | .version => .version
  | .value _ => .misuse

/-- The letters behind the first one in a word; an equals sign may stand before them. -/
def moreLetters? : List Char → Option (List Char)
  | ['='] => none
  | '=' :: rest => some rest
  | rest => some rest

/-- What a letter and the rest of its word ask for. Only the same letter may follow. -/
def letterRequest (o : OptionSpec) (rest : List Char) : Request :=
  match o.letter, moreLetters? rest with
  | some c, some more => if more.all (· == c) then o.asks else .misuse
  | _, _ => .misuse

structure Gathered where
  invocation : Invocation
  /-- Whether there is a word that has no place. -/
  excess : Bool
  deriving DecidableEq, Repr

namespace Gathered

def withOption (g : Gathered) (o : OptionSpec) (value : String) : Gathered :=
  { g with invocation := g.invocation.set o value }

def withExcess (g : Gathered) : Gathered := { g with excess := true }

/-- An argument is the file, unless there is one. -/
def withArgument (g : Gathered) (s : String) : Gathered :=
  match g.invocation.file with
  | some _ => g.withExcess
  | none => { g with invocation := { g.invocation with file := some s } }

def request (command : Command) (g : Gathered) : Request :=
  match g.invocation.file with
  | some file => if g.excess then .misuse else .run command file g.invocation
  | none => .misuse

end Gathered

def gather (command : Command) (g : Gathered) : List Word → Request
  | [] => g.request command
  | .argument s :: .separator :: rest =>
    if g.invocation.file.isSome then gather command g.withExcess rest
    else gather command (g.withArgument s) rest
  | .argument s :: rest => gather command (g.withArgument s) rest
  | .separator :: .argument s :: rest =>
    if g.invocation.file.isSome then gather command g.withExcess rest
    else gather command (g.withArgument s) rest
  | .separator :: rest => gather command g.withExcess rest
  | .unknown :: rest => gather command g.withExcess rest
  | .letter o chars :: _ => letterRequest o chars
  | .known o (some value) :: rest =>
    match o.written? value with
    | some value => gather command (g.withOption o value) rest
    | none => .misuse
  | .known o none :: rest =>
    match o.kind, rest with
    | .value _, .argument value :: rest =>
      if o.accepts value then gather command (g.withOption o value) rest else .misuse
    | .value _, _ => .misuse
    | _, _ => o.asks

def commandRequest (name : String) (rest : List String) (excess : Bool) : Request :=
  match Command.ofText? name with
  | none => .misuse
  | some command =>
    match words? command.options rest with
    | none => .misuse
    | some ws => gather command ⟨.none, excess⟩ ws

/-- Goes through the words before the command. Without one there is nothing to do. -/
def beforeCommand (excess : Bool) : List (Word × String) → Request
  | [] => .misuse
  | (.argument name, _) :: rest => commandRequest name (rest.map Prod.snd) excess
  | (.separator, _) :: _ => .misuse
  | (.unknown, _) :: rest => beforeCommand true rest
  | (.letter o chars, _) :: _ => letterRequest o chars
  | (.known o (some value), _) :: rest =>
    match o.written? value with
    | some _ => beforeCommand excess rest
    | none => .misuse
  | (.known o none, _) :: rest =>
    match o.kind, rest with
    | .value _, (.argument value, _) :: rest =>
      if o.accepts value then beforeCommand excess rest else .misuse
    | .value _, _ => .misuse
    | _, _ => o.asks

def Request.ofArguments (arguments : List String) : Request :=
  match words? mainOptions arguments with
  | none => .misuse
  | some ws => beforeCommand false (ws.zip arguments)

end Prosaic.CommandLine
