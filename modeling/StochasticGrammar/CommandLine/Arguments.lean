import StochasticGrammar.Parse
import StochasticGrammar.Record
import StochasticGrammar.Tree

/-!
# Command-line arguments

Arguments are read from left to right: flags, most of which take a value, and one counts file.  A
value follows its flag, or is attached to it with an equals sign.  A request for the version or for
help is granted where it stands, unless an argument before it is at fault.  After a double hyphen
every argument is a file.
-/

namespace StochasticGrammar.CommandLine

/-- The flags that take a value. -/
inductive Setting where
  | startSymbol
  | rareThreshold
  | rareToken
  | format
deriving DecidableEq, Repr

inductive Flag where
  | setting (setting : Setting)
  | permissive
  | version
  | help
deriving DecidableEq, Repr

/-- The name that follows the double hyphen of a flag. -/
def Flag.name : Flag → String
  | setting .startSymbol => "start-symbol"
  | setting .rareThreshold => "rare-threshold"
  | setting .rareToken => "rare-token"
  | setting .format => "format"
  | permissive => "permissive"
  | version => "version"
  | help => "help"

def Flag.all : List Flag :=
  [setting .startSymbol, setting .rareThreshold, setting .rareToken, setting .format, permissive,
    version, help]

def Flag.ofName? (name : String) : Option Flag :=
  Flag.all.find? (·.name = name)

/-- Why arguments are refused. -/
inductive UsageFault where
  | unknownFlag (argument : String)
  /-- A flag without a value needs one. -/
  | missingValue (setting : Setting)
  /-- A flag that takes no value has one. -/
  | attachedValue (flag : Flag)
  | invalidValue (setting : Setting) (value : String)
  | repeated (flag : Flag)
  | emptyFile
  | secondFile (argument : String)
  | missingFile
deriving DecidableEq, Repr

def UsageFault.message : UsageFault → String
  | unknownFlag argument => s!"unexpected argument '{argument}' found"
  | missingValue setting =>
    let flag := Flag.setting setting
    s!"a value is required for '--{flag.name}'"
  | attachedValue flag => s!"unexpected value for '--{flag.name}' found"
  | invalidValue setting value =>
    let flag := Flag.setting setting
    s!"invalid value '{value}' for '--{flag.name}'"
  | repeated flag => s!"the argument '--{flag.name}' cannot be used multiple times"
  | emptyFile => "the counts file has no name"
  | secondFile argument => s!"unexpected argument '{argument}' found"
  | missingFile => "a counts file is required"

/-- What the arguments have said so far. -/
structure Draft where
  countsFile? : Option String := none
  startSymbol? : Option String := none
  rareThreshold? : Option Nat := none
  rareToken? : Option String := none
  format? : Option TreeFormat := none
  permissive : Bool := false

/-- What to read and how to parse. -/
structure Settings where
  countsFile : String
  options : ParseOptions
  format : TreeFormat
  mode : Record.Mode

inductive Request where
  | version
  | help
  | parse (settings : Settings)

/-- A whole number that can be a count, with an optional plus sign. -/
def threshold? (value : String) : Option Nat :=
  let digits := match value.toList with
    | '+' :: digits => digits
    | digits => digits
  if digits.isEmpty then none else Record.count? digits

def format? : String → Option TreeFormat
  | "json" => some .json
  | "bracketed" => some .bracketed
  | _ => none

namespace Draft

/-- Sets a place that nothing has been put into before. -/
def setOnce {α : Type} (flag : Flag) (before : Option α) (value : α) :
    Except UsageFault (Option α) :=
  match before with
  | none => .ok (some value)
  | some _ => .error (.repeated flag)

/-- Reads the value of a flag. -/
def set (draft : Draft) (setting : Setting) (value : String) : Except UsageFault Draft :=
  let flag := Flag.setting setting
  let invalid := UsageFault.invalidValue setting value
  match setting with
  | .startSymbol => do
    let startSymbol? ← setOnce flag draft.startSymbol? value
    return { draft with startSymbol? }
  | .rareToken => do
    let rareToken? ← setOnce flag draft.rareToken? value
    return { draft with rareToken? }
  | .rareThreshold => do
    let some threshold := threshold? value | throw invalid
    let rareThreshold? ← setOnce flag draft.rareThreshold? threshold
    return { draft with rareThreshold? }
  | .format => do
    let some format := CommandLine.format? value | throw invalid
    let format? ← setOnce flag draft.format? format
    return { draft with format? }

def setPermissive (draft : Draft) : Except UsageFault Draft :=
  if draft.permissive then .error (.repeated .permissive)
  else .ok { draft with permissive := true }

def setFile (draft : Draft) (argument : String) : Except UsageFault Draft :=
  if draft.countsFile?.isSome then .error (.secondFile argument)
  else if argument.isEmpty then .error .emptyFile
  else .ok { draft with countsFile? := some argument }

/-- The settings that a draft amounts to once all arguments are read. -/
def settings (draft : Draft) : Except UsageFault Settings :=
  match draft.countsFile? with
  | none => .error .missingFile
  | some countsFile =>
    let default : ParseOptions := {}
    let rareWords : RareWords :=
      { threshold := draft.rareThreshold?.getD default.rareWords.threshold
        placeholder := draft.rareToken?.getD default.rareWords.placeholder }
    .ok {
      countsFile
      options := { startSymbol := draft.startSymbol?.getD default.startSymbol, rareWords }
      format := draft.format?.getD .json
      mode := if draft.permissive then .permissive else .strict }

end Draft

/-- What an argument is by its looks. -/
inductive Argument where
  /-- The double hyphen by itself. -/
  | endOfFlags
  /-- A name after a double hyphen, and the value attached to it. -/
  | long (name : String) (value? : Option String)
  /-- A letter after a single hyphen. -/
  | short (letter : Char)
  | plain

/-- A single hyphen by itself is plain. -/
def Argument.ofString (argument : String) : Argument :=
  match argument.toList with
  | ['-', '-'] => .endOfFlags
  | '-' :: '-' :: text =>
    let name := String.ofList (text.takeWhile (· ≠ '='))
    match text.dropWhile (· ≠ '=') with
    | [] => .long name none
    | _ :: value => .long name (some (String.ofList value))
  | '-' :: letter :: _ => .short letter
  | _ => .plain

/-- Whether an argument may be the value of the flag before it. -/
def isValue (argument : String) : Bool :=
  match Argument.ofString argument with
  | .plain => true
  | _ => false

/-- Reads arguments on top of a draft. -/
def readArguments (draft : Draft) : List String → Except UsageFault Request
  | [] => draft.settings.map .parse
  | argument :: rest =>
    match Argument.ofString argument with
    | .endOfFlags => do
      let draft ← rest.foldlM Draft.setFile draft
      return .parse (← draft.settings)
    | .plain => do readArguments (← draft.setFile argument) rest
    | .short 'V' => .ok .version
    | .short 'h' => .ok .help
    | .short _ => .error (.unknownFlag argument)
    | .long name value? =>
      match Flag.ofName? name, value?, rest with
      | none, _, _ => .error (.unknownFlag argument)
      | some (.setting setting), some value, rest => do
        readArguments (← draft.set setting value) rest
      | some (.setting setting), none, value :: rest =>
        if isValue value then do readArguments (← draft.set setting value) rest
        else .error (.missingValue setting)
      | some (.setting setting), none, [] => .error (.missingValue setting)
      | some flag, some _, _ => .error (.attachedValue flag)
      | some .permissive, none, rest => do readArguments (← draft.setPermissive) rest
      | some .version, none, _ => .ok .version
      | some .help, none, _ => .ok .help

/-- What the arguments ask for. -/
def Request.ofArguments (arguments : List String) : Except UsageFault Request :=
  readArguments {} arguments

end StochasticGrammar.CommandLine
