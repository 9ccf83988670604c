import StochasticGrammar.CommandLine.Arguments
import StochasticGrammar.Grammar
import StochasticGrammar.Parse
import StochasticGrammar.Record

/-!
# Runs of the program

A run trains a grammar from a counts file and parses standard input with it.  It succeeds even if
some sentences have no parse, and fails if the counts cannot be read.
-/

namespace StochasticGrammar.CommandLine

/-- What a run leaves behind. -/
structure Result where
  /-- The exit status. -/
  status : Nat := 0
  output : String := ""
  /-- The warnings, in order. -/
  warnings : List String := []
  /-- What is said at the end of a run that failed. -/
  error? : Option String := none

/-- Names the file in front of the reason why it cannot be read.  The reason why its text cannot be
had comes once more at the end. -/
def trainingError (path : String) (fault : Record.ReadFault) : String :=
  let text := s!"ERROR: failed to train from {path}: {fault.message}"
  match fault with
  | .unavailable _ cause => s!"{text}: {cause.message}"
  | .malformed _ _ _ => text

/-- Reads the counts of a run, given the bytes of the counts file. -/
def Settings.reading (settings : Settings) (content : Except Record.Unavailable (List UInt8)) :
    Record.Reading :=
  match content with
  | .ok bytes => .ofBytes settings.mode settings.countsFile bytes
  | .error cause => { outcome := .error (.unavailable settings.countsFile cause) }

/-- The result of a run whose counts cannot be read. -/
def Settings.failed (settings : Settings) (warnings : List String) (fault : Record.ReadFault) :
    Result where
  status := 1
  warnings
  error? := some (trainingError settings.countsFile fault)

/-- The result of parsing the input with what the counts train. -/
def Settings.parsed (settings : Settings) (warnings : List String) (records : List Record)
    (input : List UInt8) : Result :=
  let grammar := Grammar.ofRecords records
  let report := grammar.parseText settings.options settings.format input
  { output := report.output
    warnings := warnings ++ grammar.warnings.map Grammar.Notice.text ++
      report.notices.map Unparsed.text }

def versionText : String := "pcfg-cky 0.1.0\n"

/-- How the program is called. -/
def usage : String :=
  "\n".intercalate [
    "Usage: pcfg-cky [OPTIONS] <COUNTS_FILE>",
    "",
    "Reads rule counts to train a PCFG, then parses sentences from stdin with the CKY algorithm",
    "",
    "Options:",
    "  --start-symbol <START_SYMBOL>      [default: S]",
    "  --rare-threshold <RARE_THRESHOLD>  [default: 5]",
    "  --rare-token <RARE_TOKEN>          [default: _RARE_]",
    "  --format <FORMAT>                  [default: json] [possible values: json, bracketed]",
    "  --permissive",
    "  -h, --help",
    "  -V, --version",
    ""]

/-- Runs the program on its arguments, where `contentOf` reads a file and `input` the standard
input.  The input is read only if there is a grammar to parse it with. -/
def run {m : Type → Type} [Monad m]
    (contentOf : String → m (Except Record.Unavailable (List UInt8))) (input : m (List UInt8))
    (arguments : List String) : m Result :=
  match Request.ofArguments arguments with
  | .error fault => pure { status := 2, error? := some s!"error: {fault.message}\n\n{usage}" }
  | .ok .version => pure { output := versionText }
  | .ok .help => pure { output := usage }
  | .ok (.parse settings) => do
    let reading := settings.reading (← contentOf settings.countsFile)
    let warnings := reading.substitutions.map Record.Substitution.text
    match reading.outcome with
    | .error fault => return settings.failed warnings fault
    | .ok records => return settings.parsed warnings records (← input)

end StochasticGrammar.CommandLine
