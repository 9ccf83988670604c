import StochasticGrammar.CommandLine.Run

/-!
# The program

Files, standard streams and the exit status.
-/

namespace StochasticGrammar.CommandLine

/-- Why the system did not give a file. -/
def unavailable : IO.Error → Record.Unavailable
  | .noFileOrDirectory _ _ _ => .notFound
  | .inappropriateType _ code _ => if code = 20 ∨ code = -20 then .notDirectory else .isDirectory
  | .permissionDenied _ _ _ => .refused "Permission denied (os error 13)"
  | error => .refused (toString error)

def readFile (path : String) : IO (Except Record.Unavailable (List UInt8)) := do
  try
    return .ok (← IO.FS.readBinFile path).toList
  catch error =>
    return .error (unavailable error)

def readInput : IO (List UInt8) := do
  return (← (← IO.getStdin).readBinToEnd).toList

end StochasticGrammar.CommandLine

open StochasticGrammar.CommandLine in
/-- Trains a grammar from the counts file that is named, and parses standard input with it. -/
def main (arguments : List String) : IO UInt32 := do
  let result ← run readFile readInput arguments
  for warning in result.warnings do
    IO.eprintln warning
  for error in result.error? do
    IO.eprintln error
  IO.print result.output
  return UInt32.ofNat result.status
