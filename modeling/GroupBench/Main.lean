import GroupBench.Cli.Parse
import GroupBench.Cli.Session

/-! The command line program. Options come from arguments and the environment, lines go to the error
stream. -/
namespace GroupBench

/-- The line of one option. -/
def optionHelp (key : Cli.OptionKey) : String :=
  s!"  --{key.flag} <VALUE>  [env: {key.variableName}]\n"

/-- What `--help` shows. -/
def helpText : String :=
  "Fill a store with a synthetic group hierarchy and benchmark member resolution\n\nOptions:\n" ++
    String.join (Cli.OptionKey.all.map optionHelp) ++
    "  -h, --help\n  -V, --version"

/-- The variables of the environment that options are read from. -/
def readVariables : IO (List (String × String)) :=
  Cli.OptionKey.all.filterMapM fun key => do
    return (← IO.getEnv key.variableName).map fun value => (key.variableName, value)

def readClock : IO Instant := do
  return ⟨(← IO.monoNanosNow : Nat)⟩

/-- Runs checked settings and prints what they report. -/
def runSettings (settings : Cli.Settings) : IO UInt32 := do
  let seed := UInt64.ofNat (← IO.rand 0 (UInt64.size - 1))
  match ← settings.sessionWith (.rotating readClock Select.defaultPatience) .plain Float.pow
      .congruential seed with
  | .error fault => IO.eprintln s!"Error: {fault.message}"; return 1
  | .ok outcome =>
    for line in outcome.lines do
      IO.eprintln line.toText
    return 0

end GroupBench

open GroupBench in
def main (arguments : List String) : IO UInt32 := do
  let environment ← readVariables
  match Cli.parse arguments fun name => environment.lookup name with
  | .error .help => IO.println helpText; return 0
  | .error .version => IO.println "groupbench 0.1.0"; return 0
  | .error fault => IO.eprintln s!"error: {fault.message}"; return 2
  | .ok options =>
    match options.settings Float.pow with
    | .error fault => IO.eprintln s!"Error: {fault.message}"; return 1
    | .ok settings => runSettings settings
