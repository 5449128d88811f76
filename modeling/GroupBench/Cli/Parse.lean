import GroupBench.Cli.Options

/-! Reading a command line. Arguments are read from the left and the first fault ends the reading,
with one delay: a value that stands apart from its flag is looked at only when the next known flag
or the end of the line is reached. -/
namespace GroupBench.Cli

/-- How far the arguments have been read. -/
structure Reading where
  given : Given := {}
  /-- The last flag that stood apart from its value, and the value if it has followed. -/
  pending : Option (OptionKey × Option String) := none
  /-- A lone double hyphen has been read, after which nothing is a flag. -/
  flagsOver : Bool := false

namespace Reading
variable (r : Reading)

/-- Takes up a value; an option given twice is a fault whatever the value. -/
def accept (key : OptionKey) (text : String) : Except UsageFault Reading :=
  if r.given.has key then .error (.repeated key)
  else (r.given.set key text).map fun given => { r with given }

/-- Takes up the value of the pending flag. -/
def settle : Except UsageFault Reading :=
  match r.pending with
  | none => .ok r
  | some (key, none) => .error (.noValue key)
  | some (key, some text) => { r with pending := none }.accept key text

/-- Ends the reading with `fault`, unless the pending flag has a fault of its own. -/
def endWith (fault : UsageFault) : Except UsageFault Reading :=
  r.settle.bind fun _ => .error fault

/-- A flag and the text attached to it by an equals sign, if any. -/
def splitFlag (cs : List Char) : String × Option String :=
  let name := String.ofList (cs.takeWhile (· != '='))
  match cs.dropWhile (· != '=') with
  | [] => (name, none)
  | _ :: value => (name, some (String.ofList value))

/-- An argument that begins with two hyphens, which are left out of `cs`. -/
def longFlag (text : String) (cs : List Char) : Except UsageFault Reading :=
  match splitFlag cs with
  | ("help", none) => r.endWith .help
  | ("version", none) => r.endWith .version
  | ("help", some _) => .error (.unwantedValue "help")
  | ("version", some _) => .error (.unwantedValue "version")
  | (name, attached) =>
    match OptionKey.ofFlag? name, attached with
    | none, _ => .error (.unknownArgument text)
    | some key, some value => r.settle.bind fun r => r.accept key value
    | some key, none => r.settle.map fun r => { r with pending := some (key, none) }

/-- An argument that begins with one hyphen; of several letters the first decides. -/
def shortFlag (text : String) : Char → Except UsageFault Reading
  | 'h' => r.endWith .help
  | 'V' => r.endWith .version
  | _ => .error (.unknownArgument text)

/-- An argument that is no flag is the value of the pending flag, or has no place. -/
def word (text : String) : Except UsageFault Reading :=
  match r.pending with
  | some (key, none) => .ok { r with pending := some (key, some text) }
  | _ => .error (.unknownArgument text)

def argument (text : String) : Except UsageFault Reading :=
  if r.flagsOver then .error (.unknownArgument text)
  else
    match text.toList with
    | ['-', '-'] => .ok { r with flagsOver := true }
    | '-' :: '-' :: cs => r.longFlag text cs
    | '-' :: c :: _ => r.shortFlag text c
    | _ => r.word text

end Reading

/-- Takes a value from the environment where the command line has none. -/
def fromVariable (lookup : String → Option String) (g : Given) (key : OptionKey) :
    Except UsageFault Given :=
  if g.has key then .ok g
  else
    match lookup key.variableName with
    | none => .ok g
    | some text => g.set key text

/-- The options of a command line, completed from variables and then from the usual values. -/
def parse (arguments : List String) (lookup : String → Option String) :
    Except UsageFault Options := do
  let r ← arguments.foldlM Reading.argument {}
  let r ← r.settle
  let given ← OptionKey.all.foldlM (fromVariable lookup) r.given
  given.complete

end GroupBench.Cli
