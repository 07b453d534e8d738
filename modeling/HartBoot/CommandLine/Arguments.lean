import HartBoot.Files
import HartBoot.Keyword
import HartBoot.Transcript

/-!
Contract: what the arguments of the program ask for.

Owns:
- `Arguments.read`, the request that a list of arguments makes, or `Stop`, why it makes none;
- the options: their letters, their words, and how many values each of them takes.

Short options may be written together behind one dash. The last of them may have its value
attached to it, as it is or behind a `=`; a long option has an attached value behind a `=`. An
attached value is the only one. Other values are the next arguments that are no options. The
values of an option are judged when the next option or the end is reached, so a request for help
counts only if everything before it is right.

Does not own: doing what is asked for (see `HartBoot.CommandLine.Run`).
-/

namespace HartBoot.CommandLine

/-- Why a list of arguments makes no request. -/
inductive Stop where
  /-- It is not as it should be. -/
  | misuse
  | help
  | version
  deriving DecidableEq, Repr

/-- An option that takes values. -/
inductive Setting where
  | compile
  | dump
  deriving DecidableEq, Repr

def Setting.arity : Setting → Nat
  | .compile => 2
  | .dump => 1

/-- An option without values. -/
inductive Switch where
  | verbose
  | wide
  | leadingKeywords
  | help
  | version
  deriving DecidableEq, Repr

/-- What an option is. -/
inductive Choice where
  | setting (setting : Setting)
  | switch (switch : Switch)
  deriving DecidableEq, Repr

def Choice.ofLetter? : Char → Option Choice
  | 'c' => some (.setting .compile)
  | 'd' => some (.setting .dump)
  | 'v' => some (.switch .verbose)
  | 'w' => some (.switch .wide)
  | 'h' => some (.switch .help)
  | 'V' => some (.switch .version)
  | _ => none

def Choice.ofWord? : String → Option Choice
  | "config" => some (.setting .compile)
  | "dump" => some (.setting .dump)
  | "verbose" => some (.switch .verbose)
  | "wide" => some (.switch .wide)
  | "prefix-tokens" => some (.switch .leadingKeywords)
  | "help" => some (.switch .help)
  | "version" => some (.switch .version)
  | _ => none

/-- What a list of arguments asks for. -/
structure Arguments where
  /-- All values of the option to compile; none if it was not given. -/
  compile : Option (List Path) := none
  /-- The image to print. -/
  dump : Option Path := none
  verbosity : Nat := 0
  wide : Bool := false
  leadingKeywords : Bool := false
  deriving DecidableEq, Repr

namespace Arguments

def limit (arguments : Arguments) : Severity :=
  match arguments.verbosity with
  | 0 => .info
  | 1 => .debug
  | _ => .trace

def matching (arguments : Arguments) : Matching :=
  if arguments.leadingKeywords then .leading else .whole

/-- Take the values of an option. An option to print is given once; all options to compile count
together. -/
def accept (arguments : Arguments) (setting : Setting) (values : List Path) :
    Except Stop Arguments :=
  if values.length ≠ setting.arity ∨ "" ∈ values then
    .error .misuse
  else
    match setting with
    | .compile =>
      .ok { arguments with compile := some (arguments.compile.getD [] ++ values) }
    | .dump =>
      match arguments.dump with
      | some _ => .error .misuse
      | none => .ok { arguments with dump := values.head? }

/-- Take an option without values; those that say yes or no are given once. -/
def turnOn (arguments : Arguments) : Switch → Except Stop Arguments
  | .verbose => .ok { arguments with verbosity := arguments.verbosity + 1 }
  | .wide => if arguments.wide then .error .misuse else .ok { arguments with wide := true }
  | .leadingKeywords =>
    if arguments.leadingKeywords then .error .misuse
    else .ok { arguments with leadingKeywords := true }
  | .help => .error .help
  | .version => .error .version

end Arguments

/-- The arguments that have been read so far, and the option whose values are being read. -/
structure Reading where
  arguments : Arguments
  waiting : Option (Setting × List Path)
  /-- Whether no more options may come. -/
  closed : Bool
  deriving DecidableEq, Repr

namespace Reading

def start : Reading :=
  ⟨{}, none, false⟩

/-- Judge the values of the option that is waiting for them. -/
def settle (reading : Reading) : Except Stop Reading :=
  match reading.waiting with
  | none => .ok reading
  | some (setting, values) =>
    (reading.arguments.accept setting values).map fun arguments =>
      { reading with arguments := arguments, waiting := none }

def takeSwitch (reading : Reading) (switch : Switch) : Except Stop Reading := do
  let settled ← reading.settle
  let arguments ← settled.arguments.turnOn switch
  pure { settled with arguments := arguments }

/-- An option with values, the only one of which may be attached. -/
def takeSetting (reading : Reading) (setting : Setting) (attached : Option Path) :
    Except Stop Reading := do
  let settled ← reading.settle
  match attached with
  | none => pure { settled with waiting := some (setting, []) }
  | some value =>
    let arguments ← settled.arguments.accept setting [value]
    pure { settled with arguments := arguments }

/-- The value attached to a letter: what follows it, without a `=` in front. -/
def attachedValue : List Char → Option Path
  | [] => none
  | '=' :: rest => some (String.ofList rest)
  | rest => some (String.ofList rest)

def takeLetters (reading : Reading) : List Char → Except Stop Reading
  | [] => .ok reading
  | letter :: rest =>
    match Choice.ofLetter? letter with
    | none => .error .misuse
    | some (.setting setting) => reading.takeSetting setting (attachedValue rest)
    | some (.switch switch) =>
      match reading.takeSwitch switch with
      | .error stop => .error stop
      | .ok next => next.takeLetters rest

def takeWord (reading : Reading) (text : List Char) : Except Stop Reading :=
  let word := text.takeWhile (· != '=')
  let attached :=
    match text.dropWhile (· != '=') with
    | [] => none
    | _ :: value => some (String.ofList value)
  match Choice.ofWord? (String.ofList word), attached with
  | none, _ => .error .misuse
  | some (.setting setting), _ => reading.takeSetting setting attached
  | some (.switch switch), none => reading.takeSwitch switch
  | some (.switch _), some _ => .error .misuse

/-- An argument that is no option: a value of the option that waits for one. -/
def takeValue (reading : Reading) (value : Path) : Except Stop Reading :=
  match reading.waiting with
  | none => .error .misuse
  | some (setting, values) =>
    if reading.closed ∨ setting.arity ≤ values.length then .error .misuse
    else .ok { reading with waiting := some (setting, values ++ [value]) }

/-- One argument. A lone dash is a value, and two dashes say that no more options come. -/
def take (reading : Reading) (argument : String) : Except Stop Reading :=
  if reading.closed then
    reading.takeValue argument
  else
    match argument.toList with
    | ['-', '-'] => .ok { reading with closed := true }
    | '-' :: '-' :: text => reading.takeWord text
    | '-' :: letter :: rest => reading.takeLetters (letter :: rest)
    | _ => reading.takeValue argument

end Reading

/-- The request of a list of arguments: either to compile or to print. -/
def Arguments.read (arguments : List String) : Except Stop Arguments := do
  let reading ← arguments.foldlM Reading.take Reading.start
  let settled ← reading.settle
  let request := settled.arguments
  if request.compile.isSome == request.dump.isSome then throw .misuse
  pure request

end HartBoot.CommandLine
