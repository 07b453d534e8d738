import HartBoot.CommandLine.Arguments
import HartBoot.Compilation
import HartBoot.ImageFile.Report

/-!
Contract: one run of the program, from its arguments to everything that is left of it.

Owns:
- `CommandLine.run`, what is shown, the exit status, and the files afterwards;
- `Failure`, why a run fails that was asked for correctly;
- the texts of the program itself: its banner, its version and its help.

Does not own: the work (see `HartBoot.Compilation` and `HartBoot.ImageFile.Report`).
-/

namespace HartBoot.CommandLine

def versionText : String := "payload-gen 0.1.0"

def banner : String := "Boot image payload generator v0.1.0"

def usageText : String :=
  "Usage: payload-gen [OPTIONS] <--config <CONFIG> <OUTPUT>|--dump <IMAGE>>"

def helpLines : List String :=
  ["Boot image payload generator",
    "",
    usageText,
    "",
    "Options:",
    "  -c, --config <CONFIG> <OUTPUT>  Compile a YAML configuration into a boot image",
    "  -d, --dump <IMAGE>              Dump the contents of an existing boot image",
    "  -v, --verbose...                Increase verbosity (repeat for more)",
    "  -w, --wide                      Wide output: one line per program header and chunk",
    "      --prefix-tokens             Match configuration keys by prefix instead of exactly",
    "  -h, --help                      Print help",
    "  -V, --version                   Print version"]

/-- Why a run fails that was asked for correctly. -/
inductive Failure where
  | compilation (fault : Compilation.Fault)
  | report (fault : ImageFile.ReportFault)
  /-- The option to compile was given more than once. -/
  | manyFiles
  deriving DecidableEq, Repr

def Failure.message : Failure → String
  | .compilation fault => fault.message
  | .report fault => fault.message
  | .manyFiles => "Expected either -c <config> <output> or -d <image>"

/-- Whether a sum that was no word has broken the run off, so that nothing has handed back an
error. -/
def Failure.breaksOff : Failure → Bool
  | .compilation (.config (.payload .overflow)) => true
  | .report (.invalid .overflow) => true
  | _ => false

/-- The exit status of a run that fails. -/
def Failure.status (failure : Failure) : UInt8 :=
  if failure.breaksOff then 101 else 1

/-- What is shown when a run fails. -/
def Failure.shown (failure : Failure) : String :=
  if failure.breaksOff then "thread 'main' panicked:\n" ++ failure.message ++ "\n"
  else "Error: " ++ failure.message ++ "\n"

def perform (arguments : Arguments) : Action Files Failure Unit := do
  Action.say [.line banner]
  match arguments.compile, arguments.dump with
  | some [config, output], _ => do
    let options : Compilation.Options := ⟨arguments.matching, arguments.wide⟩
    let _ ←
      Action.within id (fun files _ => files) .compilation
        (Compilation.run options config output)
    pure ()
  | _, some image =>
    Action.within id (fun files _ => files) .report (ImageFile.printFile image arguments.wide)
  | _, none => Action.fail .manyFiles

/-- Everything that is left of a run. -/
structure Finished where
  status : UInt8
  /-- What is shown, in its order. -/
  output : List String
  /-- What is shown as an error; empty if there is none. -/
  errors : String
  files : Files

def run (arguments : List String) (files : Files) : Finished :=
  match Arguments.read arguments with
  | .error .misuse => ⟨2, [], "error: unexpected arguments\n\n" ++ usageText ++ "\n", files⟩
  | .error .help => ⟨0, helpLines, "", files⟩
  | .error .version => ⟨0, [versionText], "", files⟩
  | .ok request =>
    let outcome := (perform request).run files
    let shown := outcome.notes.console request.limit
    match outcome.result with
    | .ok () => ⟨0, shown, "", outcome.state⟩
    | .error failure => ⟨failure.status, shown, failure.shown, outcome.state⟩

end HartBoot.CommandLine
