import HartBoot.CommandLine.Run

/-!
Contract: the program as a process.

Owns:
- `main`, which looks at the files that a run can open, does the run, and writes the file that it
  changed.

The run itself is a function of the arguments and of those files.

Does not own: any rule of the program (see `HartBoot.CommandLine.Run`).
-/

namespace HartBoot.Process

def requestPaths : PayloadSink.Request → List Path
  | .extract path _ _ => [path]
  | .embed path _ _ ancillary => path :: ancillary.toList

/-- The payload files that a configuration names, up to its first error. No file counts as an
executable here, so that the ancillary files are named as well. -/
def payloadPaths (matching : Matching) (text : String) : List Path :=
  let sink := PayloadSink.answering fun _ => false
  let outcome := (Config.read sink.recorded matching text).run ([], ())
  outcome.state.1.flatMap requestPaths

/-- What is at a place of the file system. -/
def lookAt (place : Place) : IO (Option Node) := do
  if Files.isBase place then
    pure (some .directory)
  else
    try
      let contents ← IO.FS.readBinFile (Files.pathTo place)
      pure (some (.file contents.toList))
    catch
      | .inappropriateType _ _ _ => pure (some .directory)
      | _ => pure none

/-- Add what is at some places, up to the first one that no path can pass. -/
def lookAlong (files : Files) : List Place → IO Files
  | [] => pure files
  | place :: rest => do
    match ← lookAt place with
    | none => pure files
    | some (.file contents) => pure (files.insert place (.file contents))
    | some .directory => lookAlong (files.insert place .directory) rest

/-- Add what is on the ways to some paths. -/
def lookFor (files : Files) (paths : List Path) : IO Files :=
  paths.foldlM (fun files path => lookAlong files (Files.route path)) files

def snapshot (request : CommandLine.Arguments) : IO Files := do
  let files ← lookFor Files.empty (request.compile.getD [] ++ request.dump.toList)
  match request.compile with
  | some [config, _] =>
    match Compilation.readText files config with
    | .ok text => lookFor files (payloadPaths request.matching text)
    | .error _ => pure files
  | _ => pure files

/-- The path and the contents of the file that a run has written. -/
def written? (request : CommandLine.Arguments) (before after : Files) : Option (Path × Bytes) :=
  match request.compile with
  | some [_, output] =>
    if before = after then none
    else (after.read output).toOption.map fun contents => (output, contents)
  | _ => none

def present (finished : CommandLine.Finished) : IO UInt32 := do
  for line in finished.output do
    IO.println line
  IO.eprint finished.errors
  pure finished.status.toUInt32

/-- Say that a file could not be written after all. -/
def presentUnwritable (output : Path) : IO UInt32 := do
  let fault := Compilation.Fault.unwritable output .notFound
  IO.eprintln ("Error: " ++ fault.message)
  pure 1

def perform (arguments : List String) (request : CommandLine.Arguments) : IO UInt32 := do
  let before ← snapshot request
  let finished := CommandLine.run arguments before
  match written? request before finished.files with
  | none => present finished
  | some (output, contents) =>
    try
      IO.FS.writeBinFile output ⟨contents.toArray⟩
      present finished
    catch _ => presentUnwritable output

end HartBoot.Process

def main (arguments : List String) : IO UInt32 :=
  match HartBoot.CommandLine.Arguments.read arguments with
  | .ok request => HartBoot.Process.perform arguments request
  | .error _ =>
    HartBoot.Process.present (HartBoot.CommandLine.run arguments HartBoot.Files.empty)
