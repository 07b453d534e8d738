import HartBoot.Config.Reading
import HartBoot.ImageFile.Assembly
import HartBoot.LoadPlan.Sink

/-!
Contract: from a configuration file to a boot image file.

Owns:
- `Compilation.plan`, the image and the load plan that a configuration text describes;
- `Compilation.run`, which writes the image file, and `Compilation.Fault`, why it does not.

The image file is written last, so nothing is written if anything fails before.

Does not own: the steps themselves (see `HartBoot.Config.Reading` and
`HartBoot.ImageFile.Assembly`).
-/

namespace HartBoot.Compilation

/-- How a configuration is read and listed. -/
structure Options where
  matching : Matching := .whole
  /-- Whether a listed program header takes one line. -/
  wide : Bool := false
  deriving DecidableEq, Repr

/-- Why no image file is written. -/
inductive Fault where
  | unreadable (path : Path) (cause : FileFault)
  /-- The configuration file is not UTF-8. -/
  | notText (path : Path)
  | config (error : Config.Error)
  | unwritable (path : Path) (cause : FileFault)
  deriving DecidableEq, Repr

def Fault.message : Fault → String
  | .unreadable path _ => "Cannot read configuration '" ++ path ++ "'"
  | .notText path => "Cannot read configuration '" ++ path ++ "'"
  | .config error => error.message
  | .unwritable path _ => "Unable to write boot image " ++ path

def readText (files : Files) (path : Path) : Except Fault String :=
  match files.read path with
  | .error cause => .error (.unreadable path cause)
  | .ok bytes =>
    match Utf8.decode? bytes with
    | some text => .ok text
    | none => .error (.notText path)

/-- The image and the load plan that a configuration text describes. -/
def plan (files : Files) (options : Options) (text : String) :
    Action LoadPlan Config.Error Image :=
  Config.read (LoadPlan.sink files options.wide) options.matching text

def writeImage (image : Image) (loads : LoadPlan) (output : Path) : Action Files Fault Unit := do
  Action.say [.line ("Output filename is >>" ++ output ++ "<<")]
  Action.say (ImageFile.assemblyNotes loads)
  let contents := ImageFile.assemble image loads
  let files ← Action.look
  let written ← Action.ofExcept ((files.write output contents).mapError (.unwritable output))
  Action.change fun _ => written
  Action.say
    [.info
      ("Wrote " ++ toString contents.length ++ " bytes (" ++ toString loads.chunks.length ++
        " chunks, " ++ toString loads.zeroed.length ++ " ZI chunks)")]

/-- Read a configuration file and the payloads that it names, and write the image file. -/
def run (options : Options) (config output : Path) : Action Files Fault Image := do
  Action.say [.info ("Input filename is >>" ++ config ++ "<<")]
  let files ← Action.look
  let text ← Action.ofExcept (readText files config)
  let (image, loads) ← Action.apart LoadPlan.empty .config (plan files options text)
  Action.say [.line ("Set-name is >>" ++ image.setName.text ++ "<<")]
  writeImage image loads output
  pure image

end HartBoot.Compilation
