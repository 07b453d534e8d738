import HartBoot.Action
import HartBoot.BootFlags
import HartBoot.Files
import HartBoot.ImageFile.Inspection
import HartBoot.Runs

/-!
Contract: the printed contents of a boot image file.

Owns:
- `Summary.report`, the lines about the records of a file;
- `ImageFile.printFile`, the same for a file that is given by its path, and `ReportFault`, why it
  cannot be printed.

Does not own: reading the records (see `HartBoot.ImageFile.Inspection`).
-/

namespace HartBoot.ImageFile

def pluralEnding (count : Nat) : String :=
  if count = 1 then "" else "s"

def HartRecord.privilegeText (record : HartRecord) : String :=
  match Privilege.ofCode? record.privilege with
  | some mode => mode.label
  | none => "Unknown"

def HartRecord.knownFlags (record : HartRecord) : BootFlags :=
  BootFlags.ofBits record.flags

def HartRecord.report (record : HartRecord) (index : Nat) : Transcript :=
  let number := "[" ++ toString index ++ "]"
  let flagNames :=
    match record.knownFlags.names with
    | [] => []
    | names => [Note.line ("\t " ++ " ".intercalate names)]
  [.line ("name" ++ number ++ ":            >>" ++ Name.read record.name.bytes ++ "<<"),
    .line ("entryPoint" ++ number ++ ":      " ++ Text.hex record.entry.toNat),
    .line ("privMode" ++ number ++ ":        " ++ record.privilegeText),
    .line ("flags" ++ number ++ ":           " ++ Text.hex record.flags.toNat)] ++
    flagNames ++
    [.line ("firstChunk" ++ number ++ "       " ++ toString record.firstChunk.toNat),
      .line ("lastChunk" ++ number ++ "        " ++ toString record.lastChunk.toNat),
      .line ("numChunks" ++ number ++ "        " ++ toString record.chunkCount.toNat)]

def Header.report (header : Header) : Transcript :=
  [.line ("magic:              " ++ Text.hex header.magic.toNat),
    .line ("version:            " ++ toString header.version.toNat),
    .line ("headerLength:       " ++ Text.hex header.headerLength.toNat),
    .line ("chunkTableOffset:   " ++ Text.hex header.chunkTable.toNat),
    .line ("ziChunkTableOffset: " ++ Text.hex header.zeroTable.toNat)] ++
    (header.harts.toList.zipIdx.flatMap fun (record, index) => record.report index) ++
    [.line ("set_name            >>" ++ Name.read header.setName.bytes ++ "<<"),
      .line ("bootImageLength:    " ++ toString header.imageLength.toNat),
      .line ("headerCrc:          " ++ Text.hexPadded 8 header.checksum.toNat)]

/-- The messages about one chunk, on one line if `wide`, else on two. -/
def ChunkRecord.notes (wide : Bool) (record : ChunkRecord) : Transcript :=
  let source :=
    "\towner " ++ toString record.owner.toNat ++ " load " ++ Text.hex record.position.toNat
  let target :=
    " exec " ++ Text.hex record.address.toNat ++ " size " ++ Text.hex record.size.toNat ++
      " crc " ++ Text.hexDigitsPadded 8 record.checksum.toNat
  if wide then [.debug (source ++ target)]
  else [.debug source, .debug ("\t " ++ target)]

def ZeroRecord.note (record : ZeroRecord) : Note :=
  .debug
    ("\towner " ++ toString record.owner.toNat ++ " exec " ++ Text.hex record.address.toNat ++
      " size " ++ Text.hex record.size.toNat)

namespace Summary

def chunkRuns (summary : Summary) : List (UInt32 × Nat) :=
  runs (summary.chunks.map ChunkRecord.owner)

/-- The owners of neighbouring regions of zeros, counted together. -/
def zeroRuns (summary : Summary) : List (UInt32 × Nat) :=
  runs (summary.zeroed.map ZeroRecord.owner)

/-- A line for each run of things of a kind. -/
def runLines (kind : String) (counted : List (UInt32 × Nat)) : Transcript :=
  counted.map fun (owner, count) =>
    .line
      (" - " ++ toString count ++ " " ++ kind ++ pluralEnding count ++ " found for owner " ++
        toString owner.toNat)

/-- The line about the number of all things of a kind. -/
def totalLine (title : String) (total : Nat) : Note :=
  .line (title ++ ": total of " ++ toString total ++ " chunk" ++ pluralEnding total ++ " found")

def report (wide : Bool) (summary : Summary) : Transcript :=
  summary.header.report ++
    summary.chunks.flatMap (ChunkRecord.notes wide) ++
    runLines "chunk" summary.chunkRuns ++
    [totalLine "Boot Chunks" summary.chunks.length] ++
    summary.zeroed.map ZeroRecord.note ++
    runLines "ZI chunk" summary.zeroRuns ++
    [totalLine "ZI Chunks" summary.zeroed.length]

end Summary

/-- Why the contents of a file cannot be printed. -/
inductive ReportFault where
  | unreadable (path : Path) (cause : FileFault)
  | invalid (cause : Fault)
  deriving DecidableEq, Repr

def ReportFault.message : ReportFault → String
  | .unreadable path _ => "Cannot read file '" ++ path ++ "'"
  | .invalid cause => cause.message

def printFile (path : Path) (wide : Bool) : Action Files ReportFault Unit := do
  Action.say [.line ("opening >>" ++ path ++ "<<")]
  let files ← Action.look
  let file ← Action.ofExcept ((files.read path).mapError (.unreadable path))
  Action.say (inspectionNotes file)
  let summary ← Action.ofExcept ((inspect file).mapError .invalid)
  Action.say (summary.report wide)

end HartBoot.ImageFile
