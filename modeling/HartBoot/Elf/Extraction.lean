import HartBoot.Elf.Object
import HartBoot.LoadPlan
import HartBoot.PayloadFault

/-!
Contract: the parts of a RISC-V executable that are put into memory.

Owns:
- `Elf.extract`, which adds the sections that lie in loaded segments to a plan: those with data
  as chunks, the others as regions of zeros;
- the order of the additions: by program header, and for each of them by section header.

Sections go to the addresses that the executable gives them, so the address that a configuration
gives is not used.

Does not own: how the tables are read (see `HartBoot.Elf.Object`).
-/

namespace HartBoot.Elf

/-- What is needed of an object to put its sections into memory. -/
structure Program where
  object : Object
  sections : List Section
  segments : List Segment
  names : Option Bytes

namespace Program

def label (program : Program) (element : Section) : String :=
  element.name program.names

/-- What is said of a section outside a segment. -/
def skipNote (program : Program) (segment : Segment) (element : Section) : Note :=
  .trace
    ("Skipping " ++ program.label element ++ ": " ++ Text.address segment.address ++ "-" ++
      Text.hexPadded 16 segment.stop ++ " vs " ++ Text.address element.address ++ "-" ++
      Text.hexPadded 16 element.stop)

/-- What is said of a section inside a segment. -/
def insideNote (program : Program) (element : Section) : Note :=
  .trace
    ("SECTION:: Name: " ++ program.label element ++
      ", sh_type: " ++ Text.hex element.kind.toNat ++
      ", sh_flags: " ++ Text.hex element.flags.toNat ++
      ", sh_addr: " ++ Text.hex element.address.toNat ++
      ", sh_offset: " ++ Text.hex element.offset.toNat ++
      ", sh_size: " ++ Text.hex element.size.toNat)

/-- Add a section that lies in a segment, if it takes up memory that is loaded. -/
def place (program : Program) (owner : Hart) (segment : Segment) (element : Section) :
    Action LoadPlan Fault Unit :=
  if segment.loads && element.occupies then
    if element.isZeroed then
      LoadPlan.addZeroed ⟨owner, element.address, element.size⟩
    else do
      let data ←
        Action.ofExcept (program.object.sectionData (program.label element) element)
      LoadPlan.addChunk ⟨owner, element.address, data⟩
  else
    pure ()

def placeAll (program : Program) (owner : Hart) (segment : Segment) :
    List Section → Action LoadPlan Fault Unit
  | [] => pure ()
  | element :: rest => do
    if element.inside segment then
      Action.say [program.insideNote element]
      program.place owner segment element
    else
      Action.say [program.skipNote segment element]
    program.placeAll owner segment rest

/-- The names of the sections that lie in a segment. -/
def labelsInside (program : Program) (segment : Segment) : List String :=
  (program.sections.filter fun element => element.inside segment).map program.label

/-- Go through segments, the first of which has the given number. -/
def placeSegments (program : Program) (owner : Hart) :
    Nat → List Segment → Action LoadPlan Fault Unit
  | _, [] => pure ()
  | index, segment :: rest => do
    program.placeAll owner segment program.sections
    Action.say
      [.debug
        ("   " ++ Text.decimalPadded 2 index ++ "     " ++
          " ".intercalate (program.labelsInside segment))]
    program.placeSegments owner (index + 1) rest

/-- What is said of an object before its sections are put into memory. -/
def summary (program : Program) (wide : Bool) : Transcript :=
  let header := program.object.header
  [.debug ("Entry point " ++ Text.hex header.entry.toNat),
    .debug
      ("There are " ++ toString header.segmentCount.toNat ++
        " program headers, starting at offset " ++ toString header.segmentsAt.toNat),
    .debug "Program Headers:"] ++
    (program.segments.zipIdx.flatMap fun (segment, index) => segment.listing wide index) ++
    [.debug " Section to Segment mapping:", .debug "  Segment Sections..."]

/-- The parts of an object, all of which have to be there. -/
def ofObject (object : Object) : Except Fault Program := do
  match object.segments with
  | none => throw .noProgramHeaders
  | some segments =>
    let names ← object.names
    match object.sections with
    | none => throw .noSectionHeaders
    | some sections => pure ⟨object, sections, segments, names⟩

def load (program : Program) (owner : Hart) (wide : Bool) : Action LoadPlan Fault Unit := do
  Action.say (program.summary wide)
  program.placeSegments owner 0 program.segments

end Program

def checkHeader (path : Path) (header : Header) : Except PayloadFault Unit :=
  if header.machine ≠ Header.riscV then .error (.foreignMachine path header.machine)
  else if header.kind ≠ Header.executable then .error (.notExecutable path header.kind)
  else .ok ()

/-- What is said if a configuration gives an address that is not where the program starts. -/
def ignoredAddress (address : UInt64) (header : Header) : Transcript :=
  if address = 0 ∨ address = header.entry then []
  else
    [.debug
      ("exec-addr " ++ Text.hex address.toNat ++ " ignored, ELF entry point is " ++
        Text.hex header.entry.toNat)]

/-- Read the bytes of an executable, and put its sections into memory. -/
def extractBytes
    (path : Path)
    (bytes : Bytes)
    (owner : Hart)
    (address : UInt64)
    (wide : Bool) :
    Action LoadPlan PayloadFault Unit := do
  let object ← Action.ofExcept ((Object.read bytes).mapError (.elf path))
  Action.ofExcept (checkHeader path object.header)
  Action.say (ignoredAddress address object.header)
  let program ← Action.ofExcept ((Program.ofObject object).mapError (.elf path))
  Action.within id (fun plan _ => plan) (.elf path) (program.load owner wide)

/-- Put the sections of an executable into memory; `false` says that the file is none. -/
def extract
    (files : Files)
    (path : Path)
    (owner : Hart)
    (address : UInt64)
    (wide : Bool) :
    Action LoadPlan PayloadFault Bool := do
  let bytes ← Action.ofExcept ((files.read path).mapError (.unreadable path))
  if hasMagic bytes then
    Action.say [.debug ("Processing ELF >>" ++ path ++ "<<")]
    extractBytes path bytes owner address wide
    pure true
  else
    Action.say [.info (">>" ++ path ++ "<< is not an ELF object")]
    pure false

end HartBoot.Elf
