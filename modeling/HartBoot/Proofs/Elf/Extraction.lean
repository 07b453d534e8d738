import HartBoot.Elf.Extraction
import HartBoot.Proofs.Bytes
import HartBoot.Proofs.LoadPlan.Entries
import HartBoot.Proofs.Trace
import Mathlib

/-!
Contract: what taking an executable apart adds to a plan, and when it cannot be done.

Owns:
- `Loaded` and `Program.loaded`, the sections that are loaded, in the order in which they are added;
- `Provides`, which says that the data of a section can be taken from a file;
- `Opens`, the files whose header and tables can be read;
- the law of the extraction: it adds just these sections, and it fails just when the data of one of
  them cannot be taken.

Each step of the two loops is a lemma of its own, and a trace of added sections carries them from
one section to all sections of all segments.

Does not own: what the fields of the headers mean (see `HartBoot.Elf.Segment` and
`HartBoot.Elf.Section`).
-/

namespace HartBoot.Elf

/-! ## The sections that are loaded -/

/-- A section is loaded with a segment: the segment is loaded, the section lies in it, and it takes
up memory. -/
structure Loaded (segment : Segment) (element : Section) : Prop where
  loads : segment.kind = Segment.loadKind
  inside : element.inside segment
  allocated : element.flags &&& Section.allocatedFlag ≠ 0
  sized : element.size ≠ 0

theorem loaded_iff {segment : Segment} {element : Section} :
    Loaded segment element ↔
      element.inside segment ∧ (segment.loads && element.occupies) := by
  simp only [Segment.loads, Section.occupies, Bool.and_eq_true, beq_iff_eq, bne_iff_ne]
  constructor
  · intro loaded
    exact ⟨loaded.inside, loaded.loads, loaded.allocated, loaded.sized⟩
  · intro loaded
    rcases loaded with ⟨inside, loads, allocated, sized⟩
    exact ⟨loads, inside, allocated, sized⟩

instance (segment : Segment) (element : Section) : Decidable (Loaded segment element) :=
  decidable_of_iff _ loaded_iff.symm

/-- The sections that are loaded: for one segment after the other, those that are loaded with it in
their order. A section that lies in two segments is loaded twice. -/
def Program.loaded (program : Program) : List Section :=
  program.segments.flatMap fun segment =>
    program.sections.filter fun element => Loaded segment element

/-- The chunks that sections with data give. -/
def chunksOf (bytes : Bytes) (owner : Hart) (elements : List Section) : List Chunk :=
  (elements.filter fun element => element.kind ≠ Section.zeroedKind).map fun element =>
    ⟨owner, element.address, (bytes.drop element.offset.toNat).take element.size.toNat⟩

/-- The regions of zeros that sections without data give. -/
def zeroedOf (owner : Hart) (elements : List Section) : List ZeroRegion :=
  (elements.filter fun element => element.kind = Section.zeroedKind).map fun element =>
    ⟨owner, element.address, element.size⟩

/-- The data of a section can be taken from a file: it is not compressed, and all of it is there. -/
structure Provides (bytes : Bytes) (element : Section) : Prop where
  plain : element.flags &&& Section.compressedFlag = 0
  addressable : element.offset.toNat + element.size.toNat < UInt64.size
  inside : element.offset.toNat + element.size.toNat ≤ bytes.length

/-- The data of every section that has data can be taken from a file. -/
def ProvidesAll (bytes : Bytes) (elements : List Section) : Prop :=
  ∀ element ∈ elements, element.kind ≠ Section.zeroedKind → Provides bytes element

theorem region_eq_ok_iff {bytes part : Bytes} {start size : Nat} :
    region bytes start size = .ok part ↔
      start + size < UInt64.size ∧ start + size ≤ bytes.length ∧
        (bytes.drop start).take size = part := by
  rw [← Bytes.slice?_eq_some_iff, region]
  by_cases large : offsetLimit ≤ start + size
  · have refused : ¬ start + size < UInt64.size := Nat.not_lt_of_le large
    simp [large, refused]
  · have small : start + size < UInt64.size := Nat.lt_of_not_le large
    cases bytes.slice? start size <;> simp [large, small]

theorem Object.sectionData_eq_ok_iff
    {object : Object}
    {label : String}
    {element : Section}
    {data : Bytes} :
    object.sectionData label element = .ok data ↔
      Provides object.bytes element ∧
        (object.bytes.drop element.offset.toNat).take element.size.toNat = data := by
  unfold sectionData content
  rw [Except.bind_eq_ok_iff]
  simp only [region_eq_ok_iff]
  by_cases compressed : element.isCompressed
  · -- Of a compressed section, at most a fault of its header is told instead.
    have refused : ¬ Provides object.bytes element := by
      intro provided
      rw [Section.isCompressed, provided.plain] at compressed
      exact absurd compressed (by decide)
    simp only [compressed, refused, if_true, false_and, iff_false]
    intro taken
    obtain ⟨_, -, rest⟩ := taken
    obtain ⟨_, -, impossible⟩ := Except.bind_eq_ok_iff.mp rest
    cases impossible
  · have plain : element.flags &&& Section.compressedFlag = 0 := by
      rw [Section.isCompressed, bne_iff_ne, not_not] at compressed
      exact compressed
    simp only [compressed]
    constructor
    · intro taken
      rcases taken with ⟨part, ⟨addressable, inside, same⟩, ⟨⟩⟩
      exact ⟨⟨plain, addressable, inside⟩, same⟩
    · intro taken
      rcases taken with ⟨provided, same⟩
      exact ⟨_, ⟨provided.addressable, provided.inside, same⟩, rfl⟩

/-! ## One section -/

/-- A section of a file is added to a plan. -/
def Adds (bytes : Bytes) (owner : Hart) (element : Section) (before after : LoadPlan) : Prop :=
  ProvidesAll bytes [element] ∧
    before.followedBy ⟨chunksOf bytes owner [element], zeroedOf owner [element]⟩ = after

namespace Program

variable {program : Program} {owner : Hart} {before after : LoadPlan} {done : Unit}

theorem succeeds_place {segment : Segment} {element : Section} (inside : element.inside segment) :
    (program.place owner segment element).Succeeds before done after ↔
      Trace (Adds program.object.bytes owner)
        ([element].filter fun element => Loaded segment element) before after := by
  unfold place
  by_cases placed : segment.loads && element.occupies
  · have loaded : Loaded segment element := loaded_iff.mpr ⟨inside, placed⟩
    rw [if_pos placed, List.filter_cons_of_pos (by simpa using loaded), List.filter_nil,
      Trace.singleton_iff]
    unfold Section.isZeroed Adds ProvidesAll chunksOf zeroedOf
    by_cases zeroed : element.kind = Section.zeroedKind
    · simp [zeroed]
    · simp [zeroed, Object.sectionData_eq_ok_iff, and_assoc]
  · have skipped : ¬ Loaded segment element := fun loaded => placed (loaded_iff.mp loaded).2
    rw [if_neg placed, List.filter_cons_of_neg (by simpa using skipped), List.filter_nil,
      Trace.nil_iff]
    simp

/-! ## All sections of all segments -/

theorem succeeds_placeAll {segment : Segment} {elements : List Section} :
    (program.placeAll owner segment elements).Succeeds before done after ↔
      Trace (Adds program.object.bytes owner)
        (elements.filter fun element => Loaded segment element) before after := by
  induction elements generalizing before with
  | nil => simp [placeAll]
  | cons element rest inductionHypothesis =>
    rw [placeAll]
    by_cases inside : element.inside segment
    · have split := List.filter_append (p := fun element => Loaded segment element) [element] rest
      rw [List.singleton_append] at split
      rw [split, Trace.append_iff]
      simp [inside, succeeds_place inside, inductionHypothesis]
    · have skipped : ¬ Loaded segment element := fun loaded => inside loaded.inside
      rw [List.filter_cons_of_neg (by simpa using skipped)]
      simp [inside, inductionHypothesis]

theorem succeeds_placeSegments {index : Nat} {segments : List Segment} :
    (program.placeSegments owner index segments).Succeeds before done after ↔
      Trace (Adds program.object.bytes owner)
        (segments.flatMap fun segment =>
          program.sections.filter fun element => Loaded segment element) before after := by
  induction segments generalizing index before with
  | nil => simp [placeSegments]
  | cons segment rest inductionHypothesis =>
    rw [placeSegments, List.flatMap_cons, Trace.append_iff]
    simp [succeeds_placeAll, inductionHypothesis]

theorem succeeds_load {wide : Bool} :
    (program.load owner wide).Succeeds before done after ↔
      Trace (Adds program.object.bytes owner) program.loaded before after := by
  simp [load, succeeds_placeSegments, loaded]

end Program

/-- Added one after the other, sections give the chunks and the regions of zeros of all of them. -/
theorem trace_adds_iff
    {bytes : Bytes}
    {owner : Hart}
    {elements : List Section}
    {before after : LoadPlan} :
    Trace (Adds bytes owner) elements before after ↔
      ProvidesAll bytes elements ∧
        before.followedBy ⟨chunksOf bytes owner elements, zeroedOf owner elements⟩ = after := by
  induction elements generalizing before with
  | nil => simp [ProvidesAll, chunksOf, zeroedOf, LoadPlan.followedBy]
  | cons element rest inductionHypothesis =>
    have provided : ProvidesAll bytes (element :: rest) ↔
        ProvidesAll bytes [element] ∧ ProvidesAll bytes rest := by
      simp [ProvidesAll]
    have added : (⟨chunksOf bytes owner (element :: rest), zeroedOf owner (element :: rest)⟩ :
          LoadPlan) =
        LoadPlan.followedBy ⟨chunksOf bytes owner [element], zeroedOf owner [element]⟩
          ⟨chunksOf bytes owner rest, zeroedOf owner rest⟩ := by
      rw [← List.singleton_append]
      simp only [chunksOf, zeroedOf, LoadPlan.followedBy, List.filter_append, List.map_append]
    rw [Trace.cons_iff, provided, added, ← LoadPlan.followedBy_assoc]
    constructor
    · intro trace
      rcases trace with ⟨middle, ⟨first, rfl⟩, others⟩
      obtain ⟨further, same⟩ := inductionHypothesis.mp others
      exact ⟨⟨first, further⟩, same⟩
    · intro taken
      rcases taken with ⟨⟨first, further⟩, same⟩
      exact ⟨_, ⟨first, rfl⟩, inductionHypothesis.mpr ⟨further, same⟩⟩

/-! ## The whole file -/

/-- The header and the tables of a file can be read, and it is an executable for the right
machine. -/
structure Opens (bytes : Bytes) (program : Program) : Prop where
  magic : hasMagic bytes
  object : Object.read bytes = .ok program.object
  machine : program.object.header.machine = Header.riscV
  kind : program.object.header.kind = Header.executable
  segments : program.object.segments = some program.segments
  names : program.object.names = .ok program.names
  sections : program.object.sections = some program.sections

theorem Object.bytes_of_read {bytes : Bytes} {object : Object} (found : read bytes = .ok object) :
    object.bytes = bytes := by
  obtain ⟨header, -, rest⟩ := Except.bind_eq_ok_iff.mp found
  obtain ⟨sectionTable, -, rest⟩ := Except.bind_eq_ok_iff.mp rest
  obtain ⟨segmentTable, -, rest⟩ := Except.bind_eq_ok_iff.mp rest
  obtain rfl := Except.ok.inj rest
  rfl

theorem Program.ofObject_eq_ok_iff {object : Object} {program : Program} :
    ofObject object = .ok program ↔
      program.object = object ∧ object.segments = some program.segments ∧
        object.names = .ok program.names ∧ object.sections = some program.sections := by
  rcases program with ⟨known, sections, segments, names⟩
  unfold ofObject
  cases object.segments with
  | none => simp [throw, throwThe, MonadExceptOf.throw]
  | some found =>
    simp only [Except.bind_eq_ok_iff]
    cases object.sections with
    | none => simp [throw, throwThe, MonadExceptOf.throw]
    | some table =>
      constructor
      · intro built
        rcases built with ⟨labels, named, ⟨⟩⟩
        exact ⟨rfl, rfl, named, rfl⟩
      · intro described
        rcases described with ⟨rfl, ⟨⟩, named, ⟨⟩⟩
        exact ⟨names, named, rfl⟩

theorem checkHeader_eq_ok_iff {path : Path} {header : Header} {done : Unit} :
    checkHeader path header = .ok done ↔
      header.machine = Header.riscV ∧ header.kind = Header.executable := by
  unfold checkHeader
  split
  case isTrue foreign => simp [foreign]
  case isFalse native =>
    split
    case isTrue other => simp [other]
    case isFalse executable => simp_all

theorem succeeds_extractBytes
    {path : Path}
    {bytes : Bytes}
    {owner : Hart}
    {address : UInt64}
    {wide : Bool}
    {before after : LoadPlan}
    {done : Unit}
    (magic : hasMagic bytes) :
    (extractBytes path bytes owner address wide).Succeeds before done after ↔
      ∃ program, Opens bytes program ∧ ProvidesAll bytes program.loaded ∧
        before.followedBy
          ⟨chunksOf bytes owner program.loaded, zeroedOf owner program.loaded⟩ = after := by
  simp only [extractBytes, Action.succeeds_bind, Action.succeeds_ofExcept, Action.succeeds_say,
    Action.succeeds_within, Except.mapError_eq_ok_iff, checkHeader_eq_ok_iff,
    Program.ofObject_eq_ok_iff, Program.succeeds_load]
  constructor
  · intro taken
    rcases taken with ⟨object, _, ⟨found, rfl⟩, _, _, ⟨⟨machine, kind⟩, rfl⟩, _, _, rfl, program, _,
      ⟨⟨rfl, segments, names, sections⟩, rfl⟩, _, loaded, rfl⟩
    rw [Object.bytes_of_read found, trace_adds_iff] at loaded
    exact ⟨program, ⟨magic, found, machine, kind, segments, names, sections⟩, loaded⟩
  · intro opened
    rcases opened with ⟨program, opens, loaded⟩
    rw [← trace_adds_iff, ← Object.bytes_of_read opens.object] at loaded
    exact ⟨program.object, _, ⟨opens.object, rfl⟩, (), _, ⟨⟨opens.machine, opens.kind⟩, rfl⟩, (), _,
      rfl, program, _, ⟨⟨rfl, opens.segments, opens.names, opens.sections⟩, rfl⟩, _, loaded, rfl⟩

section Extract

variable {files : Files} {path : Path} {owner : Hart} {address : UInt64} {wide : Bool}
  {before after : LoadPlan}

/-- A file is taken apart when its tables can be read and the data of every section that is loaded
can be taken, and then these sections are added. -/
theorem succeeds_extract_true :
    (extract files path owner address wide).Succeeds before true after ↔
      ∃ bytes program, files.read path = .ok bytes ∧ Opens bytes program ∧
        ProvidesAll bytes program.loaded ∧
          before.followedBy
            ⟨chunksOf bytes owner program.loaded, zeroedOf owner program.loaded⟩ = after := by
  simp only [extract, Action.succeeds_bind, Action.succeeds_ofExcept, Except.mapError_eq_ok_iff]
  constructor
  · intro taken
    rcases taken with ⟨bytes, _, ⟨found, rfl⟩, rest⟩
    by_cases magic : hasMagic bytes
    · simp only [magic, if_true, Action.succeeds_bind, Action.succeeds_say, Action.succeeds_pure,
        succeeds_extractBytes magic] at rest
      obtain ⟨_, _, rfl, _, _, ⟨program, opened⟩, -, rfl⟩ := rest
      exact ⟨bytes, program, found, opened⟩
    · simp [magic] at rest
  · intro opened
    rcases opened with ⟨bytes, program, found, opens, loaded⟩
    refine ⟨bytes, before, ⟨found, rfl⟩, ?_⟩
    simp only [opens.magic, if_true, Action.succeeds_bind, Action.succeeds_say,
      Action.succeeds_pure, succeeds_extractBytes opens.magic]
    exact ⟨(), _, rfl, (), _, ⟨program, opens, loaded⟩, trivial, rfl⟩

/-- A file is said to be no executable exactly when it does not start like one. -/
theorem succeeds_extract_false :
    (extract files path owner address wide).Succeeds before false after ↔
      (∃ bytes, files.read path = .ok bytes ∧ hasMagic bytes = false) ∧ before = after := by
  simp only [extract, Action.succeeds_bind, Action.succeeds_ofExcept, Except.mapError_eq_ok_iff]
  constructor
  · intro taken
    rcases taken with ⟨bytes, _, ⟨found, rfl⟩, rest⟩
    by_cases magic : hasMagic bytes
    · simp [magic] at rest
    · have same : before = after := by simpa [magic] using rest
      exact ⟨⟨bytes, found, Bool.eq_false_iff.mpr magic⟩, same⟩
  · intro refused
    rcases refused with ⟨⟨bytes, found, plain⟩, rfl⟩
    refine ⟨bytes, before, ⟨found, rfl⟩, ?_⟩
    simp [plain]

/-- Sections are refused when the data of one of them is compressed, or not all there. -/
theorem not_providesAll_iff {bytes : Bytes} {elements : List Section} :
    ¬ ProvidesAll bytes elements ↔
      ∃ element ∈ elements, element.kind ≠ Section.zeroedKind ∧
        (element.flags &&& Section.compressedFlag ≠ 0 ∨
          UInt64.size ≤ element.offset.toNat + element.size.toNat ∨
          bytes.length < element.offset.toNat + element.size.toNat) := by
  have refused : ∀ element, ¬ Provides bytes element ↔
      element.flags &&& Section.compressedFlag ≠ 0 ∨
        UInt64.size ≤ element.offset.toNat + element.size.toNat ∨
        bytes.length < element.offset.toNat + element.size.toNat := by
    intro element
    have whole : Provides bytes element ↔
        element.flags &&& Section.compressedFlag = 0 ∧
          element.offset.toNat + element.size.toNat < UInt64.size ∧
          element.offset.toNat + element.size.toNat ≤ bytes.length :=
      ⟨fun provided => ⟨provided.plain, provided.addressable, provided.inside⟩,
        fun holds => ⟨holds.1, holds.2.1, holds.2.2⟩⟩
    rw [whole, Classical.not_and_iff_not_or_not, Classical.not_and_iff_not_or_not, Nat.not_lt,
      Nat.not_le]
  simp only [ProvidesAll, ← refused, Classical.not_forall, exists_prop]

/-- A file can be read in one way at most. -/
theorem Opens.functional
    {bytes : Bytes}
    {first second : Program}
    (one : Opens bytes first)
    (other : Opens bytes second) :
    first = second := by
  have object := Except.ok.inj (one.object.symm.trans other.object)
  have segments := one.segments.symm.trans (object ▸ other.segments)
  have names := one.names.symm.trans (object ▸ other.names)
  have sections := one.sections.symm.trans (object ▸ other.sections)
  rcases first with ⟨_, _, _, _⟩
  rcases second with ⟨_, _, _, _⟩
  obtain rfl := object
  obtain rfl := Option.some.inj segments
  obtain rfl := Except.ok.inj names
  obtain rfl := Option.some.inj sections
  rfl

end Extract

/-- An executable adds one chunk for each section with data that is loaded, and one region of zeros
for each of the others, segment by segment and section by section, behind everything that was in
the plan. The address that a configuration gives and the form of the listing do not matter. A file
whose header and tables can be read is refused exactly when one of these sections has data that is
compressed, or that is not all there. -/
theorem extract_adds_loaded
    (files : Files)
    (path : Path)
    (owner : Hart)
    (address : UInt64)
    (wide : Bool)
    (before : LoadPlan) :
    (∀ after, (extract files path owner address wide).Succeeds before true after →
        (∃ bytes program, files.read path = .ok bytes ∧ Opens bytes program ∧
            after.chunks = before.chunks ++ chunksOf bytes owner program.loaded ∧
            after.zeroed = before.zeroed ++ zeroedOf owner program.loaded ∧
            ∀ element ∈ program.loaded, element.kind ≠ Section.zeroedKind →
              element.offset.toNat + element.size.toNat ≤ bytes.length) ∧
          ∀ otherAddress otherWide,
            (extract files path owner otherAddress otherWide).Succeeds before true after) ∧
      ∀ bytes program, files.read path = .ok bytes → Opens bytes program →
        ((∃ fault after, (extract files path owner address wide).Fails before fault after) ↔
          ∃ element ∈ program.loaded, element.kind ≠ Section.zeroedKind ∧
            (element.flags &&& Section.compressedFlag ≠ 0 ∨
              UInt64.size ≤ element.offset.toNat + element.size.toNat ∨
              bytes.length < element.offset.toNat + element.size.toNat)) := by
  constructor
  · intro after taken
    obtain ⟨bytes, program, found, opens, provided, rfl⟩ := succeeds_extract_true.mp taken
    refine ⟨⟨bytes, program, found, opens, rfl, rfl, ?_⟩, ?_⟩
    · exact fun element member filled => (provided element member filled).inside
    · intro otherAddress otherWide
      exact succeeds_extract_true.mpr ⟨bytes, program, found, opens, provided, rfl⟩
  · intro bytes program found opens
    have accepted : (∃ value after, (extract files path owner address wide).Succeeds before value
        after) ↔ ProvidesAll bytes program.loaded := by
      constructor
      · intro taken
        rcases taken with ⟨value, after, taken⟩
        cases value with
        | true =>
          obtain ⟨again, other, foundAgain, opensAgain, provided, -⟩ :=
            succeeds_extract_true.mp taken
          obtain rfl := Except.ok.inj (found.symm.trans foundAgain)
          obtain rfl := opens.functional opensAgain
          exact provided
        | false =>
          obtain ⟨⟨again, foundAgain, plain⟩, -⟩ := succeeds_extract_false.mp taken
          obtain rfl := Except.ok.inj (found.symm.trans foundAgain)
          rw [opens.magic] at plain
          cases plain
      · intro provided
        exact ⟨true, _, succeeds_extract_true.mpr ⟨bytes, program, found, opens, provided, rfl⟩⟩
    rw [Action.exists_fails_iff, accepted, not_providesAll_iff]

/-- Numbers, each of them with the number of its bytes, least significant byte first. -/
def littleEndian (fields : List (Nat × Nat)) : Bytes :=
  fields.flatMap fun (width, value) => ByteOrder.little.encode width value

/-- An executable with one loaded segment at `0x80000000`, which holds sixteen bytes of data and
thirty-two bytes of zeros behind them, in one section each. -/
def smallExecutable : Bytes :=
  magic ++ [2, 1, 1] ++ Bytes.zeros 9 ++
    littleEndian
      [(2, 2), (2, 243), (4, 1), (8, 0x80000000), (8, 64), (8, 136), (4, 0), (2, 64), (2, 56),
        (2, 1), (2, 64), (2, 2), (2, 0)] ++
    littleEndian
      [(4, 1), (4, 7), (8, 120), (8, 0x80000000), (8, 0x80000000), (8, 16), (8, 48), (8, 8)] ++
    List.replicate 16 0xAA ++
    littleEndian
      [(4, 0), (4, 1), (8, 0x6), (8, 0x80000000), (8, 120), (8, 16), (4, 0), (4, 0), (8, 1),
        (8, 0)] ++
    littleEndian
      [(4, 0), (4, 8), (8, 0x3), (8, 0x80000010), (8, 136), (8, 32), (4, 0), (4, 0), (8, 1),
        (8, 0)]

/-- What there is to read in the small executable. -/
def smallProgram : Program where
  object :=
    { bytes := smallExecutable
      header :=
        { format := ⟨.bits64, .little⟩
          kind := Header.executable
          machine := Header.riscV
          entry := 0x80000000
          segmentsAt := 64
          sectionsAt := 136
          segmentSize := 56
          segmentCount := 1
          sectionSize := 64
          sectionCount := 2
          namesIndex := 0 }
      sectionTable := some (smallExecutable.drop 136)
      segmentTable := some ((smallExecutable.drop 64).take 56) }
  sections :=
    [⟨0, 1, 0x6, 0x80000000, 120, 16, 0, 0⟩, ⟨0, 8, 0x3, 0x80000010, 136, 32, 0, 0⟩]
  segments := [⟨1, 7, 120, 0x80000000, 0x80000000, 16, 48, 8⟩]
  names := none

theorem opens_small : Opens smallExecutable smallProgram where
  magic := by decide
  object := by decide +kernel
  machine := rfl
  kind := rfl
  segments := by decide +kernel
  names := by decide +kernel
  sections := by decide +kernel

theorem providesAll_small : ProvidesAll smallExecutable smallProgram.loaded := by
  have loaded : smallProgram.loaded = smallProgram.sections := by decide +kernel
  have length : smallExecutable.length = 264 := by decide +kernel
  rw [loaded]
  intro element member filled
  rcases List.mem_cons.mp member with rfl | behind
  · exact ⟨by decide, by decide, by rw [length]; decide⟩
  · obtain rfl := List.mem_singleton.mp behind
    exact absurd rfl filled

/-- The small executable adds its two sections behind a chunk that was there before, and it is not
refused. -/
theorem extract_adds_loaded_small :
    let files : Files := ⟨[(["p"], .file smallExecutable)]⟩
    let before : LoadPlan := ⟨[⟨.u54_1, 0, [1]⟩], []⟩
    let after : LoadPlan :=
      ⟨[⟨.u54_1, 0, [1]⟩, ⟨.u54_2, 0x80000000, List.replicate 16 0xAA⟩],
        [⟨.u54_2, 0x80000010, 32⟩]⟩
    (extract files "p" .u54_2 0x1000 false).Succeeds before true after ∧
      files.read "p" = .ok smallExecutable ∧
      Opens smallExecutable smallProgram ∧
      (∃ bytes program, files.read "p" = .ok bytes ∧ Opens bytes program ∧
        after.chunks = before.chunks ++ chunksOf bytes .u54_2 program.loaded ∧
        after.zeroed = before.zeroed ++ zeroedOf .u54_2 program.loaded) ∧
      ((∃ fault reached, (extract files "p" .u54_2 0x1000 false).Fails before fault reached) ↔
        ∃ element ∈ smallProgram.loaded, element.kind ≠ Section.zeroedKind ∧
          (element.flags &&& Section.compressedFlag ≠ 0 ∨
            UInt64.size ≤ element.offset.toNat + element.size.toNat ∨
            smallExecutable.length < element.offset.toNat + element.size.toNat)) := by
  intro files before after
  have found : files.read "p" = .ok smallExecutable := by cbv
  have taken : (extract files "p" .u54_2 0x1000 false).Succeeds before true after :=
    succeeds_extract_true.mpr
      ⟨_, _, found, opens_small, providesAll_small, by decide +kernel⟩
  have law := extract_adds_loaded files "p" .u54_2 0x1000 false before
  obtain ⟨⟨bytes, program, again, opens, chunks, zeroed, -⟩, -⟩ := law.1 after taken
  exact ⟨taken, found, opens_small, ⟨bytes, program, again, opens, chunks, zeroed⟩,
    law.2 smallExecutable smallProgram found opens_small⟩

end HartBoot.Elf
