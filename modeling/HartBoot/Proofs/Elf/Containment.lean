import HartBoot.Proofs.Elf.Extraction
import HartBoot.Proofs.LoadPlan.Span

/-!
Contract: where in memory the loaded parts of an executable are.

Owns:
- the spans of segments and of sections;
- `Section.inside_iff`, which compares the test of the extraction with these spans;
- the law of containment: what is added lies in a loadable segment, except that a segment that
  reaches the last address also takes what goes on behind its end.

Does not own: which sections are added (see `HartBoot.Proofs.Elf.Extraction`).
-/

namespace HartBoot.Elf

def Segment.span (segment : Segment) : Span :=
  ⟨segment.address.toNat, segment.address.toNat + segment.memorySize.toNat⟩

def Section.span (element : Section) : Span :=
  ⟨element.address.toNat, element.address.toNat + element.size.toNat⟩

/-- The span of a segment ends at the last address or behind it. -/
def Segment.ReachesTop (segment : Segment) : Prop :=
  UInt64.size ≤ segment.span.limit + 1

/-- A span lies in a segment that is loaded. -/
def Program.Covers (program : Program) (span : Span) : Prop :=
  ∃ segment ∈ program.segments, segment.kind = Segment.loadKind ∧ span.Within segment.span

/-- A section takes up memory and starts in a loadable segment that reaches the last address, or
behind it, but it lies in no loadable segment. -/
structure Program.Strays (program : Program) (element : Section) : Prop where
  allocated : element.flags &&& Section.allocatedFlag ≠ 0
  sized : element.size ≠ 0
  behind : ∃ segment ∈ program.segments, segment.kind = Segment.loadKind ∧ segment.ReachesTop ∧
    segment.span.start ≤ element.span.start
  outside : ¬ program.Covers element.span

/-- The test of the extraction looks at the end of a section only if the segment ends before the
last address. -/
theorem Section.inside_iff {element : Section} {segment : Segment} :
    element.inside segment ↔
      segment.span.start ≤ element.span.start ∧
        (element.span.limit ≤ segment.span.limit ∨ segment.ReachesTop) := by
  have started : segment.address ≤ element.address ↔ segment.span.start ≤ element.span.start :=
    UInt64.le_iff_toNat_le
  have stopped : element.stop ≤ segment.stop ↔
      element.span.limit ≤ segment.span.limit ∨ segment.ReachesTop := by
    unfold Section.stop Segment.stop Segment.ReachesTop Section.span Segment.span offsetLimit
    dsimp only
    omega
  rw [Section.inside, Bool.and_eq_true, decide_eq_true_iff, decide_eq_true_iff, started, stopped]

/-! ## What is added -/

section Added

variable {bytes : Bytes} {owner : Hart} {program : Program} {elements : List Section} {span : Span}

/-- The entries that sections give have the spans of the sections. -/
theorem mem_spans_iff (provided : ProvidesAll bytes elements) :
    span ∈ (⟨chunksOf bytes owner elements, zeroedOf owner elements⟩ : LoadPlan).spans ↔
      ∃ element ∈ elements, element.span = span := by
  have filled : ∀ element ∈ elements, element.kind ≠ Section.zeroedKind →
      LoadPlan.chunkSpan
          ⟨owner, element.address, (bytes.drop element.offset.toNat).take element.size.toNat⟩ =
        element.span := by
    intro element member data
    have whole := (provided element member data).inside
    simp only [LoadPlan.chunkSpan, Section.span, List.length_take, List.length_drop]
    congr 2
    omega
  simp only [LoadPlan.spans, chunksOf, zeroedOf, List.mem_append, List.map_map, List.mem_map,
    List.mem_filter, Function.comp_apply, decide_eq_true_iff]
  constructor
  · intro added
    rcases added with ⟨element, ⟨member, data⟩, same⟩ | ⟨element, ⟨member, -⟩, same⟩
    · exact ⟨element, member, (filled element member data).symm.trans same⟩
    · exact ⟨element, member, same⟩
  · intro added
    rcases added with ⟨element, member, same⟩
    by_cases zeroed : element.kind = Section.zeroedKind
    · exact .inr ⟨element, ⟨member, zeroed⟩, same⟩
    · exact .inl ⟨element, ⟨member, zeroed⟩, (filled element member zeroed).trans same⟩

theorem mem_loaded_iff {element : Section} :
    element ∈ program.loaded ↔
      element ∈ program.sections ∧ ∃ segment ∈ program.segments, Loaded segment element := by
  simp only [Program.loaded, List.mem_flatMap, List.mem_filter, decide_eq_true_iff]
  constructor
  · intro loaded
    rcases loaded with ⟨segment, listed, member, loaded⟩
    exact ⟨member, segment, listed, loaded⟩
  · intro loaded
    rcases loaded with ⟨member, segment, listed, loaded⟩
    exact ⟨segment, listed, member, loaded⟩

/-- What is loaded starts in a loadable segment, and ends in it too unless the segment reaches the
last address. -/
theorem within_or_reachesTop_of_loaded {element : Section} (loaded : element ∈ program.loaded) :
    ∃ segment ∈ program.segments, segment.kind = Segment.loadKind ∧
      segment.span.start ≤ element.span.start ∧
      (element.span.limit ≤ segment.span.limit ∨ segment.ReachesTop) := by
  obtain ⟨-, segment, listed, loads⟩ := mem_loaded_iff.mp loaded
  exact ⟨segment, listed, loads.loads, Section.inside_iff.mp loads.inside⟩

theorem strays_iff {element : Section} (listed : element ∈ program.sections) :
    program.Strays element ↔ element ∈ program.loaded ∧ ¬ program.Covers element.span := by
  constructor
  · intro strays
    obtain ⟨segment, known, loads, top, behind⟩ := strays.behind
    have inside : element.inside segment := Section.inside_iff.mpr ⟨behind, .inr top⟩
    have loaded : Loaded segment element := ⟨loads, inside, strays.allocated, strays.sized⟩
    exact ⟨mem_loaded_iff.mpr ⟨listed, segment, known, loaded⟩, strays.outside⟩
  · intro uncovered
    rcases uncovered with ⟨member, outside⟩
    obtain ⟨-, segment, known, loaded⟩ := mem_loaded_iff.mp member
    obtain ⟨behind, ends | top⟩ := Section.inside_iff.mp loaded.inside
    · exact absurd ⟨segment, known, loaded.loads, behind, ends⟩ outside
    · exact ⟨loaded.allocated, loaded.sized, ⟨segment, known, loaded.loads, top, behind⟩, outside⟩

end Added

/-! ## The law of containment -/

/-- Everything that an executable adds starts in a loadable segment, and it ends in the same segment
unless that one reaches the last address. So it all lies in loadable segments exactly when no
section starts in a segment that reaches the last address and lies in no loadable segment. -/
theorem extract_within_segments
    (files : Files)
    (path : Path)
    (owner : Hart)
    (address : UInt64)
    (wide : Bool)
    (before after : LoadPlan)
    (accepted : (extract files path owner address wide).Succeeds before true after) :
    ∃ bytes program added,
      files.read path = .ok bytes ∧ Opens bytes program ∧ before.followedBy added = after ∧
        (∀ span ∈ added.spans, ∃ segment ∈ program.segments, segment.kind = Segment.loadKind ∧
          segment.span.start ≤ span.start ∧
          (span.limit ≤ segment.span.limit ∨ segment.ReachesTop)) ∧
        ((∀ span ∈ added.spans, program.Covers span) ↔
          ∀ element ∈ program.sections, ¬ program.Strays element) := by
  obtain ⟨bytes, program, found, opens, provided, same⟩ := succeeds_extract_true.mp accepted
  refine ⟨bytes, program, _, found, opens, same, ?_, ?_⟩
  · intro span member
    obtain ⟨element, loaded, rfl⟩ := (mem_spans_iff provided).mp member
    exact within_or_reachesTop_of_loaded loaded
  · constructor
    · intro covered element listed strays
      obtain ⟨loaded, outside⟩ := (strays_iff listed).mp strays
      exact outside (covered element.span ((mem_spans_iff provided).mpr ⟨element, loaded, rfl⟩))
    · intro none span member
      obtain ⟨element, loaded, rfl⟩ := (mem_spans_iff provided).mp member
      have listed := (mem_loaded_iff.mp loaded).1
      by_contra outside
      exact none element listed ((strays_iff listed).mpr ⟨loaded, outside⟩)

/-- The segment of the small executable ends far below the last address, and both of its sections
lie in it. -/
theorem extract_within_segments_small :
    let files : Files := ⟨[(["p"], .file smallExecutable)]⟩
    let after : LoadPlan :=
      ⟨[⟨.u54_2, 0x80000000, List.replicate 16 0xAA⟩], [⟨.u54_2, 0x80000010, 32⟩]⟩
    (extract files "p" .u54_2 0 false).Succeeds LoadPlan.empty true after ∧
      after.spans = [⟨0x80000000, 0x80000010⟩, ⟨0x80000010, 0x80000030⟩] ∧
      (∀ element ∈ smallProgram.sections, ¬ smallProgram.Strays element) ∧
      ∀ span ∈ after.spans, smallProgram.Covers span := by
  intro files after
  have found : files.read "p" = .ok smallExecutable := by cbv
  have taken : (extract files "p" .u54_2 0 false).Succeeds LoadPlan.empty true after :=
    succeeds_extract_true.mpr ⟨_, _, found, opens_small, providesAll_small, by decide +kernel⟩
  have staying : ∀ element ∈ smallProgram.sections, ¬ smallProgram.Strays element := by
    intro element _ strays
    obtain ⟨segment, listed, -, top, -⟩ := strays.behind
    obtain rfl := List.mem_singleton.mp listed
    exact absurd top (Nat.not_le_of_lt (by decide))
  obtain ⟨bytes, program, added, again, opens, same, -, covered⟩ :=
    extract_within_segments files "p" .u54_2 0 false LoadPlan.empty after taken
  obtain rfl := Except.ok.inj (found.symm.trans again)
  obtain rfl := opens_small.functional opens
  obtain rfl : added = after := same
  exact ⟨taken, by decide, staying, covered.mpr staying⟩

/-- An executable with one loaded segment, the last page of the address space, and a section of
thirty-two bytes of zeros that starts sixteen bytes before its end. -/
def topExecutable : Bytes :=
  magic ++ [2, 1, 1] ++ Bytes.zeros 9 ++
    littleEndian
      [(2, 2), (2, 243), (4, 1), (8, 0xFFFFFFFFFFFFF000), (8, 64), (8, 120), (4, 0), (2, 64),
        (2, 56), (2, 1), (2, 64), (2, 2), (2, 0)] ++
    littleEndian
      [(4, 1), (4, 6), (8, 0), (8, 0xFFFFFFFFFFFFF000), (8, 0xFFFFFFFFFFFFF000), (8, 0),
        (8, 0x1000), (8, 8)] ++
    Bytes.zeros 64 ++
    littleEndian
      [(4, 0), (4, 8), (8, 0x3), (8, 0xFFFFFFFFFFFFFFF0), (8, 0), (8, 32), (4, 0), (4, 0), (8, 1),
        (8, 0)]

/-- What there is to read in that executable. -/
def topProgram : Program where
  object :=
    { bytes := topExecutable
      header :=
        { format := ⟨.bits64, .little⟩
          kind := Header.executable
          machine := Header.riscV
          entry := 0xFFFFFFFFFFFFF000
          segmentsAt := 64
          sectionsAt := 120
          segmentSize := 56
          segmentCount := 1
          sectionSize := 64
          sectionCount := 2
          namesIndex := 0 }
      sectionTable := some (topExecutable.drop 120)
      segmentTable := some ((topExecutable.drop 64).take 56) }
  sections :=
    [⟨0, 0, 0, 0, 0, 0, 0, 0⟩, ⟨0, 8, 0x3, 0xFFFFFFFFFFFFFFF0, 0, 32, 0, 0⟩]
  segments := [⟨1, 6, 0, 0xFFFFFFFFFFFFF000, 0xFFFFFFFFFFFFF000, 0, 0x1000, 8⟩]
  names := none

theorem opens_top : Opens topExecutable topProgram where
  magic := by decide
  object := by decide +kernel
  machine := rfl
  kind := rfl
  segments := by decide +kernel
  names := by decide +kernel
  sections := by decide +kernel

/-- That executable is taken apart, and it adds zeros for addresses behind the last one, which lie
in no segment. -/
theorem extract_beyond_last_address :
    let files : Files := ⟨[(["p"], .file topExecutable)]⟩
    let after : LoadPlan := ⟨[], [⟨.u54_1, 0xFFFFFFFFFFFFFFF0, 32⟩]⟩
    (extract files "p" .u54_1 0 false).Succeeds LoadPlan.empty true after ∧
      Opens topExecutable topProgram ∧
      after.spans = [⟨0xFFFFFFFFFFFFFFF0, 0x10000000000000010⟩] ∧
      ¬ ∀ span ∈ after.spans, topProgram.Covers span := by
  intro files after
  have found : files.read "p" = .ok topExecutable := by cbv
  have loaded : topProgram.loaded = topProgram.sections.drop 1 := by decide +kernel
  have provided : ProvidesAll topExecutable topProgram.loaded := by
    rw [loaded]
    intro element member filled
    obtain rfl := List.mem_singleton.mp member
    exact absurd rfl filled
  have taken : (extract files "p" .u54_1 0 false).Succeeds LoadPlan.empty true after :=
    succeeds_extract_true.mpr ⟨_, _, found, opens_top, provided, by decide +kernel⟩
  refine ⟨taken, opens_top, by decide, ?_⟩
  intro covered
  obtain ⟨segment, listed, -, within⟩ := covered _ (List.mem_singleton_self _)
  obtain rfl := List.mem_singleton.mp listed
  exact absurd within.limit (by decide)

end HartBoot.Elf
