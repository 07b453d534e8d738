import HartBoot.Proofs.Elf.Containment
import Mathlib.Data.List.Basic

/-!
Contract: how often the sections of an executable are put into memory.

Owns:
- `Program.Resident`, the sections that belong into memory, said without the order of the tables;
- `Program.Separate`, the executables whose loadable segments have no address in common;
- the law of multiplicity: of a separate executable, each resident section gives one entry, and
  there are no other entries.

A section header that stands in the table twice counts twice, so entries and headers are compared
as permutations, and not as sets.

Does not own: where the entries are (see `HartBoot.Proofs.Elf.Containment`), nor their order (see
`HartBoot.Proofs.Elf.Extraction`).
-/

namespace HartBoot

/-- All entries of a plan: its chunks, and behind them its regions of zeros. -/
def LoadPlan.entries (plan : LoadPlan) : List (Chunk ⊕ ZeroRegion) :=
  plan.chunks.map .inl ++ plan.zeroed.map .inr

namespace Elf

/-! ## Sections that belong into memory -/

instance (inner outer : Span) : Decidable (inner.Within outer) :=
  decidable_of_iff (outer.start ≤ inner.start ∧ inner.limit ≤ outer.limit)
    ⟨fun within => ⟨within.1, within.2⟩, fun within => ⟨within.start, within.limit⟩⟩

instance (program : Program) (span : Span) : Decidable (program.Covers span) :=
  inferInstanceAs
    (Decidable (∃ segment ∈ program.segments,
      segment.kind = Segment.loadKind ∧ span.Within segment.span))

/-- A section takes up memory, and it lies in a loadable segment. -/
structure Program.Resident (program : Program) (element : Section) : Prop where
  allocated : element.flags &&& Section.allocatedFlag ≠ 0
  sized : element.size ≠ 0
  covered : program.Covers element.span

instance (program : Program) (element : Section) : Decidable (program.Resident element) :=
  decidable_of_iff
    (element.flags &&& Section.allocatedFlag ≠ 0 ∧ element.size ≠ 0 ∧
      program.Covers element.span)
    ⟨fun resident => ⟨resident.1, resident.2.1, resident.2.2⟩,
      fun resident => ⟨resident.allocated, resident.sized, resident.covered⟩⟩

/-- No two loadable segments have an address in common. Other segments may lie anywhere. -/
def Program.Separate (program : Program) : Prop :=
  program.segments.Pairwise fun first second =>
    first.kind = Segment.loadKind → second.kind = Segment.loadKind →
      first.span.Disjoint second.span

/-- The entry that a section gives: a region of zeros if it has no data in the file, else a
chunk. -/
def Section.entry (bytes : Bytes) (owner : Hart) (element : Section) : Chunk ⊕ ZeroRegion :=
  if element.kind = zeroedKind then
    .inr ⟨owner, element.address, element.size⟩
  else
    .inl ⟨owner, element.address, (bytes.drop element.offset.toNat).take element.size.toNat⟩

/-! ## One segment at most -/

section Loaded

variable {program : Program} {segment other : Segment} {element : Section}

theorem Loaded.span_sized (loaded : Loaded segment element) :
    element.span.start < element.span.limit := by
  have positive : 0 < element.size.toNat := by
    have nonzero : element.size.toNat ≠ 0 := fun zero =>
      loaded.sized (UInt64.toNat_inj.mp zero)
    omega
  exact Nat.lt_add_of_pos_right positive

/-- The saturated ends that the extraction compares are the exact ones if the section ends below
the limit of addresses. Nothing has to be known of the end of the segment. -/
theorem Loaded.within
    (loaded : Loaded segment element)
    (bounded : element.span.limit < UInt64.size) :
    element.span.Within segment.span := by
  obtain ⟨behind, ends | top⟩ := Section.inside_iff.mp loaded.inside
  · exact ⟨behind, ends⟩
  · unfold Segment.ReachesTop at top
    exact ⟨behind, by omega⟩

theorem Program.resident_iff (bounded : element.span.limit < UInt64.size) :
    program.Resident element ↔ ∃ segment ∈ program.segments, Loaded segment element := by
  constructor
  · intro resident
    obtain ⟨segment, listed, loads, within⟩ := resident.covered
    have inside : element.inside segment :=
      Section.inside_iff.mpr ⟨within.start, .inl within.limit⟩
    exact ⟨segment, listed, loads, inside, resident.allocated, resident.sized⟩
  · intro loads
    obtain ⟨segment, listed, loaded⟩ := loads
    exact ⟨loaded.allocated, loaded.sized, segment, listed, loaded.loads, loaded.within bounded⟩

/-- A section with an address is not loaded with two segments that have none in common. -/
theorem Loaded.not_loaded_of_disjoint
    (loaded : Loaded segment element)
    (bounded : element.span.limit < UInt64.size)
    (disjoint : segment.kind = Segment.loadKind → other.kind = Segment.loadKind →
      segment.span.Disjoint other.span) :
    ¬ Loaded other element := by
  intro again
  exact (disjoint loaded.loads again.loads).not_within_both loaded.span_sized
    (loaded.within bounded) (again.within bounded)

end Loaded

/-! ## All segments -/

/-- What is selected by one test and what is selected by another one, if no entry passes both. -/
theorem filter_append_filter_perm
    {α : Type}
    {first second : α → Bool}
    {entries : List α}
    (apart : ∀ entry ∈ entries, first entry → ¬ second entry) :
    (entries.filter first ++ entries.filter second).Perm
      (entries.filter fun entry => first entry || second entry) := by
  induction entries with
  | nil => exact .refl []
  | cons entry rest inductionHypothesis =>
    have others := inductionHypothesis fun other member => apart other (.tail entry member)
    have here := apart entry List.mem_cons_self
    cases one : first entry with
    | true =>
      have not : second entry = false := by simpa using here one
      simp only [List.filter_cons, one, not, Bool.true_or, if_true, List.cons_append]
      exact others.cons entry
    | false =>
      cases two : second entry with
      | true =>
        simp only [List.filter_cons, one, two, Bool.false_or, if_true]
        exact List.perm_middle.trans (others.cons entry)
      | false =>
        simp only [List.filter_cons, one, two, Bool.false_or]
        exact others

/-- Going through segments that have no address in common loads each section once, namely with the
one segment that it lies in. -/
theorem flatMap_loaded_perm
    {segments : List Segment}
    {sections : List Section}
    (separate : segments.Pairwise fun first second =>
      first.kind = Segment.loadKind → second.kind = Segment.loadKind →
        first.span.Disjoint second.span)
    (bounded : ∀ element ∈ sections, element.span.limit < UInt64.size) :
    (segments.flatMap fun segment => sections.filter fun element => Loaded segment element).Perm
      (sections.filter fun element => ∃ segment ∈ segments, Loaded segment element) := by
  induction segments with
  | nil => simp
  | cons segment rest inductionHypothesis =>
    obtain ⟨disjoint, others⟩ := List.pairwise_cons.mp separate
    have apart : ∀ element ∈ sections,
        decide (Loaded segment element) →
          ¬ decide (∃ other ∈ rest, Loaded other element) := by
      intro element member loaded again
      obtain ⟨other, listed, loadedAgain⟩ := of_decide_eq_true again
      exact (of_decide_eq_true loaded).not_loaded_of_disjoint (bounded element member)
        (disjoint other listed) loadedAgain
    have together := filter_append_filter_perm apart
    rw [List.flatMap_cons]
    refine (List.Perm.append_left _ (inductionHypothesis others)).trans ?_
    simpa only [List.mem_cons, exists_eq_or_imp, Bool.decide_or] using together

/-- The sections that are loaded are the resident ones, in another order. -/
theorem Program.loaded_perm_resident
    {program : Program}
    (separate : program.Separate)
    (bounded : ∀ element ∈ program.sections, element.span.limit < UInt64.size) :
    program.loaded.Perm (program.sections.filter fun element => program.Resident element) := by
  have same : (program.sections.filter fun element => program.Resident element) =
      program.sections.filter fun element =>
        ∃ segment ∈ program.segments, Loaded segment element := by
    refine List.filter_congr fun element member => ?_
    rw [decide_eq_decide]
    exact resident_iff (bounded element member)
  rw [same]
  exact flatMap_loaded_perm separate bounded

/-! ## Entries -/

/-- Chunks and regions of zeros together are one entry for each section. -/
theorem entries_perm_map_entry (bytes : Bytes) (owner : Hart) (elements : List Section) :
    (⟨chunksOf bytes owner elements, zeroedOf owner elements⟩ : LoadPlan).entries.Perm
      (elements.map (Section.entry bytes owner)) := by
  have filled : (chunksOf bytes owner elements).map Sum.inl =
      (elements.filter fun element => element.kind ≠ Section.zeroedKind).map
        (Section.entry bytes owner) := by
    rw [chunksOf, List.map_map]
    refine List.map_congr_left fun element member => ?_
    have data : element.kind ≠ Section.zeroedKind :=
      of_decide_eq_true (List.mem_filter.mp member).2
    rw [Section.entry, if_neg data]
    rfl
  have cleared : (zeroedOf owner elements).map Sum.inr =
      (elements.filter fun element => ! decide (element.kind ≠ Section.zeroedKind)).map
        (Section.entry bytes owner) := by
    have tests : (fun element : Section => ! decide (element.kind ≠ Section.zeroedKind)) =
        fun element => decide (element.kind = Section.zeroedKind) := by
      funext element
      simp
    rw [tests, zeroedOf, List.map_map]
    refine List.map_congr_left fun element member => ?_
    have zeroed : element.kind = Section.zeroedKind :=
      of_decide_eq_true (List.mem_filter.mp member).2
    rw [Section.entry, if_pos zeroed]
    rfl
  rw [LoadPlan.entries, filled, cleared, ← List.map_append]
  exact (List.filter_append_perm _ elements).map _

/-! ## The law of multiplicity -/

/-- If no two loadable segments of an executable have an address in common, and no section ends
beyond the last address, then what is added is one entry for each section header that is resident:
zeros for a section without data, a chunk for any other one. Segments of other kinds may cover the
same addresses, and nothing is assumed of the ends of segments. -/
theorem extract_adds_resident_once
    (files : Files)
    (path : Path)
    (owner : Hart)
    (address : UInt64)
    (wide : Bool)
    (before after : LoadPlan)
    (bytes : Bytes)
    (program : Program)
    (accepted : (extract files path owner address wide).Succeeds before true after)
    (found : files.read path = .ok bytes)
    (opens : Opens bytes program)
    (separate : program.Separate)
    (bounded : ∀ element ∈ program.sections, element.span.limit < UInt64.size) :
    ∃ added : LoadPlan,
      before.followedBy added = after ∧
        added.entries.Perm
          ((program.sections.filter fun element => program.Resident element).map
            (Section.entry bytes owner)) := by
  obtain ⟨again, other, foundAgain, opensAgain, -, same⟩ := succeeds_extract_true.mp accepted
  obtain rfl := Except.ok.inj (found.symm.trans foundAgain)
  obtain rfl := opens.functional opensAgain
  refine ⟨_, same, (entries_perm_map_entry bytes owner program.loaded).trans ?_⟩
  exact (Program.loaded_perm_resident separate bounded).map _

/-- An executable with two loadable segments, the second of which starts where the first one ends,
and between them a note about the first one. Of its four sections, one has data, one has zeros, and
two take up no memory: the first one and a comment. -/
def splitExecutable : Bytes :=
  magic ++ [2, 1, 1] ++ Bytes.zeros 9 ++
    littleEndian
      [(2, 2), (2, 243), (4, 1), (8, 0x80000000), (8, 64), (8, 240), (4, 0), (2, 64), (2, 56),
        (2, 3), (2, 64), (2, 4), (2, 0)] ++
    littleEndian
      [(4, 1), (4, 5), (8, 232), (8, 0x80000000), (8, 0x80000000), (8, 8), (8, 8), (8, 8)] ++
    littleEndian
      [(4, 4), (4, 4), (8, 232), (8, 0x80000000), (8, 0x80000000), (8, 8), (8, 8), (8, 8)] ++
    littleEndian
      [(4, 1), (4, 6), (8, 240), (8, 0x80000008), (8, 0x80000008), (8, 0), (8, 16), (8, 8)] ++
    List.replicate 8 0xAA ++
    Bytes.zeros 64 ++
    littleEndian
      [(4, 0), (4, 1), (8, 0x6), (8, 0x80000000), (8, 232), (8, 8), (4, 0), (4, 0), (8, 1),
        (8, 0)] ++
    littleEndian
      [(4, 0), (4, 8), (8, 0x3), (8, 0x80000008), (8, 240), (8, 16), (4, 0), (4, 0), (8, 1),
        (8, 0)] ++
    littleEndian
      [(4, 0), (4, 1), (8, 0x30), (8, 0), (8, 232), (8, 4), (4, 0), (4, 0), (8, 1), (8, 1)]

/-- What there is to read in that executable. -/
def splitProgram : Program where
  object :=
    { bytes := splitExecutable
      header :=
        { format := ⟨.bits64, .little⟩
          kind := Header.executable
          machine := Header.riscV
          entry := 0x80000000
          segmentsAt := 64
          sectionsAt := 240
          segmentSize := 56
          segmentCount := 3
          sectionSize := 64
          sectionCount := 4
          namesIndex := 0 }
      sectionTable := some (splitExecutable.drop 240)
      segmentTable := some ((splitExecutable.drop 64).take 168) }
  sections :=
    [⟨0, 0, 0, 0, 0, 0, 0, 0⟩, ⟨0, 1, 0x6, 0x80000000, 232, 8, 0, 0⟩,
      ⟨0, 8, 0x3, 0x80000008, 240, 16, 0, 0⟩, ⟨0, 1, 0x30, 0, 232, 4, 0, 0⟩]
  segments :=
    [⟨1, 5, 232, 0x80000000, 0x80000000, 8, 8, 8⟩, ⟨4, 4, 232, 0x80000000, 0x80000000, 8, 8, 8⟩,
      ⟨1, 6, 240, 0x80000008, 0x80000008, 0, 16, 8⟩]
  names := none

theorem opens_split : Opens splitExecutable splitProgram where
  magic := by decide
  object := by decide +kernel
  machine := rfl
  kind := rfl
  segments := by decide +kernel
  names := by decide +kernel
  sections := by decide +kernel

theorem separate_split : splitProgram.Separate := by
  have adjacent : (⟨0x80000000, 0x80000008⟩ : Span).Disjoint ⟨0x80000008, 0x80000018⟩ :=
    Span.disjoint_of_le (Nat.le_refl _)
  refine List.pairwise_cons.mpr ⟨?_, List.pairwise_cons.mpr ⟨?_, List.pairwise_singleton _ _⟩⟩
  · intro second member _ loads
    rcases List.mem_cons.mp member with rfl | behind
    · -- A note is not loaded, so it may cover what the segment before it covers.
      exact absurd loads (by decide)
    · obtain rfl := List.mem_singleton.mp behind
      exact adjacent
  · intro second _ loads
    exact absurd loads (by decide)

/-- The two sections that take up memory give one entry each, although the note covers the first
one once more. -/
theorem extract_adds_resident_once_split :
    let files : Files := ⟨[(["p"], .file splitExecutable)]⟩
    let before : LoadPlan := ⟨[⟨.u54_1, 0, [1]⟩], []⟩
    let after : LoadPlan :=
      ⟨[⟨.u54_1, 0, [1]⟩, ⟨.u54_3, 0x80000000, List.replicate 8 0xAA⟩],
        [⟨.u54_3, 0x80000008, 16⟩]⟩
    (extract files "p" .u54_3 0 false).Succeeds before true after ∧
      files.read "p" = .ok splitExecutable ∧
      Opens splitExecutable splitProgram ∧
      splitProgram.Separate ∧
      (∀ element ∈ splitProgram.sections, element.span.limit < UInt64.size) ∧
      ∃ added : LoadPlan,
        before.followedBy added = after ∧
          added.entries.Perm
            [.inl ⟨.u54_3, 0x80000000, List.replicate 8 0xAA⟩,
              .inr ⟨.u54_3, 0x80000008, 16⟩] := by
  intro files before after
  have single (content : Bytes) :
      Files.read ⟨[(["p"], .file content)]⟩ "p" = .ok content := by cbv
  have found : files.read "p" = .ok splitExecutable := single splitExecutable
  have loaded : splitProgram.loaded = (splitProgram.sections.drop 1).take 2 := by decide +kernel
  have length : splitExecutable.length = 496 := by decide +kernel
  have provided : ProvidesAll splitExecutable splitProgram.loaded := by
    rw [loaded]
    intro element member filled
    rcases List.mem_cons.mp member with rfl | behind
    · exact ⟨by decide, by decide, by rw [length]; decide⟩
    · obtain rfl := List.mem_singleton.mp behind
      exact absurd rfl filled
  have taken : (extract files "p" .u54_3 0 false).Succeeds before true after :=
    succeeds_extract_true.mpr ⟨_, _, found, opens_split, provided, by decide +kernel⟩
  have bounded : ∀ element ∈ splitProgram.sections, element.span.limit < UInt64.size := by
    decide +kernel
  have entries : (splitProgram.sections.filter fun element => splitProgram.Resident element).map
      (Section.entry splitExecutable .u54_3) =
        [.inl ⟨.u54_3, 0x80000000, List.replicate 8 0xAA⟩, .inr ⟨.u54_3, 0x80000008, 16⟩] := by
    decide +kernel
  obtain ⟨added, same, once⟩ :=
    extract_adds_resident_once files "p" .u54_3 0 false before after splitExecutable splitProgram
      taken found opens_split separate_split bounded
  exact ⟨taken, found, opens_split, separate_split, bounded, added, same, entries ▸ once⟩

end Elf

end HartBoot
