import HartBoot.LoadPlan.Sink
import HartBoot.Proofs.Action
import HartBoot.Proofs.Blob
import HartBoot.Proofs.LoadPlan.Loadable
import HartBoot.Proofs.PayloadSink

/-!
Contract: what payload files can do to a load plan.

Owns:
- `LoadPlan.Grows`, a plan that has got entries of one owner behind those that it had, none of
  which can be mistaken for the end of a table;
- `Elf.extract_respects` and `Blob.embed_respects`, which say that nothing else happens to a plan,
  whatever the files hold and whether or not the work succeeds;
- `LoadPlan.sink_respects_loadability`, which follows for the receiver as a whole.

Does not own: which entries are added.
-/

namespace HartBoot

namespace LoadPlan

/-- Entries of one owner have been added behind those that were there, and all of them have a
size. -/
structure Grows (owner : Hart) (before after : LoadPlan) : Prop where
  chunks : ∃ added, after.chunks = before.chunks ++ added ∧
    ∀ chunk ∈ added, chunk.owner = owner ∧ chunk.data ≠ []
  zeroed : ∃ added, after.zeroed = before.zeroed ++ added ∧
    ∀ region ∈ added, region.owner = owner ∧ region.size ≠ 0

namespace Grows

variable {owner : Hart}

theorem refl (plan : LoadPlan) : Grows owner plan plan where
  chunks := ⟨[], (List.append_nil _).symm, fun _ member => absurd member List.not_mem_nil⟩
  zeroed := ⟨[], (List.append_nil _).symm, fun _ member => absurd member List.not_mem_nil⟩

theorem added_trans
    {α : Type}
    {property : α → Prop}
    {first second third : List α}
    (begun : ∃ added, second = first ++ added ∧ ∀ entry ∈ added, property entry)
    (continued : ∃ added, third = second ++ added ∧ ∀ entry ∈ added, property entry) :
    ∃ added, third = first ++ added ∧ ∀ entry ∈ added, property entry := by
  rcases begun with ⟨front, rfl, frontHas⟩
  rcases continued with ⟨back, rfl, backHas⟩
  refine ⟨front ++ back, List.append_assoc _ _ _, ?_⟩
  intro entry member
  rcases List.mem_append.mp member with early | late
  · exact frontHas entry early
  · exact backHas entry late

theorem trans
    {first second third : LoadPlan}
    (begun : Grows owner first second)
    (continued : Grows owner second third) :
    Grows owner first third where
  chunks := added_trans begun.chunks continued.chunks
  zeroed := added_trans begun.zeroed continued.zeroed

theorem withChunk
    (plan : LoadPlan)
    (address : UInt64)
    {data : Bytes}
    (filled : data ≠ []) :
    Grows owner plan (plan.withChunk ⟨owner, address, data⟩) where
  chunks := ⟨_, rfl, by
    intro chunk member
    rw [List.mem_singleton.mp member]
    exact ⟨rfl, filled⟩⟩
  zeroed := (refl plan).zeroed

theorem withZeroed
    (plan : LoadPlan)
    (address : UInt64)
    {size : UInt64}
    (sized : size ≠ 0) :
    Grows owner plan (plan.withZeroed ⟨owner, address, size⟩) where
  chunks := (refl plan).chunks
  zeroed := ⟨_, rfl, by
    intro region member
    rw [List.mem_singleton.mp member]
    exact ⟨rfl, sized⟩⟩

/-- A plan that grows stays free of entries without a size. -/
theorem loadable
    {before after : LoadPlan}
    (grown : Grows owner before after)
    (start : before.Loadable) :
    after.Loadable where
  chunks chunk member := by
    obtain ⟨added, total, sized⟩ := grown.chunks
    rw [total] at member
    rcases List.mem_append.mp member with old | new
    · exact start.chunks chunk old
    · exact (sized chunk new).2
  zeroed region member := by
    obtain ⟨added, total, sized⟩ := grown.zeroed
    rw [total] at member
    rcases List.mem_append.mp member with old | new
    · exact start.zeroed region old
    · exact (sized region new).2

end Grows

/-- The frame of work that only adds entries of one owner. -/
def growth (owner : Hart) : Action.Frame LoadPlan where
  allows := Grows owner
  refl := Grows.refl
  trans := Grows.trans

theorem addChunk_respects
    {ε : Type}
    (owner : Hart)
    (address : UInt64)
    {data : Bytes}
    (filled : data ≠ []) :
    (addChunk ⟨owner, address, data⟩ : Action LoadPlan ε Unit).Respects (growth owner) :=
  fun plan => Grows.withChunk plan address filled

theorem addZeroed_respects
    {ε : Type}
    (owner : Hart)
    (address : UInt64)
    {size : UInt64}
    (sized : size ≠ 0) :
    (addZeroed ⟨owner, address, size⟩ : Action LoadPlan ε Unit).Respects (growth owner) :=
  fun plan => Grows.withZeroed plan address sized

end LoadPlan

/-! ## Executables -/

namespace Elf

open LoadPlan (growth)

theorem Object.length_sectionData
    {object : Object}
    {label : String}
    {element : Section}
    {data : Bytes}
    (found : object.sectionData label element = .ok data) :
    data.length = element.size.toNat := by
  unfold sectionData at found
  obtain ⟨bytes, content, rest⟩ := Except.bind_eq_ok_iff.mp found
  have same : bytes = data := by
    split at rest
    · obtain ⟨_, -, impossible⟩ := Except.bind_eq_ok_iff.mp rest
      cases impossible
    · exact Except.ok.inj rest
  subst same
  unfold Object.content region at content
  split at content
  · cases content
  · split at content
    case h_1 sliced =>
      cases content
      exact Bytes.length_of_slice? sliced
    case h_2 => cases content

namespace Program

variable (program : Program) (owner : Hart)

/-- A section with a size gives an entry with a size. -/
theorem place_respects (segment : Segment) (element : Section) :
    (program.place owner segment element).Respects (growth owner) := by
  unfold place
  split
  case isFalse => exact .pure
  case isTrue placed =>
    have sized : element.size ≠ 0 := by
      simp only [Section.occupies, Bool.and_eq_true, bne_iff_ne] at placed
      exact placed.2.2
    split
    case isTrue => exact LoadPlan.addZeroed_respects owner element.address sized
    case isFalse =>
      refine .bind .ofExcept ?_
      rintro data ⟨before, after, succeeded⟩
      rw [Action.succeeds_ofExcept] at succeeded
      have length := Object.length_sectionData succeeded.1
      refine LoadPlan.addChunk_respects owner element.address ?_
      rintro rfl
      exact sized (UInt64.toNat_inj.mp length.symm)

theorem placeAll_respects (segment : Segment) (elements : List Section) :
    (program.placeAll owner segment elements).Respects (growth owner) := by
  induction elements with
  | nil => exact .pure
  | cons element rest inductionHypothesis =>
    rw [placeAll]
    split
    · refine .bind .say fun _ _ => ?_
      exact .bind (program.place_respects owner segment element) fun _ _ => inductionHypothesis
    · exact .bind .say fun _ _ => inductionHypothesis

theorem placeSegments_respects (index : Nat) (segments : List Segment) :
    (program.placeSegments owner index segments).Respects (growth owner) := by
  induction segments generalizing index with
  | nil => exact .pure
  | cons segment rest inductionHypothesis =>
    rw [placeSegments]
    refine .bind (program.placeAll_respects owner segment _) fun _ _ => ?_
    exact .bind .say fun _ _ => inductionHypothesis (index + 1)

end Program

theorem extractBytes_respects
    (path : Path)
    (bytes : Bytes)
    (owner : Hart)
    (address : UInt64)
    (wide : Bool) :
    (extractBytes path bytes owner address wide).Respects (growth owner) := by
  unfold extractBytes
  refine .bind .ofExcept fun object _ => ?_
  refine .bind .ofExcept fun _ _ => ?_
  refine .bind .say fun _ _ => ?_
  refine .bind .ofExcept fun program _ => ?_
  have loaded : (program.load owner wide).Respects (growth owner) :=
    .bind .say fun _ _ => program.placeSegments_respects owner 0 _
  exact loaded.within fun _ _ allowed => allowed

/-- Taking an executable apart only adds entries of its owner to a plan. -/
theorem extract_respects
    (files : Files)
    (path : Path)
    (owner : Hart)
    (address : UInt64)
    (wide : Bool) :
    (extract files path owner address wide).Respects (growth owner) := by
  unfold extract
  refine .bind .ofExcept fun bytes _ => ?_
  split
  · refine .bind .say fun _ _ => ?_
    exact .bind (extractBytes_respects path bytes owner address wide) fun _ _ => .pure
  · exact .bind .say fun _ _ => .pure

end Elf

/-! ## Other files -/

namespace Blob

open LoadPlan (growth)

theorem addFile_respects
    (files : Files)
    (path : Path)
    (owner : Hart)
    (address : UInt64) :
    (addFile files path owner address).Respects (growth owner) := by
  unfold addFile
  refine .bind .ofExcept ?_
  rintro data ⟨before, after, succeeded⟩
  rw [Action.succeeds_ofExcept] at succeeded
  refine .bind ?_ fun _ _ => .pure
  exact LoadPlan.addChunk_respects owner address (contents_eq_ok_iff.mp succeeded.1).2

/-- Embedding a file only adds entries of its owner to a plan. -/
theorem embed_respects
    (files : Files)
    (path : Path)
    (address : UInt64)
    (owner : Hart)
    (ancillary : Option Path) :
    (embed files path address owner ancillary).Respects (growth owner) := by
  unfold embed
  refine .bind .say fun _ _ => ?_
  refine .bind (addFile_respects files path owner address) fun size _ => ?_
  cases ancillary with
  | none => exact .pure
  | some companion =>
    refine .bind .ofOption fun target _ => ?_
    refine .bind .say fun _ _ => ?_
    exact .bind (addFile_respects files companion owner target) fun _ _ => .pure

end Blob

/-! ## The receiver -/

/-- The frame of work that adds no entry without a size. -/
def LoadPlan.loadability : Action.Frame LoadPlan :=
  .keeping Loadable

/-- No payload file gives an entry without a size. -/
theorem LoadPlan.sink_respects_loadability (files : Files) (wide : Bool) :
    (LoadPlan.sink files wide).Respects loadability where
  extract path owner address :=
    (Elf.extract_respects files path owner address wide).widen fun _ _ => Grows.loadable
  embed path address owner ancillary :=
    (Blob.embed_respects files path address owner ancillary).widen fun _ _ => Grows.loadable

end HartBoot
