import HartBoot.Proofs.Elf.Extraction
import HartBoot.Proofs.ImageFile.RoundTrip
import HartBoot.Proofs.LoadPlan.Sink
import Mathlib.Logic.Relation

/-!
Contract: load plans that have been made by any calls, also by some that failed.

Owns:
- `Called` and `Reached`, the plan behind one call and the plans behind any number of calls;
- `Called.grows` and `Reached.loadable`, what one call and what all calls keep;
- the law of integrity: nothing that is in a plan is lost, and no entry ends a table.

Does not own: which entries a call adds (see `HartBoot.Proofs.LoadPlan.Contents`).
-/

namespace HartBoot

/-! ## Records -/

namespace ImageFile

/-- The record of a chunk with data does not end the table, if the length of the data fits. -/
theorem ChunkRecord.ends_ofChunk
    {chunk : Chunk}
    (filled : chunk.data ≠ [])
    (small : chunk.data.length < UInt64.size)
    (position : Nat) :
    (ofChunk position chunk).ends = false := by
  rw [ends, beq_eq_false_iff_ne]
  intro zero
  have length : (UInt64.ofNat chunk.data.length).toNat = chunk.data.length :=
    toNat_ofNat_of_lt small
  have empty : chunk.data.length = 0 := length.symm.trans (congrArg UInt64.toNat zero)
  exact filled (List.eq_nil_of_length_eq_zero empty)

theorem ZeroRecord.ends_ofRegion {region : ZeroRegion} (sized : region.size ≠ 0) :
    (ofRegion region).ends = false :=
  beq_eq_false_iff_ne.mpr sized

end ImageFile

namespace LoadPlan

open ImageFile

/-! ## Calls -/

/-- The plan behind one call for an owner. Each call sees files of its own, and it may fail. -/
inductive Called (owner : Hart) (before : LoadPlan) : LoadPlan → Prop where
  | extract (files : Files) (wide : Bool) (path : Path) (address : UInt64) :
    Called owner before (((sink files wide).extract path owner address).run before).state
  | embed
      (files : Files) (wide : Bool) (path : Path) (address : UInt64) (ancillary : Option Path) :
    Called owner before (((sink files wide).embed path address owner ancillary).run before).state

/-- A plan stands behind any number of calls, the first of which has found an empty plan. -/
def Reached (plan : LoadPlan) : Prop :=
  Relation.ReflTransGen (fun before after => ∃ owner, Called owner before after) empty plan

theorem Called.grows {owner : Hart} {before after : LoadPlan} (called : Called owner before after) :
    Grows owner before after := by
  cases called with
  | extract files wide path address =>
    exact Elf.extract_respects files path owner address wide before
  | embed files wide path address ancillary =>
    exact Blob.embed_respects files path address owner ancillary before

theorem Reached.loadable {plan : LoadPlan} (reached : Reached plan) : plan.Loadable := by
  induction reached with
  | refl => exact .empty
  | tail _ call inductionHypothesis =>
    obtain ⟨owner, called⟩ := call
    exact called.grows.loadable inductionHypothesis

/-! ## The law of integrity -/

/-- A call leaves all entries of a plan where they are, whether or not it succeeds; what it adds
belongs to its owner and has a size. A file that is no executable adds nothing. So no entry of a
plan that any calls have made ends a table. -/
theorem tables_keep_entries
    (files : Files)
    (wide : Bool)
    (path : Path)
    (owner : Hart)
    (address : UInt64)
    (ancillary : Option Path)
    (before : LoadPlan) :
    let extracted := ((sink files wide).extract path owner address).run before
    let embedded := ((sink files wide).embed path address owner ancillary).run before
    Grows owner before extracted.state ∧
      Grows owner before embedded.state ∧
      (extracted.result = .ok false → extracted.state = before) ∧
      ∀ plan, Reached plan →
        (∀ chunk ∈ plan.chunks,
          chunk.data ≠ [] ∧
            (chunk.data.length < UInt64.size →
              ∀ position, (ChunkRecord.ofChunk position chunk).ends = false)) ∧
          ∀ region ∈ plan.zeroed,
            region.size ≠ 0 ∧ (ZeroRecord.ofRegion region).ends = false := by
  intro extracted embedded
  refine ⟨Called.grows (.extract files wide path address),
    Called.grows (.embed files wide path address ancillary), ?_, ?_⟩
  · intro whole
    have refused : (Elf.extract files path owner address wide).Succeeds before false
        extracted.state := ⟨whole, rfl⟩
    exact (Elf.succeeds_extract_false.mp refused).2.symm
  · intro plan reached
    have loadable := reached.loadable
    constructor
    · intro chunk member
      have filled := loadable.chunks chunk member
      exact ⟨filled, ChunkRecord.ends_ofChunk filled⟩
    · intro region member
      have sized := loadable.zeroed region member
      exact ⟨sized, ZeroRecord.ends_ofRegion sized⟩

/-- A file is said to be no executable, which adds nothing. It is embedded then, but its ancillary
file is not there: the call fails, and the chunk that it has added stays. -/
theorem tables_keep_entries_lostCompanion :
    let files : Files := ⟨[(["p"], .file [1, 2, 3])]⟩
    let extracted := ((sink files false).extract "p" .u54_1 0x1000).run empty
    let embedded := ((sink files false).embed "p" 0x1000 .u54_1 (some "q")).run empty
    let chunk : Chunk := ⟨.u54_1, 0x1000, [1, 2, 3]⟩
    extracted.result = .ok false ∧ extracted.state = empty ∧
      embedded.result = .error (.unreadable "q" .notFound) ∧ Grows .u54_1 empty embedded.state ∧
      Reached embedded.state ∧ chunk ∈ embedded.state.chunks ∧
      (ChunkRecord.ofChunk 64 chunk).ends = false := by
  intro files extracted embedded chunk
  obtain ⟨-, grown, untouched, entries⟩ :=
    tables_keep_entries files false "p" .u54_1 0x1000 (some "q") empty
  have found : files.read "p" = .ok [1, 2, 3] := by cbv
  have whole : extracted.result = .ok false :=
    (Elf.succeeds_extract_false.mpr ⟨⟨_, found, rfl⟩, rfl⟩ :
      (Elf.extract files "p" .u54_1 0x1000 false).Succeeds empty false empty).1
  have lost : embedded.result = .error (.unreadable "q" .notFound) := by cbv
  have reached : Reached embedded.state :=
    .single ⟨.u54_1, .embed files false "p" 0x1000 (some "q")⟩
  have added : embedded.state.chunks = [chunk] := by cbv
  have member : chunk ∈ embedded.state.chunks := added ▸ List.mem_singleton_self chunk
  have goesOn := ((entries embedded.state reached).1 chunk member).2 (by decide) 64
  exact ⟨whole, untouched whole, lost, grown, reached, member, goesOn⟩

end LoadPlan

end HartBoot
