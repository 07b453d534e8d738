import HartBoot.Proofs.Action
import HartBoot.LoadPlan

/-!
Contract: plans as entries behind other entries.

Owns:
- `LoadPlan.followedBy`, the entries of one plan behind those of another one, and its laws;
- what adding one entry does, in these terms.

Does not own: which entries are added (see `HartBoot.Proofs.Elf.Extraction` and
`HartBoot.Proofs.LoadPlan.Contents`).
-/

namespace HartBoot.LoadPlan

/-- The entries of one plan, and behind them those of another one. -/
def followedBy (first second : LoadPlan) : LoadPlan :=
  ⟨first.chunks ++ second.chunks, first.zeroed ++ second.zeroed⟩

@[simp] theorem followedBy_empty (plan : LoadPlan) : plan.followedBy empty = plan := by
  simp [followedBy, empty]

@[simp] theorem empty_followedBy (plan : LoadPlan) : empty.followedBy plan = plan := rfl

theorem followedBy_assoc (first second third : LoadPlan) :
    (first.followedBy second).followedBy third = first.followedBy (second.followedBy third) := by
  simp [followedBy]

section Entries

variable {ε : Type} {before after : LoadPlan} {done : Unit}

@[simp] theorem succeeds_addChunk {chunk : Chunk} :
    (addChunk chunk : Action LoadPlan ε Unit).Succeeds before done after ↔
      before.followedBy ⟨[chunk], []⟩ = after := by
  rw [Action.succeeds_iff_of_run (run_addChunk chunk before)]
  simp [withChunk, followedBy]

@[simp] theorem succeeds_addZeroed {region : ZeroRegion} :
    (addZeroed region : Action LoadPlan ε Unit).Succeeds before done after ↔
      before.followedBy ⟨[], [region]⟩ = after := by
  rw [Action.succeeds_iff_of_run (run_addZeroed region before)]
  simp [withZeroed, followedBy]

end Entries

end HartBoot.LoadPlan
