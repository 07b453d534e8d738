import HartBoot.LoadPlan

/-!
Contract: plans whose entries cannot be mistaken for the end of a table.

Owns:
- `LoadPlan.Loadable`, the plans in which every entry has a size.

Does not own: how a plan comes about (see `HartBoot.Proofs.LoadPlan.Sink`).
-/

namespace HartBoot.LoadPlan

/-- Every chunk has data, and every region of zeros has a size. -/
structure Loadable (plan : LoadPlan) : Prop where
  chunks : ∀ chunk ∈ plan.chunks, chunk.data ≠ []
  zeroed : ∀ region ∈ plan.zeroed, region.size ≠ 0

theorem Loadable.empty : LoadPlan.empty.Loadable where
  chunks _ member := absurd member List.not_mem_nil
  zeroed _ member := absurd member List.not_mem_nil

theorem Loadable.withChunk
    {plan : LoadPlan}
    (loadable : plan.Loadable)
    {chunk : Chunk}
    (filled : chunk.data ≠ []) :
    (plan.withChunk chunk).Loadable where
  chunks other member := by
    rcases List.mem_append.mp member with old | new
    · exact loadable.chunks other old
    · rw [List.mem_singleton.mp new]
      exact filled
  zeroed := loadable.zeroed

theorem Loadable.withZeroed
    {plan : LoadPlan}
    (loadable : plan.Loadable)
    {region : ZeroRegion}
    (sized : region.size ≠ 0) :
    (plan.withZeroed region).Loadable where
  chunks := loadable.chunks
  zeroed other member := by
    rcases List.mem_append.mp member with old | new
    · exact loadable.zeroed other old
    · rw [List.mem_singleton.mp new]
      exact sized

end HartBoot.LoadPlan
