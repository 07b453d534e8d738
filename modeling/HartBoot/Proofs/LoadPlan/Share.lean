import HartBoot.LoadPlan
import Mathlib.Algebra.GroupWithZero.Nat
import Mathlib.Order.Interval.Finset.Nat

/-!
Contract: the numbers with which a header refers to the chunks of a hart.

Owns:
- `LoadPlan.OwnedAt`, the positions of the chunks of a hart, said without listing them, and
  `mem_positionsFrom_iff`, which says that the list has just these;
- `LoadPlan.Spans`, a share that reaches from the first chunk of a hart to the last one, and
  `LoadPlan.Contiguous`, a hart whose chunks stand side by side;
- `LoadPlan.share_withChunk`, what one more chunk does to the share of a hart;
- `LoadPlan.share_le`, the bound of all three numbers of a share, and the law of the shares.

Does not own: how the numbers are written (see `HartBoot.Proofs.ImageFile.RoundTrip`).
-/

namespace HartBoot.LoadPlan

/-- The chunk at a position of a plan belongs to a hart. -/
def OwnedAt (plan : LoadPlan) (hart : Hart) (position : Nat) : Prop :=
  plan.chunks[position]?.map Chunk.owner = some hart

/-- A share starts and ends with a chunk of a hart, and no chunk of the hart is outside of it. -/
structure Spans (plan : LoadPlan) (hart : Hart) (share : Share) : Prop where
  first : plan.OwnedAt hart share.first
  last : plan.OwnedAt hart share.last
  all : ∀ position, plan.OwnedAt hart position →
    share.first ≤ position ∧ position ≤ share.last

/-- No chunk of another hart stands between two chunks of a hart. -/
def Contiguous (plan : LoadPlan) (hart : Hart) : Prop :=
  ∀ before between after, plan.OwnedAt hart before → plan.OwnedAt hart after →
    before ≤ between → between ≤ after → plan.OwnedAt hart between

/-! ## Positions -/

theorem positionsFrom_eq_findIdxs (hart : Hart) (start : Nat) (chunks : List Chunk) :
    positionsFrom hart start chunks =
      chunks.findIdxs (fun chunk => decide (chunk.owner = hart)) start := by
  induction chunks generalizing start with
  | nil => rfl
  | cons chunk rest inductionHypothesis =>
    rw [positionsFrom, List.findIdxs_cons, inductionHypothesis]
    simp only [decide_eq_true_eq]

section

variable {plan : LoadPlan} {hart : Hart} {position : Nat}

theorem OwnedAt.lt_length (owned : plan.OwnedAt hart position) :
    position < plan.chunks.length := by
  obtain ⟨chunk, found, -⟩ := Option.map_eq_some_iff.mp owned
  exact (List.getElem?_eq_some_iff.mp found).1

theorem mem_positionsFrom_iff :
    position ∈ positionsFrom hart 0 plan.chunks ↔ plan.OwnedAt hart position := by
  rw [positionsFrom_eq_findIdxs, List.mem_findIdxs_iff_exists_getElem_pos, OwnedAt,
    Option.map_eq_some_iff]
  simp [List.getElem?_eq_some_iff]

theorem length_positionsFrom :
    (positionsFrom hart 0 plan.chunks).length =
      plan.chunks.countP fun chunk => chunk.owner = hart := by
  rw [positionsFrom_eq_findIdxs, List.length_findIdxs]

theorem pairwise_positionsFrom : (positionsFrom hart 0 plan.chunks).Pairwise (· < ·) := by
  rw [positionsFrom_eq_findIdxs]
  exact List.pairwise_findIdxs

/-! ## The share of a hart -/

theorem count_ofPositions (positions : List Nat) :
    (Share.ofPositions positions).count = positions.length := by
  cases positions <;> rfl

theorem count_share (plan : LoadPlan) (hart : Hart) :
    (plan.share hart).count = plan.chunks.countP fun chunk => chunk.owner = hart := by
  rw [share, count_ofPositions, length_positionsFrom]

theorem share_eq_of_count_eq_zero (empty : (plan.share hart).count = 0) :
    plan.share hart = ⟨0, 0, 0⟩ := by
  rw [share, count_ofPositions, List.length_eq_zero_iff] at empty
  rw [share, empty]
  rfl

/-- Positions in ascending order lie between the first one and the last one. -/
theorem between_of_ascending
    {first : Nat}
    {rest : List Nat}
    (ascending : (first :: rest).Pairwise (· < ·))
    (listed : position ∈ first :: rest) :
    first ≤ position ∧ position ≤ rest.getLastD first := by
  constructor
  · rcases List.mem_cons.mp listed with rfl | behind
    · exact Nat.le_refl position
    · exact Nat.le_of_lt ((List.pairwise_cons.mp ascending).1 position behind)
  · rw [← List.getLast_eq_getLastD (List.cons_ne_nil first rest)]
    exact (ascending.imp Nat.le_of_lt).rel_getLast listed

/-- The share of a hart that has chunks reaches from its first one to its last one. -/
theorem spans_share (filled : (plan.share hart).count ≠ 0) :
    plan.Spans hart (plan.share hart) := by
  have owned : ∀ position,
      position ∈ positionsFrom hart 0 plan.chunks ↔ plan.OwnedAt hart position :=
    fun _ => mem_positionsFrom_iff
  have ascending : (positionsFrom hart 0 plan.chunks).Pairwise (· < ·) := pairwise_positionsFrom
  unfold share at filled ⊢
  cases positions : positionsFrom hart 0 plan.chunks with
  | nil =>
    rw [positions] at filled
    exact absurd rfl filled
  | cons first rest =>
    rw [positions] at owned ascending
    refine ⟨(owned _).mp List.mem_cons_self, (owned _).mp List.getLastD_mem_cons, ?_⟩
    intro position member
    exact between_of_ascending ascending ((owned position).mpr member)

/-! ## Shares without gaps -/

theorem card_positionsFrom :
    (positionsFrom hart 0 plan.chunks).toFinset.card =
      plan.chunks.countP fun chunk => chunk.owner = hart := by
  have distinct : (positionsFrom hart 0 plan.chunks).Nodup :=
    pairwise_positionsFrom.imp Nat.ne_of_lt
  rw [List.toFinset_card_of_nodup distinct, length_positionsFrom]

section Spans

variable {share : Share}

theorem Spans.subset_Icc (spans : plan.Spans hart share) :
    (positionsFrom hart 0 plan.chunks).toFinset ⊆ Finset.Icc share.first share.last := by
  intro position member
  rw [List.mem_toFinset, mem_positionsFrom_iff] at member
  exact Finset.mem_Icc.mpr (spans.all position member)

theorem Spans.card_Icc (spans : plan.Spans hart share) :
    (Finset.Icc share.first share.last).card = share.last - share.first + 1 := by
  have ordered := (spans.all share.last spans.last).1
  rw [Nat.card_Icc]
  omega

/-- A share has at least as many positions as the hart has chunks. -/
theorem Spans.countP_le (spans : plan.Spans hart share) :
    (plan.chunks.countP fun chunk => chunk.owner = hart) ≤ share.last - share.first + 1 := by
  rw [← card_positionsFrom, ← spans.card_Icc]
  exact Finset.card_le_card spans.subset_Icc

/-- A share has just as many positions as the hart has chunks if it has no gaps. -/
theorem Spans.width_eq_countP_iff (spans : plan.Spans hart share) :
    (share.last - share.first + 1 = plan.chunks.countP fun chunk => chunk.owner = hart) ↔
      plan.Contiguous hart := by
  rw [← card_positionsFrom, ← spans.card_Icc]
  constructor
  · intro sized before between after owned ownedAfter behind inFront
    have whole := Finset.eq_of_subset_of_card_le spans.subset_Icc (Nat.le_of_eq sized)
    have inside : between ∈ Finset.Icc share.first share.last :=
      Finset.mem_Icc.mpr ⟨Nat.le_trans (spans.all before owned).1 behind,
        Nat.le_trans inFront (spans.all after ownedAfter).2⟩
    rw [← whole, List.mem_toFinset] at inside
    exact mem_positionsFrom_iff.mp inside
  · intro contiguous
    refine congrArg Finset.card (Finset.Subset.antisymm ?_ spans.subset_Icc)
    intro position inside
    obtain ⟨behind, inFront⟩ := Finset.mem_Icc.mp inside
    rw [List.mem_toFinset, mem_positionsFrom_iff]
    exact contiguous _ position _ spans.first spans.last behind inFront

end Spans

end

/-! ## Plans that grow -/

/-- The share of a hart that gets one more chunk, at a position behind all others. -/
def Share.extended (share : Share) (position : Nat) : Share :=
  if share.count = 0 then ⟨position, position, 1⟩
  else ⟨share.first, position, share.count + 1⟩

theorem ofPositions_concat (positions : List Nat) (position : Nat) :
    Share.ofPositions (positions ++ [position]) =
      (Share.ofPositions positions).extended position := by
  cases positions with
  | nil => rfl
  | cons first rest => simp [Share.ofPositions, Share.extended, List.getLastD_eq_getLast?]

/-- One more chunk extends the share of its owner to its own position, and leaves those of the other
harts as they are. -/
theorem share_withChunk (plan : LoadPlan) (chunk : Chunk) (hart : Hart) :
    (plan.withChunk chunk).share hart =
      if chunk.owner = hart then (plan.share hart).extended plan.chunks.length
      else plan.share hart := by
  unfold share
  rw [← ofPositions_concat]
  simp only [withChunk, positionsFrom_eq_findIdxs, List.findIdxs_append, List.findIdxs_singleton,
    Nat.zero_add, decide_eq_true_eq]
  by_cases own : chunk.owner = hart
  · rw [if_pos own, if_pos own]
  · rw [if_neg own, if_neg own, List.append_nil]

/-- Every chunk is in the share of one hart. -/
theorem sum_counts (plan : LoadPlan) :
    (Hart.all.map fun hart => (plan.share hart).count).sum = plan.chunks.length := by
  simp only [count_share]
  induction plan.chunks with
  | nil => rfl
  | cons chunk rest inductionHypothesis =>
    rw [List.length_cons, ← inductionHypothesis]
    simp only [Hart.all, List.map_cons, List.map_nil, List.sum_cons, List.sum_nil,
      List.countP_cons]
    cases chunk.owner <;> simp <;> omega

/-! ## The law of the shares -/

/-- No number of a share is greater than the number of chunks. -/
theorem share_le (plan : LoadPlan) (hart : Hart) :
    (plan.share hart).first ≤ plan.chunks.length ∧
      (plan.share hart).last ≤ plan.chunks.length ∧
      (plan.share hart).count ≤ plan.chunks.length := by
  by_cases empty : (plan.share hart).count = 0
  · rw [share_eq_of_count_eq_zero empty]
    exact ⟨Nat.zero_le _, Nat.zero_le _, Nat.zero_le _⟩
  · have spans := spans_share empty
    refine ⟨Nat.le_of_lt spans.first.lt_length, Nat.le_of_lt spans.last.lt_length, ?_⟩
    rw [count_share]
    exact List.countP_le_length

/-- The share of a hart counts its chunks. A hart without chunks has the share of zeros; the share of
any other one reaches from its first chunk to its last, and it has room for nothing else just when
no other chunk stands between them. Every chunk is counted for one hart, and one more chunk changes
the share of its owner alone. -/
theorem share_spans_chunks (plan : LoadPlan) (hart : Hart) :
    let share := plan.share hart
    (share.count = plan.chunks.countP fun chunk => chunk.owner = hart) ∧
      (share.count = 0 → share.first = 0 ∧ share.last = 0) ∧
      (share.count ≠ 0 →
        plan.Spans hart share ∧ share.count ≤ share.last - share.first + 1 ∧
          (share.last - share.first + 1 = share.count ↔ plan.Contiguous hart)) ∧
      (Hart.all.map fun hart => (plan.share hart).count).sum = plan.chunks.length ∧
      ∀ chunk, (plan.withChunk chunk).share hart =
        if chunk.owner = hart then share.extended plan.chunks.length else share := by
  intro share
  refine ⟨count_share plan hart, ?_, ?_, sum_counts plan, fun chunk =>
    share_withChunk plan chunk hart⟩
  · intro empty
    have zeros : share = ⟨0, 0, 0⟩ := share_eq_of_count_eq_zero empty
    rw [zeros]
    exact ⟨rfl, rfl⟩
  · intro filled
    have spans : plan.Spans hart share := spans_share filled
    rw [show share.count = _ from count_share plan hart]
    exact ⟨spans, spans.countP_le, spans.width_eq_countP_iff⟩

/-- Of the two harts of a plan, one has a chunk of the other between its own, so its share has one
position more than it has chunks. -/
theorem share_spans_chunks_split :
    let plan : LoadPlan :=
      ⟨[⟨.u54_1, 0x1000, [1]⟩, ⟨.u54_2, 0x2000, [2]⟩, ⟨.u54_1, 0x1008, [3]⟩], []⟩
    plan.share .u54_1 = ⟨0, 2, 2⟩ ∧ plan.Spans .u54_1 ⟨0, 2, 2⟩ ∧ ¬ plan.Contiguous .u54_1 ∧
      plan.share .u54_2 = ⟨1, 1, 1⟩ ∧ plan.Contiguous .u54_2 ∧
      (plan.share .u54_4).first = 0 ∧ (plan.share .u54_4).last = 0 := by
  intro plan
  have split : plan.share .u54_1 = ⟨0, 2, 2⟩ := by decide
  have single : plan.share .u54_2 = ⟨1, 1, 1⟩ := by decide
  obtain ⟨spans, -, gaps⟩ := (share_spans_chunks plan .u54_1).2.2.1 (by decide)
  obtain ⟨-, -, whole⟩ := (share_spans_chunks plan .u54_2).2.2.1 (by decide)
  obtain ⟨first, last⟩ := (share_spans_chunks plan .u54_4).2.1 (by decide)
  rw [split] at spans gaps
  rw [single] at whole
  exact ⟨split, spans, fun contiguous => absurd (gaps.mpr contiguous) (by decide), single,
    whole.mp (by decide), first, last⟩

end HartBoot.LoadPlan
