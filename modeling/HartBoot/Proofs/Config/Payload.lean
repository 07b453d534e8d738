import HartBoot.Proofs.Config.Attribute
import HartBoot.Proofs.Trace

/-!
Contract: what a list of attributes makes of a payload block.

Owns:
- `Block.fill`, the block after some attributes, and `Block.assignmentsOf`, the assignments that
  they make on the way;
- `Complete`, the lists of attributes that a block may have;
- `trace_gives_iff` and `fitting_iff_complete`, which say that the machine accepts just these.

Does not own: what a closed block does (see `HartBoot.Proofs.Config.Draft`).
-/

namespace HartBoot.Config

variable {σ : Type}

/-- The block after some attributes. -/
def Block.fill (block : Block) (attributes : List Attribute) : Block :=
  attributes.foldl Block.take block

/-- The block of a path and some attributes. -/
def Block.of (path : Path) (attributes : List Attribute) : Block :=
  Block.fill { path := path } attributes

/-- The assignments that the attributes of a block make, each of them with the harts that stand
before it. -/
def Block.assignmentsOf (block : Block) : List Attribute → List Assignment
  | [] => []
  | given :: rest => given.assignments block ++ (block.take given).assignmentsOf rest

/-- The secondary hart that an attribute adds. -/
def Attribute.secondary? : Attribute → Option Hart
  | .secondaryHart hart => some hart
  | _ => none

/-- A list of attributes names an owner, before any privilege mode, and at most three secondary
harts. -/
structure Complete (attributes : List Attribute) : Prop where
  owned : ∃ hart, .ownerHart hart ∈ attributes
  few : (attributes.filterMap Attribute.secondary?).length ≤ maxSecondaries
  ownerFirst : History.Holds
    (fun front given => ∀ mode, given = .privMode mode → ∃ hart, .ownerHart hart ∈ front) attributes

/-! ## Filling a block -/

theorem secondaries_take (block : Block) (given : Attribute) :
    (block.take given).secondaries = block.secondaries ++ given.secondary?.toList := by
  cases given <;> simp [Block.take, Attribute.secondary?]

theorem secondaries_fill (block : Block) (attributes : List Attribute) :
    (block.fill attributes).secondaries =
      block.secondaries ++ attributes.filterMap Attribute.secondary? := by
  induction attributes generalizing block with
  | nil => simp [Block.fill]
  | cons given rest inductionHypothesis =>
    have later := inductionHypothesis (block.take given)
    rw [secondaries_take] at later
    refine later.trans ?_
    cases found : given.secondary? with
    | none => simp [found]
    | some hart => simp [found]

theorem isSome_owner_take (block : Block) (given : Attribute) :
    (block.take given).owner.isSome ↔ block.owner.isSome ∨ ∃ hart, given = .ownerHart hart := by
  cases given <;> simp [Block.take]

/-- A block has an owner when one of its attributes names one. -/
theorem isSome_owner_fill (block : Block) (attributes : List Attribute) :
    (block.fill attributes).owner.isSome ↔
      block.owner.isSome ∨ ∃ hart, .ownerHart hart ∈ attributes := by
  induction attributes generalizing block with
  | nil => simp [Block.fill]
  | cons given rest inductionHypothesis =>
    have later := inductionHypothesis (block.take given)
    rw [isSome_owner_take] at later
    refine later.trans ?_
    simp only [List.mem_cons, exists_or, or_assoc, eq_comm]

theorem assignmentsOf_append (block : Block) (first second : List Attribute) :
    block.assignmentsOf (first ++ second) =
      block.assignmentsOf first ++ (block.fill first).assignmentsOf second := by
  induction first generalizing block with
  | nil => rfl
  | cons given rest inductionHypothesis =>
    rw [List.cons_append, Block.assignmentsOf, Block.assignmentsOf, inductionHypothesis,
      List.append_assoc]
    rfl

/-- Attributes can be given to a block when each of them fits at its turn, and every hart that
shares a mode has none. -/
theorem trace_gives_iff {attributes : List Attribute} {before after : Filling σ} :
    Trace Gives attributes before after ↔
      History.Holds (fun front given => given.Fits (before.block.fill front)) attributes ∧
        History.Holds before.draft.Admits (before.block.assignmentsOf attributes) ∧
        before.block.fill attributes = after.block ∧
        before.draft.assignAll (before.block.assignmentsOf attributes) = after.draft := by
  induction attributes generalizing before with
  | nil =>
    rcases before with ⟨block, draft⟩
    rcases after with ⟨filled, final⟩
    simp [Block.fill, Block.assignmentsOf, Draft.assignAll]
  | cons given rest inductionHypothesis =>
    have behind : ∀ first, (fun front => before.draft.Admits (first ++ front)) =
        (before.draft.assignAll first).Admits := by
      intro first
      funext front assignment
      unfold Draft.Admits
      rw [Draft.assignAll_append]
    rw [Trace.cons_iff, History.holds_cons, Block.assignmentsOf, History.holds_append, behind,
      Draft.assignAll_append]
    constructor
    · intro given
      rcases given with ⟨⟨block, draft⟩, ⟨fits, admitted, rfl, rfl⟩, others⟩
      obtain ⟨restFits, restAdmitted, filled, assigned⟩ := inductionHypothesis.mp others
      exact ⟨⟨fits, restFits⟩, ⟨admitted, restAdmitted⟩, filled, assigned⟩
    · intro given
      rcases given with ⟨⟨fits, restFits⟩, ⟨admitted, restAdmitted⟩, filled, assigned⟩
      refine ⟨⟨_, _⟩, ⟨fits, admitted, rfl, rfl⟩, ?_⟩
      exact inductionHypothesis.mpr ⟨restFits, restAdmitted, filled, assigned⟩

/-! ## Complete lists -/

/-- Each of some secondary harts has room at its turn when all of them have room together. -/
theorem few_iff {start : Nat} (small : start ≤ maxSecondaries) (attributes : List Attribute) :
    History.Holds
        (fun front given => ∀ hart, given = .secondaryHart hart →
          start + (front.filterMap Attribute.secondary?).length < maxSecondaries) attributes ↔
      start + (attributes.filterMap Attribute.secondary?).length ≤ maxSecondaries := by
  induction attributes generalizing start with
  | nil => simpa using small
  | cons given rest inductionHypothesis =>
    rw [History.holds_cons]
    cases found : given.secondary? with
    | none =>
      have other : ∀ hart, given ≠ .secondaryHart hart := by
        rintro hart rfl
        cases found
      simp [found, other, inductionHypothesis small]
    | some hart =>
      have same : given = .secondaryHart hart := by
        cases given <;> simp_all [Attribute.secondary?]
      by_cases room : start < maxSecondaries
      · have later := inductionHypothesis (show start + 1 ≤ maxSecondaries from room)
        simp only [Nat.add_assoc, Nat.add_comm 1] at later
        simpa [same, Attribute.secondary?, room] using later
      · simp [same, Attribute.secondary?, room]
        omega

theorem fits_iff {block : Block} {given : Attribute} :
    given.Fits block ↔
      (∀ hart, given = .secondaryHart hart → block.secondaries.length < maxSecondaries) ∧
        ∀ mode, given = .privMode mode → block.owner.isSome := by
  cases given <;> simp [Attribute.Fits]

/-- The attributes of a block fit, and name an owner, when they are complete. -/
theorem fitting_iff_complete (path : Path) (attributes : List Attribute) :
    History.Holds (fun front given => given.Fits (Block.of path front)) attributes ∧
        (Block.of path attributes).owner.isSome ↔
      Complete attributes := by
  have secondaries : ∀ front,
      (Block.of path front).secondaries = front.filterMap Attribute.secondary? :=
    fun front => secondaries_fill _ front
  have owner : ∀ front, (Block.of path front).owner.isSome ↔ ∃ hart, .ownerHart hart ∈ front := by
    intro front
    rw [Block.of, isSome_owner_fill]
    simp
  simp only [fits_iff, History.holds_and, secondaries, owner]
  have few := few_iff (Nat.zero_le maxSecondaries) attributes
  simp only [Nat.zero_add] at few
  rw [few]
  constructor
  · intro whole
    rcases whole with ⟨⟨few, ownerFirst⟩, owned⟩
    exact ⟨owned, few, ownerFirst⟩
  · intro complete
    exact ⟨⟨complete.few, complete.ownerFirst⟩, complete.owned⟩

end HartBoot.Config
