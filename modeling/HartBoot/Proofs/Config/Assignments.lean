import HartBoot.Proofs.Config.Validity
import Mathlib.Data.List.Induction

/-!
Contract: histories of assignments of privilege modes.

Owns:
- `Assigned` and `decidedMode`, what a history says about a hart;
- `First`, the condition on the assignments of a hart that shares a block, and `holds_first_iff`,
  which says that it is the one that a draft checks;
- `modeAfter_eq_decidedMode`, which says that under this condition a hart ends in the mode that is
  decided for it;
- `turn` and `Clashes`, the harts of a block that cannot share its mode.

Does not own: how a run comes to a history (see `HartBoot.Proofs.Config.Mode`).
-/

namespace HartBoot.Config

/-! ## What a history says -/

/-- A hart has been assigned a mode. -/
def Assigned (history : List Assignment) (hart : Hart) : Prop :=
  ∃ assignment ∈ history, assignment.hart = hart

/-- A hart that shares a block has not been assigned anything before. -/
def First (front : List Assignment) (assignment : Assignment) : Prop :=
  assignment.shared → ¬ Assigned front assignment.hart

/-- The assignments that a hart has received. -/
def received (history : List Assignment) (hart : Hart) : List Assignment :=
  history.filter fun assignment => assignment.hart = hart

/-- The assignments that a hart has received as the owner of a block. -/
def ownedBy (history : List Assignment) (hart : Hart) : List Assignment :=
  (received history hart).filter fun assignment => !assignment.shared

/-- The assignments that a hart has received while it shared a block. -/
def sharedBy (history : List Assignment) (hart : Hart) : List Assignment :=
  (received history hart).filter fun assignment => assignment.shared

/-- The mode that is decided for a hart: that of the last block that it owns, else that of the one
block that it shares, else none. -/
def decidedMode (history : List Assignment) (hart : Hart) : Privilege :=
  match (ownedBy history hart).getLast? with
  | some assignment => assignment.mode
  | none =>
    match sharedBy history hart with
    | [assignment] => assignment.mode
    | _ => .unset

/-- The history at the turn of a hart in a block whose mode is given: the owner, and the harts in
front of it, have received the mode. -/
def turn (history : List Assignment) (owner : Hart) (mode : Privilege) (front : List Hart) :
    List Assignment :=
  history ++ ⟨owner, mode, false⟩ :: front.map fun hart => ⟨hart, mode, true⟩

/-- Of some harts that share a block, one has been assigned a mode at its turn, and none in front
of it has. -/
def Clashes
    (history : List Assignment)
    (owner : Hart)
    (mode : Privilege)
    (harts front : List Hart)
    (hart : Hart) :
    Prop :=
  ∃ back, harts = front ++ hart :: back ∧
    History.Holds (fun earlier other => ¬ Assigned (turn history owner mode earlier) other) front ∧
    Assigned (turn history owner mode front) hart

/-- Every assignment has a mode to give. -/
def Settled (history : List Assignment) : Prop :=
  ∀ assignment ∈ history, assignment.mode ≠ .unset

/-! ## Laws of histories -/

section Histories

variable {history : List Assignment} {hart : Hart}

theorem modeAfter_append_singleton (assignment : Assignment) :
    modeAfter (history ++ [assignment]) hart =
      if assignment.hart = hart then assignment.mode else modeAfter history hart := by
  rw [modeAfter, Draft.modeFrom_append]
  rfl

theorem assigned_append_singleton_iff (assignment : Assignment) :
    Assigned (history ++ [assignment]) hart ↔ Assigned history hart ∨ assignment.hart = hart := by
  simp only [Assigned, List.mem_append, List.mem_singleton, or_and_right, exists_or, exists_eq_left]

/-- A hart has no mode exactly if it has not been assigned anything. -/
theorem modeAfter_eq_unset_iff (settled : Settled history) :
    modeAfter history hart = .unset ↔ ¬ Assigned history hart := by
  induction history using List.reverseRecOn with
  | nil => simp [modeAfter, Draft.modeFrom, Assigned]
  | append_singleton history assignment inductionHypothesis =>
    have given := settled assignment (List.mem_append_right _ (List.mem_singleton_self _))
    have before : Settled history :=
      fun other member => settled other (List.mem_append_left _ member)
    rw [modeAfter_append_singleton, assigned_append_singleton_iff]
    by_cases same : assignment.hart = hart
    · simp [same, given]
    · simpa [same] using inductionHypothesis before

/-- A draft knows no history, but the mode that it looks at tells whether there is one. -/
theorem holds_first_iff (settled : Settled history) :
    History.Holds First history ↔ History.Holds Unclaimed history := by
  have same : ∀ front assignment back, history = front ++ assignment :: back →
      (First front assignment ↔ Unclaimed front assignment) := by
    rintro front assignment back rfl
    have before : Settled front := fun other member => settled other (List.mem_append_left _ member)
    rw [First, Unclaimed, modeAfter_eq_unset_iff before]
  constructor
  · exact fun holds front assignment back split =>
      (same front assignment back split).mp (holds front assignment back split)
  · exact fun holds front assignment back split =>
      (same front assignment back split).mpr (holds front assignment back split)

theorem modeAfter_eq_of_received (history : List Assignment) (hart : Hart) :
    modeAfter history hart =
      ((received history hart).getLast?.map Assignment.mode).getD .unset := by
  induction history using List.reverseRecOn with
  | nil => rfl
  | append_singleton history assignment inductionHypothesis =>
    rw [modeAfter_append_singleton, inductionHypothesis]
    unfold received
    by_cases same : assignment.hart = hart
    · simp [same]
    · simp [same]

/-- Behind the first assignment that a hart receives, it receives none that it shares. -/
theorem not_shared_of_received
    (first : History.Holds First history)
    {one : Assignment}
    {rest : List Assignment}
    (known : received history hart = one :: rest) :
    ∀ assignment ∈ rest, assignment.shared = false := by
  intro assignment member
  obtain ⟨between, behind, rfl⟩ := List.append_of_mem member
  obtain ⟨front, back, rfl, -, isOne, later⟩ := List.filter_eq_cons_iff.mp known
  obtain ⟨middle, last, rfl, -, found⟩ := List.filter_eq_append_iff.mp later
  obtain ⟨gap, tail, rfl, -, isOther, -⟩ := List.filter_eq_cons_iff.mp found
  have split : front ++ one :: (middle ++ (gap ++ assignment :: tail)) =
      (front ++ one :: (middle ++ gap)) ++ assignment :: tail := by simp
  apply Bool.eq_false_iff.mpr
  intro shared
  refine first _ assignment tail split shared ⟨one, by simp, ?_⟩
  exact (of_decide_eq_true isOne).trans (of_decide_eq_true isOther).symm

theorem sharedBy_of_received
    (first : History.Holds First history)
    {one : Assignment}
    {rest : List Assignment}
    (known : received history hart = one :: rest) :
    sharedBy history hart = if one.shared then [one] else [] := by
  have none : rest.filter (fun assignment => assignment.shared) = [] := by
    apply List.filter_eq_nil_iff.mpr
    intro assignment member
    exact Bool.eq_false_iff.mp (not_shared_of_received first known assignment member)
  rw [sharedBy, known, List.filter_cons, none]

theorem ownedBy_of_received
    (first : History.Holds First history)
    {one : Assignment}
    {rest : List Assignment}
    (known : received history hart = one :: rest) :
    ownedBy history hart = if one.shared then rest else one :: rest := by
  have all : rest.filter (fun assignment => !assignment.shared) = rest := by
    apply List.filter_eq_self.mpr
    intro assignment member
    rw [not_shared_of_received first known assignment member]
    rfl
  rw [ownedBy, known, List.filter_cons, all]
  cases one.shared with
  | true => rfl
  | false => rfl

theorem sharedBy_length_le_one (first : History.Holds First history) :
    (sharedBy history hart).length ≤ 1 := by
  cases known : received history hart with
  | nil =>
    rw [sharedBy, known]
    exact Nat.zero_le 1
  | cons one rest =>
    rw [sharedBy_of_received first known]
    split
    · exact Nat.le_refl 1
    · exact Nat.zero_le 1

/-- A hart that shares a block only when it has not been assigned anything has the mode that is
decided for it. -/
theorem modeAfter_eq_decidedMode (first : History.Holds First history) (hart : Hart) :
    modeAfter history hart = decidedMode history hart := by
  rw [modeAfter_eq_of_received, decidedMode]
  cases known : received history hart with
  | nil =>
    rw [ownedBy, sharedBy, known]
    rfl
  | cons one rest =>
    rw [ownedBy_of_received first known, sharedBy_of_received first known, List.getLast?_cons]
    -- Only the first assignment can be shared, so it counts only if it stands alone.
    cases last : rest.getLast? with
    | none =>
      obtain rfl := List.getLast?_eq_none_iff.mp last
      cases shared : one.shared with
      | true => simp
      | false => simp
    | some final =>
      cases shared : one.shared with
      | true => simp [last]
      | false => simp [List.getLast?_cons, last]

/-- The history at the turn of a hart meets the condition again if the harts in front did. -/
theorem first_turn
    (first : History.Holds First history)
    {owner : Hart}
    {mode : Privilege}
    {front : List Hart}
    (free : History.Holds
      (fun earlier other => ¬ Assigned (turn history owner mode earlier) other) front) :
    History.Holds First (turn history owner mode front) := by
  refine History.holds_append.mpr ⟨first, ?_⟩
  refine History.holds_cons.mpr ⟨fun impossible => absurd impossible Bool.false_ne_true, ?_⟩
  refine History.holds_map.mpr ?_
  exact fun earlier other later split _ => free earlier other later split

theorem settled_turn
    (settled : Settled history)
    {mode : Privilege}
    (given : mode ≠ .unset)
    (owner : Hart)
    (front : List Hart) :
    Settled (turn history owner mode front) := by
  intro assignment member
  rcases List.mem_append.mp member with old | new
  · exact settled assignment old
  · rcases List.mem_cons.mp new with rfl | shared
    · exact given
    · obtain ⟨hart, -, rfl⟩ := List.mem_map.mp shared
      exact given

end Histories

end HartBoot.Config
