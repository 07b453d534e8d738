import HartBoot.Proofs.Yaml.Parsing

/-!
Contract: the events of every text come to an end.

Owns:
- `Stream.weight`, a bound on the events that are still to come;
- `event_lowers`, which says that every event but the end of the stream lowers it;
- `Stream.weight_ofScan_lt`, which says that `Yaml.read` allows for more events than that.

A token pays for eight events. What is told without passing a token is paid for by what is
expected, so the weight of an expectation is the number of events that it can give before a token
is passed or something lighter is expected.

Does not own: which events a text gives.
-/

namespace HartBoot.Yaml

/-! ## Weights -/

/-- The number of events that an expectation can give before a token is passed. -/
def Expectation.weight : Expectation → Nat
  | .document => 4
  | .documentContent => 2
  | .documentEnd => 1
  | .node => 2
  | .mappingKey => 1
  | .mappingValue => 2
  | .levelSequenceEntry => 1
  | .bareMappingKey => 4
  | .bareMappingValue => 2
  | .bareMappingEnd => 1
  | .flowMappingValue => 1
  | .flowMappingNoValue => 1
  | _ => 0

theorem Expectation.weight_le (expected : Expectation) : expected.weight ≤ 4 := by
  cases expected <;> decide

def Expectation.totalWeight : List Expectation → Nat
  | [] => 0
  | expected :: rest => expected.weight + totalWeight rest

namespace Stream

/-- What the tokens that are left pay for, and what is expected behind the open collections. -/
def load (stream : Stream) : Nat :=
  8 * stream.deliveries.length + Expectation.totalWeight stream.pending

def potential (stream : Stream) : Nat :=
  stream.load + stream.expected.weight

/-- Whether the next token is the `:` in front of a value. -/
def atValue (stream : Stream) : Bool :=
  stream.deliveries.head?.any fun delivery => delivery.token.kind = .value

/-- A bound on the events that are to come. A `:` without a key in front of it is met twice, first
in place of the key and then in front of the value. It is not passed the first time, so the value
must not be counted the second time. -/
def weight (stream : Stream) : Nat :=
  if stream.expected = .mappingValue ∧ stream.atValue then stream.load else stream.potential

section Weight

variable {stream : Stream}

theorem atValue_iff
    {delivery : Delivery}
    {rest : List Delivery}
    (known : stream.deliveries = delivery :: rest) :
    stream.atValue ↔ delivery.token.kind = .value := by
  simp [atValue, known]

theorem weight_of_atValue
    (expected : stream.expected = .mappingValue)
    (found : stream.atValue) :
    stream.weight = stream.load :=
  if_pos ⟨expected, found⟩

theorem weight_of_not_atValue (missing : ¬ stream.atValue) : stream.weight = stream.potential :=
  if_neg fun both => missing both.2

theorem weight_of_expected_ne (other : stream.expected ≠ .mappingValue) :
    stream.weight = stream.potential :=
  if_neg fun both => other both.1

theorem weight_le_potential : stream.weight ≤ stream.potential := by
  unfold weight potential
  split
  · exact Nat.le_add_right _ _
  · exact Nat.le_refl _

end Weight

section Changes

variable (stream : Stream)

theorem load_awaiting (expected : Expectation) :
    (stream.awaiting expected).load = stream.load + expected.weight := by
  unfold load awaiting
  simp only [Expectation.totalWeight]
  omega

/-- What was expected behind a collection has been counted all along. -/
theorem potential_behind : stream.behind.potential = stream.load := by
  unfold behind potential load
  cases stream.pending with
  | nil => rfl
  | cons expected rest =>
    simp only [Expectation.totalWeight]
    omega

theorem load_passed_le : stream.passed.load ≤ stream.load := by
  unfold load passed
  simp only [List.length_drop]
  omega

/-- A token that is passed pays for eight events. -/
theorem load_passed
    {delivery : Delivery}
    {rest : List Delivery}
    (known : stream.deliveries = delivery :: rest) :
    stream.passed.load + 8 = stream.load := by
  unfold load passed
  simp only [known, List.drop_one, List.tail_cons, List.length_cons]
  omega

end Changes

end Stream

namespace Parsing

variable {stream : Stream} {bound : Nat}

/-- Every event that the work tells leaves the potential of the stream below a bound. -/
def Lowers (action : Parsing Event) (stream : Stream) (bound : Nat) : Prop :=
  action.Ensures stream fun _ after => after.potential < bound

namespace Lowers

variable {action : Parsing Event}

theorem widen {wider : Nat} (lowers : action.Lowers stream bound) (included : bound ≤ wider) :
    action.Lowers stream wider :=
  lowers.mono fun _ _ lower => Nat.lt_of_lt_of_le lower included

theorem weight_lt (lowers : action.Lowers stream bound) :
    action.Ensures stream fun _ after => after.weight < bound :=
  lowers.mono fun _ _ lower => Nat.lt_of_le_of_lt Stream.weight_le_potential lower

end Lowers

/-! ## Nodes -/

/-- Properties that are there take a token. -/
theorem properties_ensures :
    properties.Ensures stream fun found after =>
      after.load + (if found then 8 else 0) ≤ stream.load := by
  unfold properties
  simp only [ensures_bind, ensures_peek]
  intro delivery rest known
  have paid := stream.load_passed known
  have further := stream.passed.load_passed_le
  split
  · simp only [ensures_bind, ensures_declareAnchor, ensures_advance]
    intro next others more
    split
    · simp only [ensures_bind, ensures_skip, ensures_pure]
      apply ensures_checkTag
      show stream.passed.passed.load + 8 ≤ stream.load
      omega
    · exact ensures_pure.mpr (Nat.le_of_eq paid)
  · rw [ensures_bind]
    apply ensures_checkTag
    simp only [ensures_bind, ensures_advance]
    intro next others more
    split
    · simp only [ensures_bind, ensures_declareAnchor, ensures_skip, ensures_pure]
      show stream.passed.passed.load + 8 ≤ stream.load
      omega
    · exact ensures_pure.mpr (Nat.le_of_eq paid)
  · exact ensures_pure.mpr (Nat.le_refl _)

theorem node_lowers (block level : Bool) : (node block level).Lowers stream (stream.load + 2) := by
  unfold node Lowers
  simp only [ensures_bind, ensures_peek]
  intro delivery rest known
  split
  · have shorter := stream.load_passed_le
    simp only [ensures_bind, ensures_leave, ensures_skip, ensures_get, ensures_ite, ensures_pure]
    refine ⟨fun _ => ?_, fun _ => ensures_failAt⟩
    rw [Stream.passed_behind, Stream.potential_behind]
    show stream.passed.load < stream.load + 2
    omega
  · simp only [ensures_bind, ensures_peek]
    refine properties_ensures.mono ?_
    intro found after passed next others more
    have kept : after.load ≤ stream.load := Nat.le_of_add_right_le passed
    -- The start of a collection is told, but its token is not passed yet.
    split
    · simp only [ensures_bind, ensures_expect, ensures_pure]
      show after.load + 1 < stream.load + 2
      omega
    · have shorter := after.load_passed_le
      simp only [ensures_bind, ensures_leave, ensures_skip, ensures_pure]
      rw [Stream.passed_behind, Stream.potential_behind]
      show after.passed.load < stream.load + 2
      omega
    iterate 4
      simp only [ensures_bind, ensures_expect, ensures_pure]
      show after.load + 0 < stream.load + 2
      omega
    · simp only [ensures_ite, ensures_bind, ensures_leave, ensures_pure]
      refine ⟨fun _ => ?_, fun _ => ensures_failAt⟩
      rw [Stream.potential_behind]
      show after.load < stream.load + 2
      omega

theorem nodeThen_lowers
    {following : Expectation}
    {block level : Bool}
    (enough : stream.load + following.weight + 2 ≤ bound) :
    (nodeThen following block level).Lowers stream bound := by
  unfold nodeThen Lowers
  rw [ensures_bind, ensures_later]
  apply (node_lowers block level).widen
  rw [Stream.load_awaiting]
  exact enough

section Passing

variable
  {delivery : Delivery}
  {rest : List Delivery}
  {reached : Mark}
  {anchors handles : List String}

/-- A token is passed, and what stands behind it is a node or nothing. -/
theorem advance_lowers
    {content : Token → Parsing Event}
    (following : Expectation)
    (known : stream.deliveries = delivery :: rest)
    (enough : stream.load ≤ bound)
    (either : ∀ token, (∃ mark, content token = emptyThen following mark) ∨
      ∃ block level, content token = nodeThen following block level) :
    (do content (← advance)).Lowers (stream.noting reached anchors handles) bound := by
  have paid := stream.load_passed known
  have light := following.weight_le
  unfold Lowers
  simp only [ensures_bind, ensures_advance]
  intro next others more
  rcases either next.token with ⟨mark, empty⟩ | ⟨block, level, node⟩
  · rw [empty, ensures_emptyThen]
    show stream.passed.load + following.weight < bound
    omega
  · rw [node]
    apply nodeThen_lowers
    show stream.passed.load + following.weight + 2 ≤ bound
    omega

/-- The token at the end of a collection is passed. -/
theorem endCollection_lowers
    {mark : Mark}
    {kind : Event.Kind}
    (known : stream.deliveries = delivery :: rest)
    (enough : stream.load ≤ bound) :
    (endCollection mark kind).Lowers (stream.noting reached anchors handles) bound := by
  have paid := stream.load_passed known
  unfold Lowers
  rw [ensures_endCollection, Stream.potential_behind]
  show stream.passed.load < bound
  omega

end Passing

/-! ## Documents -/

theorem directives_ensures (budget : Nat) (versioned : Bool) :
    (directives budget versioned).Ensures stream fun _ after => after.load ≤ stream.load := by
  induction budget generalizing stream versioned with
  | zero => exact ensures_pure.mpr (Nat.le_refl _)
  | succ budget inductionHypothesis =>
    unfold directives
    simp only [ensures_bind, ensures_peek]
    intro delivery rest known
    have passes : ∀ (inner : Stream) (found : Bool), inner.load ≤ stream.load →
        (directives budget found).Ensures inner fun _ after => after.load ≤ stream.load :=
      fun inner found kept =>
        (inductionHypothesis found).mono fun _ _ lower => Nat.le_trans lower kept
    have kept := stream.load_passed_le
    split
    · simp only [ensures_ite, ensures_bind, ensures_declareHandles, ensures_skip]
      exact ⟨fun _ => ensures_failAt, fun _ => passes _ true kept⟩
    · simp only [ensures_bind, ensures_declareHandles, ensures_skip]
      exact passes _ versioned kept
    · exact ensures_pure.mpr (Nat.le_refl _)

theorem documentEnds_ensures (budget : Nat) :
    (documentEnds budget).Ensures stream fun _ after => after.load ≤ stream.load := by
  induction budget generalizing stream with
  | zero => exact ensures_pure.mpr (Nat.le_refl _)
  | succ budget inductionHypothesis =>
    unfold documentEnds
    simp only [ensures_bind, ensures_peek, ensures_ite, ensures_skip, ensures_pure]
    intro delivery rest known
    have kept := stream.load_passed_le
    exact ⟨fun _ => inductionHypothesis.mono fun _ _ lower => Nat.le_trans lower kept,
      fun _ => Nat.le_refl _⟩

theorem markedDocument_lowers : markedDocument.Lowers stream stream.load := by
  unfold markedDocument Lowers
  simp only [ensures_bind, ensures_budget]
  refine (directives_ensures _ _).mono ?_
  intro _ middle kept
  simp only [ensures_peek, ensures_ite, ensures_bind, ensures_later, ensures_expect, ensures_skip,
    ensures_pure]
  intro delivery rest known
  have paid := middle.load_passed known
  refine ⟨fun _ => ?_, fun _ => ensures_failAt⟩
  show (middle.passed.awaiting .documentEnd).load + 2 < stream.load
  rw [Stream.load_awaiting]
  show middle.passed.load + 1 + 2 < stream.load
  omega

theorem document_lowers (bare : Bool) :
    (document bare).Ensures stream fun event after =>
      event.kind = .streamEnd ∨ after.potential < stream.load + if bare then 4 else 0 := by
  unfold document
  simp only [ensures_bind, ensures_budget]
  refine (documentEnds_ensures _).mono ?_
  intro _ middle kept
  rw [ensures_peek]
  intro delivery rest known
  have marked : ∀ {inner : Stream}, inner.load ≤ stream.load →
      markedDocument.Ensures inner fun event after =>
        event.kind = .streamEnd ∨ after.potential < stream.load + if bare then 4 else 0 :=
    fun lower => (markedDocument_lowers.widen (Nat.le_trans lower (Nat.le_add_right _ _))).mono
      fun _ _ => .inr
  split
  · simp only [ensures_bind, ensures_expect, ensures_skip, ensures_pure]
    exact .inl rfl
  iterate 3 exact marked kept
  · rw [ensures_ite]
    refine ⟨fun isBare => ?_, fun _ => marked kept⟩
    simp only [ensures_bind, ensures_later, ensures_expect, ensures_pure, isBare, if_true]
    right
    show (middle.awaiting .documentEnd).load + 2 < stream.load + 4
    rw [Stream.load_awaiting]
    show middle.load + 1 + 2 < stream.load + 4
    omega

theorem documentContent_lowers : documentContent.Lowers stream (stream.load + 2) := by
  unfold documentContent Lowers
  simp only [ensures_bind, ensures_peek, ensures_ite, ensures_leave, ensures_pure]
  intro delivery rest known
  refine ⟨fun _ => ?_, fun _ => node_lowers true false⟩
  rw [Stream.potential_behind]
  exact Nat.lt_add_of_pos_right Nat.two_pos

theorem documentEnd_lowers : documentEnd.Lowers stream (stream.load + 1) := by
  unfold documentEnd Lowers
  simp only [ensures_bind, ensures_peek, ensures_declareHandles]
  intro delivery rest known
  have paid := stream.load_passed known
  split
  · simp only [ensures_bind, ensures_expect, ensures_skip, ensures_pure]
    show stream.passed.load + 4 < stream.load + 1
    omega
  iterate 2 exact ensures_failAt
  · simp only [ensures_bind, ensures_expect, ensures_pure]
    exact Nat.lt_succ_self _

/-! ## Block collections -/

/-- A missing key is met at the `:` of its value, which is not passed then. -/
theorem mappingKey_weight_lt :
    mappingKey.Ensures stream fun _ after => after.weight < stream.load + 1 := by
  unfold mappingKey
  simp only [ensures_bind, ensures_peek]
  intro delivery rest known
  split
  · refine (advance_lowers .mappingValue known (Nat.le_succ _) ?_).weight_lt
    intro token
    split
    iterate 3 exact .inl ⟨_, rfl⟩
    exact .inr ⟨_, _, rfl⟩
  · next isValue =>
    have found : ((stream.noting delivery.reached stream.anchors stream.handles).expecting
        .mappingValue).atValue := (Stream.atValue_iff known).mpr isValue
    rw [ensures_emptyThen, Stream.weight_of_atValue rfl found]
    exact Nat.lt_succ_self _
  · exact (endCollection_lowers known (Nat.le_succ _)).weight_lt
  · exact ensures_failAt

theorem mappingValue_lowers (expected : stream.expected = .mappingValue) :
    mappingValue.Lowers stream stream.weight := by
  unfold mappingValue Lowers
  simp only [ensures_bind, ensures_peek]
  intro delivery rest known
  split
  · next isValue =>
    rw [Stream.weight_of_atValue expected ((Stream.atValue_iff known).mpr isValue)]
    refine advance_lowers .mappingKey known (Nat.le_refl _) ?_
    intro token
    split
    iterate 3 exact .inl ⟨_, rfl⟩
    exact .inr ⟨_, _, rfl⟩
  · next isNot =>
    have full : stream.potential = stream.load + 2 := by
      rw [Stream.potential, expected]
      rfl
    rw [Stream.weight_of_not_atValue (mt (Stream.atValue_iff known).mp isNot), full,
      ensures_emptyThen]
    exact Nat.lt_succ_self _

theorem sequenceEntry_lowers : sequenceEntry.Lowers stream stream.load := by
  unfold sequenceEntry Lowers
  simp only [ensures_bind, ensures_peek]
  intro delivery rest known
  split
  · exact endCollection_lowers known (Nat.le_refl _)
  · refine advance_lowers .sequenceEntry known (Nat.le_refl _) ?_
    intro token
    split
    iterate 2 exact .inl ⟨_, rfl⟩
    exact .inr ⟨_, _, rfl⟩
  · exact ensures_failAt

theorem levelSequenceEntry_lowers : levelSequenceEntry.Lowers stream (stream.load + 1) := by
  unfold levelSequenceEntry Lowers
  simp only [ensures_bind, ensures_peek]
  intro delivery rest known
  split
  · refine advance_lowers .levelSequenceEntry known (Nat.le_succ _) ?_
    intro token
    split
    iterate 4 exact .inl ⟨_, rfl⟩
    exact .inr ⟨_, _, rfl⟩
  · simp only [ensures_bind, ensures_leave, ensures_pure]
    rw [Stream.potential_behind]
    exact Nat.lt_succ_self _

/-! ## Flow collections -/

theorem flowSequenceItem_lowers : flowSequenceItem.Lowers stream (stream.load + 2) := by
  unfold flowSequenceItem Lowers
  simp only [ensures_bind, ensures_peek]
  intro delivery rest known
  have paid := stream.load_passed known
  split
  · exact endCollection_lowers known (Nat.le_add_right _ _)
  · simp only [ensures_bind, ensures_expect, ensures_skip, ensures_pure]
    show stream.passed.load + 4 < stream.load + 2
    omega
  · exact nodeThen_lowers (Nat.le_refl _)

theorem flowSequenceEntry_lowers : flowSequenceEntry.Lowers stream stream.load := by
  unfold flowSequenceEntry Lowers
  simp only [ensures_bind, ensures_peek]
  intro delivery rest known
  have paid := stream.load_passed known
  split
  · exact endCollection_lowers known (Nat.le_refl _)
  · rw [ensures_bind, ensures_skip]
    apply flowSequenceItem_lowers.widen
    show stream.passed.load + 2 ≤ stream.load
    omega
  · exact ensures_failAt

theorem bareMappingKey_lowers : bareMappingKey.Lowers stream (stream.load + 4) := by
  unfold bareMappingKey Lowers
  simp only [ensures_bind, ensures_peek, ensures_ite, ensures_skip, ensures_emptyThen]
  intro delivery rest known
  have paid := stream.load_passed known
  refine ⟨fun _ => ?_, fun _ => nodeThen_lowers (Nat.le_refl _)⟩
  show stream.passed.load + 2 < stream.load + 4
  omega

theorem bareMappingValue_lowers : bareMappingValue.Lowers stream (stream.load + 2) := by
  unfold bareMappingValue Lowers
  simp only [ensures_bind, ensures_peek]
  intro delivery rest known
  split
  · refine advance_lowers .bareMappingEnd known (Nat.le_add_right _ _) ?_
    intro token
    split
    iterate 2 exact .inl ⟨_, rfl⟩
    exact .inr ⟨_, _, rfl⟩
  · rw [ensures_emptyThen]
    exact Nat.lt_succ_self _

theorem bareMappingEnd_lowers : bareMappingEnd.Lowers stream (stream.load + 1) := by
  unfold bareMappingEnd Lowers
  simp only [ensures_bind, ensures_expect, ensures_get, ensures_pure]
  exact Nat.lt_succ_self _

theorem flowMappingItem_lowers (mark : Mark) :
    (flowMappingItem mark).Lowers stream (stream.load + 3) := by
  unfold flowMappingItem Lowers
  simp only [ensures_bind, ensures_peek]
  intro delivery rest known
  split
  · refine advance_lowers .flowMappingValue known (Nat.le_add_right _ _) ?_
    intro token
    split
    iterate 3 exact .inl ⟨_, rfl⟩
    exact .inr ⟨_, _, rfl⟩
  · rw [ensures_emptyThen]
    show stream.load + 1 < stream.load + 3
    omega
  · exact endCollection_lowers known (Nat.le_add_right _ _)
  · exact nodeThen_lowers (Nat.le_refl _)

theorem flowMappingFirstKey_lowers : flowMappingFirstKey.Lowers stream stream.load := by
  unfold flowMappingFirstKey Lowers
  simp only [ensures_bind, ensures_peek, ensures_advance]
  intro delivery rest known next others more
  have paid := stream.load_passed known
  apply (flowMappingItem_lowers _).widen
  show stream.passed.load + 3 ≤ stream.load
  omega

theorem flowMappingKey_lowers : flowMappingKey.Lowers stream stream.load := by
  unfold flowMappingKey Lowers
  simp only [ensures_bind, ensures_peek]
  intro delivery rest known
  have paid := stream.load_passed known
  split
  · exact endCollection_lowers known (Nat.le_refl _)
  · rw [ensures_bind, ensures_skip]
    apply (flowMappingItem_lowers _).widen
    show stream.passed.load + 3 ≤ stream.load
    omega
  · exact ensures_failAt

theorem flowMappingValue_lowers : flowMappingValue.Lowers stream (stream.load + 1) := by
  unfold flowMappingValue Lowers
  simp only [ensures_bind, ensures_peek]
  intro delivery rest known
  split
  · refine advance_lowers .flowMappingKey known (Nat.le_succ _) ?_
    intro token
    split
    iterate 2 exact .inl ⟨_, rfl⟩
    exact .inr ⟨_, _, rfl⟩
  · rw [ensures_emptyThen]
    exact Nat.lt_succ_self _

theorem flowMappingNoValue_lowers : flowMappingNoValue.Lowers stream (stream.load + 1) := by
  unfold flowMappingNoValue Lowers
  simp only [ensures_bind, ensures_peek, ensures_emptyThen]
  exact fun _ _ _ => Nat.lt_succ_self _

/-! ## Streams -/

theorem streamStart_lowers : streamStart.Lowers stream stream.load := by
  unfold streamStart Lowers
  simp only [ensures_bind, ensures_peek, ensures_ite, ensures_expect, ensures_skip, ensures_pure]
  intro delivery rest known
  have paid := stream.load_passed known
  refine ⟨fun _ => ?_, fun _ => ensures_failAt⟩
  show stream.passed.load + 4 < stream.load
  omega

theorem enter_weight_lt
    {first : Parsing Event}
    {credit : Nat}
    (told : ∀ {inner : Stream},
      first.Ensures inner fun _ after => after.weight < inner.load + credit)
    (paid : credit ≤ 8) :
    (enter first).Ensures stream fun _ after => after.weight < stream.load := by
  unfold enter
  simp only [ensures_bind, ensures_peek, ensures_skip]
  intro delivery rest known
  refine told.mono ?_
  intro _ after lower
  rw [← stream.load_passed known]
  exact Nat.lt_of_lt_of_le lower (Nat.add_le_add_left paid _)

/-- Every event but the end of the stream lowers the weight of what is left. -/
theorem event_lowers :
    event.Ensures stream fun event after =>
      event.kind = .streamEnd ∨ after.weight < stream.weight := by
  have full : ∀ {expected : Expectation}, stream.expected = expected → expected ≠ .mappingValue →
      stream.weight = stream.load + expected.weight := by
    rintro expected rfl other
    exact Stream.weight_of_expected_ne other
  have lowered : ∀ {expected : Expectation} {action : Parsing Event},
      stream.expected = expected → expected ≠ .mappingValue →
      (action.Ensures stream fun _ after => after.weight < stream.load + expected.weight) →
        action.Ensures stream fun event after =>
          event.kind = .streamEnd ∨ after.weight < stream.weight := by
    intro expected action known other told
    rw [full known other]
    exact told.mono fun _ _ => .inr
  have documented : ∀ {expected : Expectation} (bare : Bool),
      stream.expected = expected → expected ≠ .mappingValue →
      expected.weight = (if bare then 4 else 0) →
        (document bare).Ensures stream fun event after =>
          event.kind = .streamEnd ∨ after.weight < stream.weight := by
    intro expected bare known other same
    rw [full known other, same]
    exact (document_lowers bare).mono fun _ _ =>
      Or.imp_right (Nat.lt_of_le_of_lt Stream.weight_le_potential)
  unfold event
  rw [ensures_bind, ensures_get]
  cases known : stream.expected with
  | stream => exact lowered known (by decide) streamStart_lowers.weight_lt
  | document => exact documented true known (by decide) rfl
  | markedDocument => exact documented false known (by decide) rfl
  | documentContent => exact lowered known (by decide) documentContent_lowers.weight_lt
  | documentEnd => exact lowered known (by decide) documentEnd_lowers.weight_lt
  | node => exact lowered known (by decide) (node_lowers true false).weight_lt
  | mappingFirstKey =>
    exact lowered known (by decide) (enter_weight_lt mappingKey_weight_lt (by decide))
  | mappingKey => exact lowered known (by decide) mappingKey_weight_lt
  | mappingValue => exact (mappingValue_lowers known).weight_lt.mono fun _ _ => .inr
  | sequenceFirstEntry =>
    exact lowered known (by decide) (enter_weight_lt sequenceEntry_lowers.weight_lt (Nat.zero_le 8))
  | sequenceEntry => exact lowered known (by decide) sequenceEntry_lowers.weight_lt
  | levelSequenceEntry => exact lowered known (by decide) levelSequenceEntry_lowers.weight_lt
  | flowSequenceFirstEntry =>
    exact lowered known (by decide) (enter_weight_lt flowSequenceItem_lowers.weight_lt (by decide))
  | flowSequenceEntry => exact lowered known (by decide) flowSequenceEntry_lowers.weight_lt
  | bareMappingKey => exact lowered known (by decide) bareMappingKey_lowers.weight_lt
  | bareMappingValue => exact lowered known (by decide) bareMappingValue_lowers.weight_lt
  | bareMappingEnd => exact lowered known (by decide) bareMappingEnd_lowers.weight_lt
  | flowMappingFirstKey => exact lowered known (by decide) flowMappingFirstKey_lowers.weight_lt
  | flowMappingKey => exact lowered known (by decide) flowMappingKey_lowers.weight_lt
  | flowMappingValue => exact lowered known (by decide) flowMappingValue_lowers.weight_lt
  | flowMappingNoValue => exact lowered known (by decide) flowMappingNoValue_lowers.weight_lt
  | nothing =>
    rw [ensures_bind, ensures_get]
    exact ensures_failAt

end Parsing

/-- The events of a text that are asked for are more than its tokens can pay for. -/
theorem Stream.weight_ofScan_lt (scan : Scan) :
    (Stream.ofScan scan).weight < 8 * (scan.deliveries.length + 1) := by
  have light : (Stream.ofScan scan).weight ≤ 8 * scan.deliveries.length :=
    Stream.weight_le_potential
  omega

end HartBoot.Yaml
