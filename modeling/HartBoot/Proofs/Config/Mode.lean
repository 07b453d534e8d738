import HartBoot.Proofs.Config.Assignments
import HartBoot.Proofs.Config.Feed
import HartBoot.Proofs.Config.FrontMoves

/-!
Contract: the privilege modes of a run.

Owns:
- `fails_shareMode`, when harts cannot share a mode;
- `settled_of_log` and `Recounts.modes`, which say that the modes of a machine are those of the
  assignments that have been said to it;
- the law of the modes, for every run that has not been rejected so far.

Does not own: the laws of the histories themselves (see `HartBoot.Proofs.Config.Assignments`).
-/

namespace HartBoot.Config

variable {σ : Type}

/-! ## Sharing a mode -/

namespace Draft

variable {before after : Draft σ} {error : Error}

/-- Harts cannot share a mode when one of them has a mode at its turn, and the first one that has
is named. -/
theorem fails_shareMode {mode : Privilege} {harts : List Hart} :
    (shareMode mode harts).Fails before error after ↔
      ∃ front hart back, harts = front ++ hart :: back ∧
        History.Holds before.Admits (front.map fun hart => ⟨hart, mode, true⟩) ∧
        (after.image.settings hart).privilege ≠ .unset ∧
        error = .privModeConflict hart mode (after.image.settings hart).privilege ∧
        before.assignAll (front.map fun hart => ⟨hart, mode, true⟩) = after := by
  induction harts generalizing before with
  | nil => simp [shareMode]
  | cons hart rest inductionHypothesis =>
    by_cases free : (before.image.settings hart).privilege = .unset
    · have unfolded :
          (shareMode mode (hart :: rest)).Fails before error after ↔
            (shareMode mode rest).Fails (before.assign ⟨hart, mode, true⟩) error after := by
        simp [shareMode, free, setPrivilege, updateImage, assign]
      rw [unfolded, inductionHypothesis]
      constructor
      · intro failed
        rcases failed with ⟨front, other, back, rfl, admitted, taken, told, rfl⟩
        refine ⟨hart :: front, other, back, rfl, ?_, taken, told, rfl⟩
        exact History.holds_cons.mpr ⟨fun _ => free, admitted⟩
      · intro failed
        rcases failed with ⟨front, other, back, split, admitted, taken, told, rfl⟩
        cases front with
        | nil =>
          obtain ⟨rfl, -⟩ := List.cons.inj split
          exact absurd free taken
        | cons head front =>
          obtain ⟨rfl, rfl⟩ := List.cons.inj split
          exact ⟨front, other, back, rfl, (History.holds_cons.mp admitted).2, taken, told, rfl⟩
    · have unfolded :
          (shareMode mode (hart :: rest)).Fails before error after ↔
            .privModeConflict hart mode (before.image.settings hart).privilege = error ∧
              before = after := by
        simp [shareMode, free]
      rw [unfolded]
      constructor
      · intro failed
        rcases failed with ⟨rfl, rfl⟩
        exact ⟨[], hart, rest, rfl, History.holds_nil, free, rfl, rfl⟩
      · intro failed
        rcases failed with ⟨front, other, back, split, admitted, -, told, rfl⟩
        cases front with
        | nil =>
          obtain ⟨rfl, -⟩ := List.cons.inj split
          exact ⟨told.symm, rfl⟩
        | cons head front =>
          obtain ⟨rfl, -⟩ := List.cons.inj split
          exact absurd ((History.holds_cons.mp admitted).1 rfl) free

theorem fails_givePrivilege
    {block : Block}
    {owner : Hart}
    (owned : block.owner = some owner)
    {mode : Privilege} :
    (givePrivilege block mode).Fails before error after ↔
      (shareMode mode block.secondaries).Fails (before.assign ⟨owner, mode, false⟩) error
        after := by
  unfold givePrivilege
  rw [owned]
  simp [setPrivilege, updateImage, assign]

end Draft

/-! ## Accounts -/

section Accounts

variable {sink : PayloadSink σ} {matching : Matching} {account : Account} {machine : Machine σ}
  {events : List Yaml.Event} {saying : Saying} {assignment : Assignment} {mode : Privilege}

theorem privilege?_ne_unset {keyword : Keyword} (meant : keyword.privilege? = some mode) :
    mode ≠ .unset := by
  cases keyword <;> cases meant <;> exact Privilege.noConfusion

theorem mode_ne_unset_of_attribute?
    {field : Field}
    {value : String}
    (meant : field.attribute? matching value = some (.privMode mode)) :
    mode ≠ .unset := by
  obtain ⟨-, found⟩ := Field.attribute?_eq_privMode_iff.mp meant
  obtain ⟨keyword, -, known⟩ := Option.bind_eq_some_iff.mp found
  exact privilege?_ne_unset known

/-- The mode that an event gives is not the one of a hart that has none. -/
theorem mode_ne_unset_of_said
    {state : State}
    {kind : Yaml.Event.Kind}
    (said : state.saying? matching kind = some (.value (.privMode mode))) :
    mode ≠ .unset := by
  cases state <;> cases kind <;> simp [State.saying?] at said
  exact mode_ne_unset_of_attribute? said

theorem said_of_mem_log (member : saying ∈ machine.log sink matching events) :
    ∃ state kind, State.saying? matching state kind = some saying := by
  induction events generalizing machine with
  | nil => cases member
  | cons event rest inductionHypothesis =>
    rcases List.mem_append.mp member with now | later
    · exact ⟨_, _, Option.mem_toList.mp now⟩
    · split at later
      · exact inductionHypothesis later
      · cases later

theorem mode_of_mem_assignments {block : Block} (member : assignment ∈ block.assignments mode) :
    assignment.mode = mode := by
  unfold Block.assignments at member
  split at member
  · cases member
  · rcases List.mem_cons.mp member with rfl | shared
    · rfl
    · obtain ⟨hart, -, rfl⟩ := List.mem_map.mp shared
      rfl

theorem given_of_mem_assignments
    {block : Block}
    {given : Attribute}
    (member : assignment ∈ given.assignments block) :
    given = .privMode assignment.mode := by
  cases given with
  | privMode mode => rw [mode_of_mem_assignments member]
  | _ => cases member

/-- What is heard adds no other assignments than those of a privilege mode that is given. -/
theorem mem_assignments_hear (member : assignment ∈ (account.hear saying).assignments) :
    assignment ∈ account.assignments ∨ saying = .value (.privMode assignment.mode) := by
  rcases account with ⟨items, current⟩
  cases saying with
  | setName text =>
    left
    simpa [Account.assignments, Account.hear, Account.begun, Item.assignments] using member
  | entryPoint point =>
    left
    simpa [Account.assignments, Account.hear, Account.begun, Item.assignments] using member
  | path path =>
    left
    -- The new block has made no assignment yet.
    have closed : assignment ∈ items.flatMap Item.assignments := by
      simpa [Account.assignments, Account.hear, Account.begun, Item.assignments,
        Block.assignmentsOf] using member
    rw [Account.assignments, List.flatMap_append]
    exact List.mem_append_left _ closed
  | value given =>
    cases current with
    | none => exact .inl member
    | some block =>
      rcases block with ⟨path, attributes⟩
      have either : assignment ∈ items.flatMap Item.assignments ∨
          assignment ∈ Block.assignmentsOf { path := path } (attributes ++ [given]) := by
        simpa [Account.assignments, Account.hear, Account.begun, Item.assignments] using member
      rw [assignmentsOf_append, List.mem_append] at either
      rcases either with closed | before | now
      · left
        simp [Account.assignments, closed]
      · left
        simp [Account.assignments, Account.begun, Item.assignments, before]
      · right
        rw [Block.assignmentsOf, Block.assignmentsOf, List.append_nil] at now
        rw [given_of_mem_assignments now]
  | close =>
    left
    simpa [Account.assignments, Account.hear, Account.begun] using member

theorem mem_assignments_hearAll
    {log : List Saying}
    (member : assignment ∈ (account.hearAll log).assignments) :
    assignment ∈ account.assignments ∨ .value (.privMode assignment.mode) ∈ log := by
  induction log generalizing account with
  | nil => exact .inl member
  | cons saying rest inductionHypothesis =>
    rcases inductionHypothesis member with before | later
    · rcases mem_assignments_hear before with old | rfl
      · exact .inl old
      · exact .inr List.mem_cons_self
    · exact .inr (List.mem_cons_of_mem _ later)

/-- No assignment that has been said gives a hart no mode. -/
theorem settled_of_log
    (sink : PayloadSink σ)
    (matching : Matching)
    (machine : Machine σ)
    (events : List Yaml.Event) :
    Settled (Account.of (machine.log sink matching events)).assignments := by
  intro assignment member
  rcases mem_assignments_hearAll member with nothing | given
  · cases nothing
  · obtain ⟨state, kind, said⟩ := said_of_mem_log given
    exact mode_ne_unset_of_said said

/-- The modes of a machine are those of its account. -/
theorem Recounts.modes
    {store : σ}
    (recounted : Recounts sink account (Draft.initial store) machine) :
    History.Holds Unclaimed account.assignments ∧
      ∀ hart, (machine.draft.image.settings hart).privilege =
        modeAfter account.assignments hart := by
  rcases account with ⟨items, current⟩
  rcases recounted with ⟨base, performed, stands⟩
  have reached := reached_of_trace performed
  have valid := (exists_trace_iff_valid.mp ⟨base, performed, rfl⟩).1
  cases current with
  | none =>
    obtain ⟨-, rfl⟩ := stands
    have same : Account.assignments ⟨items, none⟩ = items.flatMap Item.assignments :=
      congrArg (List.flatMap Item.assignments) (List.append_nil items)
    rw [same]
    exact ⟨valid.modes, reached.mode⟩
  | some given =>
    rcases given with ⟨path, attributes⟩
    obtain ⟨block, -, filled⟩ := stands
    obtain ⟨-, admitted, -, assigned⟩ := trace_gives_iff.mp filled
    have same : Account.assignments ⟨items, some (path, attributes)⟩ =
        items.flatMap Item.assignments ++ Block.assignmentsOf { path := path } attributes := by
      rw [Account.assignments, List.flatMap_append]
      exact congrArg _ (List.flatMap_singleton _ _)
    rw [same]
    constructor
    · have unclaimed := (History.holds_congr (admits_iff_unclaimed reached)).mp admitted
      exact History.holds_append.mpr ⟨valid.modes, unclaimed⟩
    · intro hart
      have final : base.assignAll (Block.assignmentsOf { path := path } attributes) =
          machine.draft := assigned
      rw [← final, Draft.settings_assignAll, reached.mode, modeAfter, modeAfter,
        Draft.modeFrom_append]

end Accounts

/-! ## The law of the modes -/

/-- Behind a history of assignments, harts cannot share the mode of an owner exactly if one of
them has been assigned a mode at its turn. -/
theorem fails_shareMode_iff_clashes
    {draft : Draft σ}
    {history : List Assignment}
    (settled : Settled history)
    (first : History.Holds First history)
    (known : ∀ hart, (draft.image.settings hart).privilege = modeAfter history hart)
    {mode : Privilege}
    (given : mode ≠ .unset)
    {owner : Hart}
    {harts : List Hart}
    {error : Error} :
    (∃ after, (Draft.shareMode mode harts).Fails (draft.assign ⟨owner, mode, false⟩) error after) ↔
      ∃ front hart, Clashes history owner mode harts front hart ∧
        error = .privModeConflict hart mode (decidedMode (turn history owner mode front) hart) := by
  -- At its turn, a hart sees the draft after the assignments of the owner and the harts in front.
  let shared (front : List Hart) := front.map fun hart => (⟨hart, mode, true⟩ : Assignment)
  let start := draft.assign ⟨owner, mode, false⟩
  have atTurn : ∀ front hart,
      ((start.assignAll (shared front)).image.settings hart).privilege =
        modeAfter (turn history owner mode front) hart := by
    intro front hart
    have whole : start.assignAll (shared front) =
        draft.assignAll (⟨owner, mode, false⟩ :: shared front) := rfl
    rw [whole, Draft.settings_assignAll, known, turn, modeAfter, modeAfter, Draft.modeFrom_append]
  have free : ∀ front hart,
      ((start.assignAll (shared front)).image.settings hart).privilege = .unset ↔
        ¬ Assigned (turn history owner mode front) hart := by
    intro front hart
    rw [atTurn, modeAfter_eq_unset_iff (settled_turn settled given owner front)]
  have admits : ∀ front, History.Holds start.Admits (shared front) ↔
      History.Holds (fun earlier other => ¬ Assigned (turn history owner mode earlier) other)
        front := by
    intro front
    apply History.holds_map.trans
    apply History.holds_congr
    intro earlier other
    exact (forall_prop_of_true rfl).trans (free earlier other)
  constructor
  · intro failed
    obtain ⟨after, failed⟩ := failed
    obtain ⟨front, hart, back, split, admitted, taken, told, rfl⟩ :=
      Draft.fails_shareMode.mp failed
    have unassigned := (admits front).mp admitted
    have assigned := not_not.mp (mt (free front hart).mpr taken)
    refine ⟨front, hart, ⟨back, split, unassigned, assigned⟩, ?_⟩
    rw [told, ← modeAfter_eq_decidedMode (first_turn first unassigned), ← atTurn]
  · intro clashing
    obtain ⟨front, hart, ⟨back, split, unassigned, assigned⟩, told⟩ := clashing
    refine ⟨start.assignAll (shared front), Draft.fails_shareMode.mpr ?_⟩
    refine ⟨front, hart, back, split, (admits front).mpr unassigned, ?_, ?_, rfl⟩
    · exact fun unset => (free front hart).mp unset assigned
    · rw [told, ← modeAfter_eq_decidedMode (first_turn first unassigned), ← atTurn]

/-- A privilege mode is refused when the harts of its block cannot share it. -/
theorem error_step_privMode
    {sink : PayloadSink σ}
    {matching : Matching}
    {machine : Machine σ}
    {block : Block}
    (inside : machine.state = .field block .privMode)
    {owner : Hart}
    (owned : block.owner = some owner)
    {value : String}
    {mode : Privilege}
    (meant : (Keyword.resolve? matching value).bind Keyword.privilege? = some mode)
    {line column : Nat}
    {error : Error} :
    ((Machine.step sink matching ⟨.scalar value, line, column⟩).run machine).result =
        .error error ↔
      ∃ after, (Draft.shareMode mode block.secondaries).Fails
        (machine.draft.assign ⟨owner, mode, false⟩) error after := by
  rcases machine with ⟨state, draft⟩
  obtain rfl : state = .field block .privMode := inside
  have read : ∀ after,
      (Machine.advance sink matching (.field block .privMode) ⟨.scalar value, line, column⟩).Fails
          draft error after ↔
        (Draft.shareMode mode block.secondaries).Fails (draft.assign ⟨owner, mode, false⟩) error
          after := by
    intro after
    rw [← Draft.fails_givePrivilege owned]
    simp [Machine.advance, Machine.readField, Machine.keywordValue, meant]
  constructor
  · intro failed
    have refused := Machine.fails_step.mp ⟨failed, rfl⟩
    exact ⟨_, (read _).mp refused.1⟩
  · intro failed
    obtain ⟨after, failed⟩ := failed
    have refused : (Machine.step sink matching ⟨.scalar value, line, column⟩).Fails
        ⟨.field block .privMode, draft⟩ error ⟨.rejected, after⟩ :=
      Machine.fails_step.mpr ⟨(read after).mpr failed, rfl⟩
    exact refused.1

/-- In every run, what has been said is what the events write down. A hart that shares a block has
not been assigned a mode before, and so each hart shares one block at most. The mode of a hart is
that of the last block that it owns, else that of the block that it shares, else none. Where a
privilege mode is given next, it is refused exactly if a hart that shares the block has been
assigned one at its turn, and the error names the first such hart and its mode. -/
theorem modes_of_run
    (sink : PayloadSink σ)
    (matching : Matching)
    (events : List Yaml.Event)
    (store : σ)
    (machine : Machine σ)
    (accepted :
      (Machine.readAll sink matching events).Succeeds (Machine.start store) () machine) :
    let account := Account.of ((Machine.start store).log sink matching events)
    (∃ front : Front,
        front.Spells matching (events.map fun event => event.kind) ∧ front.account = account) ∧
      History.Holds First account.assignments ∧
      (∀ hart,
        (sharedBy account.assignments hart).length ≤ 1 ∧
          (machine.draft.image.settings hart).privilege =
            decidedMode account.assignments hart) ∧
      ∀ block value line column owner mode error,
        machine.state = .field block .privMode →
        lastGiven Attribute.owner? account.attributes = some owner →
        (Keyword.resolve? matching value).bind Keyword.privilege? = some mode →
          (((Machine.step sink matching ⟨.scalar value, line, column⟩).run machine).result =
              .error error ↔
            ∃ front hart,
              Clashes account.assignments owner mode
                  (account.attributes.filterMap Attribute.secondary?) front hart ∧
                error = .privModeConflict hart mode
                  (decidedMode (turn account.assignments owner mode front) hart)) := by
  intro account
  have recounted : Recounts sink account (Draft.initial store) machine :=
    recounts_of_accepted accepted
  have settled : Settled account.assignments :=
    settled_of_log sink matching (Machine.start store) events
  obtain ⟨unclaimed, known⟩ := recounted.modes
  have first := (holds_first_iff settled).mpr unclaimed
  refine ⟨exists_front_of_accepted accepted, first, ?_, ?_⟩
  · intro hart
    exact ⟨sharedBy_length_le_one first, (known hart).trans (modeAfter_eq_decidedMode first hart)⟩
  · intro block value line column owner mode error inside owned meant
    have reading : machine.state.block? = some block := by
      rw [inside]
      rfl
    obtain ⟨path, attributes, current, rfl⟩ := recounted.current reading
    have heard : account.attributes = attributes := by rw [Account.attributes, current]
    rw [heard] at owned ⊢
    have given : mode ≠ .unset := by
      obtain ⟨keyword, -, named⟩ := Option.bind_eq_some_iff.mp meant
      exact privilege?_ne_unset named
    rw [error_step_privMode inside owned meant]
    exact fails_shareMode_iff_clashes settled first known given

/-- A hart that shares a block and has its mode cannot share the next one; its own mode stays. -/
theorem modes_of_run_twice :
    let kinds : List Yaml.Event.Kind :=
      [.streamStart, .documentStart, .mappingStart, .scalar "payloads", .mappingStart,
        .scalar "a", .mappingStart, .scalar "owner-hart", .scalar "u54_1",
        .scalar "secondary-hart", .scalar "u54_2", .scalar "priv-mode", .scalar "prv_s",
        .mappingEnd,
        .scalar "b", .mappingStart, .scalar "owner-hart", .scalar "u54_3",
        .scalar "secondary-hart", .scalar "u54_2", .scalar "priv-mode"]
    let events := Yaml.Event.ofKinds kinds
    let sink := PayloadSink.answering fun _ => true
    let machine := ((Machine.readAll sink .whole events).run (Machine.start ())).state
    let block : Block := { path := "b", owner := some .u54_3, secondaries := [.u54_2] }
    (Machine.readAll sink .whole events).Succeeds (Machine.start ()) () machine ∧
      machine.state = .field block .privMode ∧
      (machine.draft.image.settings .u54_2).privilege = .supervisor ∧
      ((Machine.step sink .whole ⟨.scalar "prv_m", 1, 0⟩).run machine).result =
        .error (.privModeConflict .u54_2 .machine .supervisor) := by
  intro kinds events sink machine block
  have accepted : (Machine.readAll sink .whole events).Succeeds (Machine.start ()) () machine :=
    ⟨by decide +kernel, rfl⟩
  have inside : machine.state = .field block .privMode := by decide +kernel
  obtain ⟨-, -, modes, refusal⟩ := modes_of_run sink .whole events () machine accepted
  have clashing := refusal block "prv_m" 1 0 .u54_3 .machine
    (.privModeConflict .u54_2 .machine .supervisor) inside (by decide +kernel) (by decide +kernel)
  refine ⟨accepted, inside, ?_, clashing.mpr ⟨[], .u54_2, ⟨[], ?_, History.holds_nil, ?_⟩, ?_⟩⟩
  · rw [(modes .u54_2).2]
    decide +kernel
  · decide +kernel
  · exact ⟨⟨.u54_2, .supervisor, true⟩, by decide +kernel, rfl⟩
  · decide +kernel

end HartBoot.Config
