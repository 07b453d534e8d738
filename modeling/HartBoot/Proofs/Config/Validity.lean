import HartBoot.Proofs.Config.Parse
import HartBoot.Proofs.Config.Payload
import Mathlib.Data.List.Induction
import Mathlib.Data.List.Nodup

/-!
Contract: which items a configuration may have.

Owns:
- `Valid`, the conditions on the items of a configuration that do not depend on payload files;
- `Delivers`, what the receiver of the payloads has to take;
- `exists_trace_iff_valid`, which says that items can be performed when they are valid and the
  receiver takes every payload.

The link is `Reached`: the entry points and modes of a draft are those that its items give.

Does not own: how items are written down (see `HartBoot.Proofs.Config.Grammar`).
-/

namespace HartBoot.Config

variable {σ : Type}

/-! ## Conditions -/

namespace Item

/-- The harts whose entry point is given. -/
def entered : Item → List Hart
  | .entryPoint point => [point.hart]
  | _ => []

/-- The assignments of privilege modes that are made. -/
def assignments : Item → List Assignment
  | .payload path attributes => Block.assignmentsOf { path := path } attributes
  | _ => []

/-- The payload blocks that are closed. -/
def blocks : Item → List Block
  | .payload path attributes => [Block.of path attributes]
  | _ => []

/-- A payload block has a complete list of attributes. -/
def Complete : Item → Prop
  | .payload _ attributes => Config.Complete attributes
  | _ => True

end Item

/-- The mode of a hart after all assignments that have been made. -/
def modeAfter (history : List Assignment) (hart : Hart) : Privilege :=
  Draft.modeFrom .unset history hart

/-- A hart that shares a block has no mode before its turn. -/
def Unclaimed (front : List Assignment) (assignment : Assignment) : Prop :=
  assignment.shared → modeAfter front assignment.hart = .unset

/-- No hart has two entry points, every block is complete, and every hart that shares a mode has
none before its turn. -/
structure Valid (items : List Item) : Prop where
  entries : (items.flatMap Item.entered).Nodup
  blocks : ∀ item ∈ items, item.Complete
  modes : History.Holds Unclaimed (items.flatMap Item.assignments)

/-- The receiver takes the payload of a block for its owner. -/
def Delivers (sink : PayloadSink σ) (block : Block) (before after : σ) : Prop :=
  ∃ owner, block.owner = some owner ∧
    sink.Takes block.path owner block.address block.ancillary before after

/-- What one more item has to meet. -/
structure Item.Allowed (items : List Item) (item : Item) : Prop where
  entries : ∀ hart ∈ item.entered, hart ∉ items.flatMap Item.entered
  complete : item.Complete
  modes : History.Holds (fun front => Unclaimed (items.flatMap Item.assignments ++ front))
    item.assignments

theorem nodup_entered (item : Item) : item.entered.Nodup := by
  cases item <;> simp [Item.entered]

theorem valid_nil : Valid [] where
  entries := List.nodup_nil
  blocks := fun _ member => absurd member List.not_mem_nil
  modes := History.holds_nil

/-- Items are valid when all but the last one are, and that one is allowed behind them. -/
theorem valid_append_iff {items : List Item} {item : Item} :
    Valid (items ++ [item]) ↔ Valid items ∧ item.Allowed items := by
  constructor
  · intro valid
    rcases valid with ⟨entries, blocks, modes⟩
    rw [List.flatMap_append, List.flatMap_singleton, List.nodup_append] at entries
    rw [List.flatMap_append, List.flatMap_singleton, History.holds_append] at modes
    refine ⟨⟨entries.1, ?_, modes.1⟩, ⟨?_, ?_, modes.2⟩⟩
    · exact fun other member => blocks other (List.mem_append_left _ member)
    · intro hart new old
      exact entries.2.2 hart old hart new rfl
    · exact blocks item (List.mem_append_right _ (List.mem_singleton_self item))
  · intro valid
    rcases valid with ⟨⟨entries, blocks, modes⟩, fresh, complete, unclaimed⟩
    refine ⟨?_, ?_, ?_⟩
    · rw [List.flatMap_append, List.flatMap_singleton, List.nodup_append]
      refine ⟨entries, nodup_entered item, ?_⟩
      rintro hart old _ new rfl
      exact fresh hart new old
    · intro other member
      rcases List.mem_append.mp member with early | last
      · exact blocks other early
      · rw [List.mem_singleton.mp last]
        exact complete
    · rw [List.flatMap_append, List.flatMap_singleton, History.holds_append]
      exact ⟨modes, unclaimed⟩

/-! ## Drafts that items reach -/

/-- The entry points and modes of a draft are those that some items give. -/
structure Reached (items : List Item) (draft : Draft σ) : Prop where
  entered : ∀ hart,
    (draft.image.settings hart).entry = none ↔ hart ∉ items.flatMap Item.entered
  mode : ∀ hart,
    (draft.image.settings hart).privilege = modeAfter (items.flatMap Item.assignments) hart

theorem reached_initial (store : σ) : Reached [] (Draft.initial store) where
  entered hart := by cases hart <;> simp [Draft.initial, Image.initial, Image.settings]
  mode hart := by cases hart <;> rfl

theorem admits_iff_unclaimed
    {items : List Item}
    {draft : Draft σ}
    (reached : Reached items draft)
    (front : List Assignment)
    (assignment : Assignment) :
    draft.Admits front assignment ↔
      Unclaimed (items.flatMap Item.assignments ++ front) assignment := by
  unfold Draft.Admits Unclaimed
  rw [Draft.settings_assignAll, reached.mode, modeAfter, modeAfter, Draft.modeFrom_append]

section Performs

variable {sink : PayloadSink σ} {before after : Draft σ}

theorem performs_payload_iff {path : Path} {attributes : List Attribute} :
    Performs sink (.payload path attributes) before after ↔
      Complete attributes ∧
        History.Holds before.Admits (Block.assignmentsOf { path := path } attributes) ∧
        ∃ owner store,
          (Block.of path attributes).owner = some owner ∧
            sink.Takes (Block.of path attributes).path owner (Block.of path attributes).address
              (Block.of path attributes).ancillary before.store store ∧
            (before.assignAll (Block.assignmentsOf { path := path } attributes)).closeWith
              (Block.of path attributes) owner store = after := by
  rw [← fitting_iff_complete path]
  constructor
  · intro performed
    rcases performed with ⟨⟨block, draft⟩, owner, store, given, owned, taken, closed⟩
    obtain ⟨fits, admits, filled, assigned⟩ := trace_gives_iff.mp given
    obtain rfl : Block.of path attributes = block := filled
    obtain rfl : before.assignAll _ = draft := assigned
    rw [Draft.store_assignAll] at taken
    exact ⟨⟨fits, by rw [owned]; rfl⟩, admits, owner, store, owned, taken, closed⟩
  · intro allowed
    rcases allowed with ⟨⟨fits, -⟩, admits, owner, store, owned, taken, closed⟩
    let assigned := before.assignAll (Block.assignmentsOf { path := path } attributes)
    have given :
        Trace Gives attributes ⟨{ path := path }, before⟩ ⟨Block.of path attributes, assigned⟩ :=
      trace_gives_iff.mpr ⟨fits, admits, rfl, rfl⟩
    have stored : assigned.store = before.store := Draft.store_assignAll _ _
    rw [← stored] at taken
    exact ⟨_, owner, store, given, owned, taken, closed⟩

theorem reached_append
    {items : List Item}
    {item : Item}
    (reached : Reached items before)
    (performed : Performs sink item before after) :
    Reached (items ++ [item]) after := by
  have entered : (items ++ [item]).flatMap Item.entered =
      items.flatMap Item.entered ++ item.entered := by
    rw [List.flatMap_append, List.flatMap_singleton]
  have assigned : (items ++ [item]).flatMap Item.assignments =
      items.flatMap Item.assignments ++ item.assignments := by
    rw [List.flatMap_append, List.flatMap_singleton]
  cases item with
  | setName text =>
    obtain rfl := performed
    refine ⟨fun hart => ?_, fun hart => ?_⟩
    · rw [entered, Draft.settings_named]
      simpa only [Item.entered, List.append_nil] using reached.entered hart
    · rw [assigned, Draft.settings_named]
      simpa only [Item.assignments, List.append_nil] using reached.mode hart
  | entryPoint point =>
    rcases performed with ⟨free, rfl⟩
    refine ⟨fun hart => ?_, fun hart => ?_⟩
    · rw [entered, Draft.settings_withEntry]
      by_cases same : hart = point.hart
      · simp [Item.entered, same]
      · simpa [Item.entered, same] using reached.entered hart
    · rw [assigned, Draft.settings_withEntry]
      by_cases same : hart = point.hart
      · simpa [Item.assignments, same] using reached.mode point.hart
      · simpa [Item.assignments, same] using reached.mode hart
  | payload path attributes =>
    obtain ⟨-, -, owner, store, -, -, rfl⟩ := performs_payload_iff.mp performed
    refine ⟨fun hart => ?_, fun hart => ?_⟩
    · rw [entered, Draft.settings_closeWith, Draft.settings_assignAll]
      simpa only [Item.entered, List.append_nil] using reached.entered hart
    · rw [Draft.settings_closeWith, Draft.settings_assignAll, reached.mode, assigned, modeAfter,
        modeAfter, Draft.modeFrom_append]
      rfl

/-- An item can be performed behind others when it is allowed behind them and the receiver takes
its payload. -/
theorem exists_performs_iff
    {items : List Item}
    {item : Item}
    (reached : Reached items before)
    {final : σ} :
    (∃ after, Performs sink item before after ∧ after.store = final) ↔
      item.Allowed items ∧ Trace (Delivers sink) item.blocks before.store final := by
  cases item with
  | setName text =>
    constructor
    · intro performed
      rcases performed with ⟨after, rfl, rfl⟩
      exact ⟨⟨fun _ member => absurd member List.not_mem_nil, trivial, History.holds_nil⟩, .nil⟩
    · intro allowed
      exact ⟨_, rfl, Trace.nil_iff.mp allowed.2⟩
  | entryPoint point =>
    constructor
    · intro performed
      rcases performed with ⟨after, ⟨free, rfl⟩, rfl⟩
      refine ⟨⟨?_, trivial, History.holds_nil⟩, .nil⟩
      intro hart member
      rw [List.mem_singleton.mp member]
      exact (reached.entered point.hart).mp free
    · intro allowed
      have fresh := allowed.1.entries point.hart (List.mem_singleton_self _)
      exact ⟨_, ⟨(reached.entered point.hart).mpr fresh, rfl⟩, Trace.nil_iff.mp allowed.2⟩
  | payload path attributes =>
    have unclaimed :
        History.Holds before.Admits (Block.assignmentsOf { path := path } attributes) ↔
          History.Holds (fun front => Unclaimed (items.flatMap Item.assignments ++ front))
            (Block.assignmentsOf { path := path } attributes) :=
      History.holds_congr (admits_iff_unclaimed reached)
    simp only [performs_payload_iff, unclaimed]
    constructor
    · intro performed
      rcases performed with ⟨after, ⟨complete, modes, owner, store, owned, taken, rfl⟩, rfl⟩
      refine ⟨⟨fun _ member => absurd member List.not_mem_nil, complete, modes⟩, ?_⟩
      exact Trace.singleton_iff.mpr ⟨owner, owned, taken⟩
    · intro allowed
      rcases allowed with ⟨⟨-, complete, modes⟩, delivered⟩
      obtain ⟨owner, owned, taken⟩ := Trace.singleton_iff.mp delivered
      exact ⟨_, ⟨complete, modes, owner, final, owned, taken, rfl⟩, rfl⟩

theorem reached_of_trace
    {items : List Item}
    {store : σ}
    (trace : Trace (Performs sink) items (Draft.initial store) after) :
    Reached items after := by
  induction items using List.reverseRecOn generalizing after with
  | nil =>
    obtain rfl := Trace.nil_iff.mp trace
    exact reached_initial store
  | append_singleton items item inductionHypothesis =>
    obtain ⟨middle, front, last⟩ := Trace.append_iff.mp trace
    exact reached_append (inductionHypothesis front) (Trace.singleton_iff.mp last)

/-- Items can be performed from the start when they are valid and the receiver takes all of their
payloads, one after the other. -/
theorem exists_trace_iff_valid {items : List Item} {store final : σ} :
    (∃ after, Trace (Performs sink) items (Draft.initial store) after ∧ after.store = final) ↔
      Valid items ∧ Trace (Delivers sink) (items.flatMap Item.blocks) store final := by
  induction items using List.reverseRecOn generalizing final with
  | nil =>
    rw [List.flatMap_nil, Trace.nil_iff]
    constructor
    · intro performed
      rcases performed with ⟨after, trace, rfl⟩
      obtain rfl := Trace.nil_iff.mp trace
      exact ⟨valid_nil, rfl⟩
    · intro delivered
      exact ⟨Draft.initial store, .nil, delivered.2⟩
  | append_singleton items item inductionHypothesis =>
    rw [valid_append_iff, List.flatMap_append, List.flatMap_singleton, Trace.append_iff]
    constructor
    · intro performed
      rcases performed with ⟨after, trace, stored⟩
      obtain ⟨middle, front, last⟩ := Trace.append_iff.mp trace
      have reached := reached_of_trace front
      obtain ⟨valid, delivered⟩ := inductionHypothesis.mp ⟨middle, front, rfl⟩
      obtain ⟨allowed, more⟩ :=
        (exists_performs_iff reached).mp ⟨after, Trace.singleton_iff.mp last, stored⟩
      exact ⟨⟨valid, allowed⟩, middle.store, delivered, more⟩
    · intro allowed
      rcases allowed with ⟨⟨valid, last⟩, between, delivered, more⟩
      obtain ⟨middle, front, rfl⟩ := inductionHypothesis.mpr ⟨valid, delivered⟩
      have reached := reached_of_trace front
      obtain ⟨after, performed, stored⟩ := (exists_performs_iff reached).mpr ⟨last, more⟩
      exact ⟨after, front.append (Trace.singleton_iff.mpr performed), stored⟩

end Performs

end HartBoot.Config
