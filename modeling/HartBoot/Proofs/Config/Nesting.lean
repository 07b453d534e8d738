import HartBoot.LoadPlan.Sink
import HartBoot.Proofs.Config.Move
import HartBoot.Proofs.Yaml.Nesting
import Mathlib.Data.List.Induction

/-!
Contract: the mappings that the blocks of a configuration are read from.

Owns:
- `Opens` and `Within`, the states in which the machine enters a block and in which it is inside;
- `BlockKey`, a key in a run that enters a block, and `OwnMapping`, the mapping behind a key, if
  the machine is inside of the block up to the end of just this mapping;
- the condition under which every block is read from the mapping behind its key: that there is one;
- a text that is accepted although there is none.

The machine does not count the starts of mappings, it only passes them. What the proof counts is
`State.level`: a key that enters a block raises it without a mapping, and a start that is passed
is a mapping that does not raise it. The two balance over a nested run, so that no start is passed
but those behind the keys if every key has one.

Does not own: which runs are accepted (see `HartBoot.Proofs.Config.Language`).
-/

namespace HartBoot.Config

variable {σ : Type}

/-! ## Levels -/

/-- The number of mappings that a state should be inside of. -/
def State.level : State → Int
  | .mapping => 1
  | .setName => 1
  | .entryPoints => 2
  | .entryPoint _ => 2
  | .payloads => 2
  | .block _ => 3
  | .field _ _ => 3
  | _ => 0

/-- The states before and after the key of a block. -/
inductive Opens : State → State → Prop where
  | entryPoints : Opens .mapping .entryPoints
  | payloads : Opens .mapping .payloads
  | block {block : Block} : Opens .payloads (.block block)

/-- The second state is inside of the block that has been entered with the first one. -/
inductive Within : State → State → Prop where
  | entryPoints : Within .entryPoints .entryPoints
  | entryPoint {hart : Hart} : Within .entryPoints (.entryPoint hart)
  | payloads : Within .payloads .payloads
  | payload {block : Block} : Within .payloads (.block block)
  | value {block : Block} {field : Field} : Within .payloads (.field block field)
  | block {first now : Block} : now.path = first.path → Within (.block first) (.block now)
  | field {first now : Block} {field : Field} :
    now.path = first.path → Within (.block first) (.field now field)

theorem Opens.level_eq {outer inner : State} (opens : Opens outer inner) :
    inner.level = outer.level + 1 := by
  cases opens <;> rfl

theorem Opens.within {outer inner : State} (opens : Opens outer inner) : Within inner inner := by
  cases opens with
  | entryPoints => exact .entryPoints
  | payloads => exact .payloads
  | block => exact .block rfl

theorem Opens.source_eq {first second inner : State}
    (opens : Opens first inner)
    (reopens : Opens second inner) :
    first = second := by
  cases opens <;> cases reopens <;> rfl

theorem Within.level_le {block state : State} (inside : Within block state) :
    block.level ≤ state.level := by
  cases inside <;> simp [State.level]

section Move

variable {sink : PayloadSink σ} {matching : Matching} {kind : Yaml.Event.Kind}
  {before after : Machine σ}

/-- A move enters a block by its key, or passes the start of a mapping, or follows the mappings. -/
theorem Move.level_cases (move : Move sink matching kind before after) :
    Opens before.state after.state ∨
      kind = .mappingStart ∧ before = after ∨
      after.state.level = before.state.level + kind.climb := by
  cases move with
  | openEntries => exact .inr (.inl ⟨rfl, rfl⟩)
  | openPayloads => exact .inr (.inl ⟨rfl, rfl⟩)
  | openBlock => exact .inr (.inl ⟨rfl, rfl⟩)
  | path => exact .inl .block
  | «section» named =>
    obtain ⟨keyword, -, meant⟩ := Option.bind_eq_some_iff.mp named
    cases keyword <;> cases meant
    case section.setName.refl => exact .inr (.inr rfl)
    case section.hartEntryPoints.refl => exact .inl .entryPoints
    case section.payloads.refl => exact .inl .payloads
  | _ => exact .inr (.inr rfl)

theorem Move.climb_of_opens
    (move : Move sink matching kind before after)
    (opens : Opens before.state after.state) :
    kind.climb = 0 := by
  cases move <;> first | rfl | cases opens

theorem Move.of_opens {outer : State} (opens : Opens outer before.state) :
    Move sink matching .mappingStart before before := by
  rcases before with ⟨state, draft⟩
  cases opens with
  | entryPoints => exact .openEntries
  | payloads => exact .openPayloads
  | block => exact .openBlock

theorem path_take (block : Block) (given : Attribute) : (block.take given).path = block.path := by
  cases given <;> rfl

/-- The machine leaves a block only from the level of the block, by the end of a mapping, and to
the state before its key. -/
theorem Move.within_or_leaves
    {block : State}
    (move : Move sink matching kind before after)
    (inside : Within block before.state) :
    Within block after.state ∨
      kind = .mappingEnd ∧ before.state.level = block.level ∧ Opens after.state block := by
  cases move with
  | openEntries => exact .inl inside
  | openPayloads => exact .inl inside
  | openBlock => exact .inl inside
  | entryHart named =>
    cases inside
    exact .inl .entryPoint
  | entryAddress number free =>
    cases inside
    exact .inl .entryPoints
  | closeEntries =>
    cases inside
    exact .inr ⟨rfl, rfl, .entryPoints⟩
  | path =>
    cases inside
    exact .inl .payload
  | closePayloads =>
    cases inside
    exact .inr ⟨rfl, rfl, .payloads⟩
  | field named =>
    cases inside with
    | payload => exact .inl .value
    | block same => exact .inl (.field same)
  | value meant gives =>
    cases inside with
    | value => exact .inl .payload
    | field same =>
      refine .inl (.block ?_)
      rw [← gives.block, path_take]
      exact same
  | closeBlock owned taken =>
    cases inside with
    | payload => exact .inl .payloads
    | block same => exact .inr ⟨rfl, rfl, .block⟩
  | _ => cases inside

end Move

/-! ## Runs whose blocks are mappings -/

section Run

variable (sink : PayloadSink σ) (matching : Matching)

/-- The machine moves along an event. -/
def Reads (event : Yaml.Event) : Machine σ → Machine σ → Prop :=
  Move sink matching event.kind

/-- A run in which the keys of blocks come with the start of a mapping behind them, and in which
all other moves have a property. -/
inductive Paired (property : Yaml.Event → Machine σ → Machine σ → Prop) :
    List Yaml.Event → Machine σ → Machine σ → Prop where
  | nil {machine : Machine σ} : Paired property [] machine machine
  | move {event : Yaml.Event} {rest : List Yaml.Event} {before middle after : Machine σ} :
    Reads sink matching event before middle → property event before middle →
    Paired property rest middle after → Paired property (event :: rest) before after
  | enter {event opening : Yaml.Event} {rest : List Yaml.Event} {before middle after : Machine σ} :
    Reads sink matching event before middle → Opens before.state middle.state →
    opening.kind = .mappingStart → Paired property rest middle after →
    Paired property (event :: opening :: rest) before after

/-- Behind every key of a block in a run, a mapping starts. -/
def Introduced (start : Machine σ) (events : List Yaml.Event) : Prop :=
  ∀ front event behind before after,
    events = front ++ event :: behind → Trace (Reads sink matching) front start before →
      Reads sink matching event before after → Opens before.state after.state →
        ∃ opening rest, behind = opening :: rest ∧ opening.kind = .mappingStart

/-- A move is not over the key of a block. -/
def NoKey (_ : Yaml.Event) (before after : Machine σ) : Prop :=
  ¬ Opens before.state after.state

/-- A move does to the level what it does to the number of mappings. -/
def Follows (event : Yaml.Event) (before after : Machine σ) : Prop :=
  after.state.level = before.state.level + event.kind.climb

variable {sink matching} {before after : Machine σ} {events : List Yaml.Event}

/-- Behind the key of a block, the machine passes the start of a mapping. -/
theorem Opens.passes
    {outer : State}
    {opening : Yaml.Event}
    (opens : Opens outer before.state)
    (starts : opening.kind = .mappingStart) :
    Reads sink matching opening before before := by
  rw [Reads, starts]
  exact .of_opens opens

/-- The key of a block and the start of its mapping are one level together. -/
theorem Reads.depth_enter
    {event opening : Yaml.Event}
    (read : Reads sink matching event before after)
    (opens : Opens before.state after.state)
    (starts : opening.kind = .mappingStart)
    (rest : List Yaml.Event) :
    Yaml.depth (event :: opening :: rest) = 1 + Yaml.depth rest := by
  rw [Yaml.depth_cons, Yaml.depth_cons, read.climb_of_opens opens, starts, Yaml.Event.Kind.climb,
    Int.zero_add]

theorem Introduced.behind
    {event : Yaml.Event}
    {rest : List Yaml.Event}
    (introduced : Introduced sink matching before (event :: rest))
    (move : Reads sink matching event before after) :
    Introduced sink matching after rest := by
  intro front key behind first second split reached read opens
  exact introduced (event :: front) key behind first second (by rw [split]; rfl)
    (.cons move reached) read opens

/-- A run in which every block is introduced goes by pairs. -/
theorem paired_of_introduced
    (trace : Trace (Reads sink matching) events before after)
    (introduced : Introduced sink matching before events) :
    Paired sink matching NoKey events before after := by
  induction events using List.twoStepInduction generalizing before with
  | nil =>
    obtain rfl := Trace.nil_iff.mp trace
    exact .nil
  | singleton event =>
    have move := Trace.singleton_iff.mp trace
    refine .move move (fun opens => ?_) .nil
    obtain ⟨opening, rest, impossible, -⟩ := introduced [] event [] before after rfl .nil move opens
    cases impossible
  | cons_cons event next rest pairs singles =>
    obtain ⟨middle, move, others⟩ := Trace.cons_iff.mp trace
    by_cases opens : Opens before.state middle.state
    · obtain ⟨opening, tail, same, starts⟩ :=
        introduced [] event (next :: rest) before middle rfl .nil move opens
      obtain ⟨rfl, rfl⟩ := List.cons.inj same
      obtain ⟨last, pass, further⟩ := Trace.cons_iff.mp others
      obtain rfl := (opens.passes starts).functional pass
      exact .enter move opens starts (pairs further ((introduced.behind move).behind pass))
    · exact .move move opens (singles next others (introduced.behind move))

/-- A run by pairs to the end of a stream does not end more mappings than its start is inside of. -/
theorem Paired.level_nonneg
    (paired : Paired sink matching NoKey events before after)
    (ended : after.state = .finished) :
    0 ≤ before.state.level + Yaml.depth events := by
  induction paired with
  | nil => simp [ended, State.level]
  | move read quiet _ inductionHypothesis =>
    have later := inductionHypothesis ended
    rw [Yaml.depth_cons]
    rcases read.level_cases with opens | ⟨starts, rfl⟩ | level
    · exact absurd opens quiet
    · rw [starts, Yaml.Event.Kind.climb]
      omega
    · omega
  | enter read opens starts _ inductionHypothesis =>
    have later := inductionHypothesis ended
    have level := opens.level_eq
    rw [read.depth_enter opens starts]
    omega

/-- If it ends just as many, no start of a mapping is passed but those behind keys. -/
theorem Paired.follows
    (paired : Paired sink matching NoKey events before after)
    (ended : after.state = .finished)
    (balanced : before.state.level + Yaml.depth events = 0) :
    Paired sink matching Follows events before after := by
  induction paired with
  | nil => exact .nil
  | move read quiet rest inductionHypothesis =>
    have later := rest.level_nonneg ended
    rw [Yaml.depth_cons] at balanced
    rcases read.level_cases with opens | ⟨starts, rfl⟩ | level
    · exact absurd opens quiet
    · rw [starts, Yaml.Event.Kind.climb] at balanced
      omega
    · exact .move read level (inductionHypothesis ended (by omega))
  | enter read opens starts rest inductionHypothesis =>
    have level := opens.level_eq
    rw [read.depth_enter opens starts] at balanced
    exact .enter read opens starts (inductionHypothesis ended (by omega))

/-- A run that starts with a move goes on behind it. -/
theorem Reads.behind
    {first head event : Yaml.Event}
    {rest front behind : List Yaml.Event}
    {middle outer : Machine σ}
    (read : Reads sink matching first before middle)
    (split : first :: rest = (head :: front) ++ event :: behind)
    (reached : Trace (Reads sink matching) (head :: front) before outer) :
    rest = front ++ event :: behind ∧ Trace (Reads sink matching) front middle outer := by
  obtain ⟨rfl, tail⟩ := List.cons.inj split
  obtain ⟨other, again, others⟩ := Trace.cons_iff.mp reached
  obtain rfl := read.functional again
  exact ⟨tail, others⟩

/-- The rest of a run behind the key of a block goes by pairs as well. -/
theorem Paired.behind_key
    (paired : Paired sink matching Follows events before after)
    {front behind : List Yaml.Event}
    {event : Yaml.Event}
    (split : events = front ++ event :: behind)
    {outer inner : Machine σ}
    (reached : Trace (Reads sink matching) front before outer)
    (move : Reads sink matching event outer inner)
    (opens : Opens outer.state inner.state) :
    ∃ opening rest,
      behind = opening :: rest ∧ opening.kind = .mappingStart ∧
        Paired sink matching Follows rest inner after := by
  induction paired generalizing front with
  | nil => exact absurd split.symm (List.append_ne_nil_of_right_ne_nil _ (List.cons_ne_nil _ _))
  | move read follows rest inductionHypothesis =>
    cases front with
    | nil =>
      obtain ⟨rfl, rfl⟩ := List.cons.inj split
      obtain rfl := Trace.nil_iff.mp reached
      obtain rfl := read.functional move
      have level := opens.level_eq
      rw [Follows, read.climb_of_opens opens] at follows
      omega
    | cons head front =>
      obtain ⟨tail, others⟩ := read.behind split reached
      exact inductionHypothesis tail others
  | enter read enters starts rest inductionHypothesis =>
    cases front with
    | nil =>
      obtain ⟨rfl, rfl⟩ := List.cons.inj split
      obtain rfl := Trace.nil_iff.mp reached
      obtain rfl := read.functional move
      exact ⟨_, _, rfl, starts, rest⟩
    | cons head front =>
      obtain ⟨tail, others⟩ := read.behind split reached
      cases front with
      | nil =>
        -- The start of a mapping is no key.
        obtain ⟨rfl, rfl⟩ := List.cons.inj tail
        have level := move.climb_of_opens opens
        rw [starts] at level
        cases level
      | cons next front =>
        obtain ⟨behindStart, further⟩ := (enters.passes starts).behind tail others
        exact inductionHypothesis behindStart further

variable (sink matching) in
/-- The machine is inside of a block along some events, and leaves it by the next one, which ends
the mapping that the machine was inside of at the start. -/
structure Leaves
    (block : State)
    (inner : List Yaml.Event)
    (closing : Yaml.Event)
    (before last outside : Machine σ) :
    Prop where
  stays : Trace
    (fun event source target => Reads sink matching event source target ∧ Within block target.state)
    inner before last
  closes : closing.kind = .mappingEnd
  leaves : Reads sink matching closing last outside
  returns : Opens outside.state block
  enclosed : ∀ front back, inner = front ++ back →
    block.level ≤ before.state.level + Yaml.depth front
  closed : before.state.level + Yaml.depth inner = block.level

namespace Leaves

variable {block : State} {inner : List Yaml.Event} {event opening closing : Yaml.Event}
  {middle last outside : Machine σ}

theorem here
    (read : Reads sink matching closing before outside)
    (closes : closing.kind = .mappingEnd)
    (level : before.state.level = block.level)
    (returns : Opens outside.state block) :
    Leaves sink matching block [] closing before before outside where
  stays := .nil
  closes := closes
  leaves := read
  returns := returns
  enclosed front back split := by
    rw [(List.append_eq_nil_iff.mp split.symm).1]
    simpa using Int.le_of_eq level.symm
  closed := by simpa using level

/-- A move inside of the block may come first, if it follows the mappings. -/
theorem after_move
    (left : Leaves sink matching block inner closing middle last outside)
    (read : Reads sink matching event before middle)
    (follows : Follows event before middle)
    (inside : Within block before.state)
    (stays : Within block middle.state) :
    Leaves sink matching block (event :: inner) closing before last outside where
  stays := .cons ⟨read, stays⟩ left.stays
  closes := left.closes
  leaves := left.leaves
  returns := left.returns
  enclosed front back split := by
    cases front with
    | nil => simpa using inside.level_le
    | cons head front =>
      obtain ⟨rfl, tail⟩ := List.cons.inj split
      have enclosed := left.enclosed front back tail
      rw [Follows] at follows
      rw [Yaml.depth_cons]
      omega
  closed := by
    have closed := left.closed
    rw [Follows] at follows
    rw [Yaml.depth_cons]
    omega

/-- The key of an inner block and the start of its mapping may come first. -/
theorem after_enter
    (left : Leaves sink matching block inner closing middle last outside)
    (read : Reads sink matching event before middle)
    (enters : Opens before.state middle.state)
    (starts : opening.kind = .mappingStart)
    (inside : Within block before.state)
    (stays : Within block middle.state) :
    Leaves sink matching block (event :: opening :: inner) closing before last outside := by
  have level := inside.level_le
  have raised := enters.level_eq
  have flat := read.climb_of_opens enters
  have passes : Reads sink matching opening middle middle := enters.passes starts
  refine ⟨.cons ⟨read, stays⟩ (.cons ⟨passes, stays⟩ left.stays), left.closes, left.leaves,
    left.returns, ?_, ?_⟩
  · intro front back split
    rcases front with - | ⟨head, - | ⟨next, front⟩⟩
    · simpa using level
    · obtain ⟨rfl, tail⟩ := List.cons.inj split
      simpa [flat] using level
    · obtain ⟨rfl, tail⟩ := List.cons.inj split
      obtain ⟨rfl, behind⟩ := List.cons.inj tail
      have enclosed := left.enclosed front back behind
      rw [read.depth_enter enters starts]
      omega
  · have closed := left.closed
    rw [read.depth_enter enters starts]
    omega

end Leaves

/-- A run that is inside of a block leaves it by the end of a mapping of the same level. -/
theorem Paired.leaves
    (paired : Paired sink matching Follows events before after)
    (ended : after.state = .finished)
    {block : State}
    (inside : Within block before.state) :
    ∃ inner closing rest last outside,
      events = inner ++ closing :: rest ∧
        Leaves sink matching block inner closing before last outside := by
  induction paired with
  | nil =>
    rw [ended] at inside
    cases inside
  | @move event rest before middle after read follows _ inductionHypothesis =>
    rcases read.within_or_leaves inside with stays | ⟨closes, atLevel, returns⟩
    · obtain ⟨inner, closing, tail, last, outside, rfl, left⟩ := inductionHypothesis ended stays
      exact ⟨event :: inner, closing, tail, last, outside, rfl,
        left.after_move read follows inside stays⟩
    · exact ⟨[], event, rest, before, middle, rfl, .here read closes atLevel returns⟩
  | @enter event opening rest before middle after read enters starts _ inductionHypothesis =>
    rcases read.within_or_leaves inside with stays | ⟨closes, -, -⟩
    · obtain ⟨inner, closing, tail, last, outside, rfl, left⟩ := inductionHypothesis ended stays
      exact ⟨event :: opening :: inner, closing, tail, last, outside, rfl,
        left.after_enter read enters starts inside stays⟩
    · have flat := read.climb_of_opens enters
      rw [closes] at flat
      cases flat

theorem succeeds_readAll_iff_reads {done : Unit} :
    (Machine.readAll sink matching events).Succeeds before done after ↔
      Trace (Reads sink matching) events before after := by
  rw [Machine.succeeds_readAll_iff_trace, Trace.map_iff]
  exact Iff.rfl

end Run

/-! ## Blocks of accepted configurations -/

section Accepted

variable (sink : PayloadSink σ) (matching : Matching)

/-- In a run, an event is the key of a block: it leads from the state before the key into the
block. -/
structure BlockKey
    (start : Machine σ)
    (events front : List Yaml.Event)
    (event : Yaml.Event)
    (behind : List Yaml.Event)
    (before after : Machine σ) :
    Prop where
  split : events = front ++ event :: behind
  reached : (Machine.readAll sink matching front).Succeeds start () before
  read : (Machine.step sink matching event).Succeeds before () after
  opens : Opens before.state after.state

/-- Every block of a run has a property, which may speak of the states around its key and of the
events behind it. -/
def EveryBlock
    (start : Machine σ)
    (events : List Yaml.Event)
    (property : Machine σ → Machine σ → List Yaml.Event → Prop) :
    Prop :=
  ∀ front event behind before after,
    BlockKey sink matching start events front event behind before after →
      property before after behind

/-- Some events are a mapping, and the machine is inside of a block from its start up to its end, by
which it returns to the state before the key of the block. -/
structure OwnMapping
    (before after : Machine σ)
    (opening : Yaml.Event)
    (inner : List Yaml.Event)
    (closing : Yaml.Event) :
    Prop where
  starts : opening.kind = .mappingStart
  ends : closing.kind = .mappingEnd
  nested : Yaml.Nested inner
  inside : ∀ front back middle, inner = front ++ back →
    (Machine.readAll sink matching (opening :: front)).Succeeds after () middle →
      Within after.state middle.state
  outside : ∃ last left,
    (Machine.readAll sink matching (opening :: inner)).Succeeds after () last ∧
      (Machine.step sink matching closing).Succeeds last () left ∧
      left.state = before.state

/-- The block of a key is read from the mapping directly behind the key, and from nothing else. -/
def HasOwnMapping (before after : Machine σ) (behind : List Yaml.Event) : Prop :=
  ∃ opening inner closing rest,
    behind = opening :: (inner ++ closing :: rest) ∧
      OwnMapping sink matching before after opening inner closing

/-- A mapping starts directly behind a key. -/
def StartsMapping (behind : List Yaml.Event) : Prop :=
  ∃ opening rest, behind = opening :: rest ∧ opening.kind = .mappingStart

variable {sink matching} {start before after : Machine σ} {events front behind : List Yaml.Event}
  {event : Yaml.Event}

/-- A block that is left by the end of a mapping of its own level has a mapping of its own. -/
theorem Leaves.ownMapping
    {opening closing : Yaml.Event}
    {inner : List Yaml.Event}
    {last outside : Machine σ}
    (left : Leaves sink matching after.state inner closing after last outside)
    (opens : Opens before.state after.state)
    (starts : opening.kind = .mappingStart) :
    OwnMapping sink matching before after opening inner closing := by
  have passes : Reads sink matching opening after after := opens.passes starts
  have moves : Trace (Reads sink matching) inner after last :=
    left.stays.mono fun _ _ _ both => both.1
  refine ⟨starts, left.closes, ⟨?_, ?_⟩, ?_, last, outside, ?_, ?_, ?_⟩
  · intro front back split
    have enclosed := left.enclosed front back split
    omega
  · have closed := left.closed
    omega
  · intro front back middle split reached
    have stays := left.stays
    rw [split] at stays
    obtain ⟨reachedStays, within, -⟩ := Trace.append_iff.mp stays
    have along :
        (Machine.readAll sink matching (opening :: front)).Succeeds after () reachedStays :=
      succeeds_readAll_iff_reads.mpr (.cons passes (within.mono fun _ _ _ both => both.1))
    have same : middle = reachedStays := reached.2.symm.trans along.2
    rw [same]
    exact within.keeps (fun machine => Within after.state machine.state)
      (fun _ _ _ both _ => both.2) opens.within
  · exact succeeds_readAll_iff_reads.mpr (.cons passes moves)
  · exact Machine.succeeds_step_iff_move.mpr left.leaves
  · exact left.returns.source_eq opens

/-- In an accepted stream whose mappings are nested, every block is read from the mapping behind
its key, from its start to its end, exactly when a mapping starts behind every such key. -/
theorem own_mappings_iff
    (sink : PayloadSink σ)
    (matching : Matching)
    (events : List Yaml.Event)
    (nested : Yaml.Nested events)
    (store final : σ)
    (image : Image)
    (accepted : (readEvents sink matching events).Succeeds store image final) :
    EveryBlock sink matching (Machine.start store) events (HasOwnMapping sink matching) ↔
      EveryBlock sink matching (Machine.start store) events
        fun _ _ behind => StartsMapping behind := by
  constructor
  · intro owned front event behind before after key
    obtain ⟨opening, inner, closing, rest, split, mapping⟩ :=
      owned front event behind before after key
    exact ⟨opening, _, split, mapping.starts⟩
  · intro started
    obtain ⟨-, draft, moves, -, -⟩ := succeeds_readReading_iff_trace.mp accepted
    have reads :
        Trace (fun event => Move sink matching event.kind) events (Machine.start store)
          ⟨.finished, draft⟩ :=
      Trace.map_iff.mp moves
    have introduced : Introduced sink matching (Machine.start store) events := by
      intro front event behind before after split reached read opens
      exact started front event behind before after ⟨split, succeeds_readAll_iff_reads.mpr reached,
        Machine.succeeds_step_iff_move.mpr read, opens⟩
    have balanced : (Machine.start store).state.level + Yaml.depth events = 0 := by
      rw [nested.closed]
      rfl
    have paired := (paired_of_introduced reads introduced).follows rfl balanced
    intro front event behind before after key
    obtain ⟨opening, rest, rfl, starts, further⟩ :=
      paired.behind_key key.split (succeeds_readAll_iff_reads.mp key.reached)
        (Machine.succeeds_step_iff_move.mp key.read) key.opens
    obtain ⟨inner, closing, tail, last, outside, rfl, left⟩ :=
      further.leaves rfl key.opens.within
    exact ⟨opening, inner, closing, tail, rfl, left.ownMapping key.opens starts⟩

/-- The text `hart-entry-points: {u54_1: 1}` is such a stream. -/
theorem own_mappings_iff_entryPoint :
    let events := (Yaml.read "hart-entry-points: \x7bu54_1: 1\x7d\n").events
    let sink := LoadPlan.sink Files.empty false
    let image := Image.initial.configure .u54_1 fun settings => { settings with entry := some 1 }
    Yaml.Nested events ∧
      (readEvents sink .whole events).Succeeds LoadPlan.empty image LoadPlan.empty ∧
      (EveryBlock sink .whole (Machine.start LoadPlan.empty) events (HasOwnMapping sink .whole) ↔
        EveryBlock sink .whole (Machine.start LoadPlan.empty) events
          fun _ _ behind => StartsMapping behind) := by
  intro events sink image
  have nested : Yaml.Nested events := by decide +kernel
  have accepted : (readEvents sink .whole events).Succeeds LoadPlan.empty image LoadPlan.empty :=
    ⟨by decide +kernel, by decide +kernel⟩
  exact ⟨nested, accepted,
    own_mappings_iff sink .whole events nested LoadPlan.empty LoadPlan.empty image accepted⟩

/-- A text is accepted although a scalar stands behind the key of its block: the block is read from
the outer mapping, and left by the end of the mapping behind `0x1000`. -/
theorem scalar_behind_block_key :
    let events : List Yaml.Event :=
      [⟨.streamStart, 1, 0⟩, ⟨.documentStart, 1, 17⟩, ⟨.mappingStart, 1, 17⟩,
        ⟨.scalar "hart-entry-points", 1, 0⟩, ⟨.scalar "u54_1", 1, 19⟩, ⟨.scalar "0x1000", 2, 0⟩,
        ⟨.mappingStart, 2, 8⟩, ⟨.mappingEnd, 2, 9⟩, ⟨.mappingEnd, 3, 0⟩, ⟨.documentEnd, 3, 0⟩,
        ⟨.streamEnd, 3, 0⟩]
    let sink := LoadPlan.sink Files.empty false
    let image := Image.initial.configure .u54_1 fun settings =>
      { settings with entry := some 0x1000 }
    Yaml.read "hart-entry-points: u54_1\n0x1000: \x7b\x7d\n" = ⟨events, none⟩ ∧
      Yaml.Nested events ∧
      (readEvents sink .whole events).Succeeds LoadPlan.empty image LoadPlan.empty ∧
      ¬ EveryBlock sink .whole (Machine.start LoadPlan.empty) events
        (HasOwnMapping sink .whole) := by
  intro events sink image
  refine ⟨by decide +kernel, by decide +kernel, ⟨by decide +kernel, by decide +kernel⟩, ?_⟩
  intro owned
  let before : Machine LoadPlan := ⟨.mapping, Draft.initial LoadPlan.empty⟩
  let after : Machine LoadPlan := ⟨.entryPoints, Draft.initial LoadPlan.empty⟩
  have key : BlockKey sink .whole (Machine.start LoadPlan.empty) events (events.take 3)
      ⟨.scalar "hart-entry-points", 1, 0⟩ (events.drop 4) before after :=
    ⟨rfl, ⟨rfl, rfl⟩, ⟨rfl, rfl⟩, .entryPoints⟩
  obtain ⟨opening, inner, closing, rest, split, mapping⟩ := owned _ _ _ _ _ key
  obtain ⟨rfl, -⟩ := List.cons.inj split
  cases mapping.starts

end Accepted

end HartBoot.Config
