import HartBoot.Proofs.Config.Feed
import HartBoot.Proofs.Config.FrontMoves

/-!
Contract: the requests that a run makes to the receiver of the payloads.

Owns:
- `requestsFor`, the requests that blocks lead to, as far as the answers of the receiver allow;
- `cause_of_fails_close`, what has happened when a block cannot be closed;
- `Hears`, the events that a machine accepts, and those from the first one on that it refuses;
- the law of the requests, for every run, also for those that are rejected.

Does not own: which blocks some events close (see `HartBoot.Proofs.Config.Front`), and what the
receiver does with a request (see `HartBoot.Proofs.LoadPlan.Sink`).
-/

namespace HartBoot.Config

open Yaml.Event (Kind)

variable {σ : Type}

/-- The requests that some blocks lead to, one block after the other. The payload of a block is to
be extracted for its owner, and, if it is no executable, to be embedded. Nothing is asked for a
block without an owner, and nothing behind a fault. -/
def requestsFor (sink : PayloadSink σ) : List Block → σ → List PayloadSink.Request
  | [], _ => []
  | block :: rest, store =>
    match block.owner with
    | none => requestsFor sink rest store
    | some owner =>
      let extracted := (sink.extract block.path owner block.address).run store
      .extract block.path owner block.address ::
        match extracted.result with
        | .error _ => []
        | .ok true => requestsFor sink rest extracted.state
        | .ok false =>
          let embedded :=
            (sink.embed block.path block.address owner block.ancillary).run extracted.state
          .embed block.path block.address owner block.ancillary ::
            match embedded.result with
            | .error _ => []
            | .ok _ => requestsFor sink rest embedded.state

/-! ## Blocks that are taken, and blocks that are not -/

section Requests

variable {sink : PayloadSink σ} {block : Block} {owner : Hart} {rest : List Block}
  {before after : List PayloadSink.Request × σ}

/-- When the payload of a block is taken, its requests have been made, and those of the other
blocks are left. -/
theorem requests_of_takes
    (owned : block.owner = some owner)
    (taken :
      sink.recorded.Takes block.path owner block.address block.ancillary before after) :
    before.1 ++ requestsFor sink (block :: rest) before.2 =
      after.1 ++ requestsFor sink rest after.2 := by
  rcases taken with extracted | ⟨middle, extracted, embedded⟩
  · obtain ⟨⟨accepted, reached⟩, kept⟩ := PayloadSink.succeeds_keeping.mp extracted
    rw [← kept, ← reached]
    simp [requestsFor, owned, accepted]
  · obtain ⟨⟨refused, between⟩, asked⟩ := PayloadSink.succeeds_keeping.mp extracted
    obtain ⟨⟨accepted, reached⟩, kept⟩ := PayloadSink.succeeds_keeping.mp embedded
    rw [← between] at accepted reached
    rw [← kept, ← asked, ← reached]
    simp [requestsFor, owned, refused, accepted]

/-- When the payload of a block is not taken, its requests have been made up to the fault. -/
theorem requests_of_refused
    (owned : block.owner = some owner)
    {fallback : Transcript}
    {fault : PayloadFault}
    (failed : (sink.recorded.submit block.path owner block.address block.ancillary
      fallback).Fails before fault after) :
    before.1 ++ requestsFor sink [block] before.2 = after.1 := by
  rcases PayloadSink.fails_submit.mp failed with extracted | ⟨middle, extracted, embedded⟩
  · obtain ⟨⟨refused, -⟩, kept⟩ := PayloadSink.fails_keeping.mp extracted
    rw [← kept]
    simp [requestsFor, owned, refused]
  · obtain ⟨⟨whole, between⟩, asked⟩ := PayloadSink.succeeds_keeping.mp extracted
    obtain ⟨⟨refused, -⟩, kept⟩ := PayloadSink.fails_keeping.mp embedded
    rw [← between] at refused
    rw [← kept, ← asked]
    simp [requestsFor, owned, whole, refused]

/-- Behind blocks whose payloads have been taken, the requests of the other blocks are left. -/
theorem requests_of_delivered
    {blocks : List Block}
    (delivered : Trace (Delivers sink.recorded) blocks before after) :
    before.1 ++ requestsFor sink (blocks ++ rest) before.2 =
      after.1 ++ requestsFor sink rest after.2 := by
  induction delivered with
  | nil => rfl
  | cons first _ inductionHypothesis =>
    obtain ⟨owner, owned, taken⟩ := first
    rw [List.cons_append, requests_of_takes owned taken, inductionHypothesis]

end Requests

/-! ## Blocks that cannot be closed -/

/-- A block that cannot be closed has no owner, and nothing has been asked, or its payload has not
been taken. -/
theorem cause_of_fails_close
    {sink : PayloadSink σ}
    {block : Block}
    {before after : Draft σ}
    {error : Error}
    (failed : (Draft.close sink block).Fails before error after) :
    (block.owner = none ∧ after.store = before.store) ∨
      ∃ owner fallback fault, block.owner = some owner ∧
        (sink.submit block.path owner block.address block.ancillary fallback).Fails before.store
          fault after.store := by
  have composed : (Draft.nameSetAfter block).Succeeds before () (before.composeName block) :=
    Draft.succeeds_nameSetAfter.mpr rfl
  unfold Draft.close at failed
  rcases Action.fails_bind.mp failed with unnamed | ⟨_, middle, named, behind⟩
  · exact absurd unnamed (Action.not_fails_of_succeeds composed)
  · obtain rfl := Draft.succeeds_nameSetAfter.mp named
    cases owned : block.owner with
    | none =>
      rw [owned] at behind
      obtain ⟨-, rfl⟩ := Action.fails_fail.mp behind
      exact .inl ⟨rfl, rfl⟩
    | some owner =>
      rw [owned] at behind
      simp [Draft.takeHartName, Draft.updateImage, Draft.submit] at behind
      obtain ⟨fault, store, refused, -, rfl⟩ := behind
      exact .inr ⟨owner, _, fault, rfl, refused⟩

/-! ## The law of the requests -/

theorem flatMap_described (items : List Item) :
    items.flatMap Item.described = items.flatMap Item.blocks := by
  have same : Item.described = Item.blocks := by
    funext item
    cases item with
    | setName text => rfl
    | entryPoint point => rfl
    | payload path attributes =>
      rw [Item.described, Item.blocks, Block.of_eq_describedBy]
  rw [same]

/-- The closed blocks of an account have been delivered, and nothing else has. -/
theorem Recounts.delivered
    {sink : PayloadSink σ}
    {account : Account}
    {store : σ}
    {machine : Machine σ}
    (recounted : Recounts sink account (Draft.initial store) machine) :
    Trace (Delivers sink) (account.items.flatMap Item.described) store machine.draft.store := by
  rcases account with ⟨items, current⟩
  rcases recounted with ⟨base, performed, stands⟩
  have stored : base.store = machine.draft.store := by
    cases current with
    | none => rw [stands.2]
    | some given =>
      obtain ⟨block, -, filled⟩ := stands
      obtain ⟨-, -, -, assigned⟩ := trace_gives_iff.mp filled
      exact (Draft.store_assignAll _ _).symm.trans (congrArg Draft.store assigned)
  rw [flatMap_described]
  exact (exists_trace_iff_valid.mp ⟨base, performed, stored⟩).2

/-- The end of a block that cannot be closed makes the requests of that block, as far as they are
answered. -/
theorem requests_of_closing
    {sink : PayloadSink σ}
    {block : Block}
    {before after : Draft (List PayloadSink.Request × σ)}
    {error : Error}
    (failed : (Draft.close sink.recorded block).Fails before error after) :
    before.store.1 ++ requestsFor sink [block] before.store.2 = after.store.1 := by
  rcases cause_of_fails_close failed with ⟨unowned, same⟩ | ⟨owner, fallback, fault, owned, refused⟩
  · rw [same]
    simp [requestsFor, unowned]
  · exact requests_of_refused owned refused

/-- An event that is refused behind a front makes the requests of the block that it ends, if it ends
one. -/
theorem requests_of_refusal
    {sink : PayloadSink σ}
    {matching : Matching}
    {front : Front}
    {before after : Machine (List PayloadSink.Request × σ)}
    (stands : before.state = front.position.state)
    {event : Yaml.Event}
    {behind : List Kind}
    {error : Error}
    (refused : (Machine.step sink.recorded matching event).Fails before error after) :
    before.draft.store.1 ++
        requestsFor sink (front.ended (event.kind :: behind)) before.draft.store.2 =
      after.draft.store.1 := by
  obtain ⟨stopped, -⟩ := Machine.fails_step.mp refused
  by_cases closing : ∃ block, before.state = .block block ∧ event.kind = .mappingEnd
  · rcases before with ⟨state, draft⟩
    rcases event with ⟨kind, line, column⟩
    obtain ⟨block, rfl, rfl⟩ := closing
    have failed : (Draft.close sink.recorded block).Fails draft error after.draft := by
      simpa [Machine.advance] using stopped
    rw [Front.ended_of_block stands.symm behind]
    exact requests_of_closing failed
  · -- Nothing but the end of a block reaches the receiver, so nothing has been asked.
    have running : ∀ block, before.state = .block block → event.kind ≠ .mappingEnd :=
      fun block inside ends => closing ⟨block, inside, ends⟩
    have kept : before.draft.committed = after.draft.committed := by
      rw [← stopped.2]
      exact Machine.advance_fixes_committed running before.draft
    have stored : before.draft.store = after.draft.store := congrArg Prod.fst kept
    rw [stands] at running
    rw [Front.ended_of_running running behind, stored]
    exact List.append_nil _

/-! ## The law of the requests -/

/-- Of the events that a machine is fed, it accepts those up to a point, and it refuses the next
one, if there is one. -/
structure Hears
    (sink : PayloadSink σ)
    (matching : Matching)
    (start : Machine σ)
    (events heard rest : List Yaml.Event)
    (reached : Machine σ) :
    Prop where
  split : events = heard ++ rest
  accepted : (Machine.readAll sink matching heard).Succeeds start () reached
  refused : ∀ event behind, rest = event :: behind →
    ∃ error after, (Machine.step sink matching event).Fails reached error after

theorem exists_hears
    (sink : PayloadSink σ)
    (matching : Matching)
    (start : Machine σ)
    (events : List Yaml.Event) :
    ∃ heard rest reached, Hears sink matching start events heard rest reached := by
  rcases Machine.feed_cases sink matching start events with accepted | refusal
  · refine ⟨events, [], _, (List.append_nil events).symm, accepted, ?_⟩
    intro event behind more
    cases more
  · obtain ⟨front, event, back, middle, error, split, accepted, refused⟩ := refusal
    refine ⟨front, event :: back, middle, split, accepted, ?_⟩
    rintro _ _ ⟨⟩
    exact ⟨error, _, refused⟩

/-- Whatever a machine is fed, the events that it accepts are the beginning of a configuration. The
requests that have been made are those of the payload blocks that this beginning closes, in their
order, and of the block that the event behind it ends, if it ends one and is refused. Whatever
stands further behind asks for nothing. -/
theorem requests_of_feed
    (sink : PayloadSink σ)
    (matching : Matching)
    (events : List Yaml.Event)
    (store : σ) :
    let start := Machine.start ([], store)
    (∃ heard rest reached, Hears sink.recorded matching start events heard rest reached) ∧
      ∀ heard rest reached, Hears sink.recorded matching start events heard rest reached →
        (∃ front : Front, front.Spells matching (heard.map fun event => event.kind)) ∧
          ∀ front : Front, front.Spells matching (heard.map fun event => event.kind) →
            (Machine.feed sink.recorded matching start events).draft.store.1 =
              requestsFor sink (front.blocks ++ front.ended (rest.map fun event => event.kind))
                store := by
  intro start
  refine ⟨exists_hears sink.recorded matching start events, ?_⟩
  intro heard rest reached hears
  rcases hears with ⟨rfl, accepted, refused⟩
  have along := Machine.succeeds_readAll_iff_trace.mp accepted
  have begun := exists_front_of_accepted accepted
  refine ⟨begun.imp fun _ told => told.1, ?_⟩
  intro front spelled
  obtain ⟨stands, recounted⟩ := Front.leads spelled along
  have made (ended : List Block) :
      requestsFor sink (front.blocks ++ ended) store =
        reached.draft.store.1 ++ requestsFor sink ended reached.draft.store.2 :=
    requests_of_delivered recounted.delivered
  rw [made, Machine.feed_append_of_accepted accepted]
  cases rest with
  | nil =>
    rw [List.map_nil, Front.ended_nil]
    exact (List.append_nil _).symm
  | cons event behind =>
    obtain ⟨error, after, failed⟩ := refused event behind rfl
    rw [Machine.feed_cons_of_refused failed, List.map_cons]
    exact (requests_of_refusal stands failed).symm

/-- Three blocks end. The payload of the first one is no executable, that of the second one is, and
the third one has no owner: nothing is asked for it, and nothing for the block behind it. -/
theorem requests_of_feed_threeBlocks :
    let heard := Yaml.Event.ofKinds
      [.streamStart, .documentStart, .mappingStart, .scalar "payloads", .mappingStart,
        .scalar "a", .mappingStart, .scalar "owner-hart", .scalar "u54_2",
        .scalar "exec-addr", .scalar "8", .scalar "owner-hart", .scalar "u54_1",
        .scalar "ancilliary-data", .scalar "d", .mappingEnd,
        .scalar "b", .mappingStart, .scalar "owner-hart", .scalar "u54_2", .mappingEnd,
        .scalar "c", .mappingStart, .scalar "exec-addr", .scalar "16"]
    let rest := Yaml.Event.ofKinds
      [.mappingEnd, .scalar "e", .mappingStart, .scalar "owner-hart", .scalar "u54_3", .mappingEnd]
    let sink := PayloadSink.answering fun path => path == "b"
    let start := Machine.start ([], ())
    let reached := ((Machine.readAll sink.recorded .whole heard).run start).state
    let first : List Attribute :=
      [.ownerHart .u54_2, .execAddr 8, .ownerHart .u54_1, .ancillaryData "d"]
    let front : Front :=
      ⟨[.payload "a" first, .payload "b" [.ownerHart .u54_2]], .block "c" [.execAddr 16]⟩
    Hears sink.recorded .whole start (heard ++ rest) heard rest reached ∧
      front.Spells .whole (heard.map fun event => event.kind) ∧
      (Machine.feed sink.recorded .whole start (heard ++ rest)).draft.store.1 =
        [.extract "a" .u54_1 8, .embed "a" 8 .u54_1 (some "d"), .extract "b" .u54_2 0] := by
  intro heard rest sink start reached first front
  have accepted : (Machine.readAll sink.recorded .whole heard).Succeeds start () reached :=
    ⟨by decide +kernel, rfl⟩
  have hears : Hears sink.recorded .whole start (heard ++ rest) heard rest reached := by
    refine ⟨rfl, accepted, ?_⟩
    intro event behind split
    obtain rfl : ⟨.mappingEnd, 1, 0⟩ = event := (List.cons.inj split).1
    exact ⟨.missingOwner "c", _, by decide +kernel, rfl⟩
  have aSpelled : Payload.Spells .whole ⟨"a", .opening :: first.map .entry⟩
      [.scalar "a", .mappingStart, .scalar "owner-hart", .scalar "u54_2",
        .scalar "exec-addr", .scalar "8", .scalar "owner-hart", .scalar "u54_1",
        .scalar "ancilliary-data", .scalar "d", .mappingEnd] :=
    ⟨_, .cons rfl (.cons ⟨_, _, by decide, rfl⟩ (.cons ⟨_, _, by decide +kernel, rfl⟩
      (.cons ⟨_, _, by decide, rfl⟩ (.cons ⟨_, _, by decide, rfl⟩ .nil)))), rfl⟩
  have bSpelled : Payload.Spells .whole ⟨"b", [.opening, .entry (.ownerHart .u54_2)]⟩
      [.scalar "b", .mappingStart, .scalar "owner-hart", .scalar "u54_2", .mappingEnd] :=
    ⟨_, .cons rfl (.cons ⟨_, _, by decide, rfl⟩ .nil), rfl⟩
  have spelled : front.Spells .whole (heard.map fun event => event.kind) := by
    have stream : StreamBegun .whole [] ([] ++ [.streamStart]) := .enter ⟨rfl, rfl⟩ rfl
    have document : DocumentBegun .whole [] (_ ++ [.documentStart]) := .enter stream rfl
    have mapping : MappingBegun .whole [] (_ ++ [.mappingStart]) := .enter document rfl
    have payloads : PayloadsBegun .whole [] (_ ++ [.scalar "payloads"]) :=
      Opened.enter mapping ⟨"payloads", by decide, rfl⟩
    have closed := (payloads.opening.more (.entry _) aSpelled).more (.entry _) bSpelled
    have opened := (PayloadsBegun.enterBlock closed "c").opening
    exact opened.more (.entry (.execAddr 16)) ⟨_, _, by decide +kernel, rfl⟩
  have made := ((requests_of_feed sink .whole (heard ++ rest) ()).2 heard rest reached hears).2
  refine ⟨hears, spelled, ?_⟩
  rw [made front spelled]
  decide +kernel

end HartBoot.Config
