import HartBoot.Proofs.Config.Front
import HartBoot.Proofs.Config.Log
import HartBoot.Proofs.Config.Tracking

/-!
Contract: the fronts that a machine accepts.

Owns:
- `Leads`, which says that the events of a beginning lead the machine into one state only, and do
  what the beginning says;
- `Front.leads`, where the machine stands behind the events of a front, whichever way they are read;
- `exists_front_of_accepted`, which finds a front in the events that the machine has accepted, and
  says that it tells just what has been said to the machine.

Does not own: the requests that the blocks of a front lead to (see
`HartBoot.Proofs.Config.Requests`).
-/

namespace HartBoot.Config

open Yaml.Event (Kind)

variable {α σ : Type}

/-! ## From a front to the machine -/

section Leads

variable {sink : PayloadSink σ} {matching : Matching} {start : Draft σ}

/-- The state of a machine behind a beginning that ends at a position. -/
def Position.state : Position → State
  | .outside => .idle
  | .stream => .stream
  | .document => .document
  | .mapping => .mapping
  | .setName => .setName
  | .entryPoints => .entryPoints
  | .entryPoint hart => .entryPoint hart
  | .payloads => .payloads
  | .block path attributes => .block (Block.describedBy path attributes)
  | .field path attributes given => .field (Block.describedBy path attributes) given
  | .finished => .finished

/-- The payload block that is open at a position. -/
def Position.current : Position → Option (Path × List Attribute)
  | .block path attributes => some (path, attributes)
  | .field path attributes _ => some (path, attributes)
  | _ => none

/-- What a front says, with the payload block that is open. -/
def Front.account (front : Front) : Account :=
  ⟨front.items, front.position.current⟩

/-- The end of its mapping ends the block that is open. -/
theorem Front.ended_of_block
    {front : Front}
    {block : Block}
    (inside : front.position.state = .block block)
    (behind : List Kind) :
    front.ended (.mappingEnd :: behind) = [block] := by
  rcases front with ⟨items, position⟩
  cases position <;> cases inside
  rfl

/-- No other event ends a block. -/
theorem Front.ended_of_running
    {front : Front}
    {kind : Kind}
    (running : ∀ block, front.position.state = .block block → kind ≠ .mappingEnd)
    (behind : List Kind) :
    front.ended (kind :: behind) = [] := by
  rcases front with ⟨items, position⟩
  cases position with
  | block path attributes =>
    have other : kind ≠ .mappingEnd := running _ rfl
    cases kind <;> first | rfl | exact absurd rfl other
  | _ => rfl

variable (sink matching start) in
/-- The events of a beginning lead the machine into one state, and do what it says. -/
def Leads (state : State) (begun : List Item → List Kind → Prop) : Prop :=
  ∀ said kinds reached, begun said kinds →
    Trace (Move sink matching) kinds ⟨.idle, start⟩ reached →
      ∃ draft, Trace (Performs sink) said start draft ∧ reached = ⟨state, draft⟩

section

variable {outer inner : State} {around : List Item → List Kind → Prop} {follows : Kind → Prop}

theorem Leads.followed
    (led : Leads sink matching start outer around)
    (enters : ∀ kind draft entered, follows kind →
      Move sink matching kind ⟨outer, draft⟩ entered → entered = ⟨inner, draft⟩) :
    Leads sink matching start inner fun said => Followed (around said) follows := by
  intro said kinds reached followed trace
  rcases followed with ⟨front, last, begun, follows, rfl⟩
  obtain ⟨middle, along, behind⟩ := Trace.append_iff.mp trace
  obtain ⟨draft, performed, rfl⟩ := led said front middle begun along
  exact ⟨draft, performed, enters last draft reached follows (Trace.singleton_iff.mp behind)⟩

/-- Into a list the machine is led by the event that opens it, and it stays there along the
entries. -/
theorem Leads.opened
    (led : Leads sink matching start outer around)
    {spells : α → List Kind → Prop}
    {items : α → List Item}
    (each : Tracks sink matching (fun draft => ⟨inner, draft⟩) (Performs sink) spells items)
    (enters : ∀ kind draft entered, follows kind →
      Move sink matching kind ⟨outer, draft⟩ entered → entered = ⟨inner, draft⟩) :
    Leads sink matching start inner (Opened around follows spells items) := by
  intro said kinds reached opened trace
  rcases opened with ⟨before, front, entries, body, entered, spelled, rfl, rfl⟩
  obtain ⟨middle, along, within⟩ := Trace.append_iff.mp trace
  obtain ⟨draft, performed, rfl⟩ := led.followed enters before front middle entered along
  obtain ⟨after, further, rfl⟩ := each.list entries body draft reached spelled within
  exact ⟨after, performed.append further, rfl⟩

end

/-- A keyword that introduces a section leads into it. -/
theorem Names.enters
    {keyword : Keyword}
    {kind : Kind}
    (named : Names matching some keyword kind)
    {target : State}
    (introduces : Machine.sectionOf? keyword = some target)
    {draft : Draft σ}
    {entered : Machine σ}
    (move : Move sink matching kind ⟨.mapping, draft⟩ entered) :
    entered = ⟨target, draft⟩ := by
  obtain ⟨key, resolved, rfl⟩ := named.resolved
  exact move.functional (.section (by rw [resolved]; exact introduces))

variable (sink matching start)

theorem leads_nothing : Leads sink matching start .idle NothingBegun := by
  rintro said kinds reached ⟨rfl, rfl⟩ trace
  exact ⟨start, .nil, (Trace.nil_iff.mp trace).symm⟩

theorem leads_stream : Leads sink matching start .stream (StreamBegun matching) := by
  apply (leads_nothing sink matching start).opened (tracks_document sink matching)
  rintro kind draft entered rfl move
  exact move.functional .openStream

theorem leads_document : Leads sink matching start .document (DocumentBegun matching) := by
  apply (leads_stream sink matching start).opened (tracks_mapping sink matching)
  rintro kind draft entered rfl move
  exact move.functional .openDocument

theorem leads_mapping : Leads sink matching start .mapping (MappingBegun matching) := by
  apply (leads_document sink matching start).opened (tracks_section sink matching)
  rintro kind draft entered rfl move
  exact move.functional .openMapping

theorem leads_entryPoints :
    Leads sink matching start .entryPoints (EntryPointsBegun matching) := by
  apply (leads_mapping sink matching start).opened (tracks_entryParts sink matching)
  exact fun _ _ _ named move => named.enters rfl move

theorem leads_payloads : Leads sink matching start .payloads (PayloadsBegun matching) := by
  apply (leads_mapping sink matching start).opened (tracks_payloadParts sink matching)
  exact fun _ _ _ named move => named.enters rfl move

/-- Outside of payload blocks, the events of a beginning do what its items do. -/
theorem Position.leads
    (position : Position)
    (outside : position.current = none) :
    Leads sink matching start position.state (position.Begun matching) := by
  cases position with
  | outside => exact leads_nothing sink matching start
  | stream => exact leads_stream sink matching start
  | document => exact leads_document sink matching start
  | mapping => exact leads_mapping sink matching start
  | setName =>
    exact (leads_mapping sink matching start).followed fun _ _ _ named move => named.enters rfl move
  | entryPoints => exact leads_entryPoints sink matching start
  | entryPoint hart =>
    apply (leads_entryPoints sink matching start).followed
    rintro kind draft entered ⟨key, named, rfl⟩ move
    exact move.functional (.entryHart named)
  | payloads => exact leads_payloads sink matching start
  | block path attributes => cases outside
  | field path attributes given => cases outside
  | finished =>
    rintro said kinds reached ⟨configuration, spelled, rfl⟩ trace
    exact performed_of_spells sink matching spelled trace

variable {sink matching start}

/-- Inside of a payload block, they have filled the block behind what its items do. -/
theorem BlockBegun.leads
    {path : Path}
    {attributes : List Attribute}
    {items : List Item}
    {kinds : List Kind}
    (begun : BlockBegun matching path attributes items kinds)
    {reached : Machine σ}
    (trace : Trace (Move sink matching) kinds ⟨.idle, start⟩ reached) :
    reached.state = .block (Block.describedBy path attributes) ∧
      Recounts sink ⟨items, some (path, attributes)⟩ start reached := by
  rcases begun with ⟨front, parts, body, entered, spelled, rfl, rfl⟩
  rcases entered with ⟨front, last, begun, rfl, rfl⟩
  obtain ⟨inside, along, within⟩ := Trace.append_iff.mp trace
  obtain ⟨middle, before, opening⟩ := Trace.append_iff.mp along
  obtain ⟨base, performed, rfl⟩ := leads_payloads sink matching start _ _ _ begun before
  obtain rfl := (Trace.singleton_iff.mp opening).functional .path
  obtain ⟨filled, given, rfl⟩ :=
    (tracks_attributeParts sink matching).list parts body ⟨{ path := path }, base⟩ reached spelled
      within
  obtain ⟨-, -, described, -⟩ := trace_gives_iff.mp given
  refine ⟨?_, base, performed, filled.block, rfl, given⟩
  show State.block filled.block = _
  rw [← described, ← Block.of_eq_describedBy]
  rfl

/-- The events of a front lead the machine to the position at which the front ends, and do what the
front says. -/
theorem Front.leads
    {front : Front}
    {kinds : List Kind}
    (spelled : front.Spells matching kinds)
    {machine : Machine σ}
    (trace : Trace (Move sink matching) kinds ⟨.idle, start⟩ machine) :
    machine.state = front.position.state ∧
      Recounts sink front.account start machine := by
  rcases front with ⟨items, position⟩
  have outside := Position.leads sink matching start position
  cases position with
  | block path attributes => exact BlockBegun.leads spelled trace
  | field path attributes given =>
    rcases spelled with ⟨front, last, begun, ⟨key, named, rfl⟩, rfl⟩
    obtain ⟨middle, along, behind⟩ := Trace.append_iff.mp trace
    obtain ⟨inside, recounted⟩ := BlockBegun.leads begun along
    rcases middle with ⟨state, draft⟩
    obtain rfl : state = _ := inside
    obtain rfl := (Trace.singleton_iff.mp behind).functional (.field named)
    exact ⟨rfl, recounted⟩
  | _ =>
    obtain ⟨draft, performed, rfl⟩ := outside rfl _ _ _ spelled trace
    exact ⟨rfl, .of_outside rfl performed⟩

end Leads

/-! ## From the machine to a front -/

/-- A move behind a front leads to a front that is written down with one more event, and says what
this event says. -/
theorem exists_front_step
    {sink : PayloadSink σ}
    {matching : Matching}
    {front : Front}
    {kinds : List Kind}
    (spelled : front.Spells matching kinds)
    {kind : Kind}
    {before after : Machine σ}
    (move : Move sink matching kind before after)
    (stands : before.state = front.position.state) :
    ∃ next : Front, next.Spells matching (kinds ++ [kind]) ∧
      next.account = front.account.hearAll (before.state.saying? matching kind).toList := by
  rcases front with ⟨items, position⟩
  -- The state before the move tells the position, and so what has been begun there.
  cases move with
  | openStream =>
    cases position <;> cases stands
    exact ⟨⟨items, .stream⟩, Opened.enter spelled rfl, rfl⟩
  | closeStream =>
    cases position <;> cases stands
    exact ⟨⟨items, .finished⟩, StreamBegun.complete spelled, rfl⟩
  | openDocument =>
    cases position <;> cases stands
    exact ⟨⟨items, .document⟩, Opened.enter spelled rfl, rfl⟩
  | closeDocument =>
    cases position <;> cases stands
    exact ⟨⟨items, .stream⟩, DocumentBegun.complete spelled, rfl⟩
  | openMapping =>
    cases position <;> cases stands
    exact ⟨⟨items, .mapping⟩, Opened.enter spelled rfl, rfl⟩
  | closeMapping =>
    cases position <;> cases stands
    exact ⟨⟨items, .document⟩, MappingBegun.complete spelled, rfl⟩
  | @«section» draft key target named =>
    cases position <;> cases stands
    obtain ⟨keyword, resolved, meant⟩ := Option.bind_eq_some_iff.mp named
    have names : Names matching some keyword (.scalar key) :=
      ⟨key, (Option.bind_fun_some _).trans resolved, rfl⟩
    cases keyword <;> cases meant
    · exact ⟨⟨items, .setName⟩, ⟨kinds, _, spelled, names, rfl⟩, rfl⟩
    · exact ⟨⟨items, .entryPoints⟩, Opened.enter spelled names, rfl⟩
    · exact ⟨⟨items, .payloads⟩, Opened.enter spelled names, rfl⟩
  | setName =>
    cases position <;> cases stands
    exact ⟨⟨_, .mapping⟩, MappingBegun.setName spelled _, rfl⟩
  | openEntries =>
    cases position <;> cases stands
    exact ⟨⟨items, .entryPoints⟩, Opened.opening spelled, rfl⟩
  | closeEntries =>
    cases position <;> cases stands
    exact ⟨⟨items, .mapping⟩, EntryPointsBegun.complete spelled, rfl⟩
  | entryHart named =>
    cases position <;> cases stands
    exact ⟨⟨items, .entryPoint _⟩, ⟨kinds, _, spelled, ⟨_, named, rfl⟩, rfl⟩, rfl⟩
  | entryAddress number free =>
    cases position <;> cases stands
    refine ⟨⟨_, .entryPoints⟩, EntryPointsBegun.address spelled number, ?_⟩
    rw [State.saying?, number]
    rfl
  | openPayloads =>
    cases position <;> cases stands
    exact ⟨⟨items, .payloads⟩, Opened.opening spelled, rfl⟩
  | closePayloads =>
    cases position <;> cases stands
    exact ⟨⟨items, .mapping⟩, PayloadsBegun.complete spelled, rfl⟩
  | path =>
    cases position <;> cases stands
    exact ⟨⟨items, .block _ []⟩, PayloadsBegun.enterBlock spelled _, rfl⟩
  | openBlock =>
    cases position <;> cases stands
    exact ⟨⟨items, .block _ _⟩, BlockBegun.opening spelled, rfl⟩
  | closeBlock =>
    cases position <;> cases stands
    exact ⟨⟨_, .payloads⟩, BlockBegun.complete spelled, rfl⟩
  | field named =>
    cases position <;> cases stands
    exact ⟨⟨items, .field _ _ _⟩, ⟨kinds, _, spelled, ⟨_, named, rfl⟩, rfl⟩, rfl⟩
  | value meant gives =>
    cases position with
    | field path attributes named =>
      obtain ⟨-, rfl⟩ := State.field.inj stands
      refine ⟨⟨items, .block path _⟩, BlockBegun.value spelled meant, ?_⟩
      rw [State.saying?, meant]
      rfl
    | _ => cases stands

/-- From a front on, the events that a machine accepts write down a front, and it says what has been
said to the machine. -/
theorem exists_front_of_readAll
    {sink : PayloadSink σ}
    {matching : Matching}
    {front : Front}
    {kinds : List Kind}
    (spelled : front.Spells matching kinds)
    {start : Draft σ}
    {before after : Machine σ}
    (along : Trace (Move sink matching) kinds ⟨.idle, start⟩ before)
    {events : List Yaml.Event}
    (accepted : (Machine.readAll sink matching events).Succeeds before () after) :
    ∃ next : Front, next.Spells matching (kinds ++ events.map fun event => event.kind) ∧
      next.account = front.account.hearAll (before.log sink matching events) := by
  induction events generalizing front kinds before with
  | nil =>
    rw [List.map_nil, List.append_nil]
    exact ⟨front, spelled, rfl⟩
  | cons event rest inductionHypothesis =>
    obtain ⟨_, middle, first, others⟩ := Action.succeeds_bind.mp accepted
    have move := Machine.succeeds_step_iff_move.mp first
    obtain ⟨longer, written, heard⟩ := exists_front_step spelled move (Front.leads spelled along).1
    obtain ⟨next, whole, told⟩ :=
      inductionHypothesis written (along.append (Trace.singleton_iff.mpr move)) others
    rw [List.append_assoc] at whole
    refine ⟨next, whole, ?_⟩
    rw [told, heard, Machine.log_cons_of_accepted first, Account.hearAll_append]

/-- The events that a machine has accepted write down a front, and it says what has been said to the
machine. -/
theorem exists_front_of_accepted
    {sink : PayloadSink σ}
    {matching : Matching}
    {events : List Yaml.Event}
    {store : σ}
    {machine : Machine σ}
    (accepted : (Machine.readAll sink matching events).Succeeds (Machine.start store) () machine) :
    ∃ front : Front, front.Spells matching (events.map fun event => event.kind) ∧
      front.account = .of ((Machine.start store).log sink matching events) := by
  have nothing : (⟨[], .outside⟩ : Front).Spells matching [] := ⟨rfl, rfl⟩
  exact exists_front_of_readAll nothing .nil accepted

end HartBoot.Config
