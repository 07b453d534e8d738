import HartBoot.Proofs.Config.Summary
import HartBoot.Proofs.Config.Validity

/-!
Contract: what has been said to a machine, also if it has not come to the end of the stream.

Owns:
- `Machine.log`, what each event says in the state in which it is read;
- `Account`, the items that a log adds up to, and the payload block that is still open;
- `Recounts`, which says that a machine has done what an account tells, and
  `recounts_of_accepted`, which says that it always has.

The log ends with the first event that is refused, whatever the machine is fed behind it.

Does not own: what the items of an account do (see `HartBoot.Proofs.Config.Validity`).
-/

namespace HartBoot.Config

open Yaml.Event (Kind)

variable {σ : Type}

/-! ## Logs -/

/-- Something that an event says. -/
inductive Saying where
  | setName (text : String)
  | entryPoint (point : EntryPoint)
  | path (path : Path)
  | value (given : Attribute)
  | close
  deriving DecidableEq, Repr

/-- What an event of a kind says in a state. Keys say nothing by themselves, and no more does a
value that cannot be read. -/
def State.saying? (matching : Matching) : State → Kind → Option Saying
  | .setName, .scalar text => some (.setName text)
  | .entryPoint hart, .scalar value =>
    (Numeral.read? value).map fun address => .entryPoint ⟨hart, address⟩
  | .payloads, .scalar path => some (.path path)
  | .field _ given, .scalar value => (given.attribute? matching value).map .value
  | .block _, .mappingEnd => some .close
  | _, _ => none

namespace Machine

variable {sink : PayloadSink σ} {matching : Matching}

/-- What some events say to a machine, one after the other, up to the first one that is refused.
That one is heard as well, since a block may have been handed over in part. -/
def log (sink : PayloadSink σ) (matching : Matching) (machine : Machine σ) :
    List Yaml.Event → List Saying
  | [] => []
  | event :: rest =>
    let outcome := (step sink matching event).run machine
    (machine.state.saying? matching event.kind).toList ++
      match outcome.result with
      | .ok _ => log sink matching outcome.state rest
      | .error _ => []

section Log

variable {event : Yaml.Event} {rest : List Yaml.Event} {before after : Machine σ}

theorem log_cons_of_accepted
    {done : Unit}
    (accepted : (step sink matching event).Succeeds before done after) :
    log sink matching before (event :: rest) =
      (before.state.saying? matching event.kind).toList ++ log sink matching after rest := by
  rw [log, accepted.1, accepted.2]

end Log

end Machine

/-! ## Accounts -/

/-- What has been said so far: whole items, and the path and the attributes of the payload block
that is open, if there is one. -/
structure Account where
  items : List Item := []
  current : Option (Path × List Attribute) := none
  deriving DecidableEq, Repr

namespace Account

/-- The open block, as the item that it would be if it were closed now. -/
def begun (account : Account) : List Item :=
  match account.current with
  | none => []
  | some (path, attributes) => [.payload path attributes]

/-- The attributes that the open block has been given. -/
def attributes (account : Account) : List Attribute :=
  match account.current with
  | none => []
  | some (_, attributes) => attributes

/-- The assignments of privilege modes that have been made, also those of the open block. -/
def assignments (account : Account) : List Assignment :=
  (account.items ++ account.begun).flatMap Item.assignments

def hear (account : Account) : Saying → Account
  | .setName text => { account with items := account.items ++ [.setName text] }
  | .entryPoint point => { account with items := account.items ++ [.entryPoint point] }
  | .path path => { account with current := some (path, []) }
  | .value given =>
    { account with
      current := account.current.map fun block => (block.1, block.2 ++ [given]) }
  | .close => { items := account.items ++ account.begun }

def hearAll (account : Account) (log : List Saying) : Account :=
  log.foldl hear account

/-- The account that a log adds up to. -/
def of (log : List Saying) : Account :=
  hearAll {} log

theorem hearAll_append (account : Account) (first second : List Saying) :
    account.hearAll (first ++ second) = (account.hearAll first).hearAll second :=
  List.foldl_append

end Account

/-! ## Machines that have done what has been said -/

/-- The block that is being read. -/
def State.block? : State → Option Block
  | .block given => some given
  | .field given _ => some given
  | _ => none

/-- From a draft that closed items have reached, the open block has led to a machine. -/
def Stands (base : Draft σ) (current : Option (Path × List Attribute)) (machine : Machine σ) :
    Prop :=
  match current with
  | none => machine.state.block? = none ∧ machine.draft = base
  | some (path, attributes) =>
    ∃ block, machine.state.block? = some block ∧
      Trace Gives attributes ⟨{ path := path }, base⟩ ⟨block, machine.draft⟩

/-- A machine has performed the items of an account, and filled its open block. -/
def Recounts
    (sink : PayloadSink σ)
    (account : Account)
    (start : Draft σ)
    (machine : Machine σ) :
    Prop :=
  ∃ base, Trace (Performs sink) account.items start base ∧ Stands base account.current machine

section Recounts

variable {sink : PayloadSink σ} {matching : Matching} {account : Account} {start : Draft σ}
  {before after : Machine σ}

theorem block?_of_section
    {keyword : Keyword}
    {target : State}
    (named : Machine.sectionOf? keyword = some target) :
    target.block? = none := by
  cases keyword <;> cases named <;> rfl

/-- Outside of blocks, the draft is the one that the items have reached. -/
theorem Recounts.outside
    {draft : Draft σ}
    {state : State}
    (recounted : Recounts sink account start ⟨state, draft⟩)
    (outside : state.block? = none) :
    account.current = none ∧ Trace (Performs sink) account.items start draft := by
  rcases account with ⟨items, current⟩
  rcases recounted with ⟨base, performed, stands⟩
  cases current with
  | none =>
    obtain ⟨-, rfl⟩ := stands
    exact ⟨rfl, performed⟩
  | some given =>
    obtain ⟨block, inside, -⟩ := stands
    rw [outside] at inside
    cases inside

/-- Inside of a block, its attributes have filled it. -/
theorem Recounts.inside
    {draft : Draft σ}
    {state : State}
    {block : Block}
    (recounted : Recounts sink account start ⟨state, draft⟩)
    (inside : state.block? = some block) :
    ∃ path attributes base, account.current = some (path, attributes) ∧
      Trace (Performs sink) account.items start base ∧
      Trace Gives attributes ⟨{ path := path }, base⟩ ⟨block, draft⟩ := by
  rcases account with ⟨items, current⟩
  rcases recounted with ⟨base, performed, stands⟩
  cases current with
  | none =>
    rw [stands.1] at inside
    cases inside
  | some given =>
    rcases given with ⟨path, attributes⟩
    obtain ⟨other, found, filled⟩ := stands
    obtain rfl := Option.some.inj (inside.symm.trans found)
    exact ⟨path, attributes, base, rfl, performed, filled⟩

/-- The block that is being read is the one that its attributes describe. -/
theorem Recounts.current
    {block : Block}
    (recounted : Recounts sink account start before)
    (inside : before.state.block? = some block) :
    ∃ path attributes, account.current = some (path, attributes) ∧
      Block.describedBy path attributes = block := by
  obtain ⟨path, attributes, base, current, -, filled⟩ := recounted.inside inside
  obtain ⟨-, -, same, -⟩ := trace_gives_iff.mp filled
  have known : Block.of path attributes = block := same
  exact ⟨path, attributes, current, (Block.of_eq_describedBy path attributes).symm.trans known⟩

theorem Recounts.of_outside
    {draft : Draft σ}
    {state : State}
    (outside : state.block? = none)
    {items : List Item}
    (performed : Trace (Performs sink) items start draft) :
    Recounts sink ⟨items, none⟩ start ⟨state, draft⟩ :=
  ⟨draft, performed, outside, rfl⟩

/-- A move does what its event says. -/
theorem Recounts.move
    {kind : Kind}
    (recounted : Recounts sink account start before)
    (move : Move sink matching kind before after) :
    Recounts sink (account.hearAll (before.state.saying? matching kind).toList) start after := by
  rcases account with ⟨items, current⟩
  -- Outside of blocks, a move adds to the draft that the items have reached; inside, only the
  -- attributes and the end of the block say something.
  cases move with
  | «section» named =>
    obtain ⟨rfl, performed⟩ := recounted.outside rfl
    obtain ⟨keyword, -, meant⟩ := Option.bind_eq_some_iff.mp named
    exact .of_outside (block?_of_section meant) performed
  | setName =>
    obtain ⟨rfl, performed⟩ := recounted.outside rfl
    exact .of_outside rfl (performed.append (Trace.singleton_iff.mpr rfl))
  | entryAddress number free =>
    obtain ⟨rfl, performed⟩ := recounted.outside rfl
    rw [State.saying?, number]
    exact .of_outside rfl (performed.append (Trace.singleton_iff.mpr ⟨free, rfl⟩))
  | path =>
    obtain ⟨rfl, performed⟩ := recounted.outside rfl
    exact ⟨_, performed, _, rfl, .nil⟩
  | openBlock => exact recounted
  | field named => exact recounted
  | closeBlock owned taken =>
    obtain ⟨path, attributes, base, rfl, performed, filled⟩ := recounted.inside rfl
    refine .of_outside rfl (performed.append (Trace.singleton_iff.mpr ?_))
    exact ⟨_, _, _, filled, owned, taken, rfl⟩
  | value meant gives =>
    obtain ⟨path, attributes, base, rfl, performed, filled⟩ := recounted.inside rfl
    rw [State.saying?, meant]
    exact ⟨base, performed, _, rfl, filled.append (Trace.singleton_iff.mpr gives)⟩
  | _ =>
    obtain ⟨rfl, performed⟩ := recounted.outside rfl
    exact .of_outside rfl performed

theorem Recounts.readAll
    {events : List Yaml.Event}
    (recounted : Recounts sink account start before)
    (accepted : (Machine.readAll sink matching events).Succeeds before () after) :
    Recounts sink (account.hearAll (before.log sink matching events)) start after := by
  -- The account is what has been heard before, and grows with the events.
  induction events generalizing account before with
  | nil =>
    obtain ⟨-, rfl⟩ := Action.succeeds_pure.mp accepted
    exact recounted
  | cons event rest inductionHypothesis =>
    obtain ⟨_, middle, first, others⟩ := Action.succeeds_bind.mp accepted
    have next := recounted.move (Machine.succeeds_step_iff_move.mp first)
    rw [Machine.log_cons_of_accepted first, Account.hearAll_append]
    exact inductionHypothesis next others

end Recounts

/-- A machine that has accepted some events has done what they say. -/
theorem recounts_of_accepted
    {sink : PayloadSink σ}
    {matching : Matching}
    {events : List Yaml.Event}
    {store : σ}
    {machine : Machine σ}
    (accepted : (Machine.readAll sink matching events).Succeeds (Machine.start store) () machine) :
    Recounts sink (.of ((Machine.start store).log sink matching events)) (Draft.initial store)
      machine := by
  have start : Recounts sink {} (Draft.initial store) (Machine.start store) :=
    .of_outside rfl .nil
  exact start.readAll accepted

end HartBoot.Config
