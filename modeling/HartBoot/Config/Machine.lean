import HartBoot.Config.Draft
import HartBoot.Config.State
import HartBoot.Numeral

/-!
Contract: the reading of a configuration, event by event.

Owns:
- `Config.Machine`, a state and the draft that has been reached;
- `Machine.advance`, which events each state accepts, and what they do;
- `Machine.step`, one event, and `Machine.finish`, the image at the end.

Each state accepts only the events that make sense in it. The start of a mapping that only opens
a block changes nothing; the block ends with the end of a mapping. After an error the machine is
in the state `rejected`, which accepts nothing.

Does not own: where the events come from (see `HartBoot.Config.Reading`).
-/

namespace HartBoot.Config

variable {σ : Type}

/-- A state and the draft that has been reached. -/
structure Machine (σ : Type) where
  state : State
  draft : Draft σ

namespace Machine

def start (store : σ) : Machine σ :=
  ⟨.idle, Draft.initial store⟩

/-- The place at which a state meets an event. -/
def placeOf (state : State) (event : Yaml.Event) : Place :=
  ⟨state.label, event.line, event.column⟩

/-- A meaning of a scalar that only some keywords have. -/
def keywordValue
    {α : Type}
    (matching : Matching)
    (place : Place)
    (meaning : Keyword → Option α)
    (scalar : String) :
    Action (Draft σ) Error α :=
  Action.ofOption (.illegalToken place scalar)
    ((Keyword.resolve? matching scalar).bind meaning)

def numberValue (place : Place) (scalar : String) : Action (Draft σ) Error UInt64 :=
  Action.ofOption (.invalidNumber place scalar) (Numeral.read? scalar)

def boolValue (place : Place) (scalar : String) : Action (Draft σ) Error Bool :=
  Action.ofOption (.invalidBool place scalar) (Numeral.readBool? scalar)

/-- The state behind a key of the outermost mapping. -/
def sectionOf? : Keyword → Option State
  | .setName => some .setName
  | .hartEntryPoints => some .entryPoints
  | .payloads => some .payloads
  | _ => none

/-- A block with one more secondary hart, if there is room for it. -/
def addSecondary (block : Block) (hart : Hart) : Action (Draft σ) Error Block :=
  if block.secondaries.length < maxSecondaries then do
    Action.say [.debug ("\tsecondary hart is " ++ hart.label)]
    pure { block with secondaries := block.secondaries ++ [hart] }
  else
    Action.fail (.tooManySecondaries block.path maxSecondaries)

/-- The block after an attribute has been given a value. -/
def readField
    (matching : Matching)
    (place : Place)
    (block : Block)
    (field : Field)
    (value : String) :
    Action (Draft σ) Error Block :=
  match field with
  | .execAddr => do
    let address ← numberValue place value
    Action.say [.debug ("\texec_addr is " ++ Text.hex address.toNat)]
    pure { block with address := address }
  | .ownerHart => do
    let hart ← keywordValue matching place Keyword.hart? value
    Action.say [.debug ("\towner is " ++ hart.label)]
    pure { block with owner := some hart }
  | .secondaryHart => do
    let hart ← keywordValue matching place Keyword.hart? value
    addSecondary block hart
  | .payloadName => do
    Action.say [.debug ("\tpayload name is >>" ++ value ++ "<<")]
    pure { block with title := some value }
  | .privMode => do
    let mode ← keywordValue matching place Keyword.privilege? value
    Draft.givePrivilege block mode
  | .skipOpenSbi => do
    let choice ← boolValue place value
    pure { block with entitlements := { block.entitlements with skipOpenSbi := choice } }
  | .skipAutoboot => do
    let choice ← boolValue place value
    pure { block with entitlements := { block.entitlements with skipAutoboot := choice } }
  | .allowReboot => do
    let reboot ← keywordValue matching place Keyword.reboot? value
    pure { block with entitlements := block.entitlements.allow reboot }
  | .ancillaryData => do
    Action.say [.debug ("\tancillary data is >>" ++ value ++ "<<")]
    pure
      { block with
        entitlements := { block.entitlements with ancillaryData := true }
        ancillary := some value }

/-- The state after an event, and what the event does to the draft. -/
def advance
    (sink : PayloadSink σ)
    (matching : Matching)
    (state : State)
    (event : Yaml.Event) :
    Action (Draft σ) Error State :=
  let place := placeOf state event
  match state, event.kind with
  | .idle, .streamStart => pure .stream
  | .stream, .documentStart => pure .document
  | .stream, .streamEnd => pure .finished
  | .document, .mappingStart => pure .mapping
  | .document, .documentEnd => pure .stream
  | .mapping, .mappingEnd => pure .document
  | .mapping, .scalar key => keywordValue matching place sectionOf? key
  | .setName, .scalar text => do
    Draft.giveSetName text
    pure .mapping
  | .entryPoints, .mappingStart => pure .entryPoints
  | .entryPoints, .mappingEnd => pure .mapping
  | .entryPoints, .scalar key => do
    let hart ← keywordValue matching place Keyword.hart? key
    pure (.entryPoint hart)
  | .entryPoint hart, .scalar value => do
    let address ← numberValue place value
    Draft.giveEntryPoint hart address
    pure .entryPoints
  | .payloads, .mappingStart => pure .payloads
  | .payloads, .mappingEnd => pure .mapping
  | .payloads, .scalar path => do
    Action.say [.info ("Parsing payload >>" ++ path ++ "<<")]
    pure (.block { path := path })
  | .block block, .mappingStart => pure (.block block)
  | .block block, .mappingEnd => do
    Draft.close sink block
    pure .payloads
  | .block block, .scalar key => do
    let field ← keywordValue matching place Field.ofKeyword? key
    pure (.field block field)
  | .field block field, .scalar value => do
    let block ← readField matching place block field value
    pure (.block block)
  | _, kind => Action.fail (.illegalEvent place kind)

/-- What is said of a move between states: nothing if their names are the same. -/
def moveNotes (source target : State) : Transcript :=
  if target.label = source.label then []
  else [.trace (source.label ++ " -> " ++ target.label)]

def step
    (sink : PayloadSink σ)
    (matching : Matching)
    (event : Yaml.Event) :
    Action (Machine σ) Error Unit :=
  fun machine =>
    let outcome := advance sink matching machine.state event machine.draft
    match outcome.result with
    | .ok target =>
      ⟨outcome.notes ++ moveNotes machine.state target, ⟨target, outcome.state⟩, .ok ()⟩
    | .error error => ⟨outcome.notes, ⟨.rejected, outcome.state⟩, .error error⟩

def readAll
    (sink : PayloadSink σ)
    (matching : Matching) :
    List Yaml.Event → Action (Machine σ) Error Unit
  | [] => pure ()
  | event :: rest => do
    step sink matching event
    readAll sink matching rest

def finish (machine : Machine σ) : Except Error Image :=
  match machine.state with
  | .finished => .ok machine.draft.image
  | state => .error (.unexpectedEnd state.label)

end Machine

end HartBoot.Config
