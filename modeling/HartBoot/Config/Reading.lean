import HartBoot.Config.Machine
import HartBoot.Yaml.Stream

/-!
Contract: the image that a configuration text describes.

Owns:
- `Config.readEvents`, the verdict on a sequence of events;
- `Config.read`, the verdict on a text: the image, or the first error in the order of the events.

An event that is rejected counts before a fault of the text behind it.

Does not own: what the receiver of the payloads does with them (see `HartBoot.LoadPlan.Sink`).
-/

namespace HartBoot.Config

variable {σ : Type}

/-- Read events, then what stands behind them: a fault of the text, or its end. -/
def readReading
    (sink : PayloadSink σ)
    (matching : Matching)
    (reading : Yaml.Reading) :
    Action (Machine σ) Error Image := do
  Machine.readAll sink matching reading.events
  match reading.fault with
  | some fault => Action.fail (.notYaml fault)
  | none => do
    let machine ← Action.look
    Action.ofExcept machine.finish

/-- Work on the state of the receiver of the payloads, by a machine that starts there. -/
def fromStart {α : Type} (action : Action (Machine σ) Error α) : Action σ Error α :=
  fun store =>
    let outcome := action (Machine.start store)
    ⟨outcome.notes, outcome.state.draft.store, outcome.result⟩

def readEvents (sink : PayloadSink σ) (matching : Matching) (events : List Yaml.Event) :
    Action σ Error Image :=
  fromStart (readReading sink matching ⟨events, none⟩)

def read (sink : PayloadSink σ) (matching : Matching) (text : String) : Action σ Error Image :=
  fromStart (readReading sink matching (Yaml.read text))

end HartBoot.Config
