import HartBoot.Action
import HartBoot.Hart
import HartBoot.PayloadFault

/-!
Contract: where the payload of a configuration goes once its block has been read.

Owns:
- `PayloadSink`, the two requests that a configuration makes;
- `PayloadSink.answering`, a receiver that keeps nothing;
- `PayloadSink.Request`, a request as a value, and `PayloadSink.recorded`, a sink that also keeps
  the requests that were made to it.

Does not own: what is done with a payload (see `HartBoot.LoadPlan.Sink`).
-/

namespace HartBoot

/-- The two ways in which a payload is handed over, over a state `σ` of the receiver. -/
structure PayloadSink (σ : Type) where
  /-- Take the loadable parts of an executable; `false` says that the file is none. -/
  extract (path : Path) (owner : Hart) (address : UInt64) : Action σ PayloadFault Bool
  /-- Take a whole file as it is, and the ancillary file behind it if there is one. -/
  embed (path : Path) (address : UInt64) (owner : Hart) (ancillary : Option Path) :
    Action σ PayloadFault Unit

namespace PayloadSink

variable {σ : Type}

/-- A receiver that only says which files are executables. -/
def answering (isExecutable : Path → Bool) : PayloadSink Unit where
  extract path _ _ := Action.done (isExecutable path)
  embed _ _ _ _ := Action.done ()

/-- A request that was made to a sink. -/
inductive Request where
  | extract (path : Path) (owner : Hart) (address : UInt64)
  | embed (path : Path) (address : UInt64) (owner : Hart) (ancillary : Option Path)
  deriving DecidableEq, Repr

/-- Write down a request, and then let a sink answer it. -/
def keeping {α : Type} (request : Request) (answer : Action σ PayloadFault α) :
    Action (List Request × σ) PayloadFault α :=
  fun (requests, state) =>
    let outcome := answer state
    ⟨outcome.notes, (requests ++ [request], outcome.state), outcome.result⟩

/-- A sink that also keeps the requests that were made to it, in their order. -/
def recorded (sink : PayloadSink σ) : PayloadSink (List Request × σ) where
  extract path owner address :=
    keeping (.extract path owner address) (sink.extract path owner address)
  embed path address owner ancillary :=
    keeping (.embed path address owner ancillary) (sink.embed path address owner ancillary)

/-- Hand over one payload: as an executable if it is one, else as it is. `fallback` is what is
said in the second case. -/
def submit
    (sink : PayloadSink σ)
    (path : Path)
    (owner : Hart)
    (address : UInt64)
    (ancillary : Option Path)
    (fallback : Transcript) :
    Action σ PayloadFault Unit := do
  let isExecutable ← sink.extract path owner address
  if isExecutable then
    pure ()
  else
    Action.say fallback
    sink.embed path address owner ancillary

end PayloadSink

end HartBoot
