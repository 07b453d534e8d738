import HartBoot.Config.Block

/-!
Contract: where the reading of a configuration stands.

Owns:
- `Config.State`, one case for each place in the structure of a configuration, with the block
  that is being read;
- `State.label`, the name of a state in messages.

Does not own: the moves between the states (see `HartBoot.Config.Machine`).
-/

namespace HartBoot.Config

/-- Where the reading of a configuration stands. -/
inductive State where
  /-- Before the stream. -/
  | idle
  /-- Between documents. -/
  | stream
  | document
  /-- At a key of the outermost mapping. -/
  | mapping
  /-- At the value of `set-name`. -/
  | setName
  /-- At a key of `hart-entry-points`. -/
  | entryPoints
  /-- At the entry point of a hart. -/
  | entryPoint (hart : Hart)
  /-- At a key of `payloads`. -/
  | payloads
  /-- At a key of a payload block. -/
  | block (block : Block)
  /-- At the value of an attribute. -/
  | field (block : Block) (field : Field)
  /-- Behind the stream. -/
  | finished
  /-- Something was rejected, and nothing else is accepted. -/
  | rejected
  deriving DecidableEq, Repr

def State.label : State → String
  | .idle => "Idle"
  | .stream => "Stream"
  | .document => "Document"
  | .mapping => "Mapping"
  | .setName => "SetName"
  | .entryPoints => "HartEntryPoints"
  | .entryPoint hart => "HartEntryPoints." ++ hart.label
  | .payloads => "PayloadMappings"
  | .block _ => "NewPayload"
  | .field _ given => "NewPayload." ++ given.keyword.literal
  | .finished => "Done"
  | .rejected => "Failed"

end HartBoot.Config
