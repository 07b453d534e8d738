import HartBoot.Proofs.Config.Validity

/-!
Contract: the configurations that are accepted.

Owns:
- the law of the language: a sequence of events gives an image exactly when it writes down a valid
  configuration whose payloads the receiver takes.

Does not own: what the image is.
-/

namespace HartBoot.Config

variable {σ : Type}

/-- A sequence of events is accepted, and leaves the receiver of the payloads in some state,
exactly when its kinds write down a configuration with these properties: no hart has two entry
points; every payload block names an owner, before any privilege mode, and at most three secondary
harts; no secondary hart has a mode when it is to share one; and the receiver takes the payloads of
the blocks one after the other and gets to that state. -/
theorem exists_image_iff_configuration
    (sink : PayloadSink σ)
    (matching : Matching)
    (events : List Yaml.Event)
    (store final : σ) :
    (∃ image, (readEvents sink matching events).Succeeds store image final) ↔
      ∃ configuration : Configuration,
        configuration.Spells matching (events.map fun event => event.kind) ∧
          Valid configuration.items ∧
          Trace (Delivers sink) (configuration.items.flatMap Item.blocks) store final := by
  constructor
  · intro accepted
    rcases accepted with ⟨image, succeeded⟩
    obtain ⟨-, draft, trace, -, stored⟩ := succeeds_readReading_iff_trace.mp succeeded
    obtain ⟨configuration, spelled, performed⟩ := trace_iff_spells.mp trace
    have valid := exists_trace_iff_valid.mp ⟨draft, performed, stored⟩
    exact ⟨configuration, spelled, valid⟩
  · intro described
    rcases described with ⟨configuration, spelled, valid⟩
    obtain ⟨draft, performed, stored⟩ := exists_trace_iff_valid.mpr valid
    have trace := trace_iff_spells.mpr ⟨configuration, spelled, performed⟩
    exact ⟨draft.image, succeeds_readReading_iff_trace.mpr ⟨rfl, draft, trace, rfl, stored⟩⟩

end HartBoot.Config
