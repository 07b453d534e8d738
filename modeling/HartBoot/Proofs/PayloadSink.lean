import HartBoot.PayloadSink
import HartBoot.Proofs.Action

/-!
Contract: what a receiver of payloads does to its state.

Owns:
- `PayloadSink.Respects`, a frame that both requests keep within;
- `PayloadSink.Takes`, the ways in which a receiver takes a payload, and `fails_submit`, the ways
  in which it does not;
- `succeeds_keeping` and `fails_keeping`, which say that writing down a request changes nothing
  else.

Does not own: any particular receiver (see `HartBoot.Proofs.LoadPlan.Sink`).
-/

namespace HartBoot.PayloadSink

variable {σ : Type}

/-- Whatever a receiver is asked for, it does to its state only what a frame allows. -/
structure Respects (frame : Action.Frame σ) (sink : PayloadSink σ) : Prop where
  extract : ∀ path owner address, (sink.extract path owner address).Respects frame
  embed : ∀ path address owner ancillary,
    (sink.embed path address owner ancillary).Respects frame

/-- A receiver takes a payload: as an executable, or, after it has said that it is none, as it
is. -/
def Takes
    (sink : PayloadSink σ)
    (path : Path)
    (owner : Hart)
    (address : UInt64)
    (ancillary : Option Path)
    (before after : σ) : Prop :=
  (sink.extract path owner address).Succeeds before true after ∨
    ∃ middle,
      (sink.extract path owner address).Succeeds before false middle ∧
        (sink.embed path address owner ancillary).Succeeds middle () after

theorem succeeds_submit
    {sink : PayloadSink σ}
    {path : Path}
    {owner : Hart}
    {address : UInt64}
    {ancillary : Option Path}
    {fallback : Transcript}
    {before after : σ}
    {done : Unit} :
    (sink.submit path owner address ancillary fallback).Succeeds before done after ↔
      sink.Takes path owner address ancillary before after := by
  unfold submit Takes
  rw [Action.succeeds_bind]
  constructor
  · intro submitted
    rcases submitted with ⟨isExecutable, middle, extracted, rest⟩
    cases isExecutable with
    | true =>
      obtain ⟨-, rfl⟩ := Action.succeeds_pure.mp rest
      exact .inl extracted
    | false =>
      refine .inr ⟨middle, extracted, ?_⟩
      simpa using rest
  · intro submitted
    rcases submitted with extracted | ⟨middle, extracted, embedded⟩
    · exact ⟨true, after, extracted, Action.succeeds_pure.mpr ⟨rfl, rfl⟩⟩
    · refine ⟨false, middle, extracted, ?_⟩
      simpa using embedded

theorem fails_submit
    {sink : PayloadSink σ}
    {path : Path}
    {owner : Hart}
    {address : UInt64}
    {ancillary : Option Path}
    {fallback : Transcript}
    {before after : σ}
    {fault : PayloadFault} :
    (sink.submit path owner address ancillary fallback).Fails before fault after ↔
      (sink.extract path owner address).Fails before fault after ∨
        ∃ middle,
          (sink.extract path owner address).Succeeds before false middle ∧
            (sink.embed path address owner ancillary).Fails middle fault after := by
  unfold submit
  rw [Action.fails_bind]
  simp only [Bool.exists_bool]
  simp

section Keeping

variable {α : Type} {request : Request} {answer : Action σ PayloadFault α}
  {before after : List Request × σ}

@[simp] theorem succeeds_keeping {value : α} :
    (keeping request answer).Succeeds before value after ↔
      answer.Succeeds before.2 value after.2 ∧ before.1 ++ [request] = after.1 := by
  have unfolded : (keeping request answer).Succeeds before value after ↔
      (answer.run before.2).result = .ok value ∧
        (before.1 ++ [request], (answer.run before.2).state) = after := Iff.rfl
  rw [unfolded, Action.Succeeds, Prod.ext_iff, and_comm (a := _ ++ _ = _), and_assoc]

@[simp] theorem fails_keeping {fault : PayloadFault} :
    (keeping request answer).Fails before fault after ↔
      answer.Fails before.2 fault after.2 ∧ before.1 ++ [request] = after.1 := by
  have unfolded : (keeping request answer).Fails before fault after ↔
      (answer.run before.2).result = .error fault ∧
        (before.1 ++ [request], (answer.run before.2).state) = after := Iff.rfl
  rw [unfolded, Action.Fails, Prod.ext_iff, and_comm (a := _ ++ _ = _), and_assoc]

end Keeping

/-- Taking a payload does only what a frame allows. -/
theorem Respects.allows_of_takes
    {frame : Action.Frame σ}
    {sink : PayloadSink σ}
    (kept : sink.Respects frame)
    {path : Path}
    {owner : Hart}
    {address : UInt64}
    {ancillary : Option Path}
    {before after : σ}
    (taken : sink.Takes path owner address ancillary before after) :
    frame.allows before after := by
  rcases taken with extracted | embedded
  · exact (kept.extract path owner address).allows_of_succeeds extracted
  · rcases embedded with ⟨middle, refused, whole⟩
    have first := (kept.extract path owner address).allows_of_succeeds refused
    have second := (kept.embed path address owner ancillary).allows_of_succeeds whole
    exact frame.trans first second

end HartBoot.PayloadSink
