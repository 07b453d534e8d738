import HartBoot.Proofs.Yaml.Progress

/-!
Contract: the events of a text, taken one at a time.

Owns:
- `Yaml.Reader`, which gives an event or a fault at each call, until it has given the end of the
  stream or a fault;
- `Reader.gives_read`, which says that its calls give what `Yaml.read` finds in the text, in the
  same order, and then nothing;
- `Stream.fault_readAll_eq_none_iff`, which says that a reading either has a fault or reaches the
  end of the stream.

Does not own: what is done with the events.
-/

namespace HartBoot.Yaml

/-- A text whose events are taken one at a time. -/
structure Reader where
  stream : Stream
  /-- Whether the end of the stream or a fault has been given. -/
  finished : Bool

namespace Reader

def ofText (text : String) : Reader :=
  ⟨Stream.ofScan (scan text), false⟩

/-- What one call gives, and the reader behind it. -/
def next (reader : Reader) : Option (Except Fault Event) × Reader :=
  if reader.finished then (none, reader)
  else
    match Parsing.event.run reader.stream with
    | .error fault => (some (.error fault), { reader with finished := true })
    | .ok (event, stream) => (some (.ok event), ⟨stream, event.kind = .streamEnd⟩)

/-- Calls give some items, one after the other, and then nothing. -/
inductive Gives : Reader → List (Except Fault Event) → Prop where
  | nothing {reader rest : Reader} :
    reader.next = (none, rest) → Gives reader []
  | item {reader rest : Reader} {item : Except Fault Event} {items : List (Except Fault Event)} :
    reader.next = (some item, rest) → Gives rest items → Gives reader (item :: items)

theorem gives_of_finished {reader : Reader} (finished : reader.finished) : reader.Gives [] :=
  .nothing (if_pos finished)

end Reader

/-- The events of a reading and its fault, in the order in which a reader gives them. -/
def Reading.items (reading : Reading) : List (Except Fault Event) :=
  reading.events.map .ok ++ reading.fault.toList.map .error

/-- A reader gives what is read at once, if that is allowed to read enough. -/
theorem Stream.gives_readAll
    {stream : Stream}
    {budget : Nat}
    (enough : stream.weight < budget) :
    (Reader.mk stream false).Gives (stream.readAll budget).items := by
  induction budget generalizing stream with
  | zero => exact absurd enough (Nat.not_lt_zero _)
  | succ budget inductionHypothesis =>
    have called : (Reader.mk stream false).next =
        match Parsing.event.run stream with
        | .error fault => (some (.error fault), ⟨stream, true⟩)
        | .ok (event, stream) => (some (.ok event), ⟨stream, event.kind = .streamEnd⟩) :=
      rfl
    unfold Stream.readAll
    cases told : Parsing.event.run stream with
    | error fault =>
      rw [told] at called
      exact .item called (Reader.gives_of_finished rfl)
    | ok reached =>
      rcases reached with ⟨event, after⟩
      rw [told] at called
      by_cases ended : event.kind = .streamEnd
      · simp only [ended, if_true]
        exact .item called (Reader.gives_of_finished (by simp [ended]))
      · simp only [ended, if_false]
        have lower : after.weight < stream.weight :=
          (Parsing.event_lowers event after told).resolve_left ended
        simp only [ended, decide_false] at called
        exact .item called (inductionHypothesis (by omega))

theorem Reader.gives_read (text : String) : (Reader.ofText text).Gives (read text).items :=
  Stream.gives_readAll (Stream.weight_ofScan_lt _)

/-- A reading has a fault unless it reaches the end of the stream. -/
theorem Stream.fault_readAll_eq_none_iff {stream : Stream} {budget : Nat} :
    (stream.readAll budget).fault = none ↔
      ∃ event ∈ (stream.readAll budget).events, event.kind = .streamEnd := by
  induction budget generalizing stream with
  | zero => simp [Stream.readAll]
  | succ budget inductionHypothesis =>
    unfold Stream.readAll
    cases Parsing.event.run stream with
    | error fault => simp
    | ok reached =>
      rcases reached with ⟨event, after⟩
      by_cases ended : event.kind = .streamEnd
      · simp [ended]
      · simp [ended, inductionHypothesis]

end HartBoot.Yaml
