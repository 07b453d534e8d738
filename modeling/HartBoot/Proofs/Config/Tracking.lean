import HartBoot.Proofs.Config.Parse

/-!
Contract: the events of a configuration do what its items do, and nothing else.

Owns:
- `Tracks`, which says that the events of an entry lead from one place to no other place than the
  one that the items of the entry lead to;
- `performed_of_spells`, the same for a whole configuration, whichever way it is read.

This is the converse of `Drives`: there the items are performed and the machine is led along, here
the machine has been led along.

Does not own: that there is a configuration to read (see `HartBoot.Proofs.Config.Parse`).
-/

namespace HartBoot.Config

open Yaml.Event (Kind)

variable {α β σ τ : Type}

/-! ## Moves from a known state -/

section Inversion

variable {sink : PayloadSink σ} {matching : Matching} {draft : Draft σ} {block : Block}
  {field : Field} {value : String} {reached : Machine σ}

theorem Move.of_entryAddress {hart : Hart} {address : UInt64}
    (move : Move sink matching (.scalar value) ⟨.entryPoint hart, draft⟩ reached)
    (number : Numeral.read? value = some address) :
    (draft.image.settings hart).entry = none ∧
      reached = ⟨.entryPoints, draft.withEntry hart address⟩ := by
  cases move with
  | entryAddress found free =>
    rw [number] at found
    obtain rfl := Option.some.inj found
    exact ⟨free, rfl⟩

theorem Move.of_value {given : Attribute}
    (move : Move sink matching (.scalar value) ⟨.field block field, draft⟩ reached)
    (meant : field.attribute? matching value = some given) :
    ∃ after : Filling σ,
      Gives given ⟨block, draft⟩ after ∧ reached = ⟨.block after.block, after.draft⟩ := by
  cases move with
  | value found gives =>
    rw [meant] at found
    obtain rfl := Option.some.inj found
    exact ⟨_, gives, rfl⟩

theorem Move.of_closeBlock
    (move : Move sink matching .mappingEnd ⟨.block block, draft⟩ reached) :
    ∃ owner store,
      block.owner = some owner ∧
        sink.Takes block.path owner block.address block.ancillary draft.store store ∧
        reached = ⟨.payloads, draft.closeWith block owner store⟩ := by
  cases move with
  | closeBlock owned taken => exact ⟨_, _, owned, taken, rfl⟩

end Inversion

/-! ## Entries -/

/-- The events that write down an entry lead the machine from one place to no other place than
those that what the entry says leads to. -/
def Tracks
    (sink : PayloadSink σ)
    (matching : Matching)
    (place : τ → Machine σ)
    (performs : β → τ → τ → Prop)
    (spells : α → List Kind → Prop)
    (items : α → List β) :
    Prop :=
  ∀ entry kinds before reached, spells entry kinds →
    Trace (Move sink matching) kinds (place before) reached →
      ∃ after, Trace performs (items entry) before after ∧ reached = place after

section Tracks

variable {sink : PayloadSink σ} {matching : Matching} {place : τ → Machine σ}
  {performs : β → τ → τ → Prop} {spells : α → List Kind → Prop} {items : α → List β}

theorem Tracks.list
    (each : Tracks sink matching place performs spells items) :
    Tracks sink matching place performs (Spelled spells) fun entries => entries.flatMap items := by
  intro entries kinds before reached spelled trace
  induction spelled generalizing before with
  | nil =>
    obtain rfl := Trace.nil_iff.mp trace
    exact ⟨before, .nil, rfl⟩
  | cons first _ inductionHypothesis =>
    obtain ⟨between, front, back⟩ := Trace.append_iff.mp trace
    obtain ⟨middle, performed, rfl⟩ := each _ _ _ _ first front
    obtain ⟨after, further, rfl⟩ := inductionHypothesis middle back
    exact ⟨after, performed.append further, rfl⟩

/-- Between two events, the machine enters the place of the entries and is still there at the
last one. -/
theorem Tracks.bracketed
    (each : Tracks sink matching place performs spells items)
    {first last : Kind}
    {entries : List α}
    {kinds : List Kind}
    (spelled : Bracketed first last spells entries kinds)
    {source target : Machine σ}
    (trace : Trace (Move sink matching) kinds source target)
    (before : τ)
    (opens : ∀ entered, Move sink matching first source entered → entered = place before) :
    ∃ after, Trace performs (entries.flatMap items) before after ∧
      Move sink matching last (place after) target := by
  rcases spelled with ⟨body, inner, rfl⟩
  obtain ⟨entered, opening, along⟩ := Trace.cons_iff.mp trace
  obtain rfl := opens entered opening
  obtain ⟨reached, within, closing⟩ := Trace.append_iff.mp along
  obtain ⟨after, performed, rfl⟩ := each.list entries body before reached inner within
  exact ⟨after, performed, Trace.singleton_iff.mp closing⟩

theorem Tracks.part
    (each : Tracks sink matching place performs spells items)
    (opening : ∀ state reached, Move sink matching .mappingStart (place state) reached →
      reached = place state) :
    Tracks sink matching place performs (Part.Spells spells) (Part.items items) := by
  intro part kinds before reached spelled trace
  cases part with
  | opening =>
    obtain rfl : kinds = [.mappingStart] := spelled
    have passed := opening before reached (Trace.singleton_iff.mp trace)
    exact ⟨before, .nil, passed⟩
  | entry value => exact each value kinds before reached spelled trace

end Tracks

section

variable (sink : PayloadSink σ) (matching : Matching)

theorem tracks_entryPoint :
    Tracks sink matching (fun draft => ⟨.entryPoints, draft⟩) (Performs sink)
      (EntryPoint.Spells matching) EntryPoint.items := by
  intro point kinds before reached spelled trace
  rcases spelled with ⟨key, value, named, number, rfl⟩
  obtain ⟨atValue, keyed, rest⟩ := Trace.cons_iff.mp trace
  obtain rfl := keyed.functional (.entryHart named)
  obtain ⟨free, rfl⟩ := (Trace.singleton_iff.mp rest).of_entryAddress number
  exact ⟨_, Trace.singleton_iff.mpr ⟨free, rfl⟩, rfl⟩

theorem tracks_entryParts :
    Tracks sink matching (fun draft => ⟨.entryPoints, draft⟩) (Performs sink)
      (Part.Spells (EntryPoint.Spells matching)) (Part.items EntryPoint.items) := by
  apply (tracks_entryPoint sink matching).part
  exact fun _ _ move => move.functional .openEntries

theorem tracks_attribute :
    Tracks sink matching (fun filling => ⟨.block filling.block, filling.draft⟩) Gives
      (Attribute.Spells matching) List.singleton := by
  intro given kinds before reached spelled trace
  rcases spelled with ⟨key, value, read, rfl⟩
  obtain ⟨field, named, meant⟩ := Option.bind_eq_some_iff.mp read
  obtain ⟨atValue, keyed, rest⟩ := Trace.cons_iff.mp trace
  obtain rfl := keyed.functional (.field named)
  obtain ⟨after, gives, rfl⟩ := (Trace.singleton_iff.mp rest).of_value meant
  exact ⟨after, Trace.singleton_iff.mpr gives, rfl⟩

theorem tracks_attributeParts :
    Tracks sink matching (fun filling => ⟨.block filling.block, filling.draft⟩) Gives
      (Part.Spells (Attribute.Spells matching)) (Part.items List.singleton) := by
  apply (tracks_attribute sink matching).part
  exact fun _ _ move => move.functional .openBlock

theorem tracks_payload :
    Tracks sink matching (fun draft => ⟨.payloads, draft⟩) (Performs sink)
      (Payload.Spells matching) Payload.items := by
  intro payload kinds before reached spelled trace
  obtain ⟨filled, given, closing⟩ :=
    (tracks_attributeParts sink matching).bracketed spelled trace
      ⟨{ path := payload.path }, before⟩ fun _ move => move.functional .path
  obtain ⟨owner, store, owned, taken, rfl⟩ := closing.of_closeBlock
  exact ⟨_, Trace.singleton_iff.mpr ⟨filled, owner, store, given, owned, taken, rfl⟩, rfl⟩

theorem tracks_payloadParts :
    Tracks sink matching (fun draft => ⟨.payloads, draft⟩) (Performs sink)
      (Part.Spells (Payload.Spells matching)) (Part.items Payload.items) := by
  apply (tracks_payload sink matching).part
  exact fun _ _ move => move.functional .openPayloads

theorem tracks_section :
    Tracks sink matching (fun draft => ⟨.mapping, draft⟩) (Performs sink)
      (Section.Spells matching) Section.items := by
  intro element kinds before reached spelled trace
  cases element with
  | setName text =>
    rcases spelled with ⟨key, named, rfl⟩
    obtain ⟨atText, keyed, rest⟩ := Trace.cons_iff.mp trace
    obtain rfl := keyed.functional (.section (by rw [named]; rfl))
    cases Trace.singleton_iff.mp rest
    exact ⟨_, Trace.singleton_iff.mpr rfl, rfl⟩
  | entryPoints parts =>
    rcases spelled with ⟨key, named, inner⟩
    obtain ⟨after, performed, closing⟩ :=
      (tracks_entryParts sink matching).bracketed inner trace before fun _ keyed =>
        keyed.functional (.section (by rw [named]; rfl))
    cases closing
    exact ⟨after, performed, rfl⟩
  | payloads parts =>
    rcases spelled with ⟨key, named, inner⟩
    obtain ⟨after, performed, closing⟩ :=
      (tracks_payloadParts sink matching).bracketed inner trace before fun _ keyed =>
        keyed.functional (.section (by rw [named]; rfl))
    cases closing
    exact ⟨after, performed, rfl⟩

theorem tracks_mapping :
    Tracks sink matching (fun draft => ⟨.document, draft⟩) (Performs sink)
      (Mapping.Spells matching) Mapping.items := by
  intro mapping kinds before reached spelled trace
  obtain ⟨after, performed, closing⟩ :=
    (tracks_section sink matching).bracketed spelled trace before fun _ move =>
      move.functional .openMapping
  cases closing
  exact ⟨after, performed, rfl⟩

theorem tracks_document :
    Tracks sink matching (fun draft => ⟨.stream, draft⟩) (Performs sink)
      (Document.Spells matching) Document.items := by
  intro document kinds before reached spelled trace
  obtain ⟨after, performed, closing⟩ :=
    (tracks_mapping sink matching).bracketed spelled trace before fun _ move =>
      move.functional .openDocument
  cases closing
  exact ⟨after, performed, rfl⟩

/-- A machine that has been led along the events of a configuration has performed its items. -/
theorem performed_of_spells
    {configuration : Configuration}
    {kinds : List Kind}
    (spelled : configuration.Spells matching kinds)
    {start : Draft σ}
    {reached : Machine σ}
    (trace : Trace (Move sink matching) kinds ⟨.idle, start⟩ reached) :
    ∃ final, Trace (Performs sink) configuration.items start final ∧
      reached = ⟨.finished, final⟩ := by
  obtain ⟨final, performed, closing⟩ :=
    (tracks_document sink matching).bracketed spelled trace start fun _ move =>
      move.functional .openStream
  cases closing
  exact ⟨final, performed, rfl⟩

end

/-- Accepted events write down a configuration, and whichever one it is, its items make the
image. -/
theorem performed_of_accepted
    {sink : PayloadSink σ}
    {matching : Matching}
    {events : List Yaml.Event}
    {store final : σ}
    {image : Image}
    (accepted : (readEvents sink matching events).Succeeds store image final) :
    (∃ configuration : Configuration,
        configuration.Spells matching (events.map fun event => event.kind)) ∧
      ∀ configuration : Configuration,
        configuration.Spells matching (events.map fun event => event.kind) →
          ∃ draft, Trace (Performs sink) configuration.items (Draft.initial store) draft ∧
            draft.image = image := by
  obtain ⟨-, draft, trace, described, -⟩ := succeeds_readReading_iff_trace.mp accepted
  constructor
  · obtain ⟨configuration, spelled, -⟩ := trace_iff_spells.mp trace
    exact ⟨configuration, spelled⟩
  · intro configuration spelled
    obtain ⟨reached, performed, same⟩ := performed_of_spells sink matching spelled trace
    obtain rfl : draft = reached := congrArg Machine.draft same
    exact ⟨draft, performed, described⟩

end HartBoot.Config
