import HartBoot.Proofs.Config.Grammar
import HartBoot.Proofs.Config.Move

/-!
Contract: the machine reads the language of configurations.

Owns:
- `Performs`, what an item does to a draft;
- `trace_of_spells`, which leads the machine along the events of a configuration whose items can
  be performed;
- `remains_of_trace`, which finds the configuration in the events that the machine accepts;
- `trace_iff_spells`, both of them together.

The second direction goes through `Remains`: what the events that are left spell, in each state
of the machine.

Does not own: which items can be performed (see `HartBoot.Proofs.Config.Validity`).
-/

namespace HartBoot.Config

open Yaml.Event (Kind)

variable {α β σ τ : Type}

/-- What an item does to a draft. A payload block is filled and then closed. -/
def Performs (sink : PayloadSink σ) : Item → Draft σ → Draft σ → Prop
  | .setName text, before, after => before.named text = after
  | .entryPoint point, before, after =>
    (before.image.settings point.hart).entry = none ∧
      before.withEntry point.hart point.address = after
  | .payload path attributes, before, after =>
    ∃ filled owner store,
      Trace Gives attributes ⟨{ path := path }, before⟩ filled ∧
        filled.block.owner = some owner ∧
        sink.Takes filled.block.path owner filled.block.address filled.block.ancillary
          filled.draft.store store ∧
        filled.draft.closeWith filled.block owner store = after

/-! ## From a configuration to the machine -/

/-- The events that write down an entry lead the machine from one place to another when what the
entry says leads from one state to another. -/
def Drives
    (sink : PayloadSink σ)
    (matching : Matching)
    (place : τ → Machine σ)
    (performs : β → τ → τ → Prop)
    (spells : α → List Kind → Prop)
    (items : α → List β) :
    Prop :=
  ∀ entry kinds before after, spells entry kinds → Trace performs (items entry) before after →
    Trace (Move sink matching) kinds (place before) (place after)

section Drives

variable {sink : PayloadSink σ} {matching : Matching} {place : τ → Machine σ}
  {performs : β → τ → τ → Prop} {spells : α → List Kind → Prop} {items : α → List β}

theorem Drives.list
    (each : Drives sink matching place performs spells items) :
    Drives sink matching place performs (Spelled spells) fun entries => entries.flatMap items := by
  intro entries kinds before after spelled performed
  induction spelled generalizing before with
  | nil =>
    obtain rfl := Trace.nil_iff.mp performed
    exact .nil
  | cons first _ inductionHypothesis =>
    obtain ⟨middle, front, back⟩ := Trace.append_iff.mp performed
    exact (each _ _ _ _ first front).append (inductionHypothesis middle back)

/-- Between two events, the machine enters the place of the entries and leaves it again. -/
theorem Drives.bracketed
    (each : Drives sink matching place performs spells items)
    {first last : Kind}
    {entries : List α}
    {kinds : List Kind}
    (spelled : Bracketed first last spells entries kinds)
    {before after : τ}
    (performed : Trace performs (entries.flatMap items) before after)
    {source target : Machine σ}
    (opens : Move sink matching first source (place before))
    (closes : Move sink matching last (place after) target) :
    Trace (Move sink matching) kinds source target := by
  rcases spelled with ⟨body, inner, rfl⟩
  have along := each.list entries body before after inner performed
  exact .cons opens (along.append (Trace.singleton_iff.mpr closes))

theorem Drives.part
    (each : Drives sink matching place performs spells items)
    (opening : ∀ state, Move sink matching .mappingStart (place state) (place state)) :
    Drives sink matching place performs (Part.Spells spells) (Part.items items) := by
  intro part kinds before after spelled performed
  cases part with
  | opening =>
    obtain rfl : kinds = [.mappingStart] := spelled
    obtain rfl := Trace.nil_iff.mp performed
    exact Trace.singleton_iff.mpr (opening before)
  | entry value => exact each value kinds before after spelled performed

end Drives

section

variable (sink : PayloadSink σ) (matching : Matching)

theorem drives_entryPoint :
    Drives sink matching (fun draft => ⟨.entryPoints, draft⟩) (Performs sink)
      (EntryPoint.Spells matching) EntryPoint.items := by
  intro point kinds before after spelled performed
  rcases spelled with ⟨key, value, named, number, rfl⟩
  obtain ⟨free, rfl⟩ := Trace.singleton_iff.mp performed
  exact .cons (.entryHart named) (.cons (.entryAddress number free) .nil)

theorem drives_attribute :
    Drives sink matching (fun filling => ⟨.block filling.block, filling.draft⟩) Gives
      (Attribute.Spells matching) List.singleton := by
  intro given kinds before after spelled performed
  rcases spelled with ⟨key, value, read, rfl⟩
  obtain ⟨field, named, meant⟩ := Option.bind_eq_some_iff.mp read
  have gives := Trace.singleton_iff.mp performed
  exact .cons (.field named) (.cons (.value meant gives) .nil)

theorem drives_payload :
    Drives sink matching (fun draft => ⟨.payloads, draft⟩) (Performs sink)
      (Payload.Spells matching) Payload.items := by
  intro payload kinds before after spelled performed
  obtain ⟨filled, owner, store, given, owned, taken, rfl⟩ := Trace.singleton_iff.mp performed
  have each := (drives_attribute sink matching).part fun _ => .openBlock
  exact each.bracketed spelled given .path (.closeBlock owned taken)

theorem drives_section :
    Drives sink matching (fun draft => ⟨.mapping, draft⟩) (Performs sink)
      (Section.Spells matching) Section.items := by
  intro element kinds before after spelled performed
  cases element with
  | setName text =>
    rcases spelled with ⟨key, named, rfl⟩
    obtain rfl := Trace.singleton_iff.mp performed
    exact .cons (.section (by rw [named]; rfl)) (.cons .setName .nil)
  | entryPoints parts =>
    rcases spelled with ⟨key, named, inner⟩
    have each := (drives_entryPoint sink matching).part fun _ => .openEntries
    exact each.bracketed inner performed (.section (by rw [named]; rfl)) .closeEntries
  | payloads parts =>
    rcases spelled with ⟨key, named, inner⟩
    have each := (drives_payload sink matching).part fun _ => .openPayloads
    exact each.bracketed inner performed (.section (by rw [named]; rfl)) .closePayloads

theorem drives_mapping :
    Drives sink matching (fun draft => ⟨.document, draft⟩) (Performs sink)
      (Mapping.Spells matching) Mapping.items := by
  intro mapping kinds before after spelled performed
  exact (drives_section sink matching).bracketed spelled performed .openMapping .closeMapping

theorem drives_document :
    Drives sink matching (fun draft => ⟨.stream, draft⟩) (Performs sink)
      (Document.Spells matching) Document.items := by
  intro document kinds before after spelled performed
  exact (drives_mapping sink matching).bracketed spelled performed .openDocument .closeDocument

/-- The events of a configuration lead the machine from its first state to its last one. -/
theorem trace_of_spells
    {configuration : Configuration}
    {kinds : List Kind}
    (spelled : configuration.Spells matching kinds)
    {before after : Draft σ}
    (performed : Trace (Performs sink) configuration.items before after) :
    Trace (Move sink matching) kinds ⟨.idle, before⟩ ⟨.finished, after⟩ :=
  (drives_document sink matching).bracketed spelled performed .openStream .closeStream

end

/-! ## From the machine to a configuration -/

/-- Of the kinds that are left, some write down more entries, and one more closes them; `outer`
tells what is left behind that one. -/
def Closing
    (last : Kind)
    (performs : β → τ → τ → Prop)
    (spells : α → List Kind → Prop)
    (items : α → List β)
    (outer : τ → List Kind → Prop)
    (state : τ)
    (kinds : List Kind) :
    Prop :=
  ∃ entries body rest middle,
    Spelled spells entries body ∧ kinds = body ++ last :: rest ∧
      Trace performs (entries.flatMap items) state middle ∧ outer middle rest

section Closing

variable {last : Kind} {performs : β → τ → τ → Prop} {spells : α → List Kind → Prop}
  {items : α → List β} {outer : τ → List Kind → Prop} {state middle : τ} {kinds : List Kind}

theorem Closing.here (left : outer state kinds) :
    Closing last performs spells items outer state (last :: kinds) :=
  ⟨[], [], kinds, state, .nil, rfl, .nil, left⟩

theorem Closing.more
    (left : Closing last performs spells items outer middle kinds)
    (entry : α)
    {front : List Kind}
    (spelled : spells entry front)
    (performed : Trace performs (items entry) state middle) :
    Closing last performs spells items outer state (front ++ kinds) := by
  rcases left with ⟨entries, body, rest, final, others, rfl, further, behind⟩
  refine ⟨entry :: entries, front ++ body, rest, final, .cons spelled others, ?_, ?_, behind⟩
  · exact (List.append_assoc _ _ _).symm
  · exact performed.append further

theorem Closing.opening
    (left : Closing last performs (Part.Spells spells) (Part.items items) outer state kinds) :
    Closing last performs (Part.Spells spells) (Part.items items) outer state
      (.mappingStart :: kinds) :=
  left.more Part.opening rfl .nil

/-- What is left, with an event in front, is a bracketed list and what is left behind it. -/
theorem Closing.bracketed
    (first : Kind)
    (left : Closing last performs spells items outer state kinds) :
    ∃ entries front rest middle,
      Bracketed first last spells entries front ∧ first :: kinds = front ++ rest ∧
        Trace performs (entries.flatMap items) state middle ∧ outer middle rest := by
  rcases left with ⟨entries, body, rest, final, spelled, rfl, performed, behind⟩
  refine ⟨entries, _, rest, final, ⟨body, spelled, rfl⟩, ?_, performed, behind⟩
  simp

end Closing

section

variable (sink : PayloadSink σ) (matching : Matching) (final : Draft σ)

def InStream : Draft σ → List Kind → Prop :=
  Closing .streamEnd (Performs sink) (Document.Spells matching) Document.items
    fun draft kinds => kinds = [] ∧ draft = final

def InDocument : Draft σ → List Kind → Prop :=
  Closing .documentEnd (Performs sink) (Mapping.Spells matching) Mapping.items
    (InStream sink matching final)

def InMapping : Draft σ → List Kind → Prop :=
  Closing .mappingEnd (Performs sink) (Section.Spells matching) Section.items
    (InDocument sink matching final)

def InEntryPoints : Draft σ → List Kind → Prop :=
  Closing .mappingEnd (Performs sink) (Part.Spells (EntryPoint.Spells matching))
    (Part.items EntryPoint.items) (InMapping sink matching final)

def InPayloads : Draft σ → List Kind → Prop :=
  Closing .mappingEnd (Performs sink) (Part.Spells (Payload.Spells matching))
    (Part.items Payload.items) (InMapping sink matching final)

def InBlock : Filling σ → List Kind → Prop :=
  Closing .mappingEnd Gives (Part.Spells (Attribute.Spells matching)) (Part.items List.singleton)
    fun filled kinds => ∃ owner store,
      filled.block.owner = some owner ∧
        sink.Takes filled.block.path owner filled.block.address filled.block.ancillary
          filled.draft.store store ∧
        InPayloads sink matching final (filled.draft.closeWith filled.block owner store) kinds

/-- What the kinds that are left write down, in each state, if they lead to a final draft. -/
def Remains : Machine σ → List Kind → Prop
  | ⟨.idle, draft⟩, kinds =>
    ∃ rest, kinds = .streamStart :: rest ∧ InStream sink matching final draft rest
  | ⟨.stream, draft⟩, kinds => InStream sink matching final draft kinds
  | ⟨.document, draft⟩, kinds => InDocument sink matching final draft kinds
  | ⟨.mapping, draft⟩, kinds => InMapping sink matching final draft kinds
  | ⟨.setName, draft⟩, kinds =>
    ∃ text rest, kinds = .scalar text :: rest ∧
      InMapping sink matching final (draft.named text) rest
  | ⟨.entryPoints, draft⟩, kinds => InEntryPoints sink matching final draft kinds
  | ⟨.entryPoint hart, draft⟩, kinds =>
    ∃ value address rest, kinds = .scalar value :: rest ∧ Numeral.read? value = some address ∧
      (draft.image.settings hart).entry = none ∧
      InEntryPoints sink matching final (draft.withEntry hart address) rest
  | ⟨.payloads, draft⟩, kinds => InPayloads sink matching final draft kinds
  | ⟨.block block, draft⟩, kinds => InBlock sink matching final ⟨block, draft⟩ kinds
  | ⟨.field block field, draft⟩, kinds =>
    ∃ value given after rest, kinds = .scalar value :: rest ∧
      field.attribute? matching value = some given ∧ Gives given ⟨block, draft⟩ after ∧
      InBlock sink matching final after rest
  | ⟨.finished, draft⟩, kinds => kinds = [] ∧ draft = final
  | ⟨.rejected, _⟩, _ => False

variable {sink matching final}

theorem inMapping_of_section
    {key : String}
    {target : State}
    (named : (Keyword.resolve? matching key).bind Machine.sectionOf? = some target)
    {draft : Draft σ}
    {kinds : List Kind}
    (left : Remains sink matching final ⟨target, draft⟩ kinds) :
    InMapping sink matching final draft (.scalar key :: kinds) := by
  obtain ⟨keyword, resolved, meant⟩ := Option.bind_eq_some_iff.mp named
  cases keyword <;> cases meant
  case setName =>
    rcases left with ⟨text, rest, rfl, behind⟩
    exact behind.more (.setName text) ⟨key, resolved, rfl⟩ (Trace.singleton_iff.mpr rfl)
  case hartEntryPoints =>
    obtain ⟨parts, front, rest, middle, spelled, same, performed, behind⟩ :=
      left.bracketed (.scalar key)
    rw [same]
    exact behind.more (.entryPoints parts) ⟨key, resolved, spelled⟩ performed
  case payloads =>
    obtain ⟨parts, front, rest, middle, spelled, same, performed, behind⟩ :=
      left.bracketed (.scalar key)
    rw [same]
    exact behind.more (.payloads parts) ⟨key, resolved, spelled⟩ performed

theorem inPayloads_of_path
    {path : Path}
    {draft : Draft σ}
    {kinds : List Kind}
    (left : InBlock sink matching final ⟨{ path := path }, draft⟩ kinds) :
    InPayloads sink matching final draft (.scalar path :: kinds) := by
  obtain ⟨parts, front, rest, filled, spelled, same, given, owner, store, owned, taken, behind⟩ :=
    left.bracketed (.scalar path)
  rw [same]
  refine behind.more (.entry ⟨path, parts⟩) spelled (Trace.singleton_iff.mpr ?_)
  exact ⟨filled, owner, store, given, owned, taken, rfl⟩

theorem inEntryPoints_of_hart
    {key : String}
    {hart : Hart}
    (named : (Keyword.resolve? matching key).bind Keyword.hart? = some hart)
    {draft : Draft σ}
    {kinds : List Kind}
    (left : Remains sink matching final ⟨.entryPoint hart, draft⟩ kinds) :
    InEntryPoints sink matching final draft (.scalar key :: kinds) := by
  rcases left with ⟨value, address, rest, rfl, number, free, behind⟩
  refine behind.more (.entry ⟨hart, address⟩) ⟨key, value, named, number, rfl⟩ ?_
  exact Trace.singleton_iff.mpr ⟨free, rfl⟩

theorem inBlock_of_field
    {key : String}
    {field : Field}
    (named : (Keyword.resolve? matching key).bind Field.ofKeyword? = some field)
    {block : Block}
    {draft : Draft σ}
    {kinds : List Kind}
    (left : Remains sink matching final ⟨.field block field, draft⟩ kinds) :
    InBlock sink matching final ⟨block, draft⟩ (.scalar key :: kinds) := by
  rcases left with ⟨value, given, after, rest, rfl, meant, gives, behind⟩
  have read : Attribute.read? matching key value = some given :=
    Option.bind_eq_some_iff.mpr ⟨field, named, meant⟩
  exact behind.more (.entry given) ⟨key, value, read, rfl⟩ (Trace.singleton_iff.mpr gives)

/-- A mapping or a document is what its start and what is left behind it write down. -/
theorem Closing.nested
    {first inner last : Kind}
    {performs : β → τ → τ → Prop}
    {spells : α → List Kind → Prop}
    {items : α → List β}
    {outer : τ → List Kind → Prop}
    {state : τ}
    {kinds : List Kind}
    (left : Closing inner performs spells items
      (Closing last performs (Bracketed first inner spells) (fun entries => entries.flatMap items)
        outer) state kinds) :
    Closing last performs (Bracketed first inner spells) (fun entries => entries.flatMap items)
      outer state (first :: kinds) := by
  obtain ⟨entries, front, rest, middle, spelled, same, performed, behind⟩ := left.bracketed first
  rw [same]
  exact behind.more entries spelled performed

/-- A move puts its event in front of what is left. -/
theorem remains_of_move
    {kind : Kind}
    {before after : Machine σ}
    (move : Move sink matching kind before after)
    {kinds : List Kind}
    (left : Remains sink matching final after kinds) :
    Remains sink matching final before (kind :: kinds) := by
  cases move with
  | openStream => exact ⟨kinds, rfl, left⟩
  | closeStream => exact Closing.here left
  | openDocument => exact Closing.nested left
  | closeDocument => exact Closing.here left
  | openMapping => exact Closing.nested left
  | closeMapping => exact Closing.here left
  | «section» named => exact inMapping_of_section named left
  | setName => exact ⟨_, kinds, rfl, left⟩
  | openEntries => exact left.opening
  | closeEntries => exact Closing.here left
  | entryHart named => exact inEntryPoints_of_hart named left
  | entryAddress number free => exact ⟨_, _, kinds, rfl, number, free, left⟩
  | openPayloads => exact left.opening
  | closePayloads => exact Closing.here left
  | path => exact inPayloads_of_path left
  | openBlock => exact left.opening
  | closeBlock owned taken => exact Closing.here ⟨_, _, owned, taken, left⟩
  | field named => exact inBlock_of_field named left
  | value meant gives => exact ⟨_, _, _, kinds, rfl, meant, gives, left⟩

/-- Events that lead to the end of the stream write down what remains. -/
theorem remains_of_trace
    {kinds : List Kind}
    {before after : Machine σ}
    (trace : Trace (Move sink matching) kinds before after)
    (ended : after = ⟨.finished, final⟩) :
    Remains sink matching final before kinds := by
  induction trace with
  | nil =>
    rw [ended]
    exact ⟨rfl, rfl⟩
  | cons move _ inductionHypothesis => exact remains_of_move move (inductionHypothesis ended)

/-- The machine can be led along some events, from its first state to its last one, exactly when
they write down a configuration whose items can be performed. -/
theorem trace_iff_spells {kinds : List Kind} {start : Draft σ} :
    Trace (Move sink matching) kinds ⟨.idle, start⟩ ⟨.finished, final⟩ ↔
      ∃ configuration : Configuration,
        configuration.Spells matching kinds ∧
          Trace (Performs sink) configuration.items start final := by
  constructor
  · intro trace
    obtain ⟨rest, rfl, left⟩ := remains_of_trace trace rfl
    obtain ⟨configuration, front, behind, last, spelled, same, performed, rfl, rfl⟩ :=
      left.bracketed .streamStart
    rw [same, List.append_nil]
    exact ⟨configuration, spelled, performed⟩
  · intro read
    rcases read with ⟨configuration, spelled, performed⟩
    exact trace_of_spells sink matching spelled performed

end

end HartBoot.Config
