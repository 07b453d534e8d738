import HartBoot.Proofs.Config.Summary
import HartBoot.Proofs.Config.Tracking
import HartBoot.Proofs.Config.Validity

/-!
Contract: the name of the set that a configuration describes.

Owns:
- `composedName`, the name that payload blocks compose, and `setNameFrom`, which a given name
  overrides;
- `Draft.Named`, what the flag, the counter and the name of a draft say about the names that have
  been given and the blocks that have been closed;
- the law of the set name.

Does not own: how a single text is appended (see `HartBoot.Name`).
-/

namespace HartBoot.Config

variable {σ : Type}

/-- Append some texts, one after the other. -/
def appendAll (name : Name) (parts : List String) : Name :=
  parts.foldl (fun name part => (name.push part).name) name

/-- The blocks that add to the set name: those up to the first one that has a title. -/
def naming (blocks : List Block) : List Block :=
  blocks.take (blocks.findIdx (fun block => block.title.isSome) + 1)

/-- The name that blocks compose: the prefix and their names, with a `+` between two of them. -/
def composedName (blocks : List Block) : Name :=
  appendAll (Name.ofText Image.setNamePrefix)
    (((naming blocks).map Block.displayName).intersperse "+")

/-- The set name after some texts have been given for it and some blocks have been closed: the
last text counts, and blocks compose the name only if there is none. -/
def setNameFrom (texts : List String) (blocks : List Block) : Name :=
  match texts.getLast? with
  | some text => Name.ofText text
  | none => composedName blocks

/-- The text that an item gives for the set name. -/
def Item.setName? : Item → Option String
  | .setName text => some text
  | _ => none

/-! ## Composition -/

theorem intersperse_append_singleton
    {α : Type}
    (separator : α)
    {list : List α}
    (nonempty : list ≠ [])
    (last : α) :
    (list ++ [last]).intersperse separator = list.intersperse separator ++ [separator, last] := by
  induction list with
  | nil => exact absurd rfl nonempty
  | cons first rest inductionHypothesis =>
    cases rest with
    | nil => rfl
    | cons second rest =>
      have later := inductionHypothesis (List.cons_ne_nil second rest)
      simp only [List.cons_append, List.intersperse_cons_cons] at later ⊢
      rw [later]

theorem naming_append_of_titled
    {blocks : List Block}
    (titled : ∃ block ∈ blocks, block.title.isSome)
    (block : Block) :
    naming (blocks ++ [block]) = naming blocks := by
  have found : blocks.findIdx (fun block => block.title.isSome) < blocks.length :=
    List.findIdx_lt_length.mpr titled
  unfold naming
  rw [List.findIdx_append, if_pos found, List.take_append_of_le_length found]

theorem naming_of_untitled
    {blocks : List Block}
    (untitled : ¬ ∃ block ∈ blocks, block.title.isSome) :
    naming blocks = blocks := by
  have missed : blocks.findIdx (fun block => block.title.isSome) = blocks.length := by
    apply List.findIdx_eq_length.mpr
    intro block member
    exact Bool.eq_false_iff.mpr fun titled => untitled ⟨block, member, titled⟩
  unfold naming
  rw [missed]
  exact List.take_of_length_le (Nat.le_succ _)

/-- The block behind blocks without titles adds to the name, whether it has a title or not. -/
theorem naming_append_of_untitled
    {blocks : List Block}
    (untitled : ¬ ∃ block ∈ blocks, block.title.isSome)
    (block : Block) :
    naming (blocks ++ [block]) = blocks ++ [block] := by
  have missed : ¬ blocks.findIdx (fun block => block.title.isSome) < blocks.length :=
    fun found => untitled (List.findIdx_lt_length.mp found)
  unfold naming
  rw [List.findIdx_append, if_neg missed]
  apply List.take_of_length_le
  rw [List.length_append, List.length_singleton]
  omega

theorem composedName_append_of_titled
    {blocks : List Block}
    (titled : ∃ block ∈ blocks, block.title.isSome)
    (block : Block) :
    composedName (blocks ++ [block]) = composedName blocks := by
  rw [composedName, naming_append_of_titled titled, composedName]

theorem composedName_append_of_untitled
    {blocks : List Block}
    (untitled : ¬ ∃ block ∈ blocks, block.title.isSome)
    (block : Block) :
    composedName (blocks ++ [block]) =
      ((if 0 < blocks.length then ((composedName blocks).push "+").name
        else composedName blocks).push block.displayName).name := by
  unfold composedName
  rw [naming_append_of_untitled untitled, naming_of_untitled untitled, List.map_append]
  cases blocks with
  | nil => rfl
  | cons first rest =>
    have nonempty : (first :: rest).map Block.displayName ≠ [] := by simp
    rw [List.map_singleton, intersperse_append_singleton "+" nonempty, appendAll,
      List.foldl_append]
    rfl

/-! ## Drafts -/

namespace Draft

/-- A draft has been given some texts for the set name, and some blocks have been closed. -/
structure Named (draft : Draft σ) (texts : List String) (blocks : List Block) : Prop where
  counted : draft.closed = blocks.length
  fixed : draft.nameFixed ↔ texts ≠ [] ∨ ∃ block ∈ blocks, block.title.isSome
  name : draft.image.setName = setNameFrom texts blocks

variable {draft : Draft σ} {texts : List String} {blocks : List Block}

theorem named_initial (store : σ) : (initial store).Named [] [] where
  counted := rfl
  fixed := by simp [initial]
  name := rfl

theorem Named.give (known : draft.Named texts blocks) (text : String) :
    (draft.named text).Named (texts ++ [text]) blocks where
  counted := known.counted
  fixed := by simp [named]
  name := by
    rw [setNameFrom, List.getLast?_concat]
    rfl

theorem Named.assignAll (known : draft.Named texts blocks) (assignments : List Assignment) :
    (draft.assignAll assignments).Named texts blocks where
  counted := by rw [closed_assignAll, known.counted]
  fixed := by rw [nameFixed_assignAll, known.fixed]
  name := by rw [setName_assignAll, known.name]

theorem setName_assignFlags (image : Image) (flags : BootFlags) (harts : List Hart) :
    (image.assignFlags flags harts).setName = image.setName := by
  induction harts generalizing image with
  | nil => rfl
  | cons hart rest inductionHypothesis => exact inductionHypothesis _

theorem setName_closeWith (block : Block) (owner : Hart) (store : σ) :
    (draft.closeWith block owner store).image.setName = draft.nameAfter block :=
  setName_assignFlags _ _ _

/-- A block adds to the set name when no text has been given and no block before has a title. -/
theorem Named.nameAfter_eq (known : draft.Named texts blocks) (block : Block) :
    draft.nameAfter block = setNameFrom texts (blocks ++ [block]) := by
  unfold nameAfter
  by_cases fixed : draft.nameFixed
  · rw [if_pos fixed, known.name, setNameFrom, setNameFrom]
    cases last : texts.getLast? with
    | some text => rfl
    | none =>
      have none : texts = [] := List.getLast?_eq_none_iff.mp last
      have titled := (known.fixed.mp fixed).resolve_left (not_not_intro none)
      exact (composedName_append_of_titled titled block).symm
  · have undecided : ¬ (texts ≠ [] ∨ ∃ block ∈ blocks, block.title.isSome) :=
      fun settled => fixed (known.fixed.mpr settled)
    obtain ⟨none, untitled⟩ := not_or.mp undecided
    obtain rfl : texts = [] := not_not.mp none
    have name : draft.image.setName = composedName blocks := known.name
    rw [if_neg fixed, known.counted, name]
    exact (composedName_append_of_untitled untitled block).symm

theorem Named.close (known : draft.Named texts blocks) (block : Block) (owner : Hart) (store : σ) :
    (draft.closeWith block owner store).Named texts (blocks ++ [block]) where
  counted := by
    rw [List.length_append, ← known.counted]
    rfl
  fixed := by
    have either : (draft.closeWith block owner store).nameFixed =
        (draft.nameFixed || block.title.isSome) := rfl
    rw [either, Bool.or_eq_true, known.fixed]
    simp only [List.mem_append, List.mem_singleton, or_and_right, exists_or, exists_eq_left,
      or_assoc]
  name := by rw [setName_closeWith, known.nameAfter_eq]

end Draft

theorem Draft.Named.performs
    {sink : PayloadSink σ}
    {items : List Item}
    {item : Item}
    {before after : Draft σ}
    (known : before.Named (items.filterMap Item.setName?) (items.flatMap Item.described))
    (performed : Performs sink item before after) :
    after.Named ((items ++ [item]).filterMap Item.setName?)
      ((items ++ [item]).flatMap Item.described) := by
  rw [List.filterMap_append, List.flatMap_append, List.flatMap_singleton]
  cases item with
  | setName text =>
    obtain rfl := performed
    have closes : (Item.setName text).described = [] := rfl
    rw [closes, List.append_nil]
    exact known.give text
  | entryPoint point =>
    obtain ⟨-, rfl⟩ := performed
    have silent : [Item.entryPoint point].filterMap Item.setName? = [] := rfl
    have closes : (Item.entryPoint point).described = [] := rfl
    rw [silent, closes, List.append_nil, List.append_nil]
    exact ⟨known.counted, known.fixed, known.name⟩
  | payload path attributes =>
    obtain ⟨-, -, owner, store, -, -, rfl⟩ := performs_payload_iff.mp performed
    have silent : [Item.payload path attributes].filterMap Item.setName? = [] := rfl
    rw [silent, List.append_nil, Block.of_eq_describedBy]
    exact (known.assignAll _).close _ owner store

/-- The names that items give, and the blocks that they close, are those of the draft. -/
theorem named_of_performed
    {sink : PayloadSink σ}
    {items : List Item}
    {store : σ}
    {draft : Draft σ}
    (performed : Trace (Performs sink) items (Draft.initial store) draft) :
    draft.Named (items.filterMap Item.setName?) (items.flatMap Item.described) := by
  refine performed.carries
    (fun items draft => draft.Named (items.filterMap Item.setName?) (items.flatMap Item.described))
    ?_ (Draft.named_initial store)
  exact fun front item before after step known => known.performs step

/-- The set name of an accepted configuration is the last text that it gives for it. If it gives
none, the name is composed: the prefix, and the names of the payload blocks in the order in which
they are closed, joined by `+`, up to the first block that has a title. -/
theorem setName_of_configuration
    (sink : PayloadSink σ)
    (matching : Matching)
    (events : List Yaml.Event)
    (store final : σ)
    (image : Image)
    (accepted : (readEvents sink matching events).Succeeds store image final) :
    (∃ configuration : Configuration,
        configuration.Spells matching (events.map fun event => event.kind)) ∧
      ∀ configuration : Configuration,
        configuration.Spells matching (events.map fun event => event.kind) →
          image.setName =
            setNameFrom (configuration.items.filterMap Item.setName?)
              (configuration.items.flatMap Item.described) := by
  obtain ⟨written, performs⟩ := performed_of_accepted accepted
  refine ⟨written, ?_⟩
  intro configuration spelled
  obtain ⟨draft, performed, rfl⟩ := performs configuration spelled
  exact (named_of_performed performed).name

/-- Of three blocks, the second has a title: the name stops behind it. -/
theorem setName_of_configuration_titled :
    let events := (Yaml.read
      ("payloads: \x7ba: \x7bowner-hart: u54_1\x7d, " ++
        "b: \x7bowner-hart: u54_2, payload-name: x\x7d, c: \x7bowner-hart: u54_3\x7d\x7d\n")).events
    let sink := PayloadSink.answering fun _ => true
    let image : Image :=
      ⟨Name.ofText "PolarFireSOC-HSS::a+x",
        ⟨{ name := Name.ofText "a" }, { name := Name.ofText "x" }, { name := Name.ofText "c" }, {}⟩⟩
    let payloads : Section := .payloads
      [.opening,
        .entry ⟨"a", [.opening, .entry (.ownerHart .u54_1)]⟩,
        .entry ⟨"b", [.opening, .entry (.ownerHart .u54_2), .entry (.payloadName "x")]⟩,
        .entry ⟨"c", [.opening, .entry (.ownerHart .u54_3)]⟩]
    let configuration : Configuration := [[[payloads]]]
    (readEvents sink .whole events).Succeeds () image () ∧
      configuration.Spells .whole (events.map fun event => event.kind) ∧
      image.setName =
        setNameFrom (configuration.items.filterMap Item.setName?)
          (configuration.items.flatMap Item.described) := by
  intro events sink image payloads configuration
  have accepted : (readEvents sink .whole events).Succeeds () image () :=
    ⟨by decide +kernel, by decide +kernel⟩
  have kinds : (events.map fun event => event.kind) =
      [.streamStart, .documentStart, .mappingStart, .scalar "payloads", .mappingStart,
        .scalar "a", .mappingStart, .scalar "owner-hart", .scalar "u54_1", .mappingEnd,
        .scalar "b", .mappingStart, .scalar "owner-hart", .scalar "u54_2",
        .scalar "payload-name", .scalar "x", .mappingEnd,
        .scalar "c", .mappingStart, .scalar "owner-hart", .scalar "u54_3", .mappingEnd,
        .mappingEnd, .mappingEnd, .documentEnd, .streamEnd] := by
    decide +kernel
  have first : Payload.Spells .whole ⟨"a", [.opening, .entry (.ownerHart .u54_1)]⟩
      [.scalar "a", .mappingStart, .scalar "owner-hart", .scalar "u54_1", .mappingEnd] :=
    ⟨_, .cons rfl (.cons ⟨_, _, by decide, rfl⟩ .nil), rfl⟩
  have second : Payload.Spells .whole
      ⟨"b", [.opening, .entry (.ownerHart .u54_2), .entry (.payloadName "x")]⟩
      [.scalar "b", .mappingStart, .scalar "owner-hart", .scalar "u54_2",
        .scalar "payload-name", .scalar "x", .mappingEnd] :=
    ⟨_, .cons rfl (.cons ⟨_, _, by decide, rfl⟩ (.cons ⟨_, _, by decide, rfl⟩ .nil)), rfl⟩
  have third : Payload.Spells .whole ⟨"c", [.opening, .entry (.ownerHart .u54_3)]⟩
      [.scalar "c", .mappingStart, .scalar "owner-hart", .scalar "u54_3", .mappingEnd] :=
    ⟨_, .cons rfl (.cons ⟨_, _, by decide, rfl⟩ .nil), rfl⟩
  have spelled : configuration.Spells .whole (events.map fun event => event.kind) := by
    have listed : payloads.Spells .whole _ :=
      ⟨"payloads", by decide, _, .cons rfl (.cons first (.cons second (.cons third .nil))), rfl⟩
    rw [kinds]
    exact ⟨_, .cons ⟨_, .cons ⟨_, .cons listed .nil, rfl⟩ .nil, rfl⟩ .nil, rfl⟩
  have named := (setName_of_configuration sink .whole events () () image accepted).2
  exact ⟨accepted, spelled, named configuration spelled⟩

end HartBoot.Config
