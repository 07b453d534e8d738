import HartBoot.Proofs.Config.Requests
import HartBoot.Proofs.Config.SetName
import HartBoot.Proofs.Config.Settings

/-!
Contract: what a configuration says does not depend on where it says it.

Owns:
- `Alike`, items that come to the same: the same texts for the set name, the same blocks and
  assignments, and the same entry points in any order;
- `Alike.performed`, which says that alike items lead to the same draft;
- `Rearranged`, items that differ only in how payloads, entry points and texts for the set name are
  mixed, and the law of rearrangement.

Does not own: which attributes may change places inside of a block.
-/

namespace HartBoot.Config

open Yaml.Event (Kind)

variable {α β γ σ : Type}

/-! ## Parts of items -/

namespace Item

/-- The path and the attributes of an item that is a payload block. -/
def payload? : Item → Option (Path × List Attribute)
  | .payload path attributes => some (path, attributes)
  | _ => none

def entryPoint? : Item → Option EntryPoint
  | .entryPoint point => some point
  | _ => none

end Item

/-- What only some entries of a list contribute to, these entries contribute alone. -/
theorem flatMap_filterMap
    {select? : α → Option β}
    {parts : α → List γ}
    {ofSelected : β → List γ}
    (selected : ∀ entry, parts entry = (select? entry).toList.flatMap ofSelected)
    (entries : List α) :
    entries.flatMap parts = (entries.filterMap select?).flatMap ofSelected := by
  rw [List.filterMap_eq_flatMap_toList, List.flatMap_assoc]
  exact congrArg entries.flatMap (funext selected)

section Parts

variable (items : List Item)

theorem flatMap_entered :
    items.flatMap Item.entered = (items.filterMap Item.entryPoint?).map EntryPoint.hart := by
  rw [List.map_eq_flatMap]
  exact flatMap_filterMap (fun item => by cases item <;> rfl) items

theorem filterMap_entryFor? (hart : Hart) :
    items.filterMap (Item.entryFor? hart) =
      (items.filterMap Item.entryPoint?).filterMap fun point =>
        (Item.entryPoint point).entryFor? hart := by
  rw [List.filterMap_filterMap]
  congr 1
  funext item
  cases item <;> rfl

end Parts

/-! ## Alike items -/

/-- Items come to the same, except that their entry points may be in another order. -/
structure Alike (first second : List Item) : Prop where
  setNames : first.filterMap Item.setName? = second.filterMap Item.setName?
  blocks : first.flatMap Item.blocks = second.flatMap Item.blocks
  assignments : first.flatMap Item.assignments = second.flatMap Item.assignments
  complete : (∀ item ∈ first, item.Complete) ↔ ∀ item ∈ second, item.Complete
  entryPoints : (first.filterMap Item.entryPoint?).Perm (second.filterMap Item.entryPoint?)

namespace Alike

variable {sink : PayloadSink σ} {first second : List Item} {store : σ} {draft other : Draft σ}

theorem symm (alike : Alike first second) : Alike second first where
  setNames := alike.setNames.symm
  blocks := alike.blocks.symm
  assignments := alike.assignments.symm
  complete := alike.complete.symm
  entryPoints := alike.entryPoints.symm

theorem valid (alike : Alike first second) (valid : Valid first) : Valid second where
  entries := by
    have entries := valid.entries
    rw [flatMap_entered] at entries ⊢
    exact (alike.entryPoints.map EntryPoint.hart).nodup_iff.mp entries
  blocks := alike.complete.mp valid.blocks
  modes := alike.assignments ▸ valid.modes

/-- A hart has one entry point at most, so it does not matter where it is given. -/
theorem entry_eq
    (alike : Alike first second)
    {hart : Hart}
    (gathered : draft.Gathered first hart)
    (again : other.Gathered second hart) :
    (draft.image.settings hart).entry = (other.image.settings hart).entry := by
  have permuted : (draft.image.settings hart).entry.toList.Perm
      (other.image.settings hart).entry.toList := by
    rw [← gathered.entries, ← again.entries, filterMap_entryFor?, filterMap_entryFor?]
    exact alike.entryPoints.filterMap _
  cases given : (draft.image.settings hart).entry with
  | none =>
    rw [given] at permuted
    exact (Option.toList_eq_nil_iff.mp permuted.nil_eq.symm).symm
  | some address =>
    rw [given] at permuted
    exact (Option.toList_eq_singleton_iff.mp (List.singleton_perm.mp permuted).symm).symm

theorem settings_eq
    (alike : Alike first second)
    (performed : Trace (Performs sink) first (Draft.initial store) draft)
    (again : Trace (Performs sink) second (Draft.initial store) other)
    (hart : Hart) :
    draft.image.settings hart = other.image.settings hart := by
  have gathered := gathered_of_performed performed hart
  have gatheredAgain := gathered_of_performed again hart
  have described : first.flatMap Item.described = second.flatMap Item.described := by
    rw [flatMap_described, flatMap_described, alike.blocks]
  have entry := alike.entry_eq gathered gatheredAgain
  have name : (draft.image.settings hart).name = (other.image.settings hart).name := by
    rw [gathered.name, gatheredAgain.name, described]
  have privilege :
      (draft.image.settings hart).privilege = (other.image.settings hart).privilege := by
    rw [(reached_of_trace performed).mode, (reached_of_trace again).mode, alike.assignments]
  have flags : (draft.image.settings hart).flags = (other.image.settings hart).flags := by
    rw [gathered.flags, gatheredAgain.flags, described]
  exact (HartSettings.mk.injEq ..).mpr ⟨entry, name, privilege, flags⟩

/-- Alike items lead to the same draft if they leave the receiver in the same state. -/
theorem draft_eq
    (alike : Alike first second)
    (performed : Trace (Performs sink) first (Draft.initial store) draft)
    (again : Trace (Performs sink) second (Draft.initial store) other)
    (stored : other.store = draft.store) :
    draft = other := by
  have named := named_of_performed performed
  have namedAgain := named_of_performed again
  rw [← alike.setNames, flatMap_described, ← alike.blocks, ← flatMap_described] at namedAgain
  have setName : draft.image.setName = other.image.setName :=
    named.name.trans namedAgain.name.symm
  have harts : draft.image.harts = other.image.harts :=
    PerHart.ext_get (alike.settings_eq performed again)
  have image : draft.image = other.image := (Image.mk.injEq ..).mpr ⟨setName, harts⟩
  have fixed : draft.nameFixed = other.nameFixed :=
    Bool.eq_iff_iff.mpr (named.fixed.trans namedAgain.fixed.symm)
  have closed : draft.closed = other.closed := named.counted.trans namedAgain.counted.symm
  exact (Draft.mk.injEq ..).mpr ⟨image, fixed, closed, stored.symm⟩

/-- What items can do, alike items can do, with the same result. -/
theorem performed
    (alike : Alike first second)
    (performed : Trace (Performs sink) first (Draft.initial store) draft) :
    Trace (Performs sink) second (Draft.initial store) draft := by
  obtain ⟨valid, delivered⟩ := exists_trace_iff_valid.mp ⟨draft, performed, rfl⟩
  rw [alike.blocks] at delivered
  obtain ⟨other, again, stored⟩ := exists_trace_iff_valid.mpr ⟨alike.valid valid, delivered⟩
  rw [alike.draft_eq performed again stored]
  exact again

end Alike

/-! ## Rearranged items -/

/-- Items have the same payload blocks and the same texts for the set name, each in their order, and
the same entry points in any order. How the three are mixed does not matter. -/
structure Rearranged (first second : List Item) : Prop where
  payloads : first.filterMap Item.payload? = second.filterMap Item.payload?
  setNames : first.filterMap Item.setName? = second.filterMap Item.setName?
  entryPoints : (first.filterMap Item.entryPoint?).Perm (second.filterMap Item.entryPoint?)

section Payloads

variable (items : List Item)

theorem forall_complete_iff :
    (∀ item ∈ items, item.Complete) ↔
      ∀ payload ∈ items.filterMap Item.payload?, Complete payload.2 := by
  constructor
  · intro complete payload member
    obtain ⟨item, inside, selected⟩ := List.mem_filterMap.mp member
    cases item <;> cases selected
    exact complete _ inside
  · intro complete item inside
    cases item with
    | payload path attributes =>
      exact complete (path, attributes) (List.mem_filterMap.mpr ⟨_, inside, rfl⟩)
    | _ => trivial

theorem flatMap_blocks :
    items.flatMap Item.blocks =
      (items.filterMap Item.payload?).flatMap fun payload => [Block.of payload.1 payload.2] :=
  flatMap_filterMap (fun item => by cases item <;> rfl) items

theorem flatMap_assignments :
    items.flatMap Item.assignments =
      (items.filterMap Item.payload?).flatMap fun payload =>
        Block.assignmentsOf { path := payload.1 } payload.2 :=
  flatMap_filterMap (fun item => by cases item <;> simp [Item.assignments, Item.payload?]) items

end Payloads

theorem Rearranged.alike {first second : List Item} (rearranged : Rearranged first second) :
    Alike first second where
  setNames := rearranged.setNames
  blocks := by rw [flatMap_blocks, flatMap_blocks, rearranged.payloads]
  assignments := by rw [flatMap_assignments, flatMap_assignments, rearranged.payloads]
  complete := by rw [forall_complete_iff, forall_complete_iff, rearranged.payloads]
  entryPoints := rearranged.entryPoints

/-! ## The law of rearrangement -/

section Events

variable {sink : PayloadSink σ} {matching : Matching} {events other : List Yaml.Event}
  {first second : Configuration} {store final : σ} {draft : Draft σ} {image : Image}

theorem succeeds_readEvents_iff_readAll :
    (readEvents sink matching events).Succeeds store image final ↔
      ∃ draft,
        (Machine.readAll sink matching events).Succeeds (Machine.start store) ()
            ⟨.finished, draft⟩ ∧
          draft.image = image ∧ draft.store = final := by
  rw [readEvents, succeeds_readReading_iff_trace]
  simp only [Machine.succeeds_readAll_iff_trace, true_and]

/-- Events that write down alike items lead the machine to the same draft. -/
theorem succeeds_readAll_of_alike
    (spelled : first.Spells matching (events.map fun event => event.kind))
    (spelledAgain : second.Spells matching (other.map fun event => event.kind))
    (alike : Alike first.items second.items)
    (accepted : (Machine.readAll sink matching events).Succeeds (Machine.start store) ()
      ⟨.finished, draft⟩) :
    (Machine.readAll sink matching other).Succeeds (Machine.start store) ()
      ⟨.finished, draft⟩ := by
  have trace := Machine.succeeds_readAll_iff_trace.mp accepted
  obtain ⟨final, performed, same⟩ := performed_of_spells sink matching spelled trace
  obtain rfl : draft = final := congrArg Machine.draft same
  exact Machine.succeeds_readAll_iff_trace.mpr
    (trace_of_spells sink matching spelledAgain (alike.performed performed))

theorem succeeds_readEvents_of_alike
    (spelled : first.Spells matching (events.map fun event => event.kind))
    (spelledAgain : second.Spells matching (other.map fun event => event.kind))
    (alike : Alike first.items second.items)
    (accepted : (readEvents sink matching events).Succeeds store image final) :
    (readEvents sink matching other).Succeeds store image final := by
  obtain ⟨draft, read, reached⟩ := succeeds_readEvents_iff_readAll.mp accepted
  exact succeeds_readEvents_iff_readAll.mpr
    ⟨draft, succeeds_readAll_of_alike spelled spelledAgain alike read, reached⟩

end Events

/-- Where a configuration says something does not matter: sections may be mixed in another way, and
payloads and entry points may be split over sections, mappings and documents. If one arrangement of
the same payloads, texts for the set name and entry points is accepted, then so is the other. They
lead to the same image, the same number of closed blocks and the same requests to the receiver. -/
theorem accepted_iff_of_rearranged
    (sink : PayloadSink σ)
    (matching : Matching)
    (events other : List Yaml.Event)
    (first second : Configuration)
    (spelled : first.Spells matching (events.map fun event => event.kind))
    (spelledAgain : second.Spells matching (other.map fun event => event.kind))
    (rearranged : Rearranged first.items second.items)
    (store : σ) :
    (∀ draft,
        (Machine.readAll sink.recorded matching events).Succeeds (Machine.start ([], store)) ()
            ⟨.finished, draft⟩ ↔
          (Machine.readAll sink.recorded matching other).Succeeds (Machine.start ([], store)) ()
            ⟨.finished, draft⟩) ∧
      ∀ image requests final,
        (readEvents sink.recorded matching events).Succeeds ([], store) image (requests, final) ↔
          (readEvents sink.recorded matching other).Succeeds ([], store) image
            (requests, final) := by
  have alike := rearranged.alike
  constructor
  · intro draft
    exact
      ⟨succeeds_readAll_of_alike spelled spelledAgain alike,
        succeeds_readAll_of_alike spelledAgain spelled alike.symm⟩
  · intro image requests final
    exact
      ⟨succeeds_readEvents_of_alike spelled spelledAgain alike,
        succeeds_readEvents_of_alike spelledAgain spelled alike.symm⟩

/-- The sections of one document are mixed in another way and split over two documents. -/
theorem accepted_iff_of_rearranged_twoDocuments :
    let events := Yaml.Event.ofKinds
      [.streamStart, .documentStart, .mappingStart,
        .scalar "set-name", .scalar "x",
        .scalar "hart-entry-points", .mappingStart,
        .scalar "u54_1", .scalar "0x10", .scalar "u54_2", .scalar "0x20", .mappingEnd,
        .scalar "payloads", .mappingStart,
        .scalar "a", .mappingStart, .scalar "owner-hart", .scalar "u54_1", .mappingEnd,
        .scalar "b", .mappingStart, .scalar "owner-hart", .scalar "u54_2", .mappingEnd,
        .mappingEnd, .mappingEnd, .documentEnd, .streamEnd]
    let other := Yaml.Event.ofKinds
      [.streamStart, .documentStart, .mappingStart,
        .scalar "payloads", .mappingStart,
        .scalar "a", .mappingStart, .scalar "owner-hart", .scalar "u54_1", .mappingEnd, .mappingEnd,
        .scalar "hart-entry-points", .mappingStart, .scalar "u54_2", .scalar "0x20", .mappingEnd,
        .mappingEnd, .documentEnd, .documentStart, .mappingStart,
        .scalar "hart-entry-points", .mappingStart, .scalar "u54_1", .scalar "0x10", .mappingEnd,
        .scalar "payloads", .mappingStart,
        .scalar "b", .mappingStart, .scalar "owner-hart", .scalar "u54_2", .mappingEnd, .mappingEnd,
        .scalar "set-name", .scalar "x",
        .mappingEnd, .documentEnd, .streamEnd]
    let sink := PayloadSink.answering fun _ => true
    let image : Image :=
      ⟨Name.ofText "x",
        ⟨{ entry := some 16, name := Name.ofText "a" },
          { entry := some 32, name := Name.ofText "b" }, {}, {}⟩⟩
    let requests : List PayloadSink.Request := [.extract "a" .u54_1 0, .extract "b" .u54_2 0]
    let a : Part Payload := .entry ⟨"a", [.opening, .entry (.ownerHart .u54_1)]⟩
    let b : Part Payload := .entry ⟨"b", [.opening, .entry (.ownerHart .u54_2)]⟩
    let one : Part EntryPoint := .entry ⟨.u54_1, 16⟩
    let two : Part EntryPoint := .entry ⟨.u54_2, 32⟩
    let first : Configuration :=
      [[[.setName "x", .entryPoints [.opening, one, two], .payloads [.opening, a, b]]]]
    let second : Configuration :=
      [[[.payloads [.opening, a], .entryPoints [.opening, two]]],
        [[.entryPoints [.opening, one], .payloads [.opening, b], .setName "x"]]]
    first.Spells .whole (events.map fun event => event.kind) ∧
      second.Spells .whole (other.map fun event => event.kind) ∧
      Rearranged first.items second.items ∧
      (readEvents sink.recorded .whole events).Succeeds ([], ()) image (requests, ()) ∧
      (readEvents sink.recorded .whole other).Succeeds ([], ()) image (requests, ()) := by
  intro events other sink image requests a b one two first second
  have named : Section.Spells .whole (.setName "x") [.scalar "set-name", .scalar "x"] :=
    ⟨_, by decide, rfl⟩
  have oneSpelled : Part.Spells (EntryPoint.Spells .whole) one [.scalar "u54_1", .scalar "0x10"] :=
    ⟨_, _, by decide, by decide +kernel, rfl⟩
  have twoSpelled : Part.Spells (EntryPoint.Spells .whole) two [.scalar "u54_2", .scalar "0x20"] :=
    ⟨_, _, by decide, by decide +kernel, rfl⟩
  have aSpelled : Part.Spells (Payload.Spells .whole) a
      [.scalar "a", .mappingStart, .scalar "owner-hart", .scalar "u54_1", .mappingEnd] :=
    ⟨_, .cons rfl (.cons ⟨_, _, by decide, rfl⟩ .nil), rfl⟩
  have bSpelled : Part.Spells (Payload.Spells .whole) b
      [.scalar "b", .mappingStart, .scalar "owner-hart", .scalar "u54_2", .mappingEnd] :=
    ⟨_, .cons rfl (.cons ⟨_, _, by decide, rfl⟩ .nil), rfl⟩
  have opened : ∀ {α : Type} {spells : α → List Kind → Prop},
      Part.Spells spells .opening [.mappingStart] :=
    rfl
  have entered : ∀ {parts kinds}, Spelled (Part.Spells (EntryPoint.Spells .whole)) parts kinds →
      Section.Spells .whole (.entryPoints parts)
        (.scalar "hart-entry-points" :: (kinds ++ [.mappingEnd])) :=
    fun inner => ⟨_, by decide, _, inner, rfl⟩
  have listed : ∀ {parts kinds}, Spelled (Part.Spells (Payload.Spells .whole)) parts kinds →
      Section.Spells .whole (.payloads parts) (.scalar "payloads" :: (kinds ++ [.mappingEnd])) :=
    fun inner => ⟨_, by decide, _, inner, rfl⟩
  have spelled : first.Spells .whole (events.map fun event => event.kind) := by
    have points := entered (.cons opened (.cons oneSpelled (.cons twoSpelled .nil)))
    have payloads := listed (.cons opened (.cons aSpelled (.cons bSpelled .nil)))
    have sections := Spelled.cons named (.cons points (.cons payloads .nil))
    exact ⟨_, .cons ⟨_, .cons ⟨_, sections, rfl⟩ .nil, rfl⟩ .nil, rfl⟩
  have spelledAgain : second.Spells .whole (other.map fun event => event.kind) := by
    have front := Spelled.cons (listed (.cons opened (.cons aSpelled .nil)))
      (.cons (entered (.cons opened (.cons twoSpelled .nil))) .nil)
    have back := Spelled.cons (entered (.cons opened (.cons oneSpelled .nil)))
      (.cons (listed (.cons opened (.cons bSpelled .nil))) (.cons named .nil))
    exact ⟨_, .cons ⟨_, .cons ⟨_, front, rfl⟩ .nil, rfl⟩
      (.cons ⟨_, .cons ⟨_, back, rfl⟩ .nil, rfl⟩ .nil), rfl⟩
  have rearranged : Rearranged first.items second.items := ⟨rfl, rfl, .swap _ _ _⟩
  have accepted :
      (readEvents sink.recorded .whole events).Succeeds ([], ()) image (requests, ()) :=
    ⟨by decide +kernel, by decide +kernel⟩
  have same :=
    accepted_iff_of_rearranged sink .whole events other first second spelled spelledAgain
      rearranged ()
  exact ⟨spelled, spelledAgain, rearranged, accepted, (same.2 image requests ()).mp accepted⟩

end HartBoot.Config
