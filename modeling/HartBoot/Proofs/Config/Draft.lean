import HartBoot.Config.Draft
import HartBoot.Proofs.History
import HartBoot.Proofs.PayloadSink

/-!
Contract: what the parts of a configuration do to a draft.

Owns:
- the changes of a draft as functions: `Draft.named`, `Draft.withEntry`, `Draft.assignAll`,
  `Draft.composeName` and `Draft.closeWith`;
- one equivalence for each effect of `HartBoot.Config.Draft`, which says when it succeeds and which
  change it makes.

Does not own: the order of the effects (see `HartBoot.Proofs.Config.Move`).
-/

namespace HartBoot.Config

variable {σ : Type}

/-- A privilege mode that is given to a hart, as the owner of a block or as one of the harts that
share it. -/
structure Assignment where
  hart : Hart
  mode : Privilege
  shared : Bool
  deriving DecidableEq, Repr

/-- The assignments that a privilege mode in a block makes: the owner comes first. -/
def Block.assignments (block : Block) (mode : Privilege) : List Assignment :=
  match block.owner with
  | none => []
  | some owner => ⟨owner, mode, false⟩ :: block.secondaries.map fun hart => ⟨hart, mode, true⟩

namespace Draft

/-! ## Changes -/

/-- The draft after the set name has been given. -/
def named (draft : Draft σ) (text : String) : Draft σ :=
  { draft with
    nameFixed := true
    image := { draft.image with setName := (Name.empty.push text).name } }

/-- The draft after the entry point of a hart has been given. -/
def withEntry (draft : Draft σ) (hart : Hart) (address : UInt64) : Draft σ :=
  { draft with
    image := draft.image.configure hart fun settings => { settings with entry := some address } }

/-- The draft after one assignment. -/
def assign (draft : Draft σ) (assignment : Assignment) : Draft σ :=
  { draft with image := draft.image.setPrivilege assignment.hart assignment.mode }

/-- The draft after some assignments, in their order. -/
def assignAll (draft : Draft σ) (assignments : List Assignment) : Draft σ :=
  assignments.foldl assign draft

theorem assignAll_append (draft : Draft σ) (first second : List Assignment) :
    draft.assignAll (first ++ second) = (draft.assignAll first).assignAll second :=
  List.foldl_append

/-- What one assignment leaves alone, all of them leave alone. -/
theorem view_assignAll
    {α : Type}
    (view : Draft σ → α)
    (kept : ∀ draft assignment, view (draft.assign assignment) = view draft)
    (draft : Draft σ)
    (assignments : List Assignment) :
    view (draft.assignAll assignments) = view draft := by
  induction assignments generalizing draft with
  | nil => rfl
  | cons assignment rest inductionHypothesis =>
    exact (inductionHypothesis (draft.assign assignment)).trans (kept draft assignment)

section

variable (draft : Draft σ) (assignments : List Assignment)

@[simp] theorem store_assignAll : (draft.assignAll assignments).store = draft.store :=
  view_assignAll store (fun _ _ => rfl) draft assignments

@[simp] theorem closed_assignAll : (draft.assignAll assignments).closed = draft.closed :=
  view_assignAll closed (fun _ _ => rfl) draft assignments

@[simp] theorem nameFixed_assignAll :
    (draft.assignAll assignments).nameFixed = draft.nameFixed :=
  view_assignAll nameFixed (fun _ _ => rfl) draft assignments

@[simp] theorem setName_assignAll :
    (draft.assignAll assignments).image.setName = draft.image.setName :=
  view_assignAll (fun draft => draft.image.setName) (fun _ _ => rfl) draft assignments

end

/-- A hart that shares a block has no mode before its turn. -/
def Admits (draft : Draft σ) (front : List Assignment) (assignment : Assignment) : Prop :=
  assignment.shared →
    ((draft.assignAll front).image.settings assignment.hart).privilege = .unset

/-- The set name after a payload has been closed. -/
def nameAfter (draft : Draft σ) (block : Block) : Name :=
  if draft.nameFixed then draft.image.setName
  else
    let joint :=
      if 0 < draft.closed then (draft.image.setName.push "+").name else draft.image.setName
    (joint.push block.displayName).name

/-- The draft after a block has added to the set name. -/
def composeName (draft : Draft σ) (block : Block) : Draft σ :=
  { draft with
    nameFixed := draft.nameFixed || block.title.isSome
    image := { draft.image with setName := draft.nameAfter block } }

/-- The image after a block has named its owner and given its flags to its harts. -/
def describe (image : Image) (block : Block) (owner : Hart) : Image :=
  (image.configure owner fun settings =>
      { settings with
        name := ((image.settings owner).name.join block.displayName).name }).assignFlags
    block.entitlements.flags (owner :: block.secondaries)

/-- The draft after a block of an owner has been closed, and the receiver has reached a state. -/
def closeWith (draft : Draft σ) (block : Block) (owner : Hart) (store : σ) : Draft σ :=
  { draft.composeName block with
    image := describe (draft.composeName block).image block owner
    closed := draft.closed + 1
    store := store }

/-! ## Settings -/

/-- The mode of a hart that starts with some mode and receives some assignments. -/
def modeFrom (start : Privilege) (history : List Assignment) (hart : Hart) : Privilege :=
  history.foldl
    (fun mode assignment => if assignment.hart = hart then assignment.mode else mode) start

theorem modeFrom_append (start : Privilege) (first second : List Assignment) (hart : Hart) :
    modeFrom start (first ++ second) hart = modeFrom (modeFrom start first hart) second hart :=
  List.foldl_append

section Settings

variable (draft : Draft σ) (hart : Hart)

theorem settings_named (text : String) :
    (draft.named text).image.settings hart = draft.image.settings hart :=
  rfl

theorem settings_withEntry (other : Hart) (address : UInt64) :
    (draft.withEntry other address).image.settings hart =
      if hart = other then { draft.image.settings hart with entry := some address }
      else draft.image.settings hart := by
  by_cases same : hart = other
  · rw [if_pos same, same]
    exact Image.settings_configure_self _ _ _
  · rw [if_neg same]
    exact Image.settings_configure_of_ne _ _ same

theorem settings_assign (assignment : Assignment) :
    (draft.assign assignment).image.settings hart =
      if assignment.hart = hart then
        { draft.image.settings hart with privilege := assignment.mode }
      else draft.image.settings hart := by
  by_cases same : assignment.hart = hart
  · rw [if_pos same, ← same]
    exact Image.settings_configure_self _ _ _
  · rw [if_neg same]
    exact Image.settings_configure_of_ne _ _ (Ne.symm same)

/-- Assignments change nothing but the mode of a hart, to the last one that it receives. -/
theorem settings_assignAll (assignments : List Assignment) :
    (draft.assignAll assignments).image.settings hart =
      { draft.image.settings hart with
        privilege := modeFrom (draft.image.settings hart).privilege assignments hart } := by
  induction assignments generalizing draft with
  | nil => rfl
  | cons assignment rest inductionHypothesis =>
    have later := inductionHypothesis (draft.assign assignment)
    rw [settings_assign] at later
    refine later.trans ?_
    by_cases same : assignment.hart = hart
    · simp [modeFrom, same]
    · simp [modeFrom, same]

theorem settings_assignFlags (image : Image) (flags : BootFlags) (harts : List Hart) :
    (image.assignFlags flags harts).settings hart =
      if hart ∈ harts then { image.settings hart with flags := flags }
      else image.settings hart := by
  induction harts generalizing image with
  | nil => rfl
  | cons first rest inductionHypothesis =>
    have later := inductionHypothesis
      (image.configure first fun settings => { settings with flags := flags })
    refine later.trans ?_
    by_cases same : hart = first
    · simp [same]
    · simp [same]

/-- Closing a block changes the name of its owner, and the flags of its owner and of the harts
that share it. -/
theorem settings_closeWith (block : Block) (owner : Hart) (store : σ) :
    (draft.closeWith block owner store).image.settings hart =
      { draft.image.settings hart with
        name :=
          if hart = owner then ((draft.image.settings hart).name.join block.displayName).name
          else (draft.image.settings hart).name
        flags :=
          if hart ∈ owner :: block.secondaries then block.entitlements.flags
          else (draft.image.settings hart).flags } := by
  have kept :
      ∀ other, (draft.composeName block).image.settings other = draft.image.settings other :=
    fun _ => rfl
  change (describe (draft.composeName block).image block owner).settings hart = _
  rw [describe, settings_assignFlags]
  by_cases same : hart = owner
  · simp [same, kept]
  · by_cases shared : hart ∈ block.secondaries
    · simp [same, shared, kept]
    · simp [same, shared, kept]

end Settings

/-! ## Effects -/

variable {before after : Draft σ}

@[simp] theorem succeeds_updateImage {update : Image → Image} {done : Unit} :
    (updateImage update).Succeeds before done after ↔
      { before with image := update before.image } = after :=
  Action.succeeds_change

@[simp] theorem succeeds_takeSetName {append : Name → Name.Appended} {done : Unit} :
    (takeSetName append).Succeeds before done after ↔
      { before with
        image := { before.image with setName := (append before.image.setName).name } } = after := by
  simp [takeSetName]

@[simp] theorem succeeds_takeHartName
    {hart : Hart}
    {append : Name → Name.Appended}
    {done : Unit} :
    (takeHartName hart append).Succeeds before done after ↔
      { before with
        image := before.image.configure hart fun settings =>
          { settings with name := (append (before.image.settings hart).name).name } } = after := by
  simp [takeHartName]

@[simp] theorem succeeds_fixSetName {done : Unit} :
    (fixSetName : Action (Draft σ) Error Unit).Succeeds before done after ↔
      { before with nameFixed := true } = after :=
  Action.succeeds_change

theorem succeeds_giveSetName {text : String} {done : Unit} :
    (giveSetName text).Succeeds before done after ↔ before.named text = after := by
  simp [giveSetName, named]

theorem succeeds_giveEntryPoint {hart : Hart} {address : UInt64} {done : Unit} :
    (giveEntryPoint hart address).Succeeds before done after ↔
      (before.image.settings hart).entry = none ∧ before.withEntry hart address = after := by
  cases given : (before.image.settings hart).entry with
  | none => simp [giveEntryPoint, withEntry, given]
  | some other => simp [giveEntryPoint, given]

@[simp] theorem succeeds_setPrivilege {hart : Hart} {mode : Privilege} {done : Unit} :
    (setPrivilege hart mode).Succeeds before done after ↔
      { before with image := before.image.setPrivilege hart mode } = after := by
  simp [setPrivilege]

/-- Harts can share a mode when each of them has none at its turn. -/
theorem succeeds_shareMode {mode : Privilege} {harts : List Hart} {done : Unit} :
    (shareMode mode harts).Succeeds before done after ↔
      History.Holds before.Admits (harts.map fun hart => ⟨hart, mode, true⟩) ∧
        before.assignAll (harts.map fun hart => ⟨hart, mode, true⟩) = after := by
  induction harts generalizing before with
  | nil => simp [shareMode, assignAll]
  | cons hart rest inductionHypothesis =>
    rw [List.map_cons, History.holds_cons]
    by_cases free : (before.image.settings hart).privilege = .unset
    · have admitted : before.Admits [] ⟨hart, mode, true⟩ := fun _ => free
      have unfolded :
          (shareMode mode (hart :: rest)).Succeeds before done after ↔
            (shareMode mode rest).Succeeds (before.assign ⟨hart, mode, true⟩) done after := by
        simp [shareMode, free, assign]
      rw [unfolded, inductionHypothesis, and_iff_right admitted]
      exact Iff.rfl
    · have refused : ¬ before.Admits [] ⟨hart, mode, true⟩ := fun admits => free (admits rfl)
      simp [shareMode, free, refused]

/-- The owner of a block takes a mode in any case. -/
theorem succeeds_givePrivilege {block filled : Block} {mode : Privilege} :
    (givePrivilege block mode).Succeeds before filled after ↔
      block.owner.isSome ∧ History.Holds before.Admits (block.assignments mode) ∧
        { block with privilege := mode } = filled ∧
        before.assignAll (block.assignments mode) = after := by
  rcases block with ⟨path, title, address, known, secondaries, privilege, entitlements, ancillary⟩
  cases known with
  | none => simp [givePrivilege]
  | some owner =>
    let rest := secondaries.map fun hart => (⟨hart, mode, true⟩ : Assignment)
    have admitted : before.Admits [] ⟨owner, mode, false⟩ := by
      intro impossible
      cases impossible
    have unfolded :
        (givePrivilege
            ⟨path, title, address, some owner, secondaries, privilege, entitlements, ancillary⟩
            mode).Succeeds before filled after ↔
          (History.Holds (before.assign ⟨owner, mode, false⟩).Admits rest ∧
              (before.assign ⟨owner, mode, false⟩).assignAll rest = after) ∧
            ⟨path, title, address, some owner, secondaries, mode, entitlements, ancillary⟩ =
              filled := by
      simp [givePrivilege, succeeds_shareMode, assign, rest]
    rw [unfolded, Block.assignments, History.holds_cons, and_iff_right admitted,
      Option.isSome_some, and_iff_right rfl, and_assoc, and_comm (a := _ = after)]
    exact Iff.rfl

theorem succeeds_nameSetAfter {block : Block} {done : Unit} :
    (nameSetAfter block).Succeeds before done after ↔ before.composeName block = after := by
  rcases before with ⟨image, nameFixed, closed, store⟩
  unfold nameSetAfter composeName nameAfter
  cases nameFixed with
  | true =>
    cases block.title.isSome with
    | true => simp
    | false => simp
  | false =>
    by_cases behind : 0 < closed
    · cases block.title.isSome with
      | true => simp [behind]
      | false => simp [behind]
    · cases block.title.isSome with
      | true => simp [behind]
      | false => simp [behind]

@[simp] theorem succeeds_submit
    {sink : PayloadSink σ}
    {block : Block}
    {owner : Hart}
    {done : Unit} :
    (submit sink block owner).Succeeds before done after ↔
      ∃ store,
        sink.Takes block.path owner block.address block.ancillary before.store store ∧
          { before with store := store } = after := by
  rw [submit, Action.succeeds_within]
  simp only [PayloadSink.succeeds_submit]

/-- A block can be closed when it has an owner and the receiver takes its payload. -/
theorem succeeds_close {sink : PayloadSink σ} {block : Block} {done : Unit} :
    (close sink block).Succeeds before done after ↔
      ∃ owner store,
        block.owner = some owner ∧
          sink.Takes block.path owner block.address block.ancillary before.store store ∧
          before.closeWith block owner store = after := by
  unfold close
  simp only [Action.succeeds_bind, succeeds_nameSetAfter]
  cases block.owner with
  | none => simp
  | some owner =>
    simp [closeWith, describe]
    exact Iff.rfl

end Draft

end HartBoot.Config
