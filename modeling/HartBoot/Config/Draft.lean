import HartBoot.Config.Block
import HartBoot.Config.Error
import HartBoot.Image
import HartBoot.PayloadSink
import HartBoot.Text.Hex

/-!
Contract: the image that a configuration has described so far.

Owns:
- `Config.Draft`, the image, what has been decided about its name, the number of closed blocks,
  and the state of the receiver of the payloads;
- the effects that the parts of a configuration have on it: the set name, an entry point, a
  privilege mode, and the closing of a block.

Does not own: the order in which the parts may come (see `HartBoot.Config.Machine`).
-/

namespace HartBoot.Config

variable {σ : Type}

/-- The image that a configuration has described so far. -/
structure Draft (σ : Type) where
  image : Image
  /-- Whether the set name has been given, so that payloads no longer add to it. -/
  nameFixed : Bool
  /-- The number of payload blocks that have been closed. -/
  closed : Nat
  /-- The state of the receiver of the payloads. -/
  store : σ

namespace Draft

/-- The draft of a configuration that has said nothing. -/
def initial (store : σ) : Draft σ :=
  ⟨Image.initial, false, 0, store⟩

def updateImage (update : Image → Image) : Action (Draft σ) Error Unit :=
  Action.change fun draft => { draft with image := update draft.image }

/-- Take the result of appending to the set name. -/
def takeSetName (append : Name → Name.Appended) : Action (Draft σ) Error Unit := do
  let draft ← Action.look
  let appended := append draft.image.setName
  updateImage fun image => { image with setName := appended.name }
  Action.say appended.notes

/-- Take the result of appending to the name of a hart. -/
def takeHartName (hart : Hart) (append : Name → Name.Appended) : Action (Draft σ) Error Unit := do
  let draft ← Action.look
  let appended := append (draft.image.settings hart).name
  updateImage fun image =>
    image.configure hart fun settings => { settings with name := appended.name }
  Action.say appended.notes

/-- From now on no payload adds to the set name. -/
def fixSetName : Action (Draft σ) Error Unit :=
  Action.change fun draft => { draft with nameFixed := true }

def giveSetName (text : String) : Action (Draft σ) Error Unit := do
  fixSetName
  takeSetName fun _ => Name.empty.push text
  let draft ← Action.look
  Action.say [.debug ("Set-name is >>" ++ draft.image.setName.text ++ "<<")]

/-- The entry point of a hart is given; it can be given once. -/
def giveEntryPoint (hart : Hart) (address : UInt64) : Action (Draft σ) Error Unit := do
  let draft ← Action.look
  match (draft.image.settings hart).entry with
  | some _ => Action.fail (.duplicateEntryPoint hart)
  | none =>
    updateImage fun image =>
      image.configure hart fun settings => { settings with entry := some address }
    Action.say [.debug (hart.label ++ " entry point is " ++ Text.hex address.toNat)]

def setPrivilege (hart : Hart) (mode : Privilege) : Action (Draft σ) Error Unit := do
  Action.say [.trace ("\tSetting priv mode for " ++ hart.label ++ " to " ++ mode.label)]
  updateImage fun image => image.setPrivilege hart mode

/-- Secondary harts start in a privilege mode, one after the other, as long as none of them has
one already. -/
def shareMode (mode : Privilege) : List Hart → Action (Draft σ) Error Unit
  | [] => pure ()
  | hart :: rest => do
    let draft ← Action.look
    let current := (draft.image.settings hart).privilege
    if current = .unset then
      setPrivilege hart mode
      shareMode mode rest
    else
      Action.fail (.privModeConflict hart mode current)

/-- The privilege mode of a block is given. The owner takes it in any case, each secondary hart
only if it has none. -/
def givePrivilege (block : Block) (mode : Privilege) : Action (Draft σ) Error Block :=
  match block.owner with
  | none => Action.fail (.privModeWithoutOwner block.path)
  | some owner => do
    Action.say [.debug ("\tpriv_mode is " ++ mode.label)]
    setPrivilege owner mode
    shareMode mode block.secondaries
    pure { block with privilege := mode }

/-- A block adds to the set name unless the name has been given before; a title gives it. -/
def nameSetAfter (block : Block) : Action (Draft σ) Error Unit := do
  let draft ← Action.look
  if draft.nameFixed then
    pure ()
  else
    if 0 < draft.closed then
      takeSetName fun name => name.push "+"
    takeSetName fun name => name.push block.displayName
  if block.title.isSome then
    fixSetName

def submit (sink : PayloadSink σ) (block : Block) (owner : Hart) : Action (Draft σ) Error Unit :=
  Action.within Draft.store (fun store draft => { draft with store := store }) Error.payload
    (sink.submit block.path owner block.address block.ancillary
      [.debug (block.path ++ " is not an ELF file, embedding as a blob")])

/-- A block is closed: it adds to the set name and to the name of its owner, its payload is
handed over, its harts receive its flags, and it is counted. -/
def close (sink : PayloadSink σ) (block : Block) : Action (Draft σ) Error Unit := do
  nameSetAfter block
  match block.owner with
  | none => Action.fail (.missingOwner block.path)
  | some owner =>
    takeHartName owner fun name => name.join block.displayName
    submit sink block owner
    updateImage fun image =>
      image.assignFlags block.entitlements.flags (owner :: block.secondaries)
    Action.change fun draft => { draft with closed := draft.closed + 1 }
    let draft ← Action.look
    Action.say
      [.debug ("Closed payload " ++ toString draft.closed ++ " >>" ++ block.displayName ++ "<<")]

end Draft

end HartBoot.Config
