import HartBoot.BootFlags
import HartBoot.Files
import HartBoot.Hart
import HartBoot.Keyword

/-!
Contract: one payload block of a configuration while it is being read.

Owns:
- `Config.Field`, the attributes that a block can give, and their keywords;
- `Config.Block`, what a block has said so far.

A block has an effect only when it is closed; until then it is kept here.

Does not own: that effect (see `HartBoot.Config.Draft`).
-/

namespace HartBoot.Config

/-- An attribute that a payload block can give. -/
inductive Field where
  | execAddr
  | ownerHart
  | secondaryHart
  | payloadName
  | privMode
  | skipOpenSbi
  | skipAutoboot
  | allowReboot
  | ancillaryData
  deriving DecidableEq, Repr

namespace Field

def ofKeyword? : Keyword → Option Field
  | .execAddr => some .execAddr
  | .ownerHart => some .ownerHart
  | .secondaryHart => some .secondaryHart
  | .payloadName => some .payloadName
  | .privMode => some .privMode
  | .skipOpenSbi => some .skipOpenSbi
  | .skipAutoboot => some .skipAutoboot
  | .allowReboot => some .allowReboot
  | .ancillaryData => some .ancillaryData
  | _ => none

def keyword : Field → Keyword
  | .execAddr => .execAddr
  | .ownerHart => .ownerHart
  | .secondaryHart => .secondaryHart
  | .payloadName => .payloadName
  | .privMode => .privMode
  | .skipOpenSbi => .skipOpenSbi
  | .skipAutoboot => .skipAutoboot
  | .allowReboot => .allowReboot
  | .ancillaryData => .ancillaryData

@[simp] theorem ofKeyword?_keyword (field : Field) : ofKeyword? field.keyword = some field := by
  cases field <;> rfl

end Field

/-- The most harts that can share a payload with its owner. -/
def maxSecondaries : Nat := 3

/-- What a payload block has said so far. -/
structure Block where
  path : Path
  /-- The name that the block gives to the payload. -/
  title : Option String := none
  address : UInt64 := 0
  owner : Option Hart := none
  secondaries : List Hart := []
  privilege : Privilege := .machine
  entitlements : Entitlements := {}
  ancillary : Option Path := none
  deriving DecidableEq, Repr

/-- The name under which the payload is shown: the one that was given, else its path. -/
def Block.displayName (block : Block) : String :=
  block.title.getD block.path

end HartBoot.Config
