import HartBoot.Proofs.Config.Grammar
import HartBoot.Proofs.Config.Payload
import Mathlib.Data.List.Induction

/-!
Contract: a payload block as a function of what its attributes say.

Owns:
- `Config.lastGiven`, the value that counts when an attribute is given more than once;
- `Block.describedBy`, the block that some attributes describe, field by field;
- `Item.described`, the blocks of a configuration in the order in which they are closed;
- `of_eq_describedBy`, which says that reading the attributes one after the other gives just this
  block.

Does not own: what a block does to an image (see `HartBoot.Proofs.Config.SetName` and
`HartBoot.Proofs.Config.Settings`).
-/

namespace HartBoot.Config

variable {β : Type}

/-- The value that counts: the last one of those that some attributes give. -/
def lastGiven (value? : Attribute → Option β) (attributes : List Attribute) : Option β :=
  (attributes.filterMap value?).getLast?

namespace Attribute

@[simp] def address? : Attribute → Option UInt64
  | .execAddr address => some address
  | _ => none

@[simp] def owner? : Attribute → Option Hart
  | .ownerHart hart => some hart
  | _ => none

@[simp] def title? : Attribute → Option String
  | .payloadName title => some title
  | _ => none

@[simp] def mode? : Attribute → Option Privilege
  | .privMode mode => some mode
  | _ => none

@[simp] def skipOpenSbi? : Attribute → Option Bool
  | .skipOpenSbi choice => some choice
  | _ => none

@[simp] def skipAutoboot? : Attribute → Option Bool
  | .skipAutoboot choice => some choice
  | _ => none

@[simp] def reboot? : Attribute → Option Reboot
  | .allowReboot reboot => some reboot
  | _ => none

@[simp] def ancillary? : Attribute → Option Path
  | .ancillaryData path => some path
  | _ => none

end Attribute

/-- The block that some attributes describe. Of an attribute that is given more than once the last
value counts; secondary harts are collected, and what has been granted stays granted. -/
def Block.describedBy (path : Path) (attributes : List Attribute) : Block where
  path := path
  title := lastGiven Attribute.title? attributes
  address := (lastGiven Attribute.address? attributes).getD 0
  owner := lastGiven Attribute.owner? attributes
  secondaries := attributes.filterMap Attribute.secondary?
  privilege := (lastGiven Attribute.mode? attributes).getD .machine
  entitlements :=
    { ancillaryData := attributes.any fun given => given.ancillary?.isSome
      skipOpenSbi := (lastGiven Attribute.skipOpenSbi? attributes).getD false
      skipAutoboot := (lastGiven Attribute.skipAutoboot? attributes).getD false
      allowWarmReboot := attributes.any fun given => given.reboot?.isSome
      allowColdReboot := attributes.any fun given => given.reboot? = some .cold }
  ancillary := lastGiven Attribute.ancillary? attributes

/-- The payload blocks of an item, as its attributes describe them. -/
def Item.described : Item → List Block
  | .payload path attributes => [Block.describedBy path attributes]
  | _ => []

theorem lastGiven_append_singleton
    (value? : Attribute → Option β)
    (attributes : List Attribute)
    (given : Attribute) :
    lastGiven value? (attributes ++ [given]) = (value? given).or (lastGiven value? attributes) := by
  unfold lastGiven
  cases found : value? given with
  | none => simp [found]
  | some value => simp [found]

theorem Block.of_append_singleton
    (path : Path)
    (attributes : List Attribute)
    (given : Attribute) :
    Block.of path (attributes ++ [given]) = (Block.of path attributes).take given := by
  rw [Block.of, Block.fill, List.foldl_append]
  rfl

theorem Block.describedBy_append_singleton
    (path : Path)
    (attributes : List Attribute)
    (given : Attribute) :
    Block.describedBy path (attributes ++ [given]) =
      (Block.describedBy path attributes).take given := by
  cases given with
  | allowReboot reboot =>
    -- A cold reboot is the only value that grants two things at once.
    cases reboot with
    | warm =>
      simp [describedBy, take, lastGiven_append_singleton, Attribute.secondary?,
        Entitlements.allow]
    | cold =>
      simp [describedBy, take, lastGiven_append_singleton, Attribute.secondary?,
        Entitlements.allow]
  | _ => simp [describedBy, take, lastGiven_append_singleton, Attribute.secondary?]

/-- Reading attributes one after the other gives the block that they describe. -/
theorem Block.of_eq_describedBy (path : Path) (attributes : List Attribute) :
    Block.of path attributes = Block.describedBy path attributes := by
  induction attributes using List.reverseRecOn with
  | nil => rfl
  | append_singleton attributes given inductionHypothesis =>
    rw [Block.of_append_singleton, inductionHypothesis, Block.describedBy_append_singleton]

end HartBoot.Config
