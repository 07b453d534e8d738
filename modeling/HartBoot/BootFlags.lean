/-!
Contract: the boot flags of a hart and the entitlements they are made from.

Owns:
- `BootFlags`, the five flags, their bits and their names;
- `Entitlements`, what one payload grants, and the flags that follow from it;
- `Reboot`, the kinds of reboot a payload may allow.

Allowing a cold reboot always allows a warm one.

Does not own: which harts receive the flags (see `HartBoot.Image`).
-/

namespace HartBoot

/-- The boot flags of one hart. -/
structure BootFlags where
  skipAutoboot : Bool := false
  allowWarmReboot : Bool := false
  allowColdReboot : Bool := false
  skipOpenSbi : Bool := false
  ancillaryData : Bool := false
  deriving DecidableEq, Repr

namespace BootFlags

def empty : BootFlags := {}

/-- Each flag with its bit and its name, from the lowest bit to the highest. -/
def table (flags : BootFlags) : List (Bool × UInt32 × String) :=
  [(flags.skipAutoboot, 0x08, "SKIP_AUTOBOOT"),
    (flags.allowWarmReboot, 0x10, "ALLOW_WARM_REBOOT"),
    (flags.allowColdReboot, 0x20, "ALLOW_COLD_REBOOT"),
    (flags.skipOpenSbi, 0x40, "SKIP_OPENSBI"),
    (flags.ancillaryData, 0x80, "ANCILLARY_DATA")]

def bits (flags : BootFlags) : UInt32 :=
  flags.table.foldl (fun mask (isSet, bit, _) => if isSet then mask ||| bit else mask) 0

/-- The flags in a bit mask; bits without a flag are dropped. -/
def ofBits (mask : UInt32) : BootFlags where
  skipAutoboot := mask &&& 0x08 != 0
  allowWarmReboot := mask &&& 0x10 != 0
  allowColdReboot := mask &&& 0x20 != 0
  skipOpenSbi := mask &&& 0x40 != 0
  ancillaryData := mask &&& 0x80 != 0

/-- The names of the flags that are set, from the lowest bit to the highest. -/
def names (flags : BootFlags) : List String :=
  flags.table.filterMap fun (isSet, _, name) => if isSet then some name else none

/-- A mask made from flags gives the flags back. -/
theorem ofBits_bits (flags : BootFlags) : ofBits flags.bits = flags := by
  obtain ⟨autoboot, warm, cold, openSbi, ancillary⟩ := flags
  cases autoboot <;> cases warm <;> cases cold <;> cases openSbi <;> cases ancillary <;> decide

end BootFlags

/-- A kind of reboot that a payload may allow. -/
inductive Reboot where
  | warm
  | cold
  deriving DecidableEq, Repr

/-- What one payload grants to the harts that run it. -/
structure Entitlements where
  ancillaryData : Bool := false
  skipOpenSbi : Bool := false
  skipAutoboot : Bool := false
  allowWarmReboot : Bool := false
  allowColdReboot : Bool := false
  deriving DecidableEq, Repr

namespace Entitlements

/-- Allow a kind of reboot; a cold one brings the warm one with it. -/
def allow (granted : Entitlements) : Reboot → Entitlements
  | .warm => { granted with allowWarmReboot := true }
  | .cold => { granted with allowWarmReboot := true, allowColdReboot := true }

def flags (granted : Entitlements) : BootFlags where
  skipAutoboot := granted.skipAutoboot
  allowWarmReboot := granted.allowWarmReboot || granted.allowColdReboot
  allowColdReboot := granted.allowColdReboot
  skipOpenSbi := granted.skipOpenSbi
  ancillaryData := granted.ancillaryData

end Entitlements

end HartBoot
