import HartBoot.BootFlags
import HartBoot.Hart

/-!
Contract: the words with a meaning in a configuration.

Owns:
- `Keyword`, its written form and the hart, mode or reboot it stands for;
- `Matching`, the two ways a scalar is compared with the written forms;
- `Keyword.resolve?`, the keyword of a scalar.

Does not own: where a keyword may stand (see `HartBoot.Config.Machine`).
-/

namespace HartBoot

/-- A word with a meaning in a configuration. -/
inductive Keyword where
  | setName
  | hartEntryPoints
  | payloads
  | execAddr
  | ownerHart
  | secondaryHart
  | payloadName
  | privMode
  | skipOpenSbi
  | skipAutoboot
  | allowReboot
  | ancillaryData
  | prvM
  | prvS
  | prvU
  | u54_1
  | u54_2
  | u54_3
  | u54_4
  | warm
  | cold
  deriving DecidableEq, Repr

/-- How a scalar is compared with the written forms of the keywords. -/
inductive Matching where
  /-- The scalar is the written form. -/
  | whole
  /-- The scalar starts with the written form. -/
  | leading
  deriving DecidableEq, Repr

namespace Keyword

/-- Every keyword, in the order in which they are tried. -/
def all : List Keyword :=
  [.setName, .hartEntryPoints, .payloads, .execAddr, .ownerHart, .secondaryHart, .payloadName,
    .privMode, .skipOpenSbi, .skipAutoboot, .allowReboot, .ancillaryData, .prvM, .prvS, .prvU,
    .u54_1, .u54_2, .u54_3, .u54_4, .warm, .cold]

def literal : Keyword → String
  | .setName => "set-name"
  | .hartEntryPoints => "hart-entry-points"
  | .payloads => "payloads"
  | .execAddr => "exec-addr"
  | .ownerHart => "owner-hart"
  | .secondaryHart => "secondary-hart"
  | .payloadName => "payload-name"
  | .privMode => "priv-mode"
  | .skipOpenSbi => "skip-opensbi"
  | .skipAutoboot => "skip-autoboot"
  | .allowReboot => "allow-reboot"
  | .ancillaryData => "ancilliary-data"
  | .prvM => "prv_m"
  | .prvS => "prv_s"
  | .prvU => "prv_u"
  | .u54_1 => "u54_1"
  | .u54_2 => "u54_2"
  | .u54_3 => "u54_3"
  | .u54_4 => "u54_4"
  | .warm => "warm"
  | .cold => "cold"

end Keyword

def Matching.accepts (matching : Matching) (literal scalar : String) : Bool :=
  match matching with
  | .whole => scalar.toList == literal.toList
  | .leading => literal.toList.isPrefixOf scalar.toList

namespace Keyword

/-- The first keyword whose written form the scalar counts as. -/
def resolve? (matching : Matching) (scalar : String) : Option Keyword :=
  all.find? fun keyword => matching.accepts keyword.literal scalar

def hart? : Keyword → Option Hart
  | .u54_1 => some .u54_1
  | .u54_2 => some .u54_2
  | .u54_3 => some .u54_3
  | .u54_4 => some .u54_4
  | _ => none

def privilege? : Keyword → Option Privilege
  | .prvM => some .machine
  | .prvS => some .supervisor
  | .prvU => some .user
  | _ => none

def reboot? : Keyword → Option Reboot
  | .warm => some .warm
  | .cold => some .cold
  | _ => none

/-- Every keyword is tried. -/
theorem mem_all (keyword : Keyword) : keyword ∈ all := by
  cases keyword <;> simp [all]

end Keyword

end HartBoot
