import HartBoot.Elf.Fault
import HartBoot.Files

/-!
Contract: why a payload file cannot become part of an image.

Owns:
- `PayloadFault` and its wording.

All of these are errors that are handed back, except `overflow`: there the work is broken off, and
the whole program with it.

Does not own: reading the file (see `HartBoot.Blob` and `HartBoot.Elf.Extraction`).
-/

namespace HartBoot

/-- Why a payload file cannot become part of an image. -/
inductive PayloadFault where
  | unreadable (path : Path) (cause : FileFault)
  | empty (path : Path)
  | elf (path : Path) (cause : Elf.Fault)
  | foreignMachine (path : Path) (machine : UInt16)
  | notExecutable (path : Path) (kind : UInt16)
  /-- An address would have been a sum that is no word of eight bytes. -/
  | overflow
  deriving DecidableEq, Repr

def PayloadFault.message : PayloadFault → String
  | .unreadable path cause => "Cannot read payload '" ++ path ++ "': " ++ cause.message
  | .empty path => "Payload '" ++ path ++ "' is empty"
  | .elf path cause => "Failed to parse ELF file '" ++ path ++ "': " ++ cause.message
  | .foreignMachine path machine =>
    "Machine type check failed for '" ++ path ++ "': machine type is " ++
      toString machine.toNat ++ ". Only RISC-V payloads are supported."
  | .notExecutable path kind =>
    "ELF type check failed for '" ++ path ++ "': ELF type is " ++ toString kind.toNat ++
      ". Only executable payloads are supported."
  | .overflow => "attempt to add with overflow"

end HartBoot
