import HartBoot.Text.Hex

/-!
Contract: why a file that claims to be an ELF object cannot be used.

Owns:
- `Elf.Fault` and its wording.

Does not own: the checks that lead to a fault (see `HartBoot.Elf.Object`).
-/

namespace HartBoot.Elf

/-- Why a file that claims to be an ELF object cannot be used. -/
inductive Fault where
  /-- The bytes from `start` up to `stop` are not all there. -/
  | outOfRange (start stop : Nat)
  /-- An offset or a size does not fit 64 bits. -/
  | overflow
  | version (found : UInt8)
  | wordSize (found : UInt8)
  | byteOrder (found : UInt8)
  /-- The entries of a table do not have the size that their kind has. -/
  | entrySize (expected found : Nat)
  /-- A table has no entry with this index. -/
  | noEntry (index : Nat)
  | noProgramHeaders
  | noSectionHeaders
  | compressedSection (name : String)
  deriving DecidableEq, Repr

def Fault.message : Fault → String
  | .outOfRange start stop =>
    "Could not read bytes in range [" ++ Text.hexUpper start ++ ", " ++ Text.hexUpper stop ++ ")"
  | .overflow => "Integer overflow detected"
  | .version found =>
    "Unsupported ELF Version field found: " ++ toString found.toNat ++ " expected: 1"
  | .wordSize found => "Unsupported ELF Class: " ++ toString found.toNat
  | .byteOrder found => "Unsupported ELF Endianness: " ++ toString found.toNat
  | .entrySize expected found =>
    "Invalid entsize. Expected: " ++ Text.hexUpper expected ++ ", Found: " ++ Text.hexUpper found
  | .noEntry index => "Bad offset: " ++ Text.hexUpper index
  | .noProgramHeaders => "ELF file has no program headers"
  | .noSectionHeaders => "ELF file has no section headers"
  | .compressedSection name => "section " ++ name ++ " is compressed"

end HartBoot.Elf
