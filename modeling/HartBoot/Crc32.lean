import HartBoot.Bytes

/-!
Contract: the CRC-32 checksum (reflected polynomial `0xEDB88320`, initial and final value all
ones) of a byte string.

Owns:
- the bit step, the byte step and the checksum as a fold of the byte step.

Does not own: which bytes are summed.
-/

namespace HartBoot.Crc32

/-- The register after one more bit has been shifted out. -/
def shiftBit (register : UInt32) : UInt32 :=
  if register &&& 1 = 1 then (register >>> 1) ^^^ 0xEDB88320 else register >>> 1

/-- The register after `count` bits have been shifted out. -/
def shiftBits : Nat → UInt32 → UInt32
  | 0, register => register
  | count + 1, register => shiftBits count (shiftBit register)

def addByte (register : UInt32) (byte : UInt8) : UInt32 :=
  shiftBits 8 (register ^^^ byte.toUInt32)

def checksum (bytes : Bytes) : UInt32 :=
  bytes.foldl addByte 0xFFFFFFFF ^^^ 0xFFFFFFFF

/-- The check value of the standard, the checksum of the nine digits `123456789`. -/
example : checksum [0x31, 0x32, 0x33, 0x34, 0x35, 0x36, 0x37, 0x38, 0x39] = 0xCBF43926 := by
  decide +kernel

end HartBoot.Crc32
