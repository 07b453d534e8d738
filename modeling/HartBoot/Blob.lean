import HartBoot.Files
import HartBoot.LoadPlan
import HartBoot.PayloadFault

/-!
Contract: payload files that are loaded as they are.

Owns:
- `Blob.embed`, a file as one chunk, and its ancillary file as a second one;
- `Blob.addressAfter?`, where the ancillary data goes: the first multiple of eight behind the file.

An empty file is refused, because a chunk without data would end the table of chunks. If there is no
multiple of eight behind the file that is an address, the work is broken off when the file itself
has been added.

Does not own: executables (see `HartBoot.Elf.Extraction`).
-/

namespace HartBoot.Blob

def lastAddress : Nat := UInt64.size - 1

def alignment : Nat := 8

/-- The first aligned address behind `size` bytes at an address; nothing if that one is no address
any more. An end beyond the last address counts as the last one before it is aligned. -/
def addressAfter? (address : UInt64) (size : Nat) : Option UInt64 :=
  let target := roundUp (min (address.toNat + size) lastAddress) alignment
  if target ≤ lastAddress then some (UInt64.ofNat target) else none

/-- The contents of a payload file, which may not be empty. -/
def contents (files : Files) (path : Path) : Except PayloadFault Bytes :=
  match files.read path with
  | .error cause => .error (.unreadable path cause)
  | .ok [] => .error (.empty path)
  | .ok data => .ok data

def addFile (files : Files) (path : Path) (owner : Hart) (address : UInt64) :
    Action LoadPlan PayloadFault Nat := do
  let data ← Action.ofExcept (contents files path)
  LoadPlan.addChunk ⟨owner, address, data⟩
  pure data.length

/-- Add a file at an address, and the ancillary file, if there is one, behind it. -/
def embed
    (files : Files)
    (path : Path)
    (address : UInt64)
    (owner : Hart)
    (ancillary : Option Path) :
    Action LoadPlan PayloadFault Unit := do
  Action.say [.debug ("Processing blob >>" ++ path ++ "<<")]
  let size ← addFile files path owner address
  match ancillary with
  | none => pure ()
  | some companion => do
    let target ← Action.ofOption .overflow (addressAfter? address size)
    Action.say
      [.debug
        ("Processing ancillary data >>" ++ companion ++ "<< at " ++ Text.hex target.toNat)]
    let _ ← addFile files companion owner target
    pure ()

end HartBoot.Blob
