import HartBoot.ByteOrder
import HartBoot.Elf.Fault

/-!
Contract: the numbers that the records of an ELF object are made of.

Owns:
- `Format`, the word size and the byte order of an object;
- `region`, a part of a file that has to be there;
- `Reader`, fields read one after another, where the first field that is not there is the fault.

Does not own: which record has which fields (see `HartBoot.Elf.Header` and the modules beside it).
-/

namespace HartBoot.Elf

/-- The two sizes that addresses and offsets can have. -/
inductive WordSize where
  | bits32
  | bits64
  deriving DecidableEq, Repr

/-- The number of bytes of an address or offset. -/
def WordSize.bytes : WordSize → Nat
  | .bits32 => 4
  | .bits64 => 8

/-- How the numbers of an object are written. -/
structure Format where
  wordSize : WordSize
  order : ByteOrder
  deriving DecidableEq, Repr

def offsetLimit : Nat := UInt64.size

/-- The `size` bytes from offset `start` on, which have to be there. -/
def region (bytes : Bytes) (start size : Nat) : Except Fault Bytes :=
  if offsetLimit ≤ start + size then
    .error .overflow
  else
    match bytes.slice? start size with
    | some part => .ok part
    | none => .error (.outOfRange start (start + size))

/-- The fields of a record: their meaning and the offset behind them, given where they start. -/
def Reader (α : Type) : Type :=
  Format → Bytes → Nat → Except Fault (α × Nat)

namespace Reader

variable {α β : Type}

def always (value : α) : Reader α :=
  fun _ _ start => .ok (value, start)

/-- A record whose first fields decide about the others. -/
def andThen (first : Reader α) (next : α → Reader β) : Reader β :=
  fun format bytes start => do
    let (value, behind) ← first format bytes start
    next value format bytes behind

instance : Monad Reader where
  pure := always
  bind := andThen

/-- A number of `width` bytes. -/
def number (width : Nat) : Reader Nat :=
  fun format bytes start => do
    let part ← region bytes start width
    .ok (format.order.value part, start + width)

def half : Reader UInt16 := do
  let value ← number 2
  pure (UInt16.ofNat value)

def word : Reader UInt32 := do
  let value ← number 4
  pure (UInt32.ofNat value)

def format : Reader Format :=
  fun format _ start => .ok (format, start)

/-- An address, an offset or a size: four or eight bytes. -/
def wide : Reader UInt64 := do
  let written ← format
  let value ← number written.wordSize.bytes
  pure (UInt64.ofNat value)

/-- A record whose fields stand in another order in each word size. -/
def bySize (narrow broad : Reader α) : Reader α := do
  let written ← format
  match written.wordSize with
  | .bits32 => narrow
  | .bits64 => broad

def readAt (reader : Reader α) (format : Format) (bytes : Bytes) (start : Nat) : Except Fault α :=
  (reader format bytes start).map Prod.fst

/-- The records of a size that some bytes consist of. -/
def readAll (reader : Reader α) (format : Format) (size : Nat) (bytes : Bytes) : List α :=
  (List.range (bytes.length / size)).filterMap fun index =>
    (reader.readAt format bytes (index * size)).toOption

end Reader

end HartBoot.Elf
