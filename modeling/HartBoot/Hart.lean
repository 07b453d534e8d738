/-!
Contract: the four application harts and what is told of each of them.

Owns:
- `Hart`, its position and its identifier in an image file;
- `PerHart`, one value for each hart;
- `Privilege`, the privilege mode a hart starts in, and its byte in an image file.

Does not own: what a hart runs (see `HartBoot.Image`).
-/

namespace HartBoot

/-- One of the four application harts. -/
inductive Hart where
  | u54_1
  | u54_2
  | u54_3
  | u54_4
  deriving DecidableEq, Repr

namespace Hart

/-- Every hart, in the order in which an image describes them. -/
def all : List Hart :=
  [.u54_1, .u54_2, .u54_3, .u54_4]

/-- Position in `Hart.all`. -/
def index : Hart → Nat
  | .u54_1 => 0
  | .u54_2 => 1
  | .u54_3 => 2
  | .u54_4 => 3

/-- The identifier in an image file, where zero is the monitor hart. -/
def number (hart : Hart) : UInt32 :=
  UInt32.ofNat (hart.index + 1)

def ofNumber? (number : UInt32) : Option Hart :=
  all.find? fun hart => hart.number == number

def label (hart : Hart) : String :=
  "U54_" ++ toString hart.number.toNat

/-- Every hart is listed. -/
theorem mem_all (hart : Hart) : hart ∈ all := by
  cases hart <;> simp [all]

end Hart

/-- One value for each application hart. -/
structure PerHart (α : Type) where
  u54_1 : α
  u54_2 : α
  u54_3 : α
  u54_4 : α
  deriving DecidableEq, Repr

namespace PerHart

variable {α β : Type}

def get (values : PerHart α) : Hart → α
  | .u54_1 => values.u54_1
  | .u54_2 => values.u54_2
  | .u54_3 => values.u54_3
  | .u54_4 => values.u54_4

def modify (values : PerHart α) (hart : Hart) (update : α → α) : PerHart α :=
  match hart with
  | .u54_1 => { values with u54_1 := update values.u54_1 }
  | .u54_2 => { values with u54_2 := update values.u54_2 }
  | .u54_3 => { values with u54_3 := update values.u54_3 }
  | .u54_4 => { values with u54_4 := update values.u54_4 }

def ofFn (rule : Hart → α) : PerHart α :=
  ⟨rule .u54_1, rule .u54_2, rule .u54_3, rule .u54_4⟩

/-- The values in the order of `Hart.all`. -/
def toList (values : PerHart α) : List α :=
  Hart.all.map values.get

@[simp] theorem get_modify_self (values : PerHart α) (hart : Hart) (update : α → α) :
    (values.modify hart update).get hart = update (values.get hart) := by
  cases hart <;> rfl

@[simp] theorem get_modify_of_ne
    (values : PerHart α)
    {hart other : Hart}
    (update : α → α)
    (different : other ≠ hart) :
    (values.modify hart update).get other = values.get other := by
  cases hart <;> cases other <;> first | rfl | contradiction

@[simp] theorem get_ofFn (rule : Hart → α) (hart : Hart) : (ofFn rule).get hart = rule hart := by
  cases hart <;> rfl

/-- Two assignments with the same values are the same. -/
theorem ext_get {left right : PerHart α} (same : ∀ hart, left.get hart = right.get hart) :
    left = right := by
  have first := same .u54_1
  have second := same .u54_2
  have third := same .u54_3
  have fourth := same .u54_4
  cases left
  cases right
  simp_all [get]

end PerHart

/-- The privilege mode in which a hart is started. -/
inductive Privilege where
  | user
  | supervisor
  | machine
  /-- No mode has been chosen yet. -/
  | unset
  deriving DecidableEq, Repr

namespace Privilege

def all : List Privilege :=
  [.user, .supervisor, .machine, .unset]

/-- The byte that stands for the mode in an image file. -/
def code : Privilege → UInt8
  | .user => 0x00
  | .supervisor => 0x01
  | .machine => 0x03
  | .unset => 0xFF

def ofCode? (code : UInt8) : Option Privilege :=
  all.find? fun mode => mode.code == code

/-- The mode in messages: its name and its byte. -/
def label : Privilege → String
  | .user => "PRV_U (0x0)"
  | .supervisor => "PRV_S (0x1)"
  | .machine => "PRV_M (0x3)"
  | .unset => "unset (0xff)"

/-- The byte tells the modes apart. -/
theorem ofCode?_code (mode : Privilege) : ofCode? mode.code = some mode := by
  cases mode <;> decide

end Privilege

end HartBoot
