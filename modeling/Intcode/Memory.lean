import Intcode.Program

/-!
# Memory

Model of `Memory` and its implementation of `Bus`. A `Memory` is a fixed number of cells. An address
is a word and may be negative or too large; `index?` then gives `none`, and so do `load?` and
`store?`. No operation changes the number of cells.

* `size_set`, `size_write`: overwriting a cell keeps the size.
-/

namespace Intcode

/-- The cells a machine works on. -/
structure Memory where
  cells : Array Word
deriving DecidableEq

namespace Memory

/-- A fresh copy of a program (`Memory::from_program`). -/
def ofProgram (program : Program) : Memory := ⟨program.words.toArray⟩

/-- The number of cells (`Bus::len`). -/
def size (memory : Memory) : Nat := memory.cells.size

/-- The cell at an index. -/
def get? (memory : Memory) (index : Nat) : Option Word := memory.cells[index]?

/-- The memory with the cell at an index overwritten, if there is one. -/
def set (memory : Memory) (index : Nat) (value : Word) : Memory :=
  ⟨memory.cells.setIfInBounds index value⟩

/-- The memory with at most one cell overwritten. -/
def write (memory : Memory) : Option (Nat × Word) → Memory
  | none => memory
  | some (index, value) => memory.set index value

/-- The index of the cell that a word addresses (`Memory::index`). -/
def index? (memory : Memory) (address : Word) : Option Nat :=
  address.toAddress?.filter fun index => index < memory.size

/-- The cell that a word addresses (`Bus::load`). -/
def load? (memory : Memory) (address : Word) : Option Word :=
  (memory.index? address).bind memory.get?

/-- The memory with the cell that a word addresses overwritten (`Bus::store`). -/
def store? (memory : Memory) (address value : Word) : Option Memory :=
  (memory.index? address).map fun index => memory.set index value

/-! ## Lemmas -/

theorem size_set (memory : Memory) (index : Nat) (value : Word) :
    (memory.set index value).size = memory.size := by
  simp [set, size]

theorem size_write (memory : Memory) (change : Option (Nat × Word)) :
    (memory.write change).size = memory.size := by
  cases change with
  | none => rfl
  | some change => exact size_set memory change.1 change.2

end Memory

end Intcode
