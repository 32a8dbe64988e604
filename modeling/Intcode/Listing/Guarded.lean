import Intcode.Listing

/-!
# Decoding and listing in registers

Model of `decode` and `disassemble` with their addresses in registers of 64 bits. `Memory.decode`
and `Program.listing` model them too, but there an address is a natural number, a cell that is not
there is `none`, and a slice that reaches too far is cut short. A machine with registers has none of
these comforts: the sum of an address and an offset has to fit, a list must have the place that is
asked for, and `Bus::load` takes signed words, so that the upper half of the addresses looks
negative to it.

A `Guarded` computation breaks off where a sum does not fit into a register or an index is out of
range, so nothing of the kind has happened in one that gives an answer.
-/

namespace Intcode

/-- A computation that gives a value or a fault, or breaks off (`none`) because a sum does not fit
into a register or an index is out of range. -/
abbrev Guarded : Type → Type := ExceptT Fault Option

namespace Guarded

/-- A computation that does not break off. -/
def of {α : Type} (x : Except Fault α) : Guarded α := ExceptT.mk (some x)

/-! ## Sums and slices -/

/-- The address `count` words behind another, if a register holds it. -/
def advance? (address : UInt64) (count : Nat) : Option UInt64 :=
  if address.toNat + count < UInt64.size then some (.ofNat (address.toNat + count)) else none

theorem advance?_eq_some_iff {address next : UInt64} {count : Nat} :
    advance? address count = some next ↔ next.toNat = address.toNat + count := by
  unfold advance?
  by_cases h : address.toNat + count < UInt64.size
  · rw [if_pos h, Option.some.injEq, ← UInt64.toNat_inj, UInt64.toNat_ofNat_of_lt' h, eq_comm]
  · have hlt := next.toNat_lt_size
    rw [if_neg h]
    exact ⟨nofun, fun hsum => by omega⟩

/-- The words from `start` up to `stop`, if there are so many. -/
def slice? (words : List Word) (start stop : Nat) : Option (List Word) :=
  if start ≤ stop ∧ stop ≤ words.length then some ((words.drop start).take (stop - start)) else none

/-! ## Decoding in registers -/

/-- The cell that a word addresses, on behalf of the instruction at `ip`. It is looked up at an
index that memory has found to be one of its own. -/
def load (memory : Memory) (ip : Nat) (address : Word) : Guarded Word :=
  match memory.index? address with
  | some index => memory.get? index
  | none => throw (.addressOutOfRange ip address memory.size)

/-- The cell at `address`, on behalf of the instruction at `ip`. Memory is asked with the signed
word that has the same bits. -/
def fetch (memory : Memory) (ip address : UInt64) : Guarded Word :=
  load memory ip.toNat (Word.wrap address.toNat)

/-- The parameter in a slot, counted from zero, of the instruction at `ip`. -/
def fetchSlot (memory : Memory) (ip : UInt64) (slot : Nat) : Guarded Word := do
  let first ← advance? ip 1
  let address ← advance? first slot
  fetch memory ip address

/-- The operand in a slot. -/
def operand (modes : List Mode) (raw : List Word) (slot : Nat) : Option Operand := do
  return ⟨← raw[slot]?, ← modes[slot]?⟩

/-- The instruction of an operation whose parameters have these modes and words. -/
def assemble (modes : List Mode) (raw : List Word) : Opcode → Option Instruction
  | .compute operator => do
    return .compute operator (← operand modes raw 0) (← operand modes raw 1) (← raw[2]?)
  | .input => do return .input (← raw[0]?)
  | .output => do return .output (← operand modes raw 0)
  | .jump ifNonzero => do
    return .jump ifNonzero (← operand modes raw 0) (← operand modes raw 1)
  | .halt => return .halt

/-- The instruction that starts at `ip`: its opcode word, then its modes, then all of its parameters
one after the other, and only then the instruction that they make. -/
def decode (memory : Memory) (ip : UInt64) : Guarded Instruction := do
  let word ← fetch memory ip ip
  let (opcode, modes) ← Opcode.split ip.toNat word
  let raw ← (List.range modes.length).mapM (fetchSlot memory ip)
  assemble modes raw opcode

/-! ## Listing in registers -/

/-- How far a line reaches, by what decoding gives at its start. -/
def reach : Except Fault Instruction → Nat
  | .ok instruction => instruction.length
  | .error _ => 1

theorem reach_pos (result : Except Fault Instruction) : 0 < reach result := by
  cases result with
  | ok instruction => exact instruction.length_pos
  | error fault => exact Nat.one_pos

/-- The lines of a program from an address on. -/
def linesFrom (program : Program) (ip : UInt64) : Option (List Line) :=
  if h : ip.toNat < program.size then do
    let result ← (decode (.ofProgram program) ip).run
    match hnext : advance? ip (reach result) with
    | none => none
    | some next =>
      have : program.size - next.toNat < program.size - ip.toNat := by
        have hsum := advance?_eq_some_iff.mp hnext
        have hpos := reach_pos result
        omega
      let words ← slice? program.words ip.toNat next.toNat
      let rest ← linesFrom program next
      return ⟨ip.toNat, words, result.toOption⟩ :: rest
  else some []
termination_by program.size - ip.toNat

end Guarded

end Intcode
