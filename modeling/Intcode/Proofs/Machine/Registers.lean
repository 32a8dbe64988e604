import Intcode.Listing.Guarded
import Intcode.Proofs.Instruction.Encoding
import Intcode.Proofs.Program.Listing
import Mathlib.Order.Bounds.Defs

/-!
# Addresses in registers of 64 bits

`Guarded.decode` and `Guarded.linesFrom` decode and list with their addresses in registers, and
break off where a sum does not fit or an index is out of range. They never do, and what they give is
what `Memory.decode` and `Program.listing` give with natural numbers. The reason is that `decode`
fetches the opcode word before it adds anything to its address: once it is found, the address is
smaller than the memory, and there is room above it.

Results:
* `Memory.index?_wrap`: asking memory with signed words finds the same cells.
* `decode_eq`: decoding in registers does not break off.
* `Memory.explains_decode`: an address reported as out of range is the first that is missing.
* `Program.slice?_lineAt`: a line of a listing lies inside the program.
* `linesFrom_eq`: listing in registers does not break off.
* **`addresses_fit_registers`**: all that for every memory of fewer than `2^63` cells.
-/

namespace Intcode

namespace Guarded

variable {α β : Type}

theorem of_pure (value : α) : of (pure value) = pure value := rfl

theorem liftM_some (value : α) : (liftM (some value) : Guarded α) = pure value := rfl

theorem run_of (x : Except Fault α) : (of x).run = some x := rfl

theorem throw_eq (fault : Fault) : (throw fault : Guarded α) = of (.error fault) := rfl

theorem of_bind (x : Except Fault α) (f : α → Except Fault β) :
    of (x >>= f) = of x >>= fun value => of (f value) := by
  cases x <;> rfl

/-- A computation does not break off if what follows it does not, on the value that it gives. -/
theorem of_bind_congr {x : Except Fault α} {f : α → Guarded β} {g : α → Except Fault β}
    (h : ∀ value, x = .ok value → f value = of (g value)) : of x >>= f = of (x >>= g) := by
  cases x with
  | error fault => rfl
  | ok value => exact h value rfl

/-! ## Sums and slices -/

/-- A sum that fits is found. -/
theorem exists_advance? {address : UInt64} {count : Nat}
    (h : address.toNat + count < UInt64.size) :
    ∃ next, advance? address count = some next ∧ next.toNat = address.toNat + count :=
  ⟨_, if_pos h, UInt64.toNat_ofNat_of_lt' h⟩

example : advance? 0xFFFFFFFFFFFFFFFE 1 = some 0xFFFFFFFFFFFFFFFF := by decide

example : advance? 0xFFFFFFFFFFFFFFFE 2 = none := by decide

end Guarded

/-! ## Words as addresses -/

/-- An address in a register as the signed word with the same bits. -/
theorem Word.val_wrap {n : Nat} (h : n < UInt64.size) :
    (wrap n).val = if (n : Int) < bound then (n : Int) else n - 2 * bound := by
  unfold UInt64.size at h
  unfold wrap Int.bmod bound
  dsimp only
  split <;> split <;> omega

namespace Memory

theorem size_ofProgram (program : Program) : (ofProgram program).size = program.size := by
  simp [ofProgram, size, Program.size]

variable {memory : Memory}

/-- There is room in a register for the words of an instruction that starts inside memory. -/
theorem fits_of_le (hsize : (memory.size : Int) < Word.bound) {address : Nat}
    (h : address ≤ memory.size + 3) : address < UInt64.size := by
  simp only [Word.bound] at hsize
  simp only [UInt64.size]
  omega

/-- **The upper half of the addresses looks negative, and no cell is there**: asking with a signed
word finds what an unsigned address would. -/
theorem index?_wrap (hsize : (memory.size : Int) < Word.bound) {address : Nat}
    (h : address < UInt64.size) :
    memory.index? (Word.wrap address) = if address < memory.size then some address else none := by
  unfold index? Word.toAddress?
  rw [Word.val_wrap h]
  by_cases hlt : (address : Int) < Word.bound
  · rw [if_pos hlt, if_pos (Int.natCast_nonneg address), Int.toNat_natCast]
    simp [Option.filter_some]
  · have hneg : ¬ (0 : Int) ≤ address - 2 * Word.bound := by
      simp only [UInt64.size] at h
      simp only [Word.bound]
      omega
    rw [if_neg hlt, if_neg hneg, if_neg (by omega)]
    rfl

theorem load?_wrap (hsize : (memory.size : Int) < Word.bound) {address : Nat}
    (h : address < UInt64.size) (hout : memory.size ≤ address) :
    memory.load? (Word.wrap address) = none := by
  rw [load?, index?_wrap hsize h, if_neg (Nat.not_lt.mpr hout)]
  rfl

end Memory

namespace Guarded

variable {memory : Memory} {ip : UInt64}

theorem load_of_get? {address value : Word} {index : Nat} (h : memory.index? address = some index)
    (hvalue : memory.get? index = some value) (ip : Nat) :
    load memory ip address = of (.ok value) := by
  simp only [load, h, hvalue, liftM_some]
  rfl

theorem load_of_index? {address : Word} (h : memory.index? address = none) (ip : Nat) :
    load memory ip address = of (.error (.addressOutOfRange ip address memory.size)) := by
  simp only [load, h, throw_eq]

theorem fetch_eq (hsize : (memory.size : Int) < Word.bound) (ip address : UInt64) :
    fetch memory ip address = of (memory.fetch ip.toNat address.toNat) := by
  unfold fetch Memory.fetch
  have hindex := Memory.index?_wrap hsize address.toNat_lt_size
  by_cases h : address.toNat < memory.size
  · have hget : memory.get? address.toNat = some _ := Array.getElem?_eq_getElem h
    rw [if_pos h] at hindex
    rw [load_of_get? hindex hget, hget]
  · have hget : memory.get? address.toNat = none := Array.getElem?_eq_none (Nat.not_lt.mp h)
    rw [if_neg h] at hindex
    rw [load_of_index? hindex, hget]

/-- **Behind an opcode word there is room**: the addresses of the parameters fit into registers,
whether memory has them or not. -/
theorem fetchSlot_eq (hsize : (memory.size : Int) < Word.bound) (hip : ip.toNat < memory.size)
    {slot : Nat} (hslot : slot < 3) :
    fetchSlot memory ip slot = of (memory.fetch ip.toNat (ip.toNat + (slot + 1))) := by
  have hone : ip.toNat + 1 < UInt64.size := Memory.fits_of_le hsize (by omega)
  obtain ⟨first, hfirst, hnat⟩ := exists_advance? hone
  have hsum : first.toNat + slot < UInt64.size := Memory.fits_of_le hsize (by omega)
  obtain ⟨address, haddress, heq⟩ := exists_advance? hsum
  rw [hnat, Nat.add_assoc, Nat.add_comm 1] at heq
  unfold fetchSlot
  rw [hfirst, liftM_some, pure_bind, haddress, liftM_some, pure_bind, fetch_eq hsize, heq]

/-- **Decoding in registers does not break off**, and it gives what decoding gives. -/
theorem decode_eq (hsize : (memory.size : Int) < Word.bound) (ip : UInt64) :
    decode memory ip = of (memory.decode ip.toNat) := by
  unfold decode Memory.decode
  rw [fetch_eq hsize]
  refine of_bind_congr fun word hword => ?_
  have hip : ip.toNat < memory.size := (memory.yields_fetch ip.toNat ip.toNat).of_ok hword
  show of (Opcode.split ip.toNat word) >>= _ = _
  unfold Opcode.split
  rw [of_bind, bind_assoc]
  refine of_bind_congr fun opcode _ => ?_
  -- for a given operation both loops have a known length, and every index is a number below it
  cases opcode with
  | compute | input | output | jump | halt =>
    simp (disch := decide) only [Opcode.arity, List.range', List.range_succ, List.range_zero,
      List.length_cons, List.length_nil, List.nil_append, List.cons_append, List.mapM_cons,
      List.mapM_nil, fetchSlot_eq hsize hip, of_bind, of_pure, bind_assoc, pure_bind]
    rfl

end Guarded

/-! ## The first word that is missing -/

namespace Memory

/-- **The addresses of the words of the instruction at `ip`**: that of its opcode word, and those of
its parameters if there is an opcode word and it names an operation. -/
inductive Spans (memory : Memory) (ip : Nat) : Nat → Prop where
  | opcode : Spans memory ip ip
  | parameter {word : Word} {opcode : Opcode} {k : Nat} (hword : memory.get? ip = some word)
      (hnonneg : 0 ≤ word.val) (hcode : word.val % 100 = opcode.code) (hpos : 0 < k)
      (hle : k ≤ opcode.arity) : Spans memory ip (ip + k)

/-- **The first word that the instruction at `ip` lacks, and how a fault shows it**: the least of
the addresses of its words that is outside memory, as the signed word with the same bits if the
pointer is in the upper half of the addresses. Memory has no cell at what is shown. -/
structure Lacks (memory : Memory) (ip missing : Nat) (shown : Word) : Prop where
  isLeast : IsLeast {address | memory.Spans ip address ∧ memory.size ≤ address} missing
  val_eq : shown.val = if (ip : Int) < Word.bound then (missing : Int) else ip - 2 * Word.bound
  load_eq : memory.load? shown = none

/-- The fault, if it is one of an address out of range, tells the pointer, the size of memory and
the first missing word. -/
def Explains (memory : Memory) (ip : Nat) (fault : Fault) : Prop :=
  ∀ start shown size, fault = .addressOutOfRange start shown size →
    start = ip ∧ size = memory.size ∧ ∃ missing, memory.Lacks ip missing shown

variable {memory : Memory} {ip : Nat}

/-- Where there is no opcode word, it is the first that is missing. -/
theorem lacks_opcode (hsize : (memory.size : Int) < Word.bound) (hip : ip < UInt64.size)
    (hout : memory.size ≤ ip) : memory.Lacks ip ip (Word.wrap ip) where
  isLeast := by
    refine ⟨⟨.opcode, hout⟩, fun address haddress => ?_⟩
    cases haddress.1 with
    | opcode => exact Nat.le_refl ip
    | parameter => exact Nat.le_add_right ip _
  val_eq := Word.val_wrap hip
  load_eq := load?_wrap hsize hip hout

/-- The words of an instruction follow each other, so the first that is missing is the one behind
the end of memory. -/
theorem lacks_parameter (hsize : (memory.size : Int) < Word.bound) {k : Nat}
    (hspans : memory.Spans ip (ip + (k + 1))) (hbefore : ip + k < memory.size)
    (hout : memory.size ≤ ip + (k + 1)) :
    memory.Lacks ip (ip + (k + 1)) (Word.wrap (ip + (k + 1))) := by
  have hlt : ip + (k + 1) < UInt64.size := fits_of_le hsize (by omega)
  refine ⟨⟨⟨hspans, hout⟩, fun address haddress => ?_⟩, ?_, load?_wrap hsize hlt hout⟩
  · -- the address before is inside, so this one is the size of memory
    have hle := haddress.2
    omega
  · rw [Word.val_wrap hlt, if_pos (by omega), if_pos (by omega)]

theorem explains_fetch {address missing : Nat}
    (h : memory.size ≤ address → memory.Lacks ip missing (Word.wrap address)) :
    Yields (fun _ => address < memory.size) (memory.Explains ip) (memory.fetch ip address) := by
  unfold fetch
  cases hget : memory.get? address with
  | some word => exact (Array.getElem?_eq_some_iff.mp hget).1
  | none =>
    rintro start shown size ⟨⟩
    exact ⟨rfl, rfl, missing, h (Array.getElem?_eq_none_iff.mp hget)⟩

theorem explains_ofWord (memory : Memory) (ip : Nat) (word : Word) :
    Yields (fun _ => True) (memory.Explains ip) (Opcode.ofWord ip word) := by
  simp only [Opcode.ofWord]
  cases (if 0 ≤ word.val then Opcode.ofCode? (word.val.tmod 100) else none) with
  | none => exact fun _ _ _ h => Fault.noConfusion h
  | some opcode => trivial

theorem explains_modeOf (memory : Memory) (ip : Nat) (opcode : Opcode) (word : Word) (param : Nat) :
    Yields (fun _ => True) (memory.Explains ip) (opcode.modeOf ip word param) := by
  unfold Opcode.modeOf
  split
  · trivial
  · exact fun _ _ _ h => Fault.noConfusion h

/-- **Decoding reports the first missing word**, if it reports an address out of range. -/
theorem explains_decode (hsize : (memory.size : Int) < Word.bound) (hip : ip < UInt64.size) :
    Yields (fun _ => True) (memory.Explains ip) (memory.decode ip) := by
  unfold decode
  refine (explains_fetch (lacks_opcode hsize hip)).and_eq.bind fun word hword => ?_
  refine (explains_ofWord memory ip word).and_eq.bind fun opcode hopcode => ?_
  obtain ⟨hnonneg, hcode⟩ := Opcode.ofWord_eq_ok_iff.mp hopcode.1
  have hspans {k : Nat} (hk : k < opcode.arity) : memory.Spans ip (ip + (k + 1)) :=
    .parameter (fetch_eq_ok_iff.mp hword.1) hnonneg hcode (Nat.succ_pos k) hk
  have mode := explains_modeOf memory ip opcode word
  have operand {k : Nat} (hk : k < opcode.arity) (hbefore : ip + k < memory.size) :=
    explains_fetch (lacks_parameter hsize (hspans hk) hbefore)
  cases opcode with
  | compute operator =>
    refine (mode 1).bind fun _ _ => (mode 2).bind fun _ _ => (mode 3).bind fun _ _ => ?_
    refine (operand (show 0 < 3 by decide) hword.2).bind fun _ hfirst => ?_
    refine (operand (show 1 < 3 by decide) hfirst).bind fun _ hsecond => ?_
    exact (operand (show 2 < 3 by decide) hsecond).bind fun _ _ => trivial
  | input | output =>
    refine (mode 1).bind fun _ _ => ?_
    exact (operand (show 0 < 1 by decide) hword.2).bind fun _ _ => trivial
  | jump ifNonzero =>
    refine (mode 1).bind fun _ _ => (mode 2).bind fun _ _ => ?_
    refine (operand (show 0 < 2 by decide) hword.2).bind fun _ hfirst => ?_
    exact (operand (show 1 < 2 by decide) hfirst).bind fun _ _ => trivial
  | halt => trivial

end Memory

/-! ## Listing in registers -/

namespace Memory

variable (memory : Memory) (address : Nat)

theorem reach_decode : Guarded.reach (memory.decode address) = memory.stride address := by
  unfold stride
  cases memory.decode address <;> rfl

theorem lineAt_eq :
    ⟨address, (memory.lineAt address).words, (memory.decode address).toOption⟩ =
      memory.lineAt address := by
  unfold lineAt
  cases memory.decode address <;> rfl

end Memory

/-- **A line lies inside the program**: the words that it reaches over are all there, and are the
words that it shows. -/
theorem Program.slice?_lineAt (program : Program) {address : Nat} (h : address < program.size) :
    Guarded.slice? program.words address (address + (Memory.ofProgram program).stride address) =
      some ((Memory.ofProgram program).lineAt address).words := by
  have hsize := Memory.size_ofProgram program
  have hinside := (Memory.ofProgram program).add_stride_le (h.trans_eq hsize.symm)
  rw [hsize] at hinside
  rw [Guarded.slice?, if_pos ⟨Nat.le_add_right _ _, hinside⟩, Memory.words_lineAt,
    Nat.add_sub_cancel_left]
  rfl

namespace Guarded

/-- **Listing in registers does not break off**, and it gives the lines that listing gives. -/
theorem linesFrom_eq {program : Program}
    (hsize : ((Memory.ofProgram program).size : Int) < Word.bound) {ip : UInt64} {address : Nat}
    (hip : ip.toNat = address) :
    linesFrom program ip = some ((Memory.ofProgram program).linesFrom address) := by
  have hcells := Memory.size_ofProgram program
  fun_induction (Memory.ofProgram program).linesFrom address generalizing ip with
  | case1 address h ih =>
    subst hip
    have hinside := (Memory.ofProgram program).add_stride_le h
    rw [linesFrom, dif_pos (h.trans_eq hcells), decode_eq hsize, run_of, Option.bind_eq_bind,
      Option.bind_some]
    split
    case h_1 hnone =>
      -- a line ends inside memory, so the address behind it fits
      have hfits := Memory.fits_of_le hsize (Nat.le_add_right_of_le hinside)
      obtain ⟨next, hnext, -⟩ := exists_advance? hfits
      rw [Memory.reach_decode, hnext] at hnone
      cases hnone
    case h_2 next hnext =>
      rw [Memory.reach_decode, advance?_eq_some_iff] at hnext
      have hslice := program.slice?_lineAt (h.trans_eq hcells)
      rw [← hnext] at hslice
      simp only [hslice, ih hnext, Option.bind_eq_bind, Option.bind_some, Memory.lineAt_eq]
      rfl
  | case2 address h => rw [linesFrom, dif_neg (by rwa [hip, ← hcells])]

/-- **No address goes wrong in a register.** Take any memory of fewer than `2^63` cells.

At any pointer that a register holds, decoding in registers gives an instruction or a fault and does
not break off: the sums that it comes to all fit, and its indices are in range. What it gives is
what decoding gives. An instruction that is decoded lies inside memory, so that the address behind
it, which execution computes, fits into a register too. An address that is reported as out of range
is the first that the instruction lacks, or the signed word with its bits, and never one of memory.

A listing takes no slice that reaches beyond its program, however long that is, and listing in
registers does not break off if the program fills such a memory. -/
theorem addresses_fit_registers (memory : Memory) (hsize : (memory.size : Int) < Word.bound) :
    (∀ ip : UInt64,
      decode memory ip = of (memory.decode ip.toNat) ∧
      (∀ instruction, memory.decode ip.toNat = .ok instruction →
        ip.toNat + instruction.length ≤ memory.size ∧
        ∀ state : State, state.memory = memory → state.ip = ip.toNat →
          ∃ next, advance? ip instruction.length = some next ∧
            next.toNat = state.behind instruction.opcode) ∧
      ∀ start shown size, memory.decode ip.toNat = .error (.addressOutOfRange start shown size) →
        start = ip.toNat ∧ size = memory.size ∧
          ∃ missing, memory.Lacks ip.toNat missing shown) ∧
    ∀ program : Program,
      (∀ line ∈ program.listing,
        slice? program.words line.address
          (line.address + (Memory.ofProgram program).stride line.address) = some line.words) ∧
      (Memory.ofProgram program = memory → linesFrom program 0 = some program.listing) := by
  refine ⟨fun ip => ⟨decode_eq hsize ip, fun instruction hdecode => ?_,
    fun start shown size hdecode => ?_⟩, fun program => ⟨fun line hline => ?_, ?_⟩⟩
  · have hinside := (memory.yields_decode ip.toNat).of_ok hdecode
    refine ⟨hinside, fun state _ hip => ?_⟩
    have hfits := Memory.fits_of_le hsize (Nat.le_add_right_of_le hinside)
    obtain ⟨next, hnext, hsum⟩ := exists_advance? hfits
    exact ⟨next, hnext, by rw [hsum, State.behind, hip]; rfl⟩
  · exact (Memory.explains_decode hsize ip.toNat_lt_size).of_error hdecode start shown size rfl
  · obtain ⟨hinside, hat⟩ := Memory.mem_linesFrom _ hline
    have hslice := program.slice?_lineAt (hinside.trans_eq (Memory.size_ofProgram program))
    rwa [hat] at hslice
  · rintro rfl
    exact linesFrom_eq hsize rfl

/-- A program that ends in the middle of a sum. -/
def cutShort : Program := ⟨[104, 7, 1, 0]⟩

/-- The first instruction is listed with both of its words, and the address behind it fits. Of the
sum at address two the second operand is missing, at the end of memory. At the highest address that
a register holds there is nothing, and the fault shows it as minus one. -/
theorem addresses_fit_registers_cutShort :
    slice? cutShort.words 0 2 = some [104, 7] ∧
      (∃ next, advance? 0 2 = some next ∧ next.toNat = (State.fresh cutShort).behind .output) ∧
      decode (.ofProgram cutShort) 2 = of (.error (.addressOutOfRange 2 4 4)) ∧
      (∃ missing, (Memory.ofProgram cutShort).Lacks 2 missing 4) ∧
      (∃ shown, decode (.ofProgram cutShort) 0xFFFFFFFFFFFFFFFF =
        of (.error (.addressOutOfRange 0xFFFFFFFFFFFFFFFF shown 4)) ∧ shown.val = -1) ∧
      linesFrom cutShort 0 = some cutShort.listing := by
  obtain ⟨hpointer, hlisting⟩ := addresses_fit_registers (.ofProgram cutShort) (by decide)
  obtain ⟨hslices, hlines⟩ := hlisting cutShort
  have hfirst : (Memory.ofProgram cutShort).decode 0 = .ok (.output ⟨7, .immediate⟩) := by decide
  have hcut : (Memory.ofProgram cutShort).decode 2 = .error (.addressOutOfRange 2 4 4) := by decide
  have hline : (Memory.ofProgram cutShort).lineAt 0 ∈ cutShort.listing := by
    rw [Program.listing, Memory.linesFrom, if_pos (by decide)]
    exact List.mem_cons_self
  refine ⟨hslices _ hline, ((hpointer 0).2.1 _ hfirst).2 (State.fresh cutShort) rfl rfl,
    (hpointer 2).1.trans (congrArg of hcut), ((hpointer 2).2.2 2 4 4 hcut).2.2,
    ⟨0xFFFFFFFFFFFFFFFF, (hpointer 0xFFFFFFFFFFFFFFFF).1.trans ?_, by decide⟩, hlines rfl⟩
  exact congrArg of (by decide)

end Guarded

end Intcode
