import Intcode.Instruction.Decode
import Mathlib.Data.List.Forall2
import Mathlib.Data.Nat.Digits.Defs

/-!
# Encodings

An encoding of an instruction is an opcode word followed by the words of its parameters. The opcode
word is the code of the operation, plus a hundred times the number whose decimal digits are those of
the parameters from the right, plus anything at all above these digits. An operand has the digit
of its mode, a destination has 0 or 1. `Instruction.Encodes` says this by adding up, and decoding
(`decode`, with `split_opcode` for the opcode word) works the other way round, by taking remainders
and quotients.

Results:
* `exists_digits_iff`: adding up digits and reading them off are the same.
* `Instruction.encodes_iff`: what has to be looked at to see whether words encode an instruction.
* `Memory.decode_eq_ok_iff`: decoding looks at exactly that.
* **`decode_inverts_encoding`**: an instruction is decoded exactly where memory has an encoding
  of it, and which digits of an opcode word do not matter.
-/

namespace Intcode

/-! ## Adding up -/

/-- The digit that stands for a mode. -/
def Mode.digit : Mode → Nat
  | position => 0
  | immediate => 1

namespace Parameter

/-- The word that stands for a parameter. -/
def raw : Parameter → Word
  | operand o => o.value
  | destination address => address

/-- May the digit of a parameter be this one? -/
def Admits : Parameter → Nat → Prop
  | operand o, digit => digit = o.mode.digit
  | destination _, digit => digit = 0 ∨ digit = 1

/-- The least digit that a parameter admits. -/
def digit : Parameter → Nat
  | operand o => o.mode.digit
  | destination _ => 0

theorem admits_digit (parameter : Parameter) : parameter.Admits parameter.digit := by
  cases parameter with
  | operand o => rfl
  | destination address => exact .inl rfl

/-- A destination takes the digit of any mode. -/
theorem admits_destination (address : Word) (mode : Mode) :
    (destination address).Admits mode.digit := by
  cases mode with
  | position => exact .inl rfl
  | immediate => exact .inr rfl

/-- Every digit that is admitted stands for a mode. -/
theorem Admits.exists_mode {parameter : Parameter} {digit : Nat} (h : parameter.Admits digit) :
    ∃ mode : Mode, digit = mode.digit := by
  cases parameter with
  | operand o => exact ⟨o.mode, h⟩
  | destination address =>
    rcases h with rfl | rfl
    · exact ⟨.position, rfl⟩
    · exact ⟨.immediate, rfl⟩

theorem Admits.lt_ten {parameter : Parameter} {digit : Nat} (h : parameter.Admits digit) :
    digit < 10 := by
  obtain ⟨mode, rfl⟩ := h.exists_mode
  cases mode <;> decide

end Parameter

namespace Instruction

/-- **The words encode the instruction.** The first is the code of the operation, with a digit for
each of the parameters in front of it and any number `high` in front of these; the others are the
parameters as they are. -/
inductive Encodes (instruction : Instruction) : List Word → Prop where
  | intro {word : Word} (digits : List Nat) (high : Nat)
      (hdigits : List.Forall₂ Parameter.Admits instruction.parameters digits)
      (hword : word.val = instruction.opcode.code +
        (100 * Nat.ofDigits 10 digits + 10 ^ (2 + instruction.opcode.arity) * high : Nat)) :
      Encodes instruction (word :: instruction.parameters.map Parameter.raw)

/-! ## Reading off -/

/-- What decoding tests of the opcode word of an instruction. -/
structure Opens (instruction : Instruction) (word : Word) : Prop where
  nonneg : 0 ≤ word.val
  code_eq : word.val % 100 = instruction.opcode.code
  admits : ∀ (k : Nat) (parameter : Parameter), instruction.parameters[k]? = some parameter →
    ∃ digit, parameter.Admits digit ∧ Opcode.modeDigit word (k + 1) = digit

end Instruction

/-- **Digits that are added up are the digits read off.** -/
theorem exists_digits_iff {parameters : List Parameter} {n : Nat} :
    (∃ (digits : List Nat) (high : Nat), List.Forall₂ Parameter.Admits parameters digits ∧
        n = Nat.ofDigits 10 digits + 10 ^ parameters.length * high) ↔
      ∀ (k : Nat) (parameter : Parameter), parameters[k]? = some parameter →
        parameter.Admits (n / 10 ^ k % 10) := by
  induction parameters generalizing n with
  | nil => exact ⟨fun _ k parameter h => by simp at h, fun _ => ⟨[], n, .nil, by simp⟩⟩
  | cons first rest ih =>
    -- the lowest digit belongs to the first parameter, and the others are digits of `n / 10`
    have hshift (k : Nat) : n / 10 ^ (k + 1) = n / 10 / 10 ^ k := by
      rw [Nat.pow_succ', Nat.div_div_eq_div_mul]
    have hsum (digit high : Nat) (digits : List Nat) :
        Nat.ofDigits 10 (digit :: digits) + 10 ^ (first :: rest).length * high =
          digit + 10 * (Nat.ofDigits 10 digits + 10 ^ rest.length * high) := by
      rw [Nat.ofDigits_cons, List.length_cons]
      ring
    constructor
    · rintro ⟨_, high, hdigits, hn⟩ k parameter hk
      obtain ⟨digit, digits, hfirst, hrest, rfl⟩ := List.forall₂_cons_left_iff.mp hdigits
      rw [hsum] at hn
      have hlt := hfirst.lt_ten
      cases k with
      | zero =>
        obtain rfl : first = parameter := by simpa using hk
        have hdigit : n / 10 ^ 0 % 10 = digit := by
          rw [pow_zero, Nat.div_one]
          omega
        rwa [hdigit]
      | succ k =>
        rw [hshift]
        exact ih.mp ⟨digits, high, hrest, by omega⟩ k parameter hk
    · intro h
      have hfirst := h 0 first rfl
      rw [pow_zero, Nat.div_one] at hfirst
      obtain ⟨digits, high, hrest, hn⟩ := ih.mpr fun k parameter hk => by
        rw [← hshift]
        exact h (k + 1) parameter hk
      refine ⟨n % 10 :: digits, high, .cons hfirst hrest, ?_⟩
      rw [hsum, ← hn]
      exact (Nat.mod_add_div n 10).symm

namespace Opcode

theorem code_bounds (opcode : Opcode) : 0 ≤ opcode.code ∧ opcode.code < 100 := by
  cases opcode with
  | compute operator => cases operator <;> decide
  | jump ifNonzero => cases ifNonzero <;> decide
  | input | output | halt => decide

/-- The digits for the parameters stand in front of the two digits of the code. -/
theorem modeDigit_eq {word : Word} {n : Nat} (h : word.val / 100 = n) (k : Nat) :
    modeDigit word (k + 1) = (n / 10 ^ k % 10 : Nat) := by
  have hpow : ((Nat.pow 10 (k + 1 + 1) : Nat) : Int) = 100 * 10 ^ k := by
    rw [Nat.pow_eq]
    push_cast
    ring
  rw [modeDigit, hpow, ← Int.ediv_ediv_of_nonneg (by decide), h]
  push_cast
  rfl

end Opcode

namespace Instruction

/-- **What has to be looked at** to see whether words encode an instruction. -/
theorem encodes_iff {instruction : Instruction} {words : List Word} :
    instruction.Encodes words ↔ ∃ word, instruction.Opens word ∧
      words = word :: instruction.parameters.map Parameter.raw := by
  obtain ⟨hnonneg, hlt⟩ := instruction.opcode.code_bounds
  have hsum (digits : List Nat) (high : Nat) :
      100 * Nat.ofDigits 10 digits + 10 ^ (2 + instruction.opcode.arity) * high =
        100 * (Nat.ofDigits 10 digits + 10 ^ instruction.parameters.length * high) := by
    rw [length_parameters]
    ring
  constructor
  · rintro ⟨digits, high, hdigits, hword⟩
    rw [hsum] at hword
    have hread := exists_digits_iff.mp ⟨digits, high, hdigits, rfl⟩
    generalize Nat.ofDigits 10 digits + 10 ^ instruction.parameters.length * high = n at hword hread
    refine ⟨_, ⟨by omega, by omega, fun k parameter hk => ⟨_, hread k parameter hk, ?_⟩⟩, rfl⟩
    exact Opcode.modeDigit_eq (by omega) k
  · rintro ⟨word, hopens, rfl⟩
    have hge := hopens.nonneg
    have hcode := hopens.code_eq
    obtain ⟨n, hn⟩ := Int.eq_ofNat_of_zero_le (show 0 ≤ word.val / 100 by omega)
    obtain ⟨digits, high, hdigits, hdigit⟩ := exists_digits_iff.mpr fun k parameter hk => by
      obtain ⟨digit, hadmits, hread⟩ := hopens.admits k parameter hk
      rw [Opcode.modeDigit_eq hn] at hread
      rwa [Int.natCast_inj.mp hread]
    refine ⟨digits, high, hdigits, ?_⟩
    rw [hsum, ← hdigit]
    omega

end Instruction

/-! ## Decoding -/

theorem bind_eq_ok_iff {α β : Type} {x : Except Fault α} {f : α → Except Fault β} {result : β} :
    (x >>= f) = .ok result ↔ ∃ value, x = .ok value ∧ f value = .ok result := by
  cases x with
  | error fault => exact ⟨nofun, fun ⟨_, h, _⟩ => nomatch h⟩
  | ok value => exact ⟨fun h => ⟨value, rfl, h⟩, fun ⟨_, h, hf⟩ => by cases h; exact hf⟩

namespace Opcode

theorem ofCode?_eq_some_iff {code : Int} {opcode : Opcode} :
    ofCode? code = some opcode ↔ code = opcode.code := by
  constructor
  · intro h
    have hcode := List.find?_some h
    exact (of_decide_eq_true hcode).symm
  · rintro rfl
    exact ofCode?_code opcode

theorem ofWord_eq_ok_iff {ip : Nat} {word : Word} {opcode : Opcode} :
    ofWord ip word = .ok opcode ↔ 0 ≤ word.val ∧ word.val % 100 = opcode.code := by
  unfold ofWord
  by_cases hle : 0 ≤ word.val
  · have hcode : word.val % 100 = opcode.code ↔ ofCode? (word.val % 100) = some opcode :=
      ofCode?_eq_some_iff.symm
    simp only [Int.tmod_eq_emod_of_nonneg hle, hle, true_and, hcode]
    cases ofCode? (word.val % 100) <;> simp
  · simp [hle]

theorem modeOf_eq_ok_iff {ip : Nat} {opcode : Opcode} {word : Word} {k : Nat} {mode : Mode} :
    opcode.modeOf ip word k = .ok mode ↔ modeDigit word k = mode.digit := by
  unfold modeOf Mode.ofDigit?
  by_cases hzero : modeDigit word k = 0
  · cases mode <;> simp [hzero, Mode.digit]
  · by_cases hone : modeDigit word k = 1
    · cases mode <;> simp [hone, Mode.digit]
    · cases mode <;> simp [hzero, hone, Mode.digit]

end Opcode

namespace Memory

theorem fetch_eq_ok_iff {memory : Memory} {ip address : Nat} {word : Word} :
    memory.fetch ip address = .ok word ↔ memory.get? address = some word := by
  unfold fetch
  cases memory.get? address <;> simp

/-- The words that memory has from an address on, one after the other. -/
theorem cons_prefix_drop_iff {memory : Memory} {ip : Nat} {word : Word} {words : List Word} :
    word :: words <+: memory.cells.toList.drop ip ↔
      memory.get? ip = some word ∧ words <+: memory.cells.toList.drop (ip + 1) := by
  have hhead : (memory.cells.toList.drop ip).head? = memory.get? ip := by
    rw [List.head?_drop, Array.getElem?_toList, get?]
  rw [← hhead, ← List.tail_drop]
  cases memory.cells.toList.drop ip with
  | nil => simp
  | cons first rest => simp [List.cons_prefix_cons, eq_comm]

/-- The parameters follow from position `k` of the instruction at `ip` on: each has a digit that it
admits in the opcode word, and its word in memory. -/
def Follows (memory : Memory) (ip : Nat) (word : Word) : Nat → List Parameter → Prop
  | _, [] => True
  | k, parameter :: rest =>
    ((∃ digit, parameter.Admits digit ∧ Opcode.modeDigit word k = digit) ∧
      memory.get? (ip + k) = some parameter.raw) ∧ Follows memory ip word (k + 1) rest

theorem follows_iff {memory : Memory} {ip : Nat} {word : Word} {k : Nat}
    {parameters : List Parameter} :
    Follows memory ip word k parameters ↔
      (∀ (j : Nat) (parameter : Parameter), parameters[j]? = some parameter →
        ∃ digit, parameter.Admits digit ∧ Opcode.modeDigit word (j + k) = digit) ∧
      parameters.map Parameter.raw <+: memory.cells.toList.drop (ip + k) := by
  induction parameters generalizing k with
  | nil => simp [Follows]
  | cons first rest ih =>
    simp only [Follows, ih, List.map_cons, cons_prefix_drop_iff]
    constructor
    · rintro ⟨⟨hfirst, hcell⟩, hrest, hcells⟩
      refine ⟨fun j parameter hj => ?_, hcell, hcells⟩
      cases j with
      | zero =>
        cases hj
        rwa [Nat.zero_add]
      | succ j =>
        rw [Nat.succ_add_eq_add_succ]
        exact hrest j parameter hj
    · rintro ⟨hall, hcell, hcells⟩
      have hfirst := hall 0 first rfl
      rw [Nat.zero_add] at hfirst
      refine ⟨⟨hfirst, hcell⟩, fun j parameter hj => ?_, hcells⟩
      rw [← Nat.succ_add_eq_add_succ]
      exact hall (j + 1) parameter hj

/-- **Decoding looks at the opcode word and at the parameters.** -/
theorem decode_eq_ok_iff_follows {memory : Memory} {ip : Nat} {instruction : Instruction} :
    memory.decode ip = .ok instruction ↔ ∃ word, memory.get? ip = some word ∧
      (0 ≤ word.val ∧ word.val % 100 = instruction.opcode.code) ∧
      memory.Follows ip word 1 instruction.parameters := by
  unfold decode
  simp only [bind_eq_ok_iff, fetch_eq_ok_iff, Opcode.ofWord_eq_ok_iff]
  refine exists_congr fun word => and_congr_right fun _ => ?_
  constructor
  · rintro ⟨opcode, hcode, hrest⟩
    -- decoding is written out for each operation, `Follows` is not: they meet case by case
    cases opcode with
    | compute operator =>
      simp only [bind_eq_ok_iff, fetch_eq_ok_iff, Opcode.modeOf_eq_ok_iff] at hrest
      obtain ⟨modeA, hmodeA, modeB, hmodeB, mode, hmode, a, ha, b, hb, dest, hdest, ⟨⟩⟩ := hrest
      exact ⟨hcode, ⟨⟨_, rfl, hmodeA⟩, ha⟩, ⟨⟨_, rfl, hmodeB⟩, hb⟩,
        ⟨⟨_, Parameter.admits_destination dest mode, hmode⟩, hdest⟩, trivial⟩
    | input =>
      simp only [bind_eq_ok_iff, fetch_eq_ok_iff, Opcode.modeOf_eq_ok_iff] at hrest
      obtain ⟨mode, hmode, dest, hdest, ⟨⟩⟩ := hrest
      exact ⟨hcode, ⟨⟨_, Parameter.admits_destination dest mode, hmode⟩, hdest⟩, trivial⟩
    | output =>
      simp only [bind_eq_ok_iff, fetch_eq_ok_iff, Opcode.modeOf_eq_ok_iff] at hrest
      obtain ⟨mode, hmode, value, hvalue, ⟨⟩⟩ := hrest
      exact ⟨hcode, ⟨⟨_, rfl, hmode⟩, hvalue⟩, trivial⟩
    | jump ifNonzero =>
      simp only [bind_eq_ok_iff, fetch_eq_ok_iff, Opcode.modeOf_eq_ok_iff] at hrest
      obtain ⟨modeC, hmodeC, modeT, hmodeT, condition, hcondition, target, htarget, ⟨⟩⟩ := hrest
      exact ⟨hcode, ⟨⟨_, rfl, hmodeC⟩, hcondition⟩, ⟨⟨_, rfl, hmodeT⟩, htarget⟩, trivial⟩
    | halt =>
      cases hrest
      exact ⟨hcode, trivial⟩
  · rintro ⟨hcode, hfollows⟩
    refine ⟨instruction.opcode, hcode, ?_⟩
    cases instruction with
    | compute operator a b dest =>
      obtain ⟨⟨⟨_, rfl, hmodeA⟩, ha⟩, ⟨⟨_, rfl, hmodeB⟩, hb⟩, ⟨⟨_, hadmits, hmode⟩, hdest⟩, -⟩ :=
        hfollows
      obtain ⟨mode, rfl⟩ := hadmits.exists_mode
      simp only [Instruction.opcode, bind_eq_ok_iff, fetch_eq_ok_iff, Opcode.modeOf_eq_ok_iff]
      exact ⟨_, hmodeA, _, hmodeB, _, hmode, _, ha, _, hb, _, hdest, rfl⟩
    | input dest =>
      obtain ⟨⟨⟨_, hadmits, hmode⟩, hdest⟩, -⟩ := hfollows
      obtain ⟨mode, rfl⟩ := hadmits.exists_mode
      simp only [Instruction.opcode, bind_eq_ok_iff, fetch_eq_ok_iff, Opcode.modeOf_eq_ok_iff]
      exact ⟨_, hmode, _, hdest, rfl⟩
    | output value =>
      obtain ⟨⟨⟨_, rfl, hmode⟩, hvalue⟩, -⟩ := hfollows
      simp only [Instruction.opcode, bind_eq_ok_iff, fetch_eq_ok_iff, Opcode.modeOf_eq_ok_iff]
      exact ⟨_, hmode, _, hvalue, rfl⟩
    | jump ifNonzero condition target =>
      obtain ⟨⟨⟨_, rfl, hmodeC⟩, hcondition⟩, ⟨⟨_, rfl, hmodeT⟩, htarget⟩, -⟩ := hfollows
      simp only [Instruction.opcode, bind_eq_ok_iff, fetch_eq_ok_iff, Opcode.modeOf_eq_ok_iff]
      exact ⟨_, hmodeC, _, hmodeT, _, hcondition, _, htarget, rfl⟩
    | halt => rfl

/-- **An instruction is decoded exactly where memory has an encoding of it.** -/
theorem decode_eq_ok_iff {memory : Memory} {ip : Nat} {instruction : Instruction} :
    memory.decode ip = .ok instruction ↔
      ∃ words, instruction.Encodes words ∧ words <+: memory.cells.toList.drop ip := by
  simp only [decode_eq_ok_iff_follows, follows_iff, Instruction.encodes_iff]
  constructor
  · rintro ⟨word, hword, ⟨hle, hcode⟩, hadmits, hcells⟩
    exact ⟨_, ⟨word, ⟨hle, hcode, hadmits⟩, rfl⟩, cons_prefix_drop_iff.mpr ⟨hword, hcells⟩⟩
  · rintro ⟨_, ⟨word, ⟨hle, hcode, hadmits⟩, rfl⟩, hwords⟩
    obtain ⟨hword, hcells⟩ := cons_prefix_drop_iff.mp hwords
    exact ⟨word, hword, ⟨hle, hcode⟩, hadmits, hcells⟩

end Memory

/-! ## Digits that do not matter -/

namespace Instruction

theorem encodes_cons_iff {instruction : Instruction} {word : Word} {raws : List Word} :
    instruction.Encodes (word :: raws) ↔
      instruction.Opens word ∧ raws = instruction.parameters.map Parameter.raw := by
  rw [encodes_iff]
  constructor
  · rintro ⟨_, hopens, ⟨⟩⟩
    exact ⟨hopens, rfl⟩
  · rintro ⟨hopens, rfl⟩
    exact ⟨word, hopens, rfl⟩

/-- An instruction has an encoding: one with zeros for the destination and above the parameters. -/
theorem exists_encodes (instruction : Instruction) : ∃ words, instruction.Encodes words := by
  obtain ⟨hnonneg, hlt⟩ := instruction.opcode.code_bounds
  have hadmits : List.Forall₂ Parameter.Admits instruction.parameters
      (instruction.parameters.map Parameter.digit) :=
    List.forall₂_map_right_iff.mpr (List.forall₂_same.mpr fun parameter _ =>
      parameter.admits_digit)
  have hsmall : Nat.ofDigits 10 (instruction.parameters.map Parameter.digit) < 10 ^ 3 := by
    refine (Nat.ofDigits_lt_base_pow_length (by decide) ?_).trans_le ?_
    · intro digit hdigit
      obtain ⟨parameter, -, rfl⟩ := List.mem_map.mp hdigit
      exact parameter.admits_digit.lt_ten
    · rw [List.length_map, length_parameters]
      refine Nat.pow_le_pow_right (by decide) ?_
      cases instruction.opcode <;> simp [Opcode.arity]
  obtain ⟨word, hword⟩ : ∃ word : Word, word.val = instruction.opcode.code +
      (100 * Nat.ofDigits 10 (instruction.parameters.map Parameter.digit) : Nat) := by
    refine ⟨⟨_, ?_, ?_⟩, rfl⟩ <;> simp only [Word.bound] <;> omega
  exact ⟨_, .intro _ 0 hadmits (by rw [hword, Nat.mul_zero, Nat.add_zero])⟩

/-- The second word has the same digits as the first wherever the instruction depends on them: in
the code and for its operands. The digits of destinations may be others, if they are valid, and
those above the parameters may be any. -/
structure Interchangeable (instruction : Instruction) (word other : Word) : Prop where
  nonneg : 0 ≤ other.val
  code_eq : other.val % 100 = word.val % 100
  operand_eq : ∀ (k : Nat) (operand : Operand),
    instruction.parameters[k]? = some (.operand operand) →
      Opcode.modeDigit other (k + 1) = Opcode.modeDigit word (k + 1)
  destination_valid : ∀ (k : Nat) (address : Word),
    instruction.parameters[k]? = some (.destination address) →
      Opcode.modeDigit other (k + 1) = 0 ∨ Opcode.modeDigit other (k + 1) = 1

/-- The digits of an opcode word that decoding does not tell apart. -/
theorem Opens.opens_iff {instruction : Instruction} {word : Word} (h : instruction.Opens word)
    (other : Word) : instruction.Opens other ↔ instruction.Interchangeable word other := by
  constructor
  · rintro ⟨hnonneg, hcode, hadmits⟩
    refine ⟨hnonneg, hcode.trans h.code_eq.symm, fun k operand hk => ?_, fun k address hk => ?_⟩
    · obtain ⟨_, rfl, hdigit⟩ := h.admits k _ hk
      obtain ⟨_, rfl, hother⟩ := hadmits k _ hk
      exact hother.trans hdigit.symm
    · obtain ⟨digit, hvalid, hother⟩ := hadmits k _ hk
      rw [hother]
      exact_mod_cast hvalid
  · rintro ⟨hnonneg, hcode, hoperand, hdestination⟩
    refine ⟨hnonneg, hcode.trans h.code_eq, fun k parameter hk => ?_⟩
    cases parameter with
    | operand operand =>
      rw [hoperand k operand hk]
      exact h.admits k _ hk
    | destination address =>
      rcases hdestination k address hk with hzero | hone
      · exact ⟨0, .inl rfl, hzero⟩
      · exact ⟨1, .inr rfl, hone⟩

end Instruction

/-- **Decoding inverts encoding.** In any memory and at any address, an instruction is decoded
exactly if an encoding of it lies inside memory from there on. So every instruction can be decoded,
and no words encode two instructions. From one encoding of an instruction one gets all others by
changing the opcode word, and in it only digits of destinations and digits above the
parameters. -/
theorem decode_inverts_encoding (instruction : Instruction) :
    (∀ (memory : Memory) (ip : Nat), memory.decode ip = .ok instruction ↔
      ∃ words, instruction.Encodes words ∧ words <+: memory.cells.toList.drop ip) ∧
    (∃ memory : Memory, memory.decode 0 = .ok instruction) ∧
    (∀ (other : Instruction) (words : List Word),
      instruction.Encodes words → other.Encodes words → other = instruction) ∧
    ∀ (word other : Word) (raws others : List Word), instruction.Encodes (word :: raws) →
      (instruction.Encodes (other :: others) ↔
        others = raws ∧ instruction.Interchangeable word other) := by
  refine ⟨fun memory ip => Memory.decode_eq_ok_iff, ?_, fun other words hwords hother => ?_,
    fun word other raws others hwords => ?_⟩
  · obtain ⟨words, hwords⟩ := instruction.exists_encodes
    exact ⟨⟨words.toArray⟩, Memory.decode_eq_ok_iff.mpr ⟨words, hwords, List.prefix_refl words⟩⟩
  · have hdecode {x : Instruction} (hx : x.Encodes words) :
        (Memory.mk words.toArray).decode 0 = .ok x :=
      Memory.decode_eq_ok_iff.mpr ⟨words, hx, List.prefix_refl words⟩
    exact Except.ok.inj ((hdecode hother).symm.trans (hdecode hwords))
  · obtain ⟨hopens, rfl⟩ := Instruction.encodes_cons_iff.mp hwords
    rw [Instruction.encodes_cons_iff, hopens.opens_iff, and_comm]

/-- The sum of a number and a cell. -/
def sumWith (number address dest : Word) : Instruction :=
  .compute .add ⟨number, .immediate⟩ ⟨address, .position⟩ dest

/-- Five digits of the opcode word of a sum are looked at, the fifth only to see that it is valid:
`7710101` is as good as `101`, and `20101` is not. -/
theorem decode_inverts_encoding_sumWith :
    (Memory.mk #[99, 7710101, 5, 0, 4]).decode 1 = .ok (sumWith 5 0 4) ∧
      (sumWith 5 0 4).Encodes [101, 5, 0, 4] ∧ ¬ (sumWith 5 0 4).Encodes [20101, 5, 0, 4] := by
  obtain ⟨hdecode, -, -, hdigits⟩ := decode_inverts_encoding (sumWith 5 0 4)
  have hidle : (sumWith 5 0 4).Encodes [7710101, 5, 0, 4] :=
    .intro [1, 0, 1] 77 (.cons rfl (.cons rfl (.cons (.inr rfl) .nil))) (by decide)
  have hplain : (sumWith 5 0 4).Encodes [101, 5, 0, 4] :=
    .intro [1, 0, 0] 0 (.cons rfl (.cons rfl (.cons (.inl rfl) .nil))) (by decide)
  refine ⟨(hdecode _ 1).mpr ⟨_, hidle, List.prefix_refl _⟩, hplain, fun h => ?_⟩
  have hvalid := ((hdigits 101 20101 _ _ hplain).mp h).2.destination_valid 2 4 rfl
  exact absurd hvalid (by decide)

end Intcode
