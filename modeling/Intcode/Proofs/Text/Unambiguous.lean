import Intcode.Proofs.Program.Listing
import Intcode.Proofs.Text.Quoted

/-!
# Texts that tell everything

Instructions and faults (`Instruction`, `Error`) are displayed as texts, and nothing is lost by it:
different instructions have different texts, none of which looks like a line of data, and different
faults have different messages.

The reason is the same everywhere. A text is made of fixed words with numbers between them, and a
number ends at the first character that is neither a digit nor a minus sign. So a text can be read
from left to right, and at each place it is plain where one part stops and the next one starts. What
a message quotes is the one part of another kind; it stands at the end, and is told apart by
`Quoted.encode_injective`.

Results:
* `Decimal.ofInt_append_inj`: a number in front of a fixed word is told apart.
* `Instruction.text_injective`: different instructions have different texts.
* `Fault.message_injective`: different faults have different messages.
* **`renderings_are_unambiguous`**: both of this, and that data looks like no instruction.
-/

namespace Intcode

/-! ## Numbers -/

namespace Decimal

/-- May the character stand in a written number? -/
def isNumeral (c : Char) : Bool := c.isDigit || c = '-'

/-- Does the text start with a character that no number goes on with? -/
def endsNumber (literal : String) : Bool := literal.toList.head?.any fun c => !isNumeral c

theorem isNumeral_of_mem_ofInt {n : Int} {c : Char} (h : c ∈ (ofInt n).toList) :
    isNumeral c = true := by
  cases n with
  | ofNat n => simp [isNumeral, isDigit_of_mem_ofNat h]
  | negSucc n =>
    rw [ofInt, String.toList_append, List.mem_append] at h
    rcases h with h | h
    · simp_all [isNumeral]
    · simp [isNumeral, isDigit_of_mem_ofNat h]

theorem ofInt_injective : Function.Injective ofInt := by
  intro m n h
  have hread := int?_ofInt m
  rw [h, int?_ofInt] at hread
  exact (Option.some.inj hread).symm

theorem ofNat_injective : Function.Injective ofNat := by
  intro m n h
  have hint : ofInt (.ofNat m) = ofInt (.ofNat n) := h
  exact Int.ofNat.inj (ofInt_injective hint)

/-- **A number in front of a fixed word is told apart**, and so is what stands behind the word. -/
theorem ofInt_append_inj {literal : String} {m n : Int} {rest rest' : List Char}
    (h : (ofInt m).toList ++ (literal.toList ++ rest) =
      (ofInt n).toList ++ (literal.toList ++ rest'))
    (hliteral : endsNumber literal = true) : m = n ∧ rest = rest' := by
  obtain ⟨c, hc, hstop⟩ := (Option.any_eq_true _ _).mp hliteral
  have hends (rest : List Char) : ∀ d ∈ (literal.toList ++ rest).head?, isNumeral d = false := by
    intro d hd
    rw [List.head?_append, hc] at hd
    cases hd
    simpa using hstop
  obtain ⟨hnumber, hrest⟩ := Text.append_inj_of_stop (fun _ => isNumeral_of_mem_ofInt)
    (fun _ => isNumeral_of_mem_ofInt) (hends rest) (hends rest') h
  exact ⟨ofInt_injective (String.toList_inj.mp hnumber), List.append_cancel_left hrest⟩

theorem ofNat_append_inj {literal : String} {m n : Nat} {rest rest' : List Char}
    (h : (ofNat m).toList ++ (literal.toList ++ rest) =
      (ofNat n).toList ++ (literal.toList ++ rest'))
    (hliteral : endsNumber literal = true) : m = n ∧ rest = rest' := by
  obtain ⟨hnumber, hrest⟩ := ofInt_append_inj (m := .ofNat m) (n := .ofNat n) h hliteral
  exact ⟨Int.ofNat.inj hnumber, hrest⟩

end Decimal

theorem Word.text_injective : Function.Injective Word.text :=
  fun _ _ h => Word.ext (Decimal.ofInt_injective h)

/-! ## Instructions -/

theorem Operand.text_injective : Function.Injective Operand.text := by
  have hmark (a b : Word) : a.text ≠ "#" ++ b.text := by
    intro h
    refine a.not_mem_text (c := '#') rfl (by decide) ?_
    rw [h]
    simp
  rintro ⟨a, mode⟩ ⟨b, mode'⟩ h
  cases mode with
  | position =>
    cases mode' with
    | position =>
      obtain rfl : a = b := Word.text_injective h
      rfl
    | immediate => exact absurd h (hmark a b)
  | immediate =>
    cases mode' with
    | position => exact absurd h.symm (hmark b a)
    | immediate =>
      obtain rfl : a = b := Word.text_injective ((String.append_right_inj "#").mp h)
      rfl

namespace Parameter

/-- An operand is written without brackets, and no parameter is written with commas. -/
theorem not_mem_text {c : Char} (hdigit : c.isDigit = false) (hminus : c ≠ '-') (hmark : c ≠ '#')
    (operand : Operand) : c ∉ operand.text.toList := by
  have hword := operand.value.not_mem_text hdigit hminus
  cases hmode : operand.mode with
  | position => simpa [Operand.text, hmode] using hword
  | immediate => simpa [Operand.text, hmode, hmark] using hword

theorem text_injective : Function.Injective text := by
  have hbracket (operand : Operand) (address : Word) :
      operand.text ≠ "[" ++ address.text ++ "]" := by
    intro h
    refine not_mem_text (c := '[') rfl (by decide) (by decide) operand ?_
    rw [h]
    simp
  intro a b h
  cases a with
  | operand o =>
    cases b with
    | operand o' => rw [Operand.text_injective h]
    | destination address => exact absurd h (hbracket o address)
  | destination address =>
    cases b with
    | operand o => exact absurd h.symm (hbracket o address)
    | destination address' =>
      have hinside := (String.append_left_inj "]").mp h
      rw [Word.text_injective ((String.append_right_inj "[").mp hinside)]

theorem comma_not_mem_text (parameter : Parameter) : ',' ∉ parameter.text.toList := by
  cases parameter with
  | operand o => exact not_mem_text rfl (by decide) (by decide) o
  | destination address =>
    have hword := address.not_mem_text (c := ',') rfl (by decide)
    simpa [text] using hword

/-- A parameter ends at the comma behind it. -/
theorem text_append_inj {a b : Parameter} {rest rest' : String}
    (h : a.text ++ (", " ++ rest) = b.text ++ (", " ++ rest')) : a = b ∧ rest = rest' := by
  have hin (parameter : Parameter) : ∀ c ∈ parameter.text.toList, decide (c ≠ ',') = true :=
    fun c hc => decide_eq_true (ne_of_mem_of_not_mem hc parameter.comma_not_mem_text)
  have hstop (rest : List Char) : ∀ c ∈ (", ".toList ++ rest).head?, decide (c ≠ ',') = false := by
    simp
  have hchars := congrArg String.toList h
  simp only [String.toList_append] at hchars
  obtain ⟨htext, hrest⟩ := Text.append_inj_of_stop (hin a) (hin b) (hstop _) (hstop _) hchars
  exact ⟨text_injective (String.toList_inj.mp htext),
    String.toList_inj.mp (List.append_cancel_left hrest)⟩

/-- **Parameters with commas between them are told apart**, if they are as many. -/
theorem intercalate_inj {left right : List Parameter} (hlength : left.length = right.length)
    (h : ", ".intercalate (left.map text) = ", ".intercalate (right.map text)) : left = right := by
  induction left generalizing right with
  | nil => exact (List.length_eq_zero_iff.mp hlength.symm).symm
  | cons a left ih =>
    obtain ⟨b, right, rfl⟩ := List.exists_cons_of_length_eq_add_one hlength.symm
    have hlength' : left.length = right.length := Nat.succ.inj hlength
    by_cases hleft : left = []
    · subst hleft
      obtain rfl := List.length_eq_zero_iff.mp hlength'.symm
      obtain rfl : a = b := text_injective (by simpa using h)
      rfl
    · have hright : right ≠ [] := by
        rintro rfl
        exact hleft (List.length_eq_zero_iff.mp hlength')
      rw [List.map_cons, List.map_cons, String.intercalate_cons_of_ne_nil (by simpa using hleft),
        String.intercalate_cons_of_ne_nil (by simpa using hright), String.append_assoc,
        String.append_assoc] at h
      obtain ⟨rfl, hrest⟩ := text_append_inj h
      rw [ih hlength' hrest]

end Parameter

namespace Opcode

/-- No two operations have the same name, and none is called data. -/
theorem mnemonic_injective : Function.Injective mnemonic := by
  intro a b h
  have hall : ∀ a ∈ all, ∀ b ∈ all, a.mnemonic = b.mnemonic → a = b := by decide
  exact hall a a.mem_all b b.mem_all h

theorem mnemonic_ne_data (opcode : Opcode) : opcode.mnemonic ≠ "data" := by
  have hall : ∀ opcode ∈ all, opcode.mnemonic ≠ "data" := by decide
  exact hall opcode opcode.mem_all

theorem blank_not_mem_mnemonic (opcode : Opcode) : ' ' ∉ opcode.mnemonic.toList := by
  have hall : ∀ opcode ∈ all, ' ' ∉ opcode.mnemonic.toList := by decide
  exact hall opcode opcode.mem_all

end Opcode

namespace Instruction

/-- What stands behind the name of the operation. -/
def tail (parameters : List Parameter) : List Char :=
  if parameters = [] then []
  else ' ' :: (", ".intercalate (parameters.map Parameter.text)).toList

theorem toList_text (instruction : Instruction) :
    instruction.text.toList =
      instruction.opcode.mnemonic.toList ++ tail instruction.parameters := by
  rw [text, tail]
  split
  · next h => simp [h]
  · next h =>
    rw [if_neg h]
    simp

/-- The name of the operation ends at the first blank, if not at the end. -/
theorem blank_of_mem_head?_tail {parameters : List Parameter} {c : Char}
    (h : c ∈ (tail parameters).head?) : decide (c ≠ ' ') = false := by
  rw [tail] at h
  split at h
  · cases h
  · cases h
    rfl

theorem tail_inj {left right : List Parameter} (hlength : left.length = right.length)
    (h : tail left = tail right) : left = right := by
  by_cases hleft : left = []
  · subst hleft
    exact (List.length_eq_zero_iff.mp hlength.symm).symm
  · have hright : right ≠ [] := by
      rintro rfl
      exact hleft (List.length_eq_zero_iff.mp hlength)
    rw [tail, tail, if_neg hleft, if_neg hright] at h
    exact Parameter.intercalate_inj hlength (String.toList_inj.mp (List.cons.inj h).2)

/-- **The operation is told apart by its name.** -/
theorem mnemonic_eq_of_text {instruction : Instruction} {name : String} {rest : List Char}
    (hname : ' ' ∉ name.toList) (hrest : ∀ c ∈ rest.head?, decide (c ≠ ' ') = false)
    (h : instruction.text.toList = name.toList ++ rest) :
    instruction.opcode.mnemonic = name ∧ tail instruction.parameters = rest := by
  have hin (s : String) (hblank : ' ' ∉ s.toList) : ∀ c ∈ s.toList, decide (c ≠ ' ') = true :=
    fun c hc => decide_eq_true (ne_of_mem_of_not_mem hc hblank)
  rw [toList_text] at h
  obtain ⟨hnames, htails⟩ := Text.append_inj_of_stop
    (hin _ instruction.opcode.blank_not_mem_mnemonic) (hin name hname)
    (fun c => blank_of_mem_head?_tail) hrest h
  exact ⟨String.toList_inj.mp hnames, htails⟩

/-- An instruction is its operation with its parameters. -/
theorem eq_of_parameters {i j : Instruction} (hopcode : i.opcode = j.opcode)
    (hparameters : i.parameters = j.parameters) : i = j := by
  cases i <;> cases j <;> simp_all [opcode, parameters]

/-- **Different instructions have different texts.** -/
theorem text_injective : Function.Injective text := by
  intro i j h
  have hchars : i.text.toList = j.opcode.mnemonic.toList ++ tail j.parameters := by
    rw [h, toList_text]
  obtain ⟨hname, htail⟩ := mnemonic_eq_of_text j.opcode.blank_not_mem_mnemonic
    (fun c => blank_of_mem_head?_tail) hchars
  have hopcode := Opcode.mnemonic_injective hname
  have hlength : i.parameters.length = j.parameters.length := by
    rw [length_parameters, length_parameters, hopcode]
  exact eq_of_parameters hopcode (tail_inj hlength htail)

/-- **No instruction looks like data.** -/
theorem text_ne_data (instruction : Instruction) (word : Word) :
    instruction.text ≠ "data " ++ word.text := by
  intro h
  have hchars : instruction.text.toList = "data".toList ++ (' ' :: word.text.toList) := by
    rw [h, String.toList_append]
    rfl
  exact instruction.opcode.mnemonic_ne_data
    (mnemonic_eq_of_text (by decide) (by simp) hchars).1

end Instruction

/-! ## Faults -/

namespace Fault

open Decimal

/-- How the messages of each kind of fault begin. -/
def opening : Fault → List Char
  | parse .. => ['t', 'o', 'k']
  | unknownOpcode .. => ['u', 'n', 's']
  | invalidMode .. => ['i', 'n', 'v']
  | addressOutOfRange .. => ['a', 'd', 'd']
  | inputClosed _ => ['i', 'n', 'p']
  | outputClosed _ => ['o', 'u', 't']
  | overflow .. => ['a', 'r', 'i']
  | stepLimit _ => ['s', 't', 'e']

theorem take_append {literal : String} (h : 3 ≤ literal.toList.length) (rest : String) :
    (literal ++ rest).toList.take 3 = literal.toList.take 3 := by
  rw [String.toList_append, List.take_append_of_le_length h]

theorem take_message (fault : Fault) : fault.message.toList.take 3 = fault.opening := by
  unfold message
  cases fault with
  | inputClosed | outputClosed => exact take_append (by decide) _
  | parse | unknownOpcode | invalidMode | addressOutOfRange | overflow | stepLimit =>
    simp only [String.append_assoc]
    exact take_append (by decide) _

/-- Faults with the same message are of the same kind. -/
theorem opening_eq_of_message_eq {f g : Fault} (h : f.message = g.message) :
    f.opening = g.opening := by
  rw [← take_message, ← take_message, h]

/-- **Different faults have different messages**: after the opening, a message is read from left to
right, one number after the other. -/
theorem message_injective : Function.Injective message := by
  intro f g h
  have hopening := opening_eq_of_message_eq h
  have hchars := congrArg String.toList h
  unfold message at hchars
  cases f with
  | parse index token =>
    cases g with
    | parse index' token' =>
      simp only [String.toList_append, List.append_assoc, List.append_cancel_left_eq] at hchars
      obtain ⟨rfl, hquoted⟩ := ofNat_append_inj hchars rfl
      rw [Text.Quoted.encode_injective (String.toList_inj.mp hquoted)]
    | _ => cases hopening
  | unknownOpcode ip code word =>
    cases g with
    | unknownOpcode ip' code' word' =>
      simp only [String.toList_append, List.append_assoc, List.append_cancel_left_eq] at hchars
      obtain ⟨rfl, hword⟩ := ofInt_append_inj hchars rfl
      obtain ⟨hval, hip⟩ := ofInt_append_inj hword rfl
      rw [Word.ext hval, ofNat_injective (String.toList_inj.mp hip)]
    | _ => cases hopening
  | invalidMode ip code param digit =>
    cases g with
    | invalidMode ip' code' param' digit' =>
      simp only [String.toList_append, List.append_assoc, List.append_cancel_left_eq] at hchars
      obtain ⟨rfl, hparam⟩ := ofInt_append_inj hchars rfl
      obtain ⟨rfl, hcode⟩ := ofNat_append_inj hparam rfl
      obtain ⟨rfl, hip⟩ := ofInt_append_inj hcode rfl
      rw [ofNat_injective (String.toList_inj.mp hip)]
    | _ => cases hopening
  | addressOutOfRange ip address size =>
    cases g with
    | addressOutOfRange ip' address' size' =>
      simp only [String.toList_append, List.append_assoc, List.append_cancel_left_eq] at hchars
      obtain ⟨hval, hsize⟩ := ofInt_append_inj hchars rfl
      obtain ⟨rfl, hip⟩ := ofNat_append_inj hsize rfl
      rw [Word.ext hval, ofNat_injective (String.toList_inj.mp hip)]
    | _ => cases hopening
  | inputClosed ip =>
    cases g with
    | inputClosed ip' => rw [ofNat_injective ((String.append_right_inj _).mp h)]
    | _ => cases hopening
  | outputClosed ip =>
    cases g with
    | outputClosed ip' => rw [ofNat_injective ((String.append_right_inj _).mp h)]
    | _ => cases hopening
  | overflow ip code =>
    cases g with
    | overflow ip' code' =>
      simp only [String.toList_append, List.append_assoc, List.append_cancel_left_eq] at hchars
      obtain ⟨rfl, hip⟩ := ofInt_append_inj hchars rfl
      rw [ofNat_injective (String.toList_inj.mp hip)]
    | _ => cases hopening
  | stepLimit limit =>
    cases g with
    | stepLimit limit' =>
      have hinside := (String.append_left_inj _).mp h
      rw [ofNat_injective ((String.append_right_inj _).mp hinside)]
    | _ => cases hopening

end Fault

/-! ## Main result -/

/-- A line of data shows one word. -/
theorem Program.exists_text_eq_data {program : Program} {line : Line}
    (h : line ∈ program.listing) (hdata : line.instruction? = none) :
    ∃ word : Word, line.text = "data " ++ word.text := by
  obtain ⟨hinside, hline⟩ := Memory.mem_linesFrom _ h
  have hyields := Memory.yields_lineAt _ hinside
  rw [hline] at hyields
  cases hdecode : (Memory.ofProgram program).decode line.address with
  | ok instruction =>
    rw [← hline, Memory.lineAt, hdecode] at hdata
    cases hdata
  | error fault =>
    obtain ⟨word, -, htext⟩ := hyields.of_error hdecode
    exact ⟨word, htext⟩

/-- **What is shown is unambiguous.** Instructions with the same text are the same, whatever their
operations and operands are; and no instruction looks like a word of data, so that none looks like a
line of data in a listing. Faults with the same message are the same, whatever their kinds are and
whatever text a message quotes. -/
theorem renderings_are_unambiguous :
    (∀ i j : Instruction, i.text = j.text → i = j) ∧
    (∀ (i : Instruction) (word : Word), i.text ≠ "data " ++ word.text) ∧
    (∀ program : Program, ∀ line ∈ program.listing, line.instruction? = none →
      ∀ i : Instruction, i.text ≠ line.text) ∧
    ∀ f g : Fault, f.message = g.message → f = g := by
  refine ⟨fun i j h => Instruction.text_injective h, Instruction.text_ne_data,
    fun program line hline hdata i => ?_, fun f g h => Fault.message_injective h⟩
  obtain ⟨word, hword⟩ := Program.exists_text_eq_data hline hdata
  rw [hword]
  exact i.text_ne_data word

/-- A word of data that looks almost like an instruction. -/
def almostHalt : Program := ⟨[98]⟩

/-- A mode that means nothing is not shown. A token that is a backslash is quoted like no other,
also not like one that ends with a quote. -/
theorem renderings_are_unambiguous_backslash :
    (∃ i j, (Memory.mk #[11101, 5, 6, 0]).decode 0 = .ok i ∧
      (Memory.mk #[1101, 5, 6, 0]).decode 0 = .ok j ∧ i.text = j.text ∧ i = j) ∧
    (∃ line ∈ almostHalt.listing, line.instruction? = none ∧ line.text = "data 98" ∧
      Instruction.halt.text ≠ line.text) ∧
    (∃ f, Program.parse "7, \\ " = .error f ∧
      f.message = "token 1 is not an integer: \"\\\\\"" ∧ f = .parse 1 "\\") ∧
    (Fault.parse 1 "\\").message ≠ (Fault.parse 1 "\\\"").message := by
  obtain ⟨hinstruction, -, hdata, hfault⟩ := renderings_are_unambiguous
  have hline : (Memory.ofProgram almostHalt).lineAt 0 ∈ almostHalt.listing := by
    rw [Program.listing, Memory.linesFrom, if_pos (by decide)]
    exact List.mem_cons_self
  refine ⟨⟨_, _, rfl, rfl, rfl, hinstruction _ _ rfl⟩,
    ⟨_, hline, rfl, rfl, hdata almostHalt _ hline rfl .halt⟩,
    ⟨_, rfl, rfl, hfault _ (.parse 1 "\\") rfl⟩, fun h => ?_⟩
  exact absurd (hfault _ _ h) (by decide)

end Intcode
