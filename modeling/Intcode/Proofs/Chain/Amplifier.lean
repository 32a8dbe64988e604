import Intcode.Proofs.Chain.Optimum
import Intcode.Proofs.Chain.Relay
import Intcode.Proofs.Machine.Next
import Intcode.Proofs.Machine.Runs
import Mathlib.Data.List.Chain
import Mathlib.Data.List.Sort

/-!
# The amplifier that appends a digit

`amplifier` takes its setting and a signal, and sends ten times the signal plus the setting. It
overwrites two cells of its own and nothing that it executes, so `run_amplifier` follows its six
instructions for all words; only the product and the sum can fault. In a series of such machines
each setting becomes a digit behind those before it (`amplified`), as long as no product and no sum
is too large for a word (`Bounded`).

A setting counts ten times what the next one counts, so two neighbours in ascending order are better
exchanged (`amplified_exchange`). The best ordering has no such neighbours: it is descending, and
since words with equal values are equal, it is the only one.

Results:
* `run_amplifier`: one machine.
* `relay_amplifier`: a relay of any number of machines.
* `eq_insertionSort_of_max`: a rearrangement with the greatest value is the descending one.
* `finds_of_gives_amplified`: so it is what the search finds.
* **`amplifiers_append_digits`**: what a series gives, and what the search finds.
-/

namespace Intcode

/-! ## One machine -/

/-- A program that takes a setting and a signal, and sends ten times the signal plus the setting. -/
def amplifier : Program := ⟨[3, 15, 3, 16, 1002, 16, 10, 16, 1, 16, 15, 15, 4, 15, 99, 0, 0]⟩

/-- The memory of an amplifier with these words in its last two cells. -/
def amplifierCells (a b : Word) : Memory :=
  ⟨#[3, 15, 3, 16, 1002, 16, 10, 16, 1, 16, 15, 15, 4, 15, 99, a, b]⟩

/-- An amplifier that has taken both its inputs, in the given state. -/
def amplifierIn (state : State) : Machine := { Machine.batch amplifier [] with state }

/-- The state of an amplifier after its last instruction. -/
def amplifierEnd (result product : Word) : State where
  memory := amplifierCells result product
  ip := 14
  halted := true
  last := some result
  outputs := #[result]
  steps := 6

theorem step_amplifierIn {state : State} {instruction : Instruction} {effect : Effect}
    (hrun : state.halted = false) (h : state.Asks instruction (.internal effect)) :
    (amplifierIn state).step = (amplifierIn (state.perform effect), .executed instruction) :=
  Machine.step_eq_iff.mpr (.internal hrun rfl h.next_eq)

/-- The third instruction multiplies the signal by ten. -/
theorem step_product {phase signal product : Word} (h : product.val = 10 * signal.val) :
    (amplifierIn { memory := amplifierCells phase signal, ip := 4, steps := 2 }).step =
      (amplifierIn { memory := amplifierCells phase product, ip := 8, steps := 3 },
        .executed (.compute .multiply ⟨16, .position⟩ ⟨10, .immediate⟩ 16)) := by
  have hvalue : Operator.multiply.apply? signal 10 = some product :=
    Word.ofInt?_eq_some_iff.mpr (h.trans (Int.mul_comm 10 signal.val))
  have hasks : State.Asks { memory := amplifierCells phase signal, ip := 4, steps := 2 }
      (.compute .multiply ⟨16, .position⟩ ⟨10, .immediate⟩ 16)
      (.internal { ip := 8, write := some (16, product) }) :=
    .compute rfl rfl rfl hvalue rfl
  exact step_amplifierIn rfl hasks

/-- The fourth instruction adds the setting. -/
theorem step_sum {phase product result : Word} (h : result.val = product.val + phase.val) :
    (amplifierIn { memory := amplifierCells phase product, ip := 8, steps := 3 }).step =
      (amplifierIn { memory := amplifierCells result product, ip := 12, steps := 4 },
        .executed (.compute .add ⟨16, .position⟩ ⟨15, .position⟩ 15)) := by
  have hvalue : Operator.add.apply? product phase = some result :=
    Word.ofInt?_eq_some_iff.mpr h
  have hasks : State.Asks { memory := amplifierCells phase product, ip := 8, steps := 3 }
      (.compute .add ⟨16, .position⟩ ⟨15, .position⟩ 15)
      (.internal { ip := 12, write := some (15, result) }) :=
    .compute rfl rfl rfl hvalue rfl
  exact step_amplifierIn rfl hasks

/-- **An amplifier sends ten times the signal plus its setting**, and nothing else. -/
theorem run_amplifier {phase signal product result : Word}
    (hproduct : product.val = 10 * signal.val) (hresult : result.val = product.val + phase.val)
    {fuel : Nat} (hfuel : 6 < fuel) :
    (Machine.batch amplifier [phase, signal]).run fuel =
      (amplifierIn (amplifierEnd result product), .finished (some result)) := by
  have hinputs : (Machine.batch amplifier [phase, signal]).proceed 2 =
      (amplifierIn { memory := amplifierCells phase signal, ip := 4, steps := 2 }, none) := rfl
  have hproceed : (Machine.batch amplifier [phase, signal]).proceed 4 =
      (amplifierIn { memory := amplifierCells result product, ip := 12, steps := 4 }, none) :=
    Machine.proceed_snoc (Machine.proceed_snoc hinputs (step_product hproduct)) (step_sum hresult)
  have hhalted : (Machine.batch amplifier [phase, signal]).proceed
      (amplifierEnd result product).steps = (amplifierIn (amplifierEnd result product), none) :=
    (Machine.proceed_add_of_executed hproceed 2).trans rfl
  exact Chain.run_batch_of_proceed hhalted rfl hfuel

/-! ## A series of them -/

/-- The integer is one that a word holds. -/
def Fits (n : Int) : Prop := -Word.bound ≤ n ∧ n < Word.bound

instance (n : Int) : Decidable (Fits n) := inferInstanceAs (Decidable (_ ∧ _))

theorem Fits.exists_word {n : Int} (h : Fits n) : ∃ word : Word, word.val = n :=
  ⟨⟨n, h.1, h.2⟩, rfl⟩

namespace Chain

/-- The signal with a digit behind it for each setting. -/
def amplified (signal : Int) (phases : List Word) : Int :=
  phases.foldl (fun value phase => 10 * value + phase.val) signal

theorem amplified_cons (signal : Int) (phase : Word) (rest : List Word) :
    amplified signal (phase :: rest) = amplified (10 * signal + phase.val) rest := rfl

theorem amplified_append (signal : Int) (front back : List Word) :
    amplified signal (front ++ back) = amplified (amplified signal front) back :=
  List.foldl_append

/-- On the way from the signal to `amplified`, all products and all sums fit a word. -/
def Bounded (signal : Int) : List Word → Prop
  | [] => True
  | phase :: rest =>
    Fits (10 * signal) ∧ Fits (10 * signal + phase.val) ∧ Bounded (10 * signal + phase.val) rest

instance decidableBounded :
    ∀ (signal : Int) (phases : List Word), Decidable (Bounded signal phases)
  | _, [] => .isTrue trivial
  | signal, phase :: rest =>
    have := decidableBounded (10 * signal + phase.val) rest
    inferInstanceAs (Decidable (_ ∧ _ ∧ _))

/-- A series of amplifiers. -/
def amplifiers (signal : Word) (phases : List Word) : Chain where
  program := amplifier
  phases := phases
  signal := signal
  topology := .series

/-- **A relay of amplifiers appends one digit after the other.** The induction is on the machines
still to run; the last output is also all that the next machine is fed. -/
theorem relay_amplifier {fuel : Nat} (hfuel : 6 < fuel) {phases : List Word} :
    ∀ {signal : Word}, Bounded signal.val phases →
      ∃ result : Word, result.val = amplified signal.val phases ∧
        relay fuel amplifier (some signal) [signal] phases = .finished (some result) := by
  induction phases with
  | nil => exact fun {signal} _ => ⟨signal, rfl, rfl⟩
  | cons phase rest ih =>
    rintro signal ⟨hproduct, hsum, hrest⟩
    obtain ⟨product, hproduct⟩ := hproduct.exists_word
    obtain ⟨next, hnext⟩ := hsum.exists_word
    rw [← hnext] at hrest
    obtain ⟨result, hresult, hrelay⟩ := ih hrest
    refine ⟨result, ?_, ?_⟩
    · rw [hresult, hnext, amplified_cons]
    · rw [relay, run_amplifier hproduct (hnext.trans (by rw [hproduct])) hfuel]
      exact hrelay

/-- If the settings keep within bounds, some schedule of a series of amplifiers halts everybody. -/
theorem exists_halts_amplifiers {signal : Word} {phases : List Word} (hne : phases ≠ [])
    (h : Bounded signal.val phases) :
    ∃ result : Word, result.val = amplified signal.val phases ∧
      ∃ schedule net, (amplifiers signal phases).wire.replay schedule = some net ∧
        net.AllHalted ∧ net.signal = some result := by
  obtain ⟨result, hresult, hrelay⟩ := relay_amplifier (show 6 < 7 by decide) h
  refine ⟨result, hresult, ?_⟩
  refine (series_halts_iff_relay amplifier phases signal (some result)).mpr ⟨7, ?_⟩
  -- the last output before the first machine plays no part if there is a first machine
  obtain ⟨first, rest, rfl⟩ := List.exists_cons_of_ne_nil hne
  rw [relay] at hrelay ⊢
  exact hrelay

/-- What a series of amplifiers gives with any settings in place of its own. -/
theorem exists_gives_amplifiers {signal : Word} {settings phases : List Word} (hne : phases ≠ [])
    (h : Bounded signal.val phases) :
    ∃ result : Word, result.val = amplified signal.val phases ∧
      (amplifiers signal settings).Gives phases (.finished (some result)) := by
  obtain ⟨result, hresult, hhalts⟩ := exists_halts_amplifiers hne h
  exact ⟨result, hresult, by simp, exists_run_eq_finished_iff.mpr hhalts⟩

/-! ## The best ordering -/

/-- A greater signal stays greater. -/
theorem amplified_lt_amplified {signal other : Int} (h : signal < other) (phases : List Word) :
    amplified signal phases < amplified other phases := by
  induction phases generalizing signal other with
  | nil => exact h
  | cons phase rest ih =>
    rw [amplified_cons, amplified_cons]
    exact ih (by omega)

/-- **Two neighbours in ascending order are better exchanged.** -/
theorem amplified_exchange (signal : Int) (front back : List Word) {a b : Word}
    (h : a.val < b.val) :
    amplified signal (front ++ a :: b :: back) < amplified signal (front ++ b :: a :: back) := by
  simp only [amplified_append, amplified_cons]
  exact amplified_lt_amplified (by omega) back

/-- Words by their values, the greater ones first. -/
def Descends (a b : Word) : Prop := b.val ≤ a.val

instance : DecidableRel Descends := fun a b => inferInstanceAs (Decidable (b.val ≤ a.val))

instance : Std.Total Descends := ⟨fun a b => Int.le_total b.val a.val⟩

instance : IsTrans Word Descends := ⟨fun _ _ _ hab hbc => Int.le_trans hbc hab⟩

instance : Std.Antisymm Descends := ⟨fun _ _ hab hba => Word.ext (Int.le_antisymm hba hab)⟩

/-- **A rearrangement with the greatest value is the descending one.** -/
theorem eq_insertionSort_of_max (signal : Int) {settings phases : List Word}
    (hperm : phases.Perm settings)
    (hmax : ∀ other, other.Perm settings → amplified signal other ≤ amplified signal phases) :
    phases = settings.insertionSort Descends := by
  have hsorted : phases.Pairwise Descends := by
    refine List.isChain_iff_pairwise.mp (List.isChain_iff_forall_rel_of_append_cons_cons.mpr ?_)
    rintro a b front back rfl
    by_contra hab
    have hexchanged : (front ++ b :: a :: back).Perm settings :=
      ((List.Perm.swap a b back).append_left front).trans hperm
    have hlt := amplified_exchange signal front back (Int.not_le.mp hab)
    exact absurd (hmax _ hexchanged) (Int.not_le.mpr hlt)
  have hrearranged : phases.Perm (settings.insertionSort Descends) :=
    hperm.trans (List.perm_insertionSort Descends settings).symm
  exact hrearranged.eq_of_pairwise' hsorted (List.pairwise_insertionSort Descends settings)

/-- **If every rearrangement gives its digits behind the signal, the search finds the descending
one.** -/
theorem finds_of_gives_amplified (chain : Chain) {signal : Int}
    (hgives : ∀ phases, phases.Perm chain.phases → ∃ result : Word,
      result.val = amplified signal phases ∧ chain.Gives phases (.finished (some result))) :
    ∃ result : Word, result.val = amplified signal (chain.phases.insertionSort Descends) ∧
      chain.Finds (.finished (some ⟨result, chain.phases.insertionSort Descends⟩)) := by
  have hfinished : ∀ phases, phases.Perm chain.phases →
      ∃ result, chain.Gives phases (.finished result) := by
    intro phases hperm
    obtain ⟨result, -, hresult⟩ := hgives phases hperm
    exact ⟨some result, hresult⟩
  obtain ⟨found, hfinds⟩ := exists_finds_finished hfinished
  cases found with
  | none =>
    have hself := List.Perm.refl chain.phases
    obtain ⟨result, -, hresult⟩ := hgives chain.phases hself
    cases hresult.unique (finds_none_iff.mp hfinds chain.phases hself)
  | some best =>
    obtain ⟨result, phases⟩ := best
    obtain ⟨-, hmax, hresult, k, hk, -⟩ := finds_some_iff.mp hfinds
    have hperm := Orderings.mem_orderings.mp (List.mem_of_getElem? hk)
    have hvalue : result.val = amplified signal phases := by
      obtain ⟨same, hsame, hsameGives⟩ := hgives phases hperm
      cases hsameGives.unique hresult
      exact hsame
    have hsorted : phases = chain.phases.insertionSort Descends := by
      refine eq_insertionSort_of_max signal hperm fun other hother => ?_
      obtain ⟨less, hless, hlessGives⟩ := hgives other hother
      calc amplified signal other = less.val := hless.symm
        _ ≤ result.val := hmax other hother less hlessGives
        _ = amplified signal phases := hvalue
    rw [← hsorted]
    exact ⟨result, hvalue, hfinds⟩

/-- **Amplifiers append digits, and the search puts the greatest digits first.** A series of
amplifiers, with at least one setting and whatever its schedule, gives the signal with one digit
behind it for each setting, if no product and no sum on the way is too large for a word. If that is
so for every rearrangement of the settings, in whatever order they are given and whether or not some
are equal, the search finds the descending ordering and the signal that belongs to it. -/
theorem amplifiers_append_digits (signal : Word) :
    (∀ phases, phases ≠ [] → Bounded signal.val phases →
      ∃ result : Word, result.val = amplified signal.val phases ∧
        (amplifiers signal phases).Returns (some result) ∧
        ∃ fuel, (amplifiers signal phases).run fuel = .finished (some result)) ∧
    (∀ settings, settings ≠ [] →
      (∀ phases, phases.Perm settings → Bounded signal.val phases) →
      ∃ result : Word,
        result.val = amplified signal.val (settings.insertionSort Descends) ∧
        (amplifiers signal settings).Finds
          (.finished (some ⟨result, settings.insertionSort Descends⟩))) := by
  constructor
  · intro phases hne hbounded
    obtain ⟨result, hresult, hhalts⟩ := exists_halts_amplifiers hne hbounded
    exact ⟨result, hresult, returns_iff.mpr hhalts, exists_run_eq_finished_iff.mpr hhalts⟩
  · intro settings hne hbounded
    refine finds_of_gives_amplified (amplifiers signal settings) fun phases hperm => ?_
    have hne' : phases ≠ [] := fun hnil => hne (List.nil_perm.mp (hnil ▸ hperm))
    exact exists_gives_amplifiers hne' (hbounded phases hperm)

/-- The signal 7 behind the settings 0, 2, 1 and 2 becomes 70212; the best that they can make of it
is 72210. -/
theorem amplifiers_append_digits_repeated :
    (amplifiers 7 [0, 2, 1, 2]).Returns (some 70212) ∧
      (∀ phases, phases.Perm [0, 2, 1, 2] → Bounded (7 : Word).val phases) ∧
      (amplifiers 7 [0, 2, 1, 2]).Finds (.finished (some ⟨72210, [2, 2, 1, 0]⟩)) := by
  have hbounded : ∀ phases, phases.Perm [0, 2, 1, 2] → Bounded (7 : Word).val phases := by
    intro phases hperm
    have hall : ∀ phases ∈ orderings [0, 2, 1, 2], Bounded (7 : Word).val phases := by decide
    exact hall phases (Orderings.mem_orderings.mpr hperm)
  obtain ⟨hseries, hsearch⟩ := amplifiers_append_digits 7
  obtain ⟨result, hresult, hreturns, -⟩ :=
    hseries [0, 2, 1, 2] (by simp) (hbounded _ (List.Perm.refl _))
  obtain ⟨best, hbest, hfinds⟩ := hsearch [0, 2, 1, 2] (by simp) hbounded
  obtain rfl : result = 70212 := Word.ext (hresult.trans (by decide))
  obtain rfl : best = 72210 := Word.ext (hbest.trans (by decide))
  exact ⟨hreturns, hbounded, hfinds⟩

end Chain

end Intcode
