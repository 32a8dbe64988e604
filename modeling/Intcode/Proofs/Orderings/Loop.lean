import Intcode.Orderings.Loop
import Intcode.Proofs.Orderings.Visits
import Mathlib.Algebra.BigOperators.Intervals
import Mathlib.Algebra.Order.BigOperators.Group.Finset
import Mathlib.Data.List.GetD

/-!
# The loop that counts

`orderings` takes one exchange to be one step. The loop of `permutations` (`Loop`) takes several
iterations for it, one for each full counter that it passes, and lists the same orderings in the
same order.

While the position moves up, the counters below it have started over, but what they counted is not
lost: the counters below position `i`, all full, count to `i! - 1`. So the number of entries listed
is what the counters say in the factorial number system, and `i!` more (`Counts.length_listed`).
That equation holds all the time, and it is why the loop ends, after how many entries, and in which
state.

Results:
* `Counts.swap`, `Counts.carry`, `counts_of_after`: the invariant of the loop.
* `Counts.length_listed_lt`: a counter that is not full leaves room for another entry.
* `Counts.rank_lt`, `exists_ended`: every iteration comes nearer to the end, so there is one.
* `Counts.of_ended`: the state in which the loop ends.
* `exists_listing`: the loop comes by every entry with its position at the first counter.
* **`loop_counts_in_factorials`**: the counters are the digits of the entry's number.
-/

namespace Intcode.Orderings

open Finset

variable {α : Type}

namespace Loop

/-- What an iteration does. -/
theorem cases_of_next? {loop next : Loop α} (h : loop.next? = some next) :
    loop.position < loop.current.length ∧
      (loop.count < loop.position ∧ next = loop.swap ∨
        ¬ loop.count < loop.position ∧ next = loop.carry) := by
  obtain ⟨hlt, hnext⟩ := Option.ite_none_right_eq_some.mp h
  refine ⟨hlt, ?_⟩
  by_cases hcount : loop.count < loop.position
  · rw [if_pos hcount] at hnext
    exact .inl ⟨hcount, (Option.some.inj hnext).symm⟩
  · rw [if_neg hcount] at hnext
    exact .inr ⟨hcount, (Option.some.inj hnext).symm⟩

end Loop

/-! ## Sums of factorials -/

/-- Full counters count to one less than the next factorial. -/
theorem sum_mul_factorial (n : Nat) : ∑ j ∈ range n, j * j.factorial + 1 = n.factorial := by
  induction n with
  | zero => rfl
  | succ n ih =>
    rw [sum_range_succ, Nat.factorial_succ, Nat.succ_mul]
    omega

theorem getD_set_self {counters : List Nat} {i : Nat} (h : i < counters.length) (x : Nat) :
    (counters.set i x).getD i 0 = x := by
  simp [h]

theorem getD_set_of_ne (counters : List Nat) {i j : Nat} (h : j ≠ i) (x : Nat) :
    (counters.set i x).getD j 0 = counters.getD j 0 := by
  rw [List.getD_eq_getElem?_getD, List.getElem?_set_ne h.symm, List.getD_eq_getElem?_getD]

/-- What a change of one counter does to the sum. -/
theorem sum_set {counters : List Nat} {i : Nat} (h : i < counters.length) (x : Nat) :
    ∑ j ∈ range counters.length, (counters.set i x).getD j 0 * j.factorial +
        counters.getD i 0 * i.factorial =
      ∑ j ∈ range counters.length, counters.getD j 0 * j.factorial + x * i.factorial := by
  have hmem := mem_range.mpr h
  have hothers : ∑ j ∈ (range counters.length).erase i, (counters.set i x).getD j 0 * j.factorial =
      ∑ j ∈ (range counters.length).erase i, counters.getD j 0 * j.factorial := by
    refine sum_congr rfl fun j hj => ?_
    rw [getD_set_of_ne counters (ne_of_mem_erase hj)]
  rw [← add_sum_erase _ _ hmem, ← add_sum_erase _ _ hmem, hothers, getD_set_self h]
  omega

theorem followers_zero (counters : List Nat) (current : List α) :
    followers 0 counters current = [] := by
  rw [followers]
  cases tick? 0 counters <;> rfl

/-! ## The invariant -/

/-- **What holds before every iteration** of the loop on `items`. -/
structure Counts (items : List α) (loop : Loop α) : Prop where
  position_pos : 1 ≤ loop.position
  position_le : loop.position ≤ max 1 items.length
  length_counters : loop.counters.length = items.length
  length_current : loop.current.length = items.length
  counter_le : ∀ j < items.length, loop.counters.getD j 0 ≤ j
  /-- The counters that the position has moved over have started over. -/
  counter_eq_zero : ∀ j < loop.position, loop.counters.getD j 0 = 0
  /-- The counters say how many entries there are, if those below the position are taken for
  full. -/
  length_listed :
    ∑ j ∈ range items.length, loop.counters.getD j 0 * j.factorial + loop.position.factorial =
      loop.listed.length
  /-- What is still to be listed follows from the same counters. -/
  listed_append :
    loop.listed ++ followers (items.length.factorial - loop.listed.length)
      (List.range loop.position ++ loop.counters.drop loop.position) loop.current = orderings items

variable {items : List α} {loop : Loop α}

/-- Before the first iteration, nothing is counted and one entry is listed. -/
theorem counts_start (items : List α) : Counts items (.start items) where
  position_pos := Nat.le_refl 1
  position_le := Nat.le_max_left _ _
  length_counters := List.length_replicate
  length_current := rfl
  counter_le j _ := by simp [Loop.start]
  counter_eq_zero j _ := by simp [Loop.start]
  length_listed := by simp [Loop.start]
  listed_append := by
    obtain ⟨bound, hbound⟩ := Nat.exists_eq_succ_of_ne_zero (Nat.factorial_ne_zero items.length)
    rw [orderings, count_eq_factorial, hbound, listFrom_succ]
    cases items with
    | nil => rfl
    | cons first rest => rfl

namespace Counts

theorem position_lt (h : Counts items loop) (hlt : loop.position < loop.current.length) :
    loop.position < loop.counters.length := by
  rwa [h.length_counters, ← h.length_current]

theorem take_counters (h : Counts items loop) (hlt : loop.position < loop.current.length) :
    loop.counters.take loop.position = List.replicate loop.position 0 := by
  have hposition := h.position_lt hlt
  refine List.eq_replicate_iff.mpr ⟨by simp; omega, fun c hc => ?_⟩
  obtain ⟨j, hj, rfl⟩ := List.getElem_of_mem hc
  have hbelow : j < loop.position := by
    simp at hj
    omega
  have hzero := h.counter_eq_zero j hbelow
  rwa [List.getD_eq_getElem _ _ (by omega), ← List.getElem_take] at hzero

/-- The counters with those below the position taken for full. -/
theorem digits_eq (h : Counts items loop) (hlt : loop.position < loop.current.length) :
    List.range loop.position ++ loop.counters.drop loop.position =
      List.range loop.position ++ loop.count :: loop.counters.drop (loop.position + 1) := by
  have hposition := h.position_lt hlt
  rw [List.drop_eq_getElem_cons hposition, Loop.count, List.getD_eq_getElem _ _ hposition]

/-- **A full counter starts over**: it is taken for full from now on, so that nothing is lost. -/
theorem carry (h : Counts items loop) (hlt : loop.position < loop.current.length)
    (hfull : ¬ loop.count < loop.position) : Counts items loop.carry := by
  have hposition := h.position_lt hlt
  have hsize := h.length_counters
  have hcount : loop.count = loop.position :=
    Nat.le_antisymm (h.counter_le loop.position (by omega)) (Nat.le_of_not_lt hfull)
  refine ⟨Nat.le_add_left 1 _, ?_, ?_, h.length_current, fun j hj => ?_, fun j hj => ?_, ?_, ?_⟩
  · simp only [Loop.carry]
    omega
  · rw [Loop.carry, List.length_set, hsize]
  · by_cases hj' : j = loop.position
    · rw [hj', Loop.carry, getD_set_self hposition]
      exact Nat.zero_le _
    · rw [Loop.carry, getD_set_of_ne _ hj']
      exact h.counter_le j hj
  · by_cases hj' : j = loop.position
    · rw [hj', Loop.carry, getD_set_self hposition]
    · rw [Loop.carry, getD_set_of_ne _ hj']
      exact h.counter_eq_zero j (Nat.lt_of_le_of_ne (Nat.le_of_lt_succ hj) hj')
  · have hsum := sum_set hposition 0
    have hlisted := h.length_listed
    rw [hsize, ← Loop.count, hcount] at hsum
    simp only [Loop.carry, Nat.factorial_succ, Nat.succ_mul]
    omega
  · have hdigits := h.listed_append
    rw [h.digits_eq hlt, hcount] at hdigits
    simp only [Loop.carry]
    rw [List.range_succ, List.drop_set_of_lt (Nat.lt_succ_self _), List.append_assoc,
      List.singleton_append]
    exact hdigits

section

variable (h : Counts items loop) (hlt : loop.position < loop.current.length)
  (hcount : loop.count < loop.position)

include h hlt

/-- What the counters say goes up by one. -/
theorem sum_swap :
    ∑ j ∈ range items.length, loop.swap.counters.getD j 0 * j.factorial = loop.listed.length := by
  have hsum := sum_set (h.position_lt hlt) (loop.count + 1)
  rw [h.length_counters, ← Loop.count, Nat.succ_mul] at hsum
  rw [← h.length_listed]
  simp only [Loop.swap]
  omega

include hcount

/-- Going up, a counter that was not full does not come past its position. -/
theorem counter_swap_le {j : Nat} (hj : j < items.length) : loop.swap.counters.getD j 0 ≤ j := by
  by_cases hj' : j = loop.position
  · rw [hj', Loop.swap, getD_set_self (h.position_lt hlt)]
    exact hcount
  · rw [Loop.swap, getD_set_of_ne _ hj']
    exact h.counter_le j hj

/-- **As long as there is a counter that is not full, there are orderings to list.** -/
theorem length_listed_lt : loop.listed.length < items.length.factorial := by
  have hle : ∑ j ∈ range items.length, loop.swap.counters.getD j 0 * j.factorial ≤
      ∑ j ∈ range items.length, j * j.factorial :=
    sum_le_sum fun j hj =>
      Nat.mul_le_mul_right _ (h.counter_swap_le hlt hcount (mem_range.mp hj))
  have hfull := sum_mul_factorial items.length
  rw [h.sum_swap hlt] at hle
  omega

/-- The counters below the position being full, the next tick is the one made here. -/
theorem listed_append_swap :
    loop.swap.listed ++ followers (items.length.factorial - loop.swap.listed.length)
      (List.range loop.swap.position ++ loop.swap.counters.drop loop.swap.position)
      loop.swap.current = orderings items := by
  obtain ⟨below, hbelow⟩ := Nat.exists_eq_succ_of_ne_zero (Nat.ne_of_gt h.position_pos)
  have hcounters : loop.swap.counters = List.replicate loop.position 0 ++
      (loop.count + 1) :: loop.counters.drop (loop.position + 1) := by
    rw [Loop.swap, List.set_eq_take_append_cons_drop, if_pos (h.position_lt hlt),
      h.take_counters hlt]
  have hfirst : List.range 1 ++ loop.swap.counters.drop 1 = loop.swap.counters := by
    rw [hcounters, hbelow, List.replicate_succ]
    rfl
  have hleft : items.length.factorial - loop.listed.length =
      items.length.factorial - loop.swap.listed.length + 1 := by
    have hlisted := h.length_listed_lt hlt hcount
    simp only [Loop.swap, List.length_append, List.length_singleton]
    omega
  have hdigits := h.listed_append
  rw [h.digits_eq hlt, followers, tick?_range hcount] at hdigits
  simp only [hleft, listFrom_succ, ← hcounters] at hdigits
  rw [show loop.swap.position = 1 from rfl, hfirst, ← hdigits]
  simp [Loop.swap, Loop.partner, Tick.partner]

/-- **A counter that is not full goes up by one, and one more ordering is listed.** -/
theorem swap : Counts items loop.swap := by
  refine ⟨Nat.le_refl 1, Nat.le_max_left _ _, ?_, ?_, fun j => h.counter_swap_le hlt hcount,
    fun j hj => ?_, ?_, h.listed_append_swap hlt hcount⟩
  · rw [Loop.swap, List.length_set, h.length_counters]
  · rw [Loop.swap, length_exchange, h.length_current]
  · have hbelow : j < loop.position := Nat.lt_of_lt_of_le hj h.position_pos
    rw [Loop.swap, getD_set_of_ne _ (Nat.ne_of_lt hbelow)]
    exact h.counter_eq_zero j hbelow
  · rw [h.sum_swap hlt, Loop.swap, List.length_append, List.length_singleton,
      Nat.factorial_one]

end

/-- **The invariant is kept by every iteration.** -/
theorem next? (h : Counts items loop) {next : Loop α} (hnext : loop.next? = some next) :
    Counts items next := by
  obtain ⟨hlt, ⟨hcount, rfl⟩ | ⟨hfull, rfl⟩⟩ := Loop.cases_of_next? hnext
  · exact h.swap hlt hcount
  · exact h.carry hlt hfull

end Counts

/-- **The invariant holds as long as the loop goes on.** -/
theorem counts_of_after {count : Nat} (h : (Loop.start items).after count = some loop) :
    Counts items loop := by
  induction count generalizing loop with
  | zero =>
    obtain rfl := Option.some.inj h
    exact counts_start items
  | succ count ih =>
    obtain ⟨before, hbefore, hnext⟩ := Option.bind_eq_some_iff.mp h
    exact (ih hbefore).next? hnext

/-! ## The end of the loop -/

/-- An upper bound for the number of iterations that are left: a pass over the counters for each
entry still to be listed, and the rest of this pass. -/
def rank (items : List α) (loop : Loop α) : Nat :=
  (items.length.factorial - loop.listed.length) * (items.length + 1) +
    (items.length + 1 - loop.position)

/-- **Every iteration comes nearer to the end**: a pass that is cut short lists an entry. -/
theorem Counts.rank_lt (h : Counts items loop) {next : Loop α} (hnext : loop.next? = some next) :
    rank items next < rank items loop := by
  have hsize := h.length_current
  obtain ⟨hlt, ⟨hcount, rfl⟩ | ⟨-, rfl⟩⟩ := Loop.cases_of_next? hnext
  · have hlisted := h.length_listed_lt hlt hcount
    obtain ⟨left, hleft⟩ := Nat.exists_eq_add_of_lt hlisted
    have hbefore : items.length.factorial - loop.listed.length = left + 1 := by omega
    have hafter : items.length.factorial - loop.swap.listed.length = left := by
      simp only [Loop.swap, List.length_append, List.length_singleton]
      omega
    rw [rank, rank, hbefore, hafter, Nat.succ_mul]
    simp only [Loop.swap]
    omega
  · simp only [rank, Loop.carry]
    omega

theorem add_rank_le {count : Nat} (h : (Loop.start items).after count = some loop) :
    count + rank items loop ≤ rank items (.start items) := by
  induction count generalizing loop with
  | zero =>
    obtain rfl := Option.some.inj h
    exact Nat.le_of_eq (Nat.zero_add _)
  | succ count ih =>
    obtain ⟨before, hbefore, hnext⟩ := Option.bind_eq_some_iff.mp h
    have hlt := (counts_of_after hbefore).rank_lt hnext
    have hle := ih hbefore
    omega

/-- The loop goes on for any number of iterations, or it has ended before. -/
theorem after_or_ended (items : List α) (count : Nat) :
    (∃ loop, (Loop.start items).after count = some loop) ∨
      ∃ earlier final, (Loop.start items).after earlier = some final ∧ final.next? = none := by
  induction count with
  | zero => exact .inl ⟨_, rfl⟩
  | succ count ih =>
    rcases ih with ⟨loop, hloop⟩ | hended
    · cases hnext : loop.next? with
      | none => exact .inr ⟨count, loop, hloop, hnext⟩
      | some next => exact .inl ⟨next, by rw [Loop.after, hloop, Option.bind_some, hnext]⟩
    · exact .inr hended

/-- **The loop ends.** -/
theorem exists_ended (items : List α) :
    ∃ count final, (Loop.start items).after count = some final ∧ final.next? = none := by
  rcases after_or_ended items (rank items (.start items) + 1) with ⟨loop, hloop⟩ | hended
  · have hle := add_rank_le hloop
    omega
  · exact hended

/-- **Ended, the loop has moved over all counters**, so that they have all started over and every
ordering is listed. -/
theorem Counts.of_ended (h : Counts items loop) (hended : loop.next? = none) :
    loop.counters = List.replicate items.length 0 ∧
      loop.listed.length = items.length.factorial ∧ loop.listed = orderings items := by
  have hpast : items.length ≤ loop.position := by
    by_contra hlt
    rw [Loop.next?, h.length_current, if_pos (Nat.lt_of_not_le hlt)] at hended
    cases hended
  have hlength : loop.listed.length = items.length.factorial := by
    have hposition : loop.position.factorial = items.length.factorial := by
      rcases Nat.eq_zero_or_pos items.length with hzero | hpos
      · have hone : loop.position = 1 := by
          have hle := h.position_le
          have hge := h.position_pos
          omega
        rw [hzero, hone]
        rfl
      · have hle := h.position_le
        rw [show loop.position = items.length by omega]
    rw [← h.length_listed, hposition, sum_eq_zero, Nat.zero_add]
    intro j hj
    rw [h.counter_eq_zero j (Nat.lt_of_lt_of_le (mem_range.mp hj) hpast), Nat.zero_mul]
  refine ⟨List.eq_replicate_iff.mpr ⟨h.length_counters, fun c hc => ?_⟩, hlength, ?_⟩
  · obtain ⟨j, hj, rfl⟩ := List.getElem_of_mem hc
    have hzero := h.counter_eq_zero j (by have := h.length_counters; omega)
    rwa [List.getD_eq_getElem _ _ hj] at hzero
  · have hlisted := h.listed_append
    rwa [hlength, Nat.sub_self, followers_zero, List.append_nil] at hlisted

/-! ## Main result -/

/-- **The loop comes by every entry with its position at the first counter**, right after it has
listed the entry. -/
theorem exists_listing {count : Nat} (h : (Loop.start items).after count = some loop) {k : Nat}
    (hk : k < loop.listed.length) :
    ∃ earlier listing, (Loop.start items).after earlier = some listing ∧ listing.position = 1 ∧
      listing.listed = loop.listed.take (k + 1) := by
  induction count generalizing loop with
  | zero =>
    obtain rfl := Option.some.inj h
    obtain rfl : k = 0 := Nat.lt_one_iff.mp hk
    exact ⟨0, _, rfl, rfl, rfl⟩
  | succ count ih =>
    obtain ⟨before, hbefore, hnext⟩ := Option.bind_eq_some_iff.mp h
    obtain ⟨-, ⟨-, rfl⟩ | ⟨-, rfl⟩⟩ := Loop.cases_of_next? hnext
    · by_cases hlt : k < before.listed.length
      · obtain ⟨earlier, listing, hlisting, hposition, hlisted⟩ := ih hbefore hlt
        refine ⟨earlier, listing, hlisting, hposition, ?_⟩
        rw [hlisted, Loop.swap, List.take_append_of_le_length hlt]
      · refine ⟨count + 1, before.swap, h, rfl, (List.take_of_length_le ?_).symm⟩
        simp only [Loop.swap, List.length_append, List.length_singleton] at hk ⊢
        omega
    · exact @ih before hbefore hk

/-- **The loop counts in the factorial number system.** Before every iteration the position is at
least one, and no counter exceeds its own position; an exchange is made between two positions of
the list, the partner being the lower one. Whenever an entry has just been listed, the position
being back at the first counter, the counters say how many entries were listed before: they are the
digits of that number in the factorial number system, `j!` being the value of the digit at `j`.

So the loop comes by the orderings one after the other, each with the digits of its number. It
ends, the last entry having the number `n! - 1`, with all counters at zero. -/
theorem loop_counts_in_factorials (items : List α) :
    (∀ count loop, (Loop.start items).after count = some loop →
      1 ≤ loop.position ∧ loop.counters.length = items.length ∧
      (∀ j < items.length, loop.counters.getD j 0 ≤ j) ∧
      (loop.next? = some loop.swap →
        loop.partner < loop.position ∧ loop.position < items.length ∧
          loop.current.length = items.length) ∧
      (loop.position = 1 →
        ∑ j ∈ range items.length, loop.counters.getD j 0 * j.factorial + 1 =
          loop.listed.length)) ∧
    (∀ k < items.length.factorial, ∃ count loop, (Loop.start items).after count = some loop ∧
      loop.position = 1 ∧ loop.listed = (orderings items).take (k + 1) ∧
      ∑ j ∈ range items.length, loop.counters.getD j 0 * j.factorial = k) ∧
    ∃ count final, (Loop.start items).after count = some final ∧ final.next? = none ∧
      final.listed = orderings items ∧ final.listed.length = items.length.factorial ∧
      final.counters = List.replicate items.length 0 := by
  obtain ⟨count, final, hfinal, hended⟩ := exists_ended items
  obtain ⟨hcounters, hlength, hlisted⟩ := (counts_of_after hfinal).of_ended hended
  refine ⟨fun count loop hloop => ?_, fun k hk => ?_,
    count, final, hfinal, hended, hlisted, hlength, hcounters⟩
  · have h := counts_of_after hloop
    refine ⟨h.position_pos, h.length_counters, h.counter_le, fun hnext => ?_, fun hfirst => ?_⟩
    · obtain ⟨hlt, ⟨hcount, -⟩ | ⟨-, hcarry⟩⟩ := Loop.cases_of_next? hnext
      · exact ⟨partner_lt hcount, h.length_current ▸ hlt, h.length_current⟩
      · have hposition := congrArg Loop.position hcarry
        simp only [Loop.swap, Loop.carry] at hposition
        have hpos := h.position_pos
        omega
    · rw [← h.length_listed, hfirst, Nat.factorial_one]
  · obtain ⟨earlier, listing, hlisting, hposition, hentries⟩ := exists_listing hfinal (hlength ▸ hk)
    refine ⟨earlier, listing, hlisting, hposition, hlisted ▸ hentries, ?_⟩
    have hcount := (counts_of_after hlisting).length_listed
    rw [hposition, hentries, List.length_take_of_le (hlength ▸ hk), Nat.factorial_one] at hcount
    omega

/-- The fourth of the six orderings of three items has the digits `1` at `1` and `1` at `2`. -/
theorem loop_counts_in_factorials_three :
    ∃ loop, (Loop.start [7, 8, 9]).after 4 = some loop ∧ loop.listed.length = 4 ∧
      loop.counters = [0, 1, 1] ∧ loop.position = 1 ∧
      ∑ j ∈ range 3, loop.counters.getD j 0 * j.factorial + 1 = 4 ∧
      ∃ count final, (Loop.start [7, 8, 9]).after count = some final ∧ final.next? = none ∧
        final.listed.length = 6 ∧ final.counters = [0, 0, 0] := by
  obtain ⟨hcounts, -, count, final, hfinal, hended, -, hlength, hcounters⟩ :=
    loop_counts_in_factorials [7, 8, 9]
  obtain ⟨-, -, -, -, hdigits⟩ := hcounts 4 _ rfl
  exact ⟨_, rfl, rfl, rfl, rfl, hdigits rfl, count, final, hfinal, hended, hlength, hcounters⟩

end Intcode.Orderings
