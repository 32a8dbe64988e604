import Intcode.Proofs.Orderings.Visits
import Mathlib.GroupTheory.Perm.Cycle.Basic

/-!
# No permutation is visited twice

In every round of the counter at position `m`, another position has to come to stand there, for
otherwise the rounds would repeat each other. Which one comes depends on what a sweep of the
counters below has left, and that differs with their number:

* a sweep of an odd number of counters exchanges the first position and the last (`sweep_odd`);
* a sweep of an even number sends all positions around in one cycle (`Circles`).

Each of the two facts gives the other one for the next number. Over an even position `m` the
exchange is always with the first; it extends the cycle below by `m`, and after `m + 1` rounds a
cycle of that length is back where it began, the last exchange apart. Over an odd position the
exchanges run through the positions below, and the sweeps between them only make the first and
the last change places, so the exchanges add up to one cycle.

Results:
* `sweep_odd_of_circles`, `circles_of_sweep_odd`: from one number of counters to the next.
* `opening_sweep_inj`: in every round another position comes to stand at `m`.
* **`nodup_visits`**: no permutation is visited twice.
-/

namespace Intcode.Orderings

open Equiv

/-- The permutation is one cycle through the positions below `n`, written from the first. -/
def Circles (n : Nat) (σ : Perm Nat) : Prop :=
  ∃ others, (0 :: others).Perm (List.range n) ∧ σ = (0 :: others).formPerm

theorem turn_even {m : Nat} (h : m % 2 = 0) (count : Nat) : turn m count = swap 0 m := by
  simp [turn, Tick.partner, h]

theorem turn_odd {m : Nat} (h : m % 2 = 1) (count : Nat) : turn m count = swap count m := by
  simp [turn, Tick.partner, h]

/-- A cycle through all positions below `n` is one, in the library's sense, and `n` of it make a
full turn. -/
theorem isCycleOn_formPerm {n : Nat} {cycle : List Nat} (h : cycle.Perm (List.range n)) :
    cycle.formPerm.IsCycleOn (Finset.range n) ∧ cycle.formPerm ^ n = 1 := by
  have hnodup : cycle.Nodup := h.nodup_iff.mpr List.nodup_range
  have hset : (Finset.range n : Set Nat) = { k | k ∈ cycle } := by
    ext k
    simp [h.mem_iff]
  have hlength : cycle.length = n := h.length_eq.trans List.length_range
  refine ⟨?_, ?_⟩
  · rw [hset]
    exact hnodup.isCycleOn_formPerm
  · rw [← List.formPerm_pow_length_eq_one_of_nodup cycle hnodup, hlength]

/-! ## Even positions -/

theorem opening_even {m : Nat} (h : m % 2 = 0) (full : Perm Nat) (count : Nat) :
    opening full m count = (full * swap 0 m) ^ count := by
  induction count with
  | zero => rfl
  | succ count ih => rw [opening, ih, turn_even h, mul_assoc, pow_succ]

/-- The exchange with the first position extends the cycle below by one more position. -/
theorem Circles.mul_swap {m : Nat} {σ : Perm Nat} (h : Circles m σ) :
    (σ * swap 0 m).IsCycleOn (Finset.range (m + 1)) ∧ (σ * swap 0 m) ^ (m + 1) = 1 := by
  obtain ⟨others, hperm, rfl⟩ := h
  have hnodup : (0 :: others).Nodup := hperm.nodup_iff.mpr List.nodup_range
  have hrotate := List.formPerm_rotate_one (0 :: others) hnodup
  rw [List.rotate_cons_succ, List.rotate_zero] at hrotate
  have hcycle : (0 :: others).formPerm * swap 0 m = (others ++ [0, m]).formPerm := by
    rw [List.formPerm_append_pair, hrotate]
  have hall : (others ++ [0, m]).Perm (List.range (m + 1)) := by
    rw [List.range_succ, List.append_cons]
    exact (List.perm_append_singleton 0 others |>.trans hperm).append_right [m]
  rw [hcycle]
  exact isCycleOn_formPerm hall

/-- **After the rounds of an even position the first and the last have changed places.** -/
theorem sweep_odd_of_circles {m : Nat} (heven : m % 2 = 0) (h : Circles m (sweep m)) :
    sweep (m + 1) = swap 0 m := by
  have hturns := h.mul_swap.2
  calc sweep (m + 1) = (sweep m * swap 0 m) ^ m * sweep m := by rw [sweep, opening_even heven]
    _ = (sweep m * swap 0 m) ^ (m + 1) * swap 0 m := by
      rw [pow_succ, mul_assoc, mul_assoc, swap_mul_self, mul_one]
    _ = swap 0 m := by rw [hturns, one_mul]

/-- Over an even position no two rounds of a cycle open alike. -/
theorem Circles.opening_inj {m count other : Nat} (heven : m % 2 = 0) {full : Perm Nat}
    (hfull : Circles m full) (hcount : count ≤ m) (hother : other ≤ m)
    (h : opening full m count m = opening full m other m) : count = other := by
  rw [opening_even heven, opening_even heven] at h
  have hmod := (hfull.mul_swap.1.pow_apply_eq_pow_apply (by simp)).mp h
  rw [Finset.card_range] at hmod
  exact hmod.eq_of_lt_of_lt (by omega) (by omega)

/-! ## Odd positions -/

/-- The positions that have come to stand at `m` before a round, the latest first. -/
def comers (full : Perm Nat) (m count : Nat) : List Nat :=
  (List.range count).reverse.map full ++ [m]

theorem comers_zero (full : Perm Nat) (m : Nat) : comers full m 0 = [m] := rfl

theorem comers_succ (full : Perm Nat) (m count : Nat) :
    comers full m (count + 1) = full count :: comers full m count := by
  simp [comers, List.range_succ]

section

variable {m count : Nat} {full : Perm Nat} (hfull : Within m full)

include hfull

theorem nodup_comers (h : count ≤ m) : (comers full m count).Nodup := by
  have hlist : comers full m count = ((List.range count).reverse ++ [m]).map full := by
    simp [comers, hfull m (Nat.le_refl m)]
  rw [hlist]
  refine List.Nodup.map full.injective ?_
  rw [List.nodup_append_comm, List.singleton_append, List.nodup_cons]
  refine ⟨?_, List.nodup_reverse.mpr List.nodup_range⟩
  rw [List.mem_reverse, List.mem_range]
  omega

theorem perm_comers : (comers full m m).Perm (List.range (m + 1)) := by
  refine ((nodup_comers hfull (Nat.le_refl m)).subperm fun k hk => ?_).perm_of_length_le ?_
  · simp only [comers, List.mem_append, List.mem_map, List.mem_reverse, List.mem_range,
      List.mem_singleton] at hk
    rw [List.mem_range]
    rcases hk with ⟨j, hj, rfl⟩ | rfl
    · exact (hfull.lt hj).trans (Nat.lt_succ_self m)
    · exact Nat.lt_succ_self k
  · simp [comers]

/-- Another comer makes the cycle longer by one. -/
theorem formPerm_comers_succ (h : count + 1 ≤ m) :
    (comers full m count).formPerm * swap (full count) m =
      (comers full m (count + 1)).formPerm := by
  have hnodup := nodup_comers hfull h
  rw [comers_succ] at hnodup
  have hrotate := List.formPerm_rotate_one _ hnodup
  rw [comers_succ, ← hrotate, List.rotate_cons_succ, List.rotate_zero, comers, List.append_assoc,
    List.singleton_append, List.formPerm_append_pair, swap_comm m]

theorem pow_apply_last (count : Nat) : (full ^ count) m = m :=
  Perm.pow_apply_eq_self_of_apply_eq_self (hfull m (Nat.le_refl m)) count

variable (hodd : m % 2 = 1) (hpow : ∀ count, (full ^ (count + 1)) count = full count)

include hodd hpow

/-- **Over an odd position the exchanges add up to one cycle**, and the sweeps between them to their
power, if those sweeps together do to a position what one of them does. -/
theorem opening_odd (h : count ≤ m) :
    opening full m count = (comers full m count).formPerm * full ^ count := by
  induction count with
  | zero => simp [opening, comers_zero]
  | succ count ih =>
    calc opening full m (count + 1)
        = (comers full m count).formPerm * (full ^ (count + 1) * swap count m) := by
          rw [opening, ih (by omega), turn_odd hodd, pow_succ]
          simp only [mul_assoc]
      _ = (comers full m count).formPerm * swap (full count) m * full ^ (count + 1) := by
          rw [mul_swap_eq_swap_mul, hpow, pow_apply_last hfull, mul_assoc]
      _ = (comers full m (count + 1)).formPerm * full ^ (count + 1) := by
          rw [formPerm_comers_succ hfull h]

/-- What has come to stand at `m` when a round opens is the latest comer. -/
theorem opening_odd_apply (h : count ≤ m) :
    opening full m count m = (comers full m count).headI := by
  rw [opening_odd hfull hodd hpow h, Perm.mul_apply, pow_apply_last hfull]
  cases count with
  | zero => simp [comers_zero]
  | succ count =>
    rw [comers_succ, comers, List.formPerm_cons_concat_apply_last, List.headI_cons]

theorem opening_odd_inj {other : Nat} (hcount : count ≤ m) (hother : other ≤ m)
    (h : opening full m count m = opening full m other m) : count = other := by
  rw [opening_odd_apply hfull hodd hpow hcount, opening_odd_apply hfull hodd hpow hother] at h
  cases count with
  | zero =>
    cases other with
    | zero => rfl
    | succ other =>
      have hlt := hfull.lt hother
      rw [comers_zero, comers_succ, List.headI_cons, List.headI_cons] at h
      omega
  | succ count =>
    cases other with
    | zero =>
      have hlt := hfull.lt hcount
      rw [comers_zero, comers_succ, List.headI_cons, List.headI_cons] at h
      omega
    | succ other =>
      rw [comers_succ, comers_succ, List.headI_cons, List.headI_cons] at h
      rw [full.injective h]

end

theorem within_ends (k : Nat) : Within (2 * k + 1) (swap 0 (2 * k)) :=
  within_swap (by omega) (by omega)

theorem swap_pow_two_mul (i j n : Nat) : swap i j ^ (2 * n) = 1 := by
  rw [pow_mul, sq, swap_mul_self, one_pow]

/-- Exchanging the first position and the last as often as the counter below goes up does to the
position counted what one exchange does: an odd position stays. -/
theorem swap_pow_apply (k count : Nat) :
    (swap 0 (2 * k) ^ (count + 1)) count = swap 0 (2 * k) count := by
  rcases Nat.even_or_odd' count with ⟨j, rfl | rfl⟩
  · rw [pow_succ, swap_pow_two_mul, one_mul]
  · rw [show 2 * j + 1 + 1 = 2 * (j + 1) by omega, swap_pow_two_mul,
      swap_apply_of_ne_of_ne (by omega) (by omega), Perm.one_apply]

/-- **After the rounds of an odd position all positions have gone around in one cycle.** -/
theorem circles_of_sweep_odd {k : Nat} (h : sweep (2 * k + 1) = swap 0 (2 * k)) :
    Circles (2 * k + 2) (sweep (2 * k + 2)) := by
  have hfirst : comers (swap 0 (2 * k)) (2 * k + 1) (2 * k + 1) =
      0 :: comers (swap 0 (2 * k)) (2 * k + 1) (2 * k) := by
    rw [comers_succ, swap_apply_right]
  have hpower : swap 0 (2 * k) ^ (2 * k + 1) * swap 0 (2 * k) = 1 := by
    rw [← pow_succ, show 2 * k + 1 + 1 = 2 * (k + 1) by omega, swap_pow_two_mul]
  have hperm := perm_comers (within_ends k)
  rw [hfirst] at hperm
  refine ⟨_, hperm, ?_⟩
  rw [sweep, h, opening_odd (within_ends k) (by omega) (swap_pow_apply k) (Nat.le_refl _),
    mul_assoc, hpower, mul_one, hfirst]

/-! ## All positions -/

theorem sweep_odd (k : Nat) : sweep (2 * k + 1) = swap 0 (2 * k) := by
  induction k with
  | zero =>
    rw [Nat.mul_zero, swap_self]
    rfl
  | succ k ih => exact sweep_odd_of_circles (by omega) (circles_of_sweep_odd ih)

theorem circles_sweep (k : Nat) : Circles (2 * k + 2) (sweep (2 * k + 2)) :=
  circles_of_sweep_odd (sweep_odd k)

/-- **In every round another position comes to stand at `m`.** -/
theorem opening_sweep_inj {m count other : Nat} (hcount : count ≤ m) (hother : other ≤ m)
    (h : opening (sweep m) m count m = opening (sweep m) m other m) : count = other := by
  rcases Nat.even_or_odd' m with ⟨k, rfl | rfl⟩
  · cases k with
    | zero => omega
    | succ k => exact (circles_sweep k).opening_inj (by omega) hcount hother h
  · rw [sweep_odd] at h
    exact opening_odd_inj (within_ends k) (by omega) (swap_pow_apply k) hcount hother h

/-- **No permutation is visited twice.** Two visits of different rounds differ in what has come to
stand at the position whose counter stood still, two of the same round by induction. -/
theorem nodup_visits (m : Nat) : (visits m).Nodup := by
  induction m with
  | zero => simp [visits]
  | succ m ih =>
    rw [visits, List.nodup_flatMap]
    refine ⟨fun count _ => ih.map (mul_right_injective _), ?_⟩
    refine (List.nodup_range.pairwise_of_forall_ne fun count hcount other hother hne => ?_)
    intro σ hσ hσ'
    obtain ⟨τ, hτ, rfl⟩ := List.mem_map.mp hσ
    obtain ⟨τ', hτ', heq⟩ := List.mem_map.mp hσ'
    have hstands := Equiv.congr_fun heq m
    rw [Perm.mul_apply, Perm.mul_apply, within_of_mem_visits hτ m (Nat.le_refl m),
      within_of_mem_visits hτ' m (Nat.le_refl m)] at hstands
    rw [List.mem_range] at hcount hother
    exact hne (opening_sweep_inj (by omega) (by omega) hstands.symm)

end Intcode.Orderings
