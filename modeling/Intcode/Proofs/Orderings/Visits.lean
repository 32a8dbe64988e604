import Intcode.Orderings
import Mathlib.Data.Nat.Factorial.Basic
import Mathlib.Logic.Equiv.Fin.Basic
import Mathlib.Algebra.Group.End

/-!
# Orderings as permutations of positions

Every entry of `orderings` is the list with its positions permuted, and an exchange (`swap` in
`permutations`) composes that permutation with a transposition. So the listing can be told once for
all lists: `visits n` are the permutations that `n` counters come by on their way from all empty to
all full, in their order.

The counter at position `m` stands still while those below it make a full *sweep*, then it goes up
by one and they start over. What a sweep of `m` counters does to the positions is `sweep m`, and
it is not undone: the next round opens with what the last one has left, turned by one exchange
(`opening`).

Results:
* `tick?_of_full`, `tick?_range`: full counters start over and carry.
* `listFrom_sweep`: a sweep lists the visits.
* **`listFrom_eq_map_visits`**: all counters together list the visits and stop, whatever the bound
  allows beyond.
* `isChain_listFrom`: an entry comes from the one before by one exchange.
-/

namespace Intcode.Orderings

open Equiv

/-! ## Counters -/

/-- Full counters start over and carry. -/
theorem tick?_of_full (m : Nat) (position : Nat) (rest : List Nat) :
    tick? position (List.range' position m ++ rest) =
      (tick? (position + m) rest).map fun tick =>
        { tick with counters := List.replicate m 0 ++ tick.counters } := by
  induction m generalizing position with
  | zero => simp
  | succ m ih =>
    rw [List.range'_succ, List.cons_append, tick?, if_neg (Nat.lt_irrefl position), ih,
      Option.map_map, Nat.add_right_comm, Nat.add_assoc]
    rfl

/-- Behind full counters, one that is not full goes up. -/
theorem tick?_range {m count : Nat} (h : count < m) (rest : List Nat) :
    tick? 0 (List.range m ++ count :: rest) =
      some ⟨m, count, List.replicate m 0 ++ (count + 1) :: rest⟩ := by
  rw [List.range_eq_range', tick?_of_full, Nat.zero_add, tick?, if_pos h]
  rfl

/-- If all counters are full, there is no next count. -/
theorem tick?_range_eq_none (n : Nat) : tick? 0 (List.range n) = none := by
  have h := tick?_of_full n 0 []
  rwa [List.append_nil, ← List.range_eq_range'] at h

/-- The counter that goes up was not full, and is one of the counters. -/
theorem bounds_of_tick? {position : Nat} {counters : List Nat} {tick : Tick}
    (h : tick? position counters = some tick) :
    tick.count < tick.position ∧ tick.position < position + counters.length ∧
      tick.counters.length = counters.length := by
  induction counters generalizing position tick with
  | nil => cases h
  | cons count rest ih =>
    rw [tick?] at h
    by_cases hlt : count < position
    · rw [if_pos hlt] at h
      cases h
      exact ⟨hlt, by simp, by simp⟩
    · rw [if_neg hlt] at h
      obtain ⟨later, hlater, rfl⟩ := Option.map_eq_some_iff.mp h
      obtain ⟨hcount, hposition, hlength⟩ := ih hlater
      refine ⟨hcount, ?_, ?_⟩
      · simp only [List.length_cons]
        omega
      · simp only [List.length_cons, hlength]

theorem partner_lt {tick : Tick} (h : tick.count < tick.position) :
    tick.partner < tick.position := by
  unfold Tick.partner
  split <;> omega

theorem count_eq_factorial (n : Nat) : count n = n.factorial := by
  induction n with
  | zero => rfl
  | succ n ih => rw [count, ih, Nat.factorial_succ]

/-! ## Exchanges -/

variable {α : Type}

theorem length_exchange (items : List α) (i j : Nat) :
    (exchange items i j).length = items.length := by
  unfold exchange
  split <;> simp

/-- **An exchange permutes the positions.** -/
theorem getElem?_exchange {items : List α} {i j : Nat} (hi : i < items.length)
    (hj : j < items.length) (k : Nat) : (exchange items i j)[k]? = items[swap i j k]? := by
  simp only [exchange, List.getElem?_eq_getElem hi, List.getElem?_eq_getElem hj,
    List.getElem?_set, List.length_set, swap_apply_def]
  by_cases hkj : k = j
  · subst hkj
    by_cases hki : k = i
    · subst hki
      simp [hi]
    · simp [hi, hj, hki]
  · by_cases hki : k = i
    · subst hki
      simp [hi, hj, Ne.symm hkj]
    · simp [hki, hkj, Ne.symm hki, Ne.symm hkj]

/-- The permutation leaves the positions from `n` on where they are. -/
def Within (n : Nat) (σ : Perm Nat) : Prop := ∀ k, n ≤ k → σ k = k

theorem within_one (n : Nat) : Within n 1 := fun _ _ => rfl

theorem Within.mul {n : Nat} {σ τ : Perm Nat} (hσ : Within n σ) (hτ : Within n τ) :
    Within n (σ * τ) := by
  intro k hk
  rw [Perm.mul_apply, hτ k hk, hσ k hk]

theorem Within.mono {m n : Nat} {σ : Perm Nat} (h : Within m σ) (hle : m ≤ n) : Within n σ :=
  fun k hk => h k (hle.trans hk)

theorem within_swap {n i j : Nat} (hi : i < n) (hj : j < n) : Within n (swap i j) :=
  fun _ hk => swap_apply_of_ne_of_ne (by omega) (by omega)

/-- A position below `n` goes to one below `n`, since the others are taken. -/
theorem Within.lt {n : Nat} {σ : Perm Nat} (h : Within n σ) {k : Nat} (hk : k < n) : σ k < n := by
  by_contra hge
  have hfixed := σ.injective (h (σ k) (Nat.le_of_not_lt hge))
  omega

/-- The list with its positions permuted: at `k` stands what stood at `σ k`. -/
def arrange (items : List α) (σ : Perm Nat) : List α :=
  List.ofFn fun k : Fin items.length => (items[σ k]?).getD (items.get k)

theorem length_arrange (items : List α) (σ : Perm Nat) :
    (arrange items σ).length = items.length := by
  simp [arrange]

theorem getElem?_arrange {items : List α} {σ : Perm Nat} (h : Within items.length σ) (k : Nat) :
    (arrange items σ)[k]? = items[σ k]? := by
  by_cases hk : k < items.length
  · simp [arrange, hk, h.lt hk]
  · rw [h k (Nat.le_of_not_lt hk), List.getElem?_eq_none (by simpa [length_arrange] using hk),
      List.getElem?_eq_none (Nat.le_of_not_lt hk)]

theorem arrange_one (items : List α) : arrange items 1 = items :=
  List.ext_getElem? fun k => getElem?_arrange (within_one _) k

/-- An exchange composes the permutation with a transposition. -/
theorem exchange_arrange {items : List α} {σ : Perm Nat} (h : Within items.length σ) {i j : Nat}
    (hi : i < items.length) (hj : j < items.length) :
    exchange (arrange items σ) i j = arrange items (σ * swap i j) := by
  refine List.ext_getElem? fun k => ?_
  rw [getElem?_exchange (by rwa [length_arrange]) (by rwa [length_arrange]), getElem?_arrange h,
    getElem?_arrange (h.mul (within_swap hi hj)), Perm.mul_apply]

/-! ## Sweeps -/

/-- The exchange that is made when the counter at a position goes up. -/
def turn (position count : Nat) : Perm Nat := swap (Tick.mk position count []).partner position

/-- The permutation at the start of the round in which the counter at `position` has reached
`count`, if each round makes the sweep `full`. -/
def opening (full : Perm Nat) (position : Nat) : Nat → Perm Nat
  | 0 => 1
  | count + 1 => opening full position count * full * turn position count

/-- What the first `m` counters do to the positions on their way from all empty to all full. -/
def sweep : Nat → Perm Nat
  | 0 => 1
  | m + 1 => opening (sweep m) m m * sweep m

/-- The permutations that the first `m` counters come by on that way. -/
def visits : Nat → List (Perm Nat)
  | 0 => [1]
  | m + 1 =>
    (List.range (m + 1)).flatMap fun count => (visits m).map (opening (sweep m) m count * ·)

theorem within_turn {position count : Nat} (h : count < position) :
    Within (position + 1) (turn position count) :=
  within_swap ((partner_lt h).trans (Nat.lt_succ_self position)) (Nat.lt_succ_self position)

theorem within_opening {full : Perm Nat} {position count : Nat} (hfull : Within position full)
    (h : count ≤ position) : Within (position + 1) (opening full position count) := by
  induction count with
  | zero => exact within_one _
  | succ count ih =>
    exact ((ih (by omega)).mul (hfull.mono (Nat.le_succ position))).mul (within_turn h)

theorem within_sweep (m : Nat) : Within m (sweep m) := by
  induction m with
  | zero => exact within_one 0
  | succ m ih => exact (within_opening ih (Nat.le_refl m)).mul (ih.mono (Nat.le_succ m))

theorem within_of_mem_visits {m : Nat} {σ : Perm Nat} (h : σ ∈ visits m) : Within m σ := by
  induction m generalizing σ with
  | zero =>
    obtain rfl := List.mem_singleton.mp h
    exact within_one 0
  | succ m ih =>
    simp only [visits, List.mem_flatMap, List.mem_range, List.mem_map] at h
    obtain ⟨count, hcount, τ, hτ, rfl⟩ := h
    exact (within_opening (within_sweep m) (Nat.le_of_lt_succ hcount)).mul
      ((ih hτ).mono (Nat.le_succ m))

theorem length_visits (m : Nat) : (visits m).length = m.factorial := by
  induction m with
  | zero => rfl
  | succ m ih =>
    simp only [visits, List.length_flatMap, List.length_map, ih, List.map_const', List.length_range,
      List.sum_replicate_nat, Nat.factorial_succ]

/-! ## The listing -/

/-- What is listed after an entry, at most `bound` orderings. -/
def followers (bound : Nat) (counters : List Nat) (current : List α) : List (List α) :=
  match tick? 0 counters with
  | none => []
  | some tick => listFrom bound tick.counters (exchange current tick.partner tick.position)

theorem listFrom_succ (bound : Nat) (counters : List Nat) (current : List α) :
    listFrom (bound + 1) counters current = current :: followers bound counters current := by
  rw [listFrom, followers]
  cases tick? 0 counters <;> rfl

/-- After a sweep the next counter goes up, and the round after it opens. -/
theorem followers_range {items : List α} {σ : Perm Nat} (hσ : Within items.length σ)
    {m count : Nat} (hcount : count < m) (hm : m < items.length) (bound : Nat) (rest : List Nat) :
    followers bound (List.range m ++ count :: rest) (arrange items σ) =
      listFrom bound (List.replicate m 0 ++ (count + 1) :: rest)
        (arrange items (σ * turn m count)) := by
  have hpartner : (Tick.mk m count []).partner < m := partner_lt hcount
  rw [followers, tick?_range hcount]
  exact congrArg _ (exchange_arrange hσ (hpartner.trans hm) hm)

/-- A sweep of the first `m` counters lists their visits, whatever was done to the list before and
whatever the other counters are. -/
def Lists (items : List α) (m : Nat) : Prop :=
  ∀ (σ : Perm Nat), Within items.length σ → ∀ (bound : Nat) (rest : List Nat),
    listFrom (m.factorial + bound) (List.replicate m 0 ++ rest) (arrange items σ) =
      (visits m).map (fun τ => arrange items (σ * τ)) ++
        followers bound (List.range m ++ rest) (arrange items (σ * sweep m))

/-- The rounds of the next counter list their visits one after the other. The induction is on the
number of rounds `left` after the one that opens. -/
theorem Lists.rounds {items : List α} {m : Nat} (h : Lists items m) (hm : m < items.length)
    {σ : Perm Nat} (hσ : Within items.length σ) (bound : Nat) (rest : List Nat) {left count : Nat}
    (hleft : count + left = m) :
    listFrom ((left + 1) * m.factorial + bound) (List.replicate m 0 ++ count :: rest)
        (arrange items (σ * opening (sweep m) m count)) =
      ((List.range' count (left + 1)).flatMap fun count => (visits m).map fun τ =>
          arrange items (σ * (opening (sweep m) m count * τ))) ++
        followers bound (List.range m ++ m :: rest) (arrange items (σ * sweep (m + 1))) := by
  have hopening : Within items.length (σ * opening (sweep m) m count) :=
    hσ.mul ((within_opening (within_sweep m) (by omega)).mono hm)
  induction left generalizing count with
  | zero =>
    obtain rfl : count = m := hleft
    rw [Nat.zero_add, Nat.one_mul, h _ hopening, sweep]
    simp [mul_assoc]
  | succ left ih =>
    have hclosing := hopening.mul ((within_sweep m).mono (Nat.le_of_lt hm))
    have hnext : Within items.length (σ * opening (sweep m) m (count + 1)) :=
      hσ.mul ((within_opening (within_sweep m) (by omega)).mono hm)
    have hlater := ih (by omega) hnext
    rw [opening, ← mul_assoc, ← mul_assoc] at hlater
    have hsplit : List.range' count (left + 1 + 1) = count :: List.range' (count + 1) (left + 1) :=
      List.range'_succ
    rw [Nat.succ_mul, Nat.add_comm _ m.factorial, Nat.add_assoc, h _ hopening,
      followers_range hclosing (by omega) hm, hlater, hsplit, List.flatMap_cons,
      List.append_assoc]
    simp only [mul_assoc]

/-- **A sweep lists the visits.** -/
theorem listFrom_sweep (items : List α) {m : Nat} (hm : m ≤ items.length) : Lists items m := by
  induction m with
  | zero =>
    intro σ hσ bound rest
    rw [Nat.factorial_zero, Nat.add_comm, listFrom_succ]
    simp [visits, sweep]
  | succ m ih =>
    intro σ hσ bound rest
    have hall := (ih (by omega)).rounds hm hσ bound rest (Nat.zero_add m)
    rw [← Nat.factorial_succ, opening, mul_one, ← List.range_eq_range'] at hall
    rw [List.replicate_succ', List.append_assoc, List.singleton_append, hall, visits,
      List.map_flatMap, List.range_succ, List.append_assoc, List.singleton_append]
    simp only [List.map_map, Function.comp_def]

/-- **All counters together list the visits**, and then stop of themselves: a bound beyond the
number of visits makes no difference. -/
theorem listFrom_eq_map_visits (items : List α) (extra : Nat) :
    listFrom (items.length.factorial + extra) (List.replicate items.length 0) items =
      (visits items.length).map (arrange items) := by
  have h := listFrom_sweep items (Nat.le_refl _) 1 (within_one _) extra []
  rw [List.append_nil, List.append_nil, arrange_one, followers, tick?_range_eq_none,
    List.append_nil] at h
  rw [h]
  simp only [one_mul]

theorem orderings_eq_map_visits (items : List α) :
    orderings items = (visits items.length).map (arrange items) := by
  rw [orderings, count_eq_factorial, ← listFrom_eq_map_visits items 0, Nat.add_zero]

/-! ## Neighbours -/

/-- Of two entries the second comes from the first by exchanging two positions below `n`. -/
def Neighbours (n : Nat) (before after : List α) : Prop :=
  ∃ i j, i < j ∧ j < n ∧ ∀ k, after[k]? = before[swap i j k]?

theorem head?_listFrom (bound : Nat) (counters : List Nat) (current : List α) :
    (listFrom (bound + 1) counters current).head? = some current := by
  rw [listFrom_succ, List.head?_cons]

/-- **An entry comes from the one before by one exchange.** -/
theorem isChain_listFrom {bound : Nat} {counters : List Nat} {current : List α}
    (h : counters.length = current.length) :
    (listFrom bound counters current).IsChain (Neighbours current.length) := by
  induction bound generalizing counters current with
  | zero => exact .nil
  | succ bound ih =>
    rw [listFrom]
    cases htick : tick? 0 counters with
    | none => exact .singleton current
    | some tick =>
      obtain ⟨hcount, hposition, hlength⟩ := bounds_of_tick? htick
      rw [Nat.zero_add, h] at hposition
      have hpartner := partner_lt hcount
      have hsame : tick.counters.length =
          (exchange current tick.partner tick.position).length := by
        rw [hlength, h, length_exchange]
      have hlater := ih hsame
      rw [length_exchange] at hlater
      simp only
      cases bound with
      | zero => exact .singleton current
      | succ bound =>
        rw [listFrom_succ] at hlater ⊢
        refine .cons_cons ⟨tick.partner, tick.position, hpartner, hposition, ?_⟩ hlater
        exact getElem?_exchange (hpartner.trans hposition) hposition

end Intcode.Orderings
