import Intcode.Proofs.Orderings.Cycle
import Mathlib.Data.Fintype.Perm
import Mathlib.Data.List.FinRange

/-!
# The orderings are complete

`orderings` (`permutations`) lists every rearrangement of a list exactly once. Rearrangements are
told apart by where their items come from: equal items at different positions make rearrangements
that look alike, and these are listed as often as there are ways to come by them.

There are as many visits as permutations of the positions, and no two visits are the same
(`Cycle.lean`), so none is left out: counting is all that remains.

Results:
* `coe_visits`: the visits are all permutations of the positions.
* `coe_orderings`: the orderings are the rearrangements by all of them.
* `mem_orderings`: the orderings of a list are the lists with the same items.
* **`orderings_are_complete`**: with that, how many they are, which is the first, and how each
  comes from the one before.
-/

namespace Intcode.Orderings

open Equiv

/-- A permutation of the positions below `n` as one of all numbers. -/
def lift (n : Nat) (σ : Perm (Fin n)) : Perm Nat := σ.extendDomain Fin.equivSubtype

theorem lift_apply {n : Nat} (σ : Perm (Fin n)) (k : Fin n) : lift n σ k = σ k :=
  Perm.extendDomain_apply_image σ Fin.equivSubtype k

/-- A permutation that leaves the positions from `n` on alone permutes those below `n`. -/
theorem Within.exists_lift {n : Nat} {σ : Perm Nat} (h : Within n σ) : ∃ τ, lift n τ = σ := by
  have hbelow : ∀ k, σ k < n ↔ k < n := by
    refine fun k => ⟨fun hk => ?_, h.lt⟩
    by_contra hge
    rw [h k (Nat.le_of_not_lt hge)] at hk
    exact hge hk
  refine ⟨Fin.equivSubtype.symm.permCongr (σ.subtypePerm hbelow), Equiv.ext fun k => ?_⟩
  by_cases hk : k < n
  · exact lift_apply _ ⟨k, hk⟩
  · rw [h k (Nat.le_of_not_lt hk)]
    exact Perm.extendDomain_apply_not_subtype _ Fin.equivSubtype hk

/-- **The visits are all permutations of the positions**, each once. -/
theorem coe_visits (n : Nat) :
    (visits n : Multiset (Perm Nat)) = (Finset.univ : Finset (Perm (Fin n))).val.map (lift n) := by
  have hnodup : (visits n : Multiset (Perm Nat)).Nodup := Multiset.coe_nodup.mpr (nodup_visits n)
  have hsubset : (visits n : Multiset (Perm Nat)) ≤
      (Finset.univ : Finset (Perm (Fin n))).val.map (lift n) := by
    refine (Multiset.le_iff_subset hnodup).mpr fun σ hσ => ?_
    obtain ⟨τ, rfl⟩ := (within_of_mem_visits (Multiset.mem_coe.mp hσ)).exists_lift
    exact Multiset.mem_map_of_mem _ (Finset.mem_univ τ)
  refine Multiset.eq_of_le_of_card_le hsubset (Nat.le_of_eq ?_)
  rw [Multiset.card_map, Multiset.coe_card, length_visits, Finset.card_val, Finset.card_univ,
    Fintype.card_perm, Fintype.card_fin]

variable {α : Type}

/-- The list with its positions permuted. -/
def rearranged (items : List α) (σ : Perm (Fin items.length)) : List α :=
  List.ofFn fun k => items.get (σ k)

theorem arrange_lift (items : List α) (σ : Perm (Fin items.length)) :
    arrange items (lift items.length σ) = rearranged items σ := by
  simp [arrange, rearranged, lift_apply]

/-- **The orderings are the rearrangements by all permutations of the positions.** -/
theorem coe_orderings (items : List α) :
    (orderings items : Multiset (List α)) = Finset.univ.val.map (rearranged items) := by
  rw [orderings_eq_map_visits, ← Multiset.map_coe, coe_visits, Multiset.map_map]
  exact Multiset.map_congr rfl fun σ _ => arrange_lift items σ

theorem perm_rearranged (items : List α) (σ : Perm (Fin items.length)) :
    (rearranged items σ).Perm items := by
  have h := σ.ofFn_comp_perm items.get
  rwa [List.ofFn_get] at h

/-- A list with the same items is a rearrangement. -/
theorem exists_rearranged_eq {items other : List α} (h : other.Perm items) :
    ∃ σ, rearranged items σ = other := by
  classical
  have hlength := h.length_eq
  let σ : Perm (Fin items.length) :=
    (finCongr hlength).symm.trans ⟨h.idxBij, h.symm.idxBij, h.idxBij_rightInverse_idxBij_symm,
      h.idxBij_leftInverse_idxBij_symm⟩
  refine ⟨σ, List.ext_getElem (by simp [rearranged, hlength]) fun k hk hk' => ?_⟩
  have hget := h.getElem_idxBij_eq_getElem ⟨k, hk'⟩
  simp only [rearranged, List.getElem_ofFn]
  exact hget

/-- **The orderings of a list are the lists with the same items.** -/
theorem mem_orderings {items other : List α} : other ∈ orderings items ↔ other.Perm items := by
  rw [← Multiset.mem_coe, coe_orderings, Multiset.mem_map]
  constructor
  · rintro ⟨σ, -, rfl⟩
    exact perm_rearranged items σ
  · intro h
    obtain ⟨σ, hσ⟩ := exists_rearranged_eq h
    exact ⟨σ, Finset.mem_univ σ, hσ⟩

/-- Different items tell all rearrangements apart. -/
theorem nodup_orderings {items : List α} (h : items.Nodup) : (orderings items).Nodup := by
  have hinj : Function.Injective (rearranged items) := by
    intro σ τ heq
    have hget := List.ofFn_injective heq
    exact Equiv.ext fun k => List.nodup_iff_injective_get.mp h (congrFun hget k)
  rw [← Multiset.coe_nodup, coe_orderings]
  exact Finset.univ.nodup.map hinj

/-- **The orderings of a list are complete and free of repetition.** A list of `n` items has `n!`
orderings, and the listing stops of itself after these. The first is the list itself, and each comes
from the one before by exchanging two positions. Taken with their multiplicities they are the
rearrangements of the list by all permutations of its positions, one for each. So the
orderings are the lists with the same items, and if the items differ from each other no ordering is
listed twice. -/
theorem orderings_are_complete (items : List α) :
    (orderings items).length = items.length.factorial ∧
    (∀ extra, listFrom (items.length.factorial + extra) (List.replicate items.length 0) items =
      orderings items) ∧
    (orderings items).head? = some items ∧
    (orderings items).IsChain (fun before after => ∃ i j, i < j ∧ j < items.length ∧
      ∀ k, after[k]? = before[swap i j k]?) ∧
    (orderings items : Multiset (List α)) =
      (Finset.univ : Finset (Perm (Fin items.length))).val.map
        (fun σ => List.ofFn fun k => items.get (σ k)) ∧
    (∀ other, other ∈ orderings items ↔ other.Perm items) ∧
    (items.Nodup → (orderings items).Nodup) := by
  refine ⟨?_, fun extra => ?_, ?_, isChain_listFrom List.length_replicate, coe_orderings items,
    fun _ => mem_orderings, nodup_orderings⟩
  · rw [orderings_eq_map_visits, List.length_map, length_visits]
  · rw [orderings_eq_map_visits, listFrom_eq_map_visits]
  · obtain ⟨bound, hbound⟩ := Nat.exists_eq_succ_of_ne_zero (Nat.factorial_ne_zero items.length)
    rw [orderings, count_eq_factorial, hbound, head?_listFrom]

/-- Four items that differ from each other have twenty-four orderings, no two of them the same. -/
theorem orderings_are_complete_four :
    (orderings [1, 2, 3, 4]).length = 24 ∧ (orderings [1, 2, 3, 4]).Nodup ∧
      [4, 3, 2, 1] ∈ orderings [1, 2, 3, 4] := by
  obtain ⟨hlength, -, -, -, -, hmem, hnodup⟩ := orderings_are_complete [1, 2, 3, 4]
  exact ⟨hlength, hnodup (by decide), (hmem _).mpr (by decide)⟩

/-- Items that look alike make orderings that look alike. -/
example : orderings [7, 7, 5] = [[7, 7, 5], [7, 7, 5], [5, 7, 7], [7, 5, 7], [7, 5, 7], [5, 7, 7]] :=
  rfl

end Intcode.Orderings
