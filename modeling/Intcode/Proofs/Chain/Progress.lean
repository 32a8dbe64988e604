import Intcode.Proofs.Chain.Schedule

/-!
# Progress

When does a network come to rest with machines that have not ended, so that `run_chain` waits for
ever? A running machine that cannot fire waits for a value, so its inbox is empty and somebody still
holds the sending end of it. The only candidate is the machine before it, which has to run. From
there the argument goes backwards through the chain: in a series it ends at the first machine, whose
inbox nobody holds, and in a loop it comes around.

Results:
* `fire?_eq_none_iff`: a running machine cannot fire exactly if it is starved and its inbox is held.
* `exists_fire?_of_series`: a series in which some machine runs is not at rest.
* `AtRest.isRunning_of_feedback`: a loop at rest in which some machine runs has no machine that has
  ended.
* **`chain_progress`**: the two for every network that a chain reaches.
-/

namespace Intcode.Chain

namespace Network

/-- Machine `u` holds the sending end of the inbox of machine `j`: it runs, and what it sends
goes there. -/
def Holds (net : Network) (u j : Nat) : Prop :=
  net.listener? u = some j ∧ ∃ node, net.nodes[u]? = some node ∧ node.isRunning = true

theorem isFed_iff_holds {net : Network} {j : Nat} (hj : j < net.nodes.length) :
    net.isFed j = true ↔ ∃ u, net.Holds u j := by
  rw [isFed_iff hj]
  constructor
  · rintro ⟨u, node, hu, hr, hl⟩
    exact ⟨u, hl, node, hu, hr⟩
  · rintro ⟨u, hl, node, hu, hr⟩
    exact ⟨u, node, hu, hr, hl⟩

/-- **A running machine cannot fire exactly if it is starved and its inbox is held.** -/
theorem fire?_eq_none_iff {net : Network} {j : Nat} {node : Node}
    (hj : net.nodes[j]? = some node) (hr : node.isRunning = true) :
    net.fire? j = none ↔ node.Starved ∧ ∃ u, net.Holds u j := by
  rw [fire?_eq hj, Option.map_eq_none_iff, Node.turn_eq_none_iff hr,
    isFed_iff_holds (List.getElem?_eq_some_iff.mp hj).1]

/-- The machine that holds the inbox of a machine is the one that feeds it. -/
theorem Holds.feeder? {net : Network} {u j : Nat} (h : net.Holds u j) :
    net.feeder? j = some u := by
  obtain ⟨hl, node, hu, -⟩ := h
  have hlt := (List.getElem?_eq_some_iff.mp hu).1
  exact (feeder?_eq_iff hlt (listener?_lt hlt hl)).mpr hl

/-! ## Series -/

/-- In a series only the predecessor can hold an inbox, and nobody holds the first. -/
theorem Holds.succ_eq_of_series {net : Network} {u j : Nat} (ht : net.topology = .series)
    (h : net.Holds u j) : u + 1 = j := by
  have hf := h.feeder?
  simp only [Network.feeder?, ht] at hf
  split at hf
  · exact absurd hf (by simp)
  · obtain rfl := Option.some.inj hf
    omega

/-- **A series in which some machine runs is not at rest.** -/
theorem exists_fire?_of_series {net : Network} (ht : net.topology = .series) {j : Nat}
    {node : Node} (hj : net.nodes[j]? = some node) (hr : node.isRunning = true) :
    ∃ i after, net.fire? i = some after := by
  -- backwards from `j`: whoever keeps `j` from firing runs and stands before it
  induction j generalizing node with
  | zero =>
    cases hfire : net.fire? 0 with
    | some after => exact ⟨0, after, hfire⟩
    | none =>
      obtain ⟨-, u, hu⟩ := (fire?_eq_none_iff hj hr).mp hfire
      exact absurd (hu.succ_eq_of_series ht) (by omega)
  | succ j ih =>
    cases hfire : net.fire? (j + 1) with
    | some after => exact ⟨j + 1, after, hfire⟩
    | none =>
      obtain ⟨-, u, hu⟩ := (fire?_eq_none_iff hj hr).mp hfire
      have hsucc := hu.succ_eq_of_series ht
      obtain rfl : u = j := by omega
      obtain ⟨-, before, hb, hbr⟩ := hu
      exact ih hb hbr

/-! ## Loops -/

theorem feeder?_succ_of_feedback {net : Network} (ht : net.topology = .feedback) {j : Nat}
    (hj : j + 1 < net.nodes.length) : net.feeder? (j + 1) = some j := by
  simp only [feeder?, ht, Option.some.injEq]
  rw [show j + 1 + net.nodes.length - 1 = j + net.nodes.length by omega, Nat.add_mod_right]
  exact Nat.mod_eq_of_lt (by omega)

theorem feeder?_zero_of_feedback {net : Network} (ht : net.topology = .feedback)
    (hpos : 0 < net.nodes.length) : net.feeder? 0 = some (net.nodes.length - 1) := by
  simp only [feeder?, ht, Option.some.injEq, Nat.zero_add]
  exact Nat.mod_eq_of_lt (by omega)

/-- At rest, the machine that feeds a running machine runs. -/
theorem AtRest.isRunning_feeder {net : Network} (hrest : net.AtRest) {j u : Nat} {node : Node}
    (hj : net.nodes[j]? = some node) (hr : node.isRunning = true)
    (hu : net.feeder? j = some u) :
    ∃ before, net.nodes[u]? = some before ∧ before.isRunning = true := by
  obtain ⟨-, w, hw⟩ := (fire?_eq_none_iff hj hr).mp (hrest j)
  rw [hw.feeder?] at hu
  obtain rfl := Option.some.inj hu
  exact hw.2

/-- At rest, all machines of a loop before a running one run. -/
theorem AtRest.isRunning_le {net : Network} (ht : net.topology = .feedback)
    (hrest : net.AtRest) {j i : Nat} {node : Node} (hj : net.nodes[j]? = some node)
    (hr : node.isRunning = true) (hij : i ≤ j) :
    ∃ before, net.nodes[i]? = some before ∧ before.isRunning = true := by
  induction j generalizing node with
  | zero =>
    obtain rfl : i = 0 := by omega
    exact ⟨node, hj, hr⟩
  | succ j ih =>
    by_cases hi : i = j + 1
    · subst hi
      exact ⟨node, hj, hr⟩
    · have hlt := (List.getElem?_eq_some_iff.mp hj).1
      obtain ⟨before, hb, hbr⟩ :=
        hrest.isRunning_feeder hj hr (feeder?_succ_of_feedback ht hlt)
      exact ih hb hbr (by omega)

/-- **A loop at rest in which some machine runs has no machine that has ended.** -/
theorem AtRest.isRunning_of_feedback {net : Network} (ht : net.topology = .feedback)
    (hrest : net.AtRest) {j i : Nat} {node other : Node} (hj : net.nodes[j]? = some node)
    (hr : node.isRunning = true) (hi : net.nodes[i]? = some other) : other.isRunning = true := by
  have hlt := (List.getElem?_eq_some_iff.mp hj).1
  have hlti := (List.getElem?_eq_some_iff.mp hi).1
  -- down to the first machine, around to the last, and down again
  obtain ⟨first, hfirst, hfr⟩ := hrest.isRunning_le ht hj hr (Nat.zero_le j)
  obtain ⟨last, hlast, hlr⟩ :=
    hrest.isRunning_feeder hfirst hfr (feeder?_zero_of_feedback ht (by omega))
  obtain ⟨same, hsame, hsr⟩ :=
    hrest.isRunning_le ht hlast hlr (show i ≤ net.nodes.length - 1 by omega)
  rw [hi] at hsame
  obtain rfl := Option.some.inj hsame
  exact hsr

/-- A running machine whose feeder has ended can fire. -/
theorem exists_fire?_of_listener? {net : Network} {u j : Nat} {ended node : Node}
    (hu : net.nodes[u]? = some ended) (hend : ended.isRunning = false)
    (hl : net.listener? u = some j) (hj : net.nodes[j]? = some node)
    (hr : node.isRunning = true) : ∃ after, net.fire? j = some after := by
  cases hfire : net.fire? j with
  | some after => exact ⟨after, rfl⟩
  | none =>
    obtain ⟨-, w, hw⟩ := (fire?_eq_none_iff hj hr).mp hfire
    obtain ⟨hlw, holder, hholder, hrw⟩ := hw
    obtain rfl := listener?_inj (List.getElem?_eq_some_iff.mp hu).1
      (List.getElem?_eq_some_iff.mp hholder).1 hl hlw
    rw [hu] at hholder
    obtain rfl := Option.some.inj hholder
    rw [hend] at hrw
    exact absurd hrw (by simp)

end Network

/-! ## Chains -/

/-- **Progress of a chain**, in every network that it reaches, faults allowed. A running machine
cannot fire only if it waits at its empty inbox while somebody holds the sending end. A series
with a machine that runs is not at rest. A loop at rest with a machine that runs is one in which
nobody has ended and everybody waits. So nobody waits for a machine that has ended, in either
topology. -/
theorem chain_progress (chain : Chain) {schedule : List Nat} {net : Network}
    (hrun : chain.wire.replay schedule = some net) :
    (∀ (j : Nat) (node : Node), net.nodes[j]? = some node → node.isRunning = true →
      (net.fire? j = none ↔ node.Starved ∧ ∃ u, net.Holds u j)) ∧
    (chain.topology = .series → (∃ node ∈ net.nodes, node.isRunning = true) →
      ∃ j after, net.fire? j = some after) ∧
    (chain.topology = .feedback → (∃ node ∈ net.nodes, node.isRunning = true) → net.AtRest →
      ∀ node ∈ net.nodes, node.isRunning = true ∧ node.Starved) ∧
    ∀ (u j : Nat) (ended node : Node), net.nodes[u]? = some ended → ended.isRunning = false →
      net.listener? u = some j → net.nodes[j]? = some node → node.isRunning = true →
      ∃ after, net.fire? j = some after := by
  have ht := Network.topology_of_replay hrun
  refine ⟨fun j node => Network.fire?_eq_none_iff, ?_, ?_,
    fun u j ended node => Network.exists_fire?_of_listener?⟩
  · rintro hseries ⟨node, hn, hr⟩
    obtain ⟨j, hj⟩ := List.mem_iff_getElem?.mp hn
    exact Network.exists_fire?_of_series (ht.trans hseries) hj hr
  · rintro hloop ⟨node, hn, hr⟩ hrest other ho
    obtain ⟨j, hj⟩ := List.mem_iff_getElem?.mp hn
    obtain ⟨i, hi⟩ := List.mem_iff_getElem?.mp ho
    have hother := hrest.isRunning_of_feedback (ht.trans hloop) hj hr hi
    exact ⟨hother, ((Network.fire?_eq_none_iff hi hother).mp (hrest i)).1⟩

/-- Two machines that need three values each; the first finds two and the second one. -/
def starving (topology : Topology) : Chain where
  program := ⟨[3, 0, 3, 0, 3, 0, 99]⟩
  phases := [7, 8]
  topology := topology

/-- Both have taken what there was. In series the first can still fire, in a loop everybody
waits. -/
theorem chain_progress_starving :
    (∃ net, (starving .series).wire.replay [0, 0, 1] = some net ∧
      ∃ j after, net.fire? j = some after) ∧
    ∃ net, (starving .feedback).wire.replay [0, 0, 1] = some net ∧ net.AtRest ∧
      ∀ node ∈ net.nodes, node.isRunning = true ∧ node.Starved := by
  have hseries : ((starving .series).wire.replay [0, 0, 1]).any
      (fun net => ∃ node ∈ net.nodes, node.isRunning = true) = true := by decide
  have hloop : ((starving .feedback).wire.replay [0, 0, 1]).any
      (fun net => (∃ node ∈ net.nodes, node.isRunning = true) ∧ net.AtRest) = true := by decide
  obtain ⟨net, hrun, hnet⟩ := (Option.any_eq_true _ _).mp hseries
  obtain ⟨net', hrun', hnet'⟩ := (Option.any_eq_true _ _).mp hloop
  obtain ⟨hr', hrest⟩ := of_decide_eq_true hnet'
  exact ⟨⟨net, hrun, (chain_progress (starving .series) hrun).2.1 rfl (of_decide_eq_true hnet)⟩,
    ⟨net', hrun', hrest, (chain_progress (starving .feedback) hrun').2.2.1 rfl hr' hrest⟩⟩

end Intcode.Chain
