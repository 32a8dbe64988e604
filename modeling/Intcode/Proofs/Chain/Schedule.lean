import Intcode.Proofs.Chain.Firing

/-!
# Schedules

A schedule is the list of machines in the order in which they fire, as the threads of `run_chain`
happen to run; `Network.replay` follows it and fails where a machine named by it cannot fire. So the
runs of a network are its replayable schedules, and a run that cannot be continued is one that ends
`AtRest`.

Results:
* `replay_induction`: what every firing preserves, every schedule preserves.
* `isRunning_of_fire?`, `faultFree_of_fire?`: an end is final, so a machine that runs after a firing
  ran before it, and a network without faults had none before.
* `settle_eq_some`: `settle` follows one of the schedules, to its end.
* `verdict_eq_finished_iff`: a network has a result exactly if all its machines have halted.
-/

namespace Intcode.Chain.Network

/-- The network after the machines of a schedule have fired, each in its turn. -/
def replay : Network → List Nat → Option Network
  | net, [] => some net
  | net, j :: rest =>
    match net.fire? j with
    | none => none
    | some after => replay after rest

/-- No machine can fire. -/
def AtRest (net : Network) : Prop := ∀ j, net.fire? j = none

/-- No machine has faulted. -/
def FaultFree (net : Network) : Prop := ∀ node ∈ net.nodes, node.fault = none

/-- Every machine has halted, and none has faulted. -/
def AllHalted (net : Network) : Prop :=
  ∀ node ∈ net.nodes, node.state.halted = true ∧ node.fault = none

/-- The last output of the last machine. -/
def signal (net : Network) : Option Word := net.nodes.getLast?.bind fun node => node.state.last

theorem AllHalted.faultFree {net : Network} (h : net.AllHalted) : net.FaultFree :=
  fun node hn => (h node hn).2

/-! ## Firings -/

theorem lt_of_fire? {net after : Network} {j : Nat} (h : net.fire? j = some after) :
    j < net.nodes.length := by
  obtain ⟨node, turned, sent, hj, -, -⟩ := fire?_eq_some_iff.mp h
  exact (List.getElem?_eq_some_iff.mp hj).1

theorem topology_of_fire? {net after : Network} {j : Nat} (h : net.fire? j = some after) :
    after.topology = net.topology := by
  obtain ⟨node, turned, sent, -, -, rfl⟩ := fire?_eq_some_iff.mp h
  rfl

theorem length_of_fire? {net after : Network} {j : Nat} (h : net.fire? j = some after) :
    after.nodes.length = net.nodes.length := by
  obtain ⟨node, turned, sent, -, -, rfl⟩ := fire?_eq_some_iff.mp h
  exact length_pass _ _ _ _

/-- Who feeds whom does not change. -/
theorem feeder?_of_fire? {net after : Network} {j : Nat} (h : net.fire? j = some after) :
    after.feeder? = net.feeder? := by
  obtain ⟨node, turned, sent, -, -, rfl⟩ := fire?_eq_some_iff.mp h
  exact feeder?_pass _ _ _ _

/-- **An end is final**: a machine that runs after a firing ran before it. -/
theorem isRunning_of_fire? {net after : Network} {i j : Nat} {node : Node}
    (h : net.fire? j = some after) (hi : after.nodes[i]? = some node)
    (hr : node.isRunning = true) :
    ∃ before, net.nodes[i]? = some before ∧ before.isRunning = true := by
  have hlt := lt_of_fire? h
  obtain ⟨fired, turned, sent, hj, hturn, rfl⟩ := fire?_eq_some_iff.mp h
  by_cases hij : i = j
  · subst hij
    exact ⟨fired, hj, Node.isRunning_of_turn hturn⟩
  · rw [getElem?_pass hlt, if_neg hij] at hi
    obtain ⟨before, hb, rfl⟩ := Option.map_eq_some_iff.mp hi
    exact ⟨before, hb, hr⟩

/-- An inbox that is open after a firing was open before it. -/
theorem isFed_of_fire? {net after : Network} {i j : Nat} (h : net.fire? j = some after)
    (hi : after.isFed i = true) : net.isFed i = true := by
  unfold isFed at hi ⊢
  rw [feeder?_of_fire? h] at hi
  cases hf : net.feeder? i with
  | none => rw [hf] at hi; exact absurd hi (by simp)
  | some u =>
    rw [hf] at hi
    obtain ⟨node, hu, hr⟩ := (Option.any_eq_true _ _).mp hi
    obtain ⟨before, hb, hbr⟩ := isRunning_of_fire? h hu hr
    simp [hb, hbr]

/-- A network without faults had none before. -/
theorem faultFree_of_fire? {net after : Network} {j : Nat} (h : net.fire? j = some after)
    (hok : after.FaultFree) : net.FaultFree := by
  have hlt := lt_of_fire? h
  obtain ⟨fired, turned, sent, hj, hturn, rfl⟩ := fire?_eq_some_iff.mp h
  intro node hn
  obtain ⟨i, hi⟩ := List.mem_iff_getElem?.mp hn
  by_cases hij : i = j
  · subst hij
    rw [hj] at hi
    obtain rfl := Option.some.inj hi
    exact Node.fault_eq_none_of_turn hturn
  · have hfault := hok _ (List.mem_of_getElem? (getElem?_pass_of_ne hlt hi hij turned sent))
    rwa [Node.arrive_fault] at hfault

/-- Without faults everybody is heard. -/
theorem FaultFree.isHeard {net : Network} (h : net.FaultFree) (j : Nat) : net.isHeard j = true := by
  unfold Network.isHeard
  rcases net.listener? j with _ | k
  · rfl
  · unfold isDeaf
    rcases hk : net.nodes[k]? with _ | node
    · simp [hk]
    · simp [hk, h node (List.mem_of_getElem? hk)]

/-! ## Following a schedule -/

theorem replay_cons_eq_some {net final : Network} {j : Nat} {rest : List Nat} :
    net.replay (j :: rest) = some final ↔
      ∃ after, net.fire? j = some after ∧ after.replay rest = some final := by
  rw [replay]
  cases net.fire? j <;> simp

theorem replay_append : ∀ (net : Network) (xs ys : List Nat),
    net.replay (xs ++ ys) = (net.replay xs).bind fun after => after.replay ys
  | net, [], ys => rfl
  | net, j :: xs, ys => by
    simp only [List.cons_append, replay]
    cases net.fire? j with
    | none => rfl
    | some after => exact replay_append after xs ys

/-- **What every firing preserves, every schedule preserves.** -/
theorem replay_induction {P : Network → Prop}
    (hstep : ∀ {net after : Network} {j : Nat}, P net → net.fire? j = some after → P after) :
    ∀ {net final : Network} (schedule : List Nat), P net → net.replay schedule = some final →
      P final
  | net, final, [], hp, h => by
    obtain rfl := Option.some.inj h
    exact hp
  | net, final, j :: rest, hp, h => by
    obtain ⟨after, hj, hrest⟩ := replay_cons_eq_some.mp h
    exact replay_induction hstep rest (hstep hp hj) hrest

theorem topology_of_replay {net final : Network} {schedule : List Nat}
    (h : net.replay schedule = some final) : final.topology = net.topology :=
  replay_induction (P := fun other => other.topology = net.topology)
    (fun hp hj => (topology_of_fire? hj).trans hp) schedule rfl h

theorem length_of_replay {net final : Network} {schedule : List Nat}
    (h : net.replay schedule = some final) : final.nodes.length = net.nodes.length :=
  replay_induction (P := fun other => other.nodes.length = net.nodes.length)
    (fun hp hj => (length_of_fire? hj).trans hp) schedule rfl h

theorem faultFree_of_replay {net final : Network} : ∀ {schedule : List Nat},
    net.replay schedule = some final → final.FaultFree → net.FaultFree
  | [], h, hok => by
    obtain rfl := Option.some.inj h
    exact hok
  | j :: rest, h, hok => by
    obtain ⟨after, hj, hrest⟩ := replay_cons_eq_some.mp h
    exact faultFree_of_fire? hj (faultFree_of_replay hrest hok)

/-! ## Rest -/

/-- A machine that has ended does not fire. -/
theorem fire?_eq_none_of_not_isRunning {net : Network} {j : Nat} {node : Node}
    (hj : net.nodes[j]? = some node) (hr : node.isRunning = false) : net.fire? j = none := by
  rw [fire?_eq hj]
  simp [Node.turn, hr]

theorem fire?_eq_none_of_le {net : Network} {j : Nat} (h : net.nodes.length ≤ j) :
    net.fire? j = none := by
  unfold fire?
  rw [List.getElem?_eq_none h]

theorem atRest_iff {net : Network} : net.AtRest ↔ ∀ j < net.nodes.length, net.fire? j = none := by
  refine ⟨fun h j _ => h j, fun h j => ?_⟩
  by_cases hj : j < net.nodes.length
  · exact h j hj
  · exact fire?_eq_none_of_le (by omega)

instance (net : Network) : Decidable net.AtRest := decidable_of_iff _ atRest_iff.symm

instance (net : Network) : Decidable net.AllHalted :=
  inferInstanceAs (Decidable (∀ node ∈ net.nodes, node.state.halted = true ∧ node.fault = none))

theorem AllHalted.atRest {net : Network} (h : net.AllHalted) : net.AtRest := by
  intro j
  cases hj : net.nodes[j]? with
  | none => exact fire?_eq_none_of_le (List.getElem?_eq_none_iff.mp hj)
  | some node =>
    apply fire?_eq_none_of_not_isRunning hj
    simp [Node.isRunning, (h node (List.mem_of_getElem? hj)).1]

/-- `fireNext?` finds a machine that can fire, if there is one. -/
theorem fireNext?_eq_none_iff {net : Network} {last : Nat} :
    net.fireNext? last = none ↔ net.AtRest := by
  rw [atRest_iff]
  unfold fireNext?
  cases hl : net.fire? last with
  | none => simp
  | some after =>
    have hlt := lt_of_fire? hl
    refine ⟨fun h => absurd h (by simp), fun h => ?_⟩
    rw [h last hlt] at hl
    exact absurd hl (by simp)

theorem fire?_of_fireNext? {net after : Network} {last j : Nat}
    (h : net.fireNext? last = some (j, after)) : net.fire? j = some after := by
  unfold fireNext? at h
  cases hl : net.fire? last with
  | none =>
    rw [hl] at h
    obtain ⟨i, -, hi⟩ := List.exists_of_findSome?_eq_some h
    obtain ⟨other, ho, heq⟩ := Option.map_eq_some_iff.mp hi
    cases heq
    exact ho
  | some other =>
    rw [hl] at h
    cases h
    exact hl

/-- `settle` follows one of the schedules, to its end, and has fuel left then. -/
theorem exists_replay_of_settle : ∀ {fuel last : Nat} {net final : Network},
    net.settle fuel last = some final →
      ∃ schedule, net.replay schedule = some final ∧ final.AtRest ∧ schedule.length < fuel
  | 0, _, _, _, h => absurd h (by simp [settle])
  | fuel + 1, last, net, final, h => by
    rw [settle] at h
    cases hn : net.fireNext? last with
    | none =>
      rw [hn] at h
      obtain rfl := Option.some.inj h
      exact ⟨[], rfl, fireNext?_eq_none_iff.mp hn, Nat.zero_lt_succ fuel⟩
    | some pair =>
      obtain ⟨j, after⟩ := pair
      rw [hn] at h
      obtain ⟨rest, hrest, hfinal, hlen⟩ := exists_replay_of_settle h
      exact ⟨j :: rest, replay_cons_eq_some.mpr ⟨after, fire?_of_fireNext? hn, hrest⟩, hfinal,
        Nat.succ_lt_succ hlen⟩

/-- **`settle` follows one of the schedules, to its end.** -/
theorem settle_eq_some {fuel last : Nat} {net final : Network}
    (h : net.settle fuel last = some final) :
    ∃ schedule, net.replay schedule = some final ∧ final.AtRest := by
  obtain ⟨schedule, hrun, hrest, -⟩ := exists_replay_of_settle h
  exact ⟨schedule, hrun, hrest⟩

/-! ## Results -/

theorem rootFault?_eq_none_iff {faults : List Fault} : rootFault? faults = none ↔ faults = [] := by
  unfold rootFault?
  cases faults with
  | nil => simp
  | cons fault rest => cases List.find? _ _ <;> simp

/-- All machines have halted exactly if none runs and none has a fault to report. -/
theorem allHalted_iff {net : Network} :
    net.AllHalted ↔ net.nodes.any Node.isRunning = false ∧ net.nodes.filterMap Node.fault = [] := by
  rw [List.any_eq_false, List.filterMap_eq_nil_iff]
  constructor
  · intro h
    exact ⟨fun node hn => by simp [Node.isRunning, (h node hn).1], fun node hn => (h node hn).2⟩
  · rintro ⟨hrun, hfault⟩ node hn
    have hr := hrun node hn
    rw [Node.isRunning_iff, not_and] at hr
    exact ⟨by simpa using fun h => hr h (hfault node hn), hfault node hn⟩

/-- **A network has a result exactly if all its machines have halted**, and then it is the last
output of the last machine. -/
theorem verdict_eq_finished_iff {net : Network} {result : Option Word} :
    net.verdict = .finished result ↔ net.AllHalted ∧ net.signal = result := by
  rw [allHalted_iff, ← rootFault?_eq_none_iff]
  unfold verdict signal
  cases net.nodes.any Node.isRunning with
  | true => simp
  | false => cases rootFault? (net.nodes.filterMap Node.fault) <;> simp

end Intcode.Chain.Network
