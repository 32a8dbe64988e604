import Intcode.Proofs.Chain.Progress
import Intcode.Proofs.Chain.RootCause

/-!
# Where a cascade around a loop begins

A machine starves when its inbox is empty and the machine before it has ended. If that one has
halted, the starving begins here; if it has faulted, it is a consequence. In a loop there is always
a machine where it begins (`Begins`), or a fault that no hang-up caused: the first machine to starve
did so behind one that had halted, for nobody had faulted then, and what is halted in a loop is
somewhere followed by what is not.

`root_fault` (`Network.rootFault?`) reports the first of several starved machines in the order of
the chain. That is where the cascade begins as long as it does not wrap around: everybody before the
first starved machine has halted. But the machine before the very first is the last one, and if both
have starved, the report is a consequence, and the cascade began elsewhere (`loop_misses_origin`).

Results:
* `Sparked.fire?`: nobody starves unless somebody has halted, or has a fault of its own.
* `forall_of_feeder?`: what passes from each machine of a loop to the next is true of all of them.
* `exists_begins`: a cascade of starved machines begins somewhere.
* `hasFault_zero_or_begins`: it begins at the reported machine, unless that is the first of the
  chain.
* **`loop_reports_origin_iff`**: exactly when a loop reports where a cascade began.
* **`loop_misses_origin`**: a loop that does not.
-/

namespace Intcode.Chain

namespace Network

/-! ## Ends of machines -/

/-- Machine `u` has halted normally. -/
def HasHalted (net : Network) (u : Nat) : Prop :=
  ∃ node, net.nodes[u]? = some node ∧ node.state.halted = true ∧ node.fault = none

/-- Machine `j` has ended with this fault. -/
def HasFault (net : Network) (j : Nat) (fault : Fault) : Prop :=
  ∃ node, net.nodes[j]? = some node ∧ node.fault = some fault

/-- **A cascade begins with this fault of machine `j`**: it has starved although the machine before
it has halted normally, so no other fault is to blame. -/
def Begins (net : Network) (j : Nat) (fault : Fault) : Prop :=
  net.HasFault j fault ∧ (∃ ip, fault = .inputClosed ip) ∧
    ∃ u, net.feeder? j = some u ∧ net.HasHalted u

/-- **The fault is the origin of a cascade**: no hang-up caused it, or no fault did. -/
def IsOrigin (net : Network) (fault : Fault) : Prop :=
  fault.IsRoot ∨ ∃ j, net.Begins j fault

instance (net : Network) (u : Nat) : Decidable (net.HasHalted u) :=
  decidable_of_iff (∃ node ∈ net.nodes[u]?, node.state.halted = true ∧ node.fault = none) Iff.rfl

instance (net : Network) (j : Nat) (fault : Fault) : Decidable (net.HasFault j fault) :=
  decidable_of_iff (∃ node ∈ net.nodes[j]?, node.fault = some fault) Iff.rfl

variable {net after : Network} {i j u : Nat} {fault : Fault}

theorem HasFault.lt (h : net.HasFault j fault) : j < net.nodes.length :=
  (List.getElem?_eq_some_iff.mp h.choose_spec.1).1

theorem HasHalted.not_hasFault (h : net.HasHalted u) : ¬ net.HasFault u fault := by
  rintro ⟨node, hnode, hfault⟩
  obtain ⟨other, hother, -, hnone⟩ := h
  rw [hnode] at hother
  obtain rfl := Option.some.inj hother
  rw [hfault] at hnone
  cases hnone

/-- A machine that has ended has halted or faulted. -/
theorem hasHalted_or_hasFault {node : Node} (hnode : net.nodes[u]? = some node)
    (hend : node.isRunning = false) : net.HasHalted u ∨ ∃ fault, net.HasFault u fault := by
  cases hfault : node.fault with
  | some fault => exact .inr ⟨fault, node, hnode, hfault⟩
  | none =>
    refine .inl ⟨node, hnode, ?_, hfault⟩
    cases hhalted : node.state.halted with
    | true => rfl
    | false => rw [← hend, Node.isRunning_iff.mpr ⟨hhalted, hfault⟩]

/-- A halt is final. -/
theorem HasHalted.fire? (hu : net.HasHalted u) (h : net.fire? i = some after) :
    after.HasHalted u := by
  obtain ⟨node, hnode, hhalted, hfault⟩ := hu
  have hlt := lt_of_fire? h
  obtain ⟨fired, turned, sent, hfired, hturn, rfl⟩ := fire?_eq_some_iff.mp h
  have hne : u ≠ i := by
    rintro rfl
    rw [hfired] at hnode
    obtain rfl := Option.some.inj hnode
    have hruns := (Node.isRunning_iff.mp (Node.isRunning_of_turn hturn)).1
    rw [hhalted] at hruns
    cases hruns
  exact ⟨_, getElem?_pass_of_ne hlt hnode hne turned sent, hhalted, hfault⟩

/-! ## Nobody starves out of nothing -/

/-- If a machine has starved, then some machine has a fault of its own or has halted. -/
def Sparked (net : Network) : Prop :=
  ∀ j ip, net.HasFault j (.inputClosed ip) → net.HasRoot ∨ ∃ u, net.HasHalted u

/-- Whoever has ended shows that some machine has a fault of its own or has halted. -/
theorem Sparked.of_ended (hspark : net.Sparked) (hnet : net.Blamed) {node : Node}
    (hnode : net.nodes[u]? = some node) (hend : node.isRunning = false) :
    net.HasRoot ∨ ∃ u, net.HasHalted u := by
  by_cases hroot : net.HasRoot
  · exact .inl hroot
  · rcases hasHalted_or_hasFault hnode hend with hhalted | ⟨fault, hfault⟩
    · exact .inr ⟨u, hhalted⟩
    · obtain ⟨ip, rfl⟩ := hnet.exists_eq_inputClosed hroot hfault
      exact hspark u ip hfault

/-- In a loop everybody is fed by somebody. -/
theorem exists_feeder?_of_feedback (ht : net.topology = .feedback) (hj : j < net.nodes.length) :
    ∃ u node, net.feeder? j = some u ∧ net.nodes[u]? = some node := by
  cases hfeeder : net.feeder? j with
  | none => simp [feeder?, ht] at hfeeder
  | some u => exact ⟨u, _, rfl, List.getElem?_eq_getElem (feeder?_lt hj hfeeder)⟩

/-- **A firing keeps it so**: whoever starves does so behind a machine that has ended. -/
theorem Sparked.fire? (hspark : net.Sparked) (hnet : net.Blamed) (ht : net.topology = .feedback)
    (h : net.fire? i = some after) : after.Sparked := by
  have hkeep : net.HasRoot ∨ (∃ u, net.HasHalted u) → after.HasRoot ∨ ∃ u, after.HasHalted u := by
    rintro (hroot | ⟨u, hu⟩)
    · exact .inl (hroot.fire? h)
    · exact .inr ⟨u, hu.fire? h⟩
  rintro j ip ⟨later, hlater, hfault⟩
  rcases fault_of_fire? h hlater hfault with
    ⟨node, hnode, hsame⟩ | hroot | ⟨hfed, -⟩ | ⟨-, -, ip', hip⟩
  · exact hkeep (hspark j ip ⟨node, hnode, hsame⟩)
  · exact absurd hroot (Fault.not_isRoot_inputClosed ip)
  · have hj : j < net.nodes.length := by
      rw [← length_of_fire? h]
      exact (List.getElem?_eq_some_iff.mp hlater).1
    obtain ⟨u, node, hfeeder, hnode⟩ := exists_feeder?_of_feedback ht hj
    have hend : node.isRunning = false := by
      simpa [isFed, hfeeder, hnode] using hfed
    exact hkeep (hspark.of_ended hnet hnode hend)
  · cases hip

/-! ## Around the loop -/

/-- What passes from each machine of a loop to the next passes up the chain. -/
theorem of_le_of_feeder? (ht : net.topology = .feedback) {P : Nat → Prop}
    (hnext : ∀ u j, j < net.nodes.length → net.feeder? j = some u → P u → P j) (hij : i ≤ j)
    (hj : j < net.nodes.length) (h : P i) : P j := by
  induction hij with
  | refl => exact h
  | @step k hik ih =>
    exact hnext k (k + 1) hj (feeder?_succ_of_feedback ht hj) (ih (Nat.lt_of_succ_lt hj))

/-- **What passes from each machine of a loop to the next is true of all of them**, if it is true
of one. -/
theorem forall_of_feeder? (ht : net.topology = .feedback) {P : Nat → Prop}
    (hnext : ∀ u j, j < net.nodes.length → net.feeder? j = some u → P u → P j)
    (hu : u < net.nodes.length) (h : P u) (hj : j < net.nodes.length) : P j := by
  have hpos : 0 < net.nodes.length := by omega
  -- up to the last machine, around to the first, and up again
  have hlast := of_le_of_feeder? ht hnext (show u ≤ net.nodes.length - 1 by omega) (by omega) h
  have hfirst := hnext _ 0 hpos (feeder?_zero_of_feedback ht hpos) hlast
  exact of_le_of_feeder? ht hnext (Nat.zero_le j) hj hfirst

/-- **A cascade of starved machines begins somewhere.** -/
theorem exists_begins (ht : net.topology = .feedback) (hnet : net.Blamed) (hspark : net.Sparked)
    (hend : net.Ended) (hfaults : ¬ net.FaultFree) (hroot : ¬ net.HasRoot) :
    ∃ j fault, net.Begins j fault := by
  have hended : ∀ j, j < net.nodes.length → net.HasHalted j ∨ ∃ fault, net.HasFault j fault :=
    fun j hj => hasHalted_or_hasFault (List.getElem?_eq_getElem hj) (hend _ (List.getElem_mem hj))
  by_cases hbegins : ∃ j fault, net.Begins j fault
  · exact hbegins
  · -- otherwise halting passes from each machine to the next, and nobody has faulted
    refine absurd (fun node hn => ?_) hfaults
    obtain ⟨j, hj⟩ := List.mem_iff_getElem?.mp hn
    cases hfault : node.fault with
    | none => rfl
    | some fault =>
      have hlt := (List.getElem?_eq_some_iff.mp hj).1
      obtain ⟨ip, rfl⟩ := hnet.exists_eq_inputClosed hroot ⟨node, hj, hfault⟩
      obtain ⟨u, hu⟩ := (hspark j ip ⟨node, hj, hfault⟩).resolve_left hroot
      have hult : u < net.nodes.length := by
        obtain ⟨halted, hhalted, -⟩ := hu
        exact (List.getElem?_eq_some_iff.mp hhalted).1
      have hall : net.HasHalted j := by
        refine forall_of_feeder? ht (fun v k hk hfeeder hv => ?_) hult hu hlt
        refine (hended k hk).resolve_right ?_
        rintro ⟨other, hother⟩
        exact hbegins ⟨k, other, hother, hnet.exists_eq_inputClosed hroot hother, v, hfeeder, hv⟩
      exact absurd ⟨node, hj, hfault⟩ hall.not_hasFault

/-! ## The report -/

/-- **A cascade begins at the reported machine, unless that is the first of the chain.** -/
theorem hasFault_zero_or_begins (ht : net.topology = .feedback) (hnet : net.Blamed)
    (hroot : ¬ net.HasRoot) (h : net.verdict = .faulted fault) :
    net.HasFault 0 fault ∨ ∃ j, 0 < j ∧ net.Begins j fault := by
  obtain ⟨other, hother, hsame⟩ := exists_mem_of_verdict h
  obtain ⟨k, hk⟩ := List.mem_iff_getElem?.mp hother
  obtain ⟨ip, rfl⟩ := hnet.exists_eq_inputClosed hroot ⟨other, hk, hsame⟩
  obtain ⟨-, before, node, behind, hnodes, hfault, hbefore⟩ := hnet.of_verdict_eq_inputClosed h
  have hreported : net.HasFault before.length (.inputClosed ip) :=
    ⟨node, by rw [hnodes]; simp, hfault⟩
  cases hlength : before.length with
  | zero =>
    rw [hlength] at hreported
    exact .inl hreported
  | succ j =>
    rw [hlength] at hreported
    have hj : j < before.length := by omega
    have hget : net.nodes[j]? = some before[j] := by
      rw [hnodes, List.getElem?_append_left hj, List.getElem?_eq_getElem hj]
    exact .inr ⟨j + 1, Nat.succ_pos j, hreported, ⟨ip, rfl⟩, j,
      feeder?_succ_of_feedback ht hreported.lt, before[j], hget, hbefore _ (List.getElem_mem hj)⟩

/-- **Exactly when the report is an origin.** -/
theorem isOrigin_verdict_iff (ht : net.topology = .feedback) (hnet : net.Blamed)
    (h : net.verdict = .faulted fault) :
    net.IsOrigin fault ↔
      net.HasRoot ∨ net.HasHalted 0 ∨ net.HasHalted (net.nodes.length - 1) ∨
        ∃ j, 0 < j ∧ net.Begins j fault := by
  obtain ⟨node, hnode, hfault⟩ := exists_mem_of_verdict h
  obtain ⟨k, hk⟩ := List.mem_iff_getElem?.mp hnode
  have hpos : 0 < net.nodes.length := List.length_pos_of_mem hnode
  have hlast := feeder?_zero_of_feedback ht hpos
  constructor
  · rintro (hroot | ⟨j, hbegins⟩)
    · exact .inl ⟨k, node, fault, hk, hfault, hroot⟩
    · cases j with
      | succ j => exact .inr (.inr (.inr ⟨j + 1, Nat.succ_pos j, hbegins⟩))
      | zero =>
        obtain ⟨-, -, u, hfeeder, hu⟩ := hbegins
        rw [hlast] at hfeeder
        obtain rfl := Option.some.inj hfeeder
        exact .inr (.inr (.inl hu))
  · intro hcases
    by_cases hroot : net.HasRoot
    · exact .inl (hroot.isRoot_of_verdict h)
    · have hstarved := hnet.exists_eq_inputClosed hroot ⟨node, hk, hfault⟩
      rcases hasFault_zero_or_begins ht hnet hroot h with hfirst | ⟨j, -, hbegins⟩
      · rcases hcases with hown | hhalted | hhalted | ⟨j, -, hbegins⟩
        · exact absurd hown hroot
        · exact absurd hfirst hhalted.not_hasFault
        · exact .inr ⟨0, hfirst, hstarved, _, hlast, hhalted⟩
        · exact .inr ⟨j, hbegins⟩
      · exact .inr ⟨j, hbegins⟩

end Network

/-! ## Loops -/

/-- Whatever the schedule, nobody in a loop starves out of nothing. -/
theorem sparked_of_replay {chain : Chain} (hloop : chain.topology = .feedback)
    {schedule : List Nat} {net : Network} (hrun : chain.wire.replay schedule = some net) :
    net.Sparked := by
  have hstart : chain.wire.Sparked := by
    rintro j ip ⟨node, hnode, hfault⟩
    rw [chain.faultFree_wire node (List.mem_of_getElem? hnode)] at hfault
    cases hfault
  have hall := Network.replay_induction
    (P := fun other => other.topology = .feedback ∧ other.Blamed ∧ other.Sparked)
    (fun ⟨ht, hnet, hspark⟩ hj =>
      ⟨(Network.topology_of_fire? hj).trans ht, hnet.fire? hj, hspark.fire? hnet ht hj⟩)
    schedule ⟨hloop, chain.faultFree_wire.blamed, hstart⟩ hrun
  exact hall.2.2

/-- **Exactly when a loop reports where a cascade began.** Suppose that a schedule has ended all
machines of a loop and that some machine has faulted. Then there is an origin among the faults: one
that no hang-up caused, or that of a machine that starved behind one that had halted normally. The
reported fault is an origin if some fault was caused by no hang-up, or if the first machine or the
last one has halted normally. If everybody who faulted has starved, and both the first and the last
machine have, it is an origin only by coincidence: some other machine with which a cascade began has
starved at the same address. -/
theorem loop_reports_origin_iff (chain : Chain) (hloop : chain.topology = .feedback)
    {schedule : List Nat} {net : Network} (hrun : chain.wire.replay schedule = some net)
    (hend : net.Ended) (hfaults : ¬ net.FaultFree) :
    (∃ j origin, net.HasFault j origin ∧ net.IsOrigin origin) ∧
      ∃ fault, net.verdict = .faulted fault ∧
        (net.IsOrigin fault ↔
          net.HasRoot ∨ net.HasHalted 0 ∨ net.HasHalted (net.nodes.length - 1) ∨
            ∃ j, 0 < j ∧ net.Begins j fault) := by
  have ht : net.topology = .feedback := (Network.topology_of_replay hrun).trans hloop
  have hnet := blamed_of_replay hrun
  constructor
  · by_cases hroot : net.HasRoot
    · obtain ⟨j, node, root, hnode, hfault, hown⟩ := hroot
      exact ⟨j, root, ⟨node, hnode, hfault⟩, .inl hown⟩
    · obtain ⟨j, origin, hbegins⟩ :=
        Network.exists_begins ht hnet (sparked_of_replay hloop hrun) hend hfaults hroot
      exact ⟨j, origin, hbegins.1, .inr ⟨j, hbegins⟩⟩
  · obtain ⟨fault, hverdict⟩ := Network.exists_verdict_eq_faulted hend hfaults
    exact ⟨fault, hverdict, Network.isOrigin_verdict_iff ht hnet hverdict⟩

/-- A loop of machines whose setting becomes their second instruction: with 99 they halt, with 3
they take a value there and another one behind it. -/
def selfSetting (phases : List Word) : Chain where
  program := ⟨[3, 2, 0, 5, 3, 5]⟩
  phases := phases
  topology := .feedback

/-- The first machine halts, the second starves behind it, and this is reported. -/
theorem loop_reports_origin_iff_selfSetting :
    ∃ net, (selfSetting [99, 3]).wire.replay [0, 0, 1, 1] = some net ∧
      net.verdict = .faulted (.inputClosed 2) ∧ net.HasHalted 0 ∧
      net.IsOrigin (.inputClosed 2) := by
  have hreplay : ((selfSetting [99, 3]).wire.replay [0, 0, 1, 1]).any (fun net => net.Ended ∧
      net.verdict = .faulted (.inputClosed 2) ∧ (∃ node ∈ net.nodes, node.fault ≠ none) ∧
      net.HasHalted 0) = true := by decide
  obtain ⟨net, hrun, hnet⟩ := (Option.any_eq_true _ _).mp hreplay
  obtain ⟨hend, hreport, ⟨node, hn, hfault⟩, hhalted⟩ := of_decide_eq_true hnet
  have hnot : ¬ net.FaultFree := fun hok => hfault (hok node hn)
  obtain ⟨-, fault, hverdict, hiff⟩ :=
    loop_reports_origin_iff (selfSetting [99, 3]) rfl hrun hend hnot
  rw [hreport] at hverdict
  cases hverdict
  exact ⟨net, hrun, hreport, hhalted, hiff.mpr (.inr (.inl hhalted))⟩

/-- **A loop that does not report where the cascade began.** The second of three machines halts, the
third starves behind it, and the first behind the third; what is reported is that the first has
starved. -/
theorem loop_misses_origin :
    ∃ net, (selfSetting [3, 99, 3]).wire.replay [0, 0, 1, 1, 2, 2, 0] = some net ∧
      net.Ended ∧ ¬ net.FaultFree ∧ net.Begins 2 (.inputClosed 2) ∧
      net.verdict = .faulted (.inputClosed 4) ∧ ¬ net.IsOrigin (.inputClosed 4) ∧
      (selfSetting [3, 99, 3]).run 8 = .faulted (.inputClosed 4) := by
  have hreplay : ((selfSetting [3, 99, 3]).wire.replay [0, 0, 1, 1, 2, 2, 0]).any (fun net =>
      net.Ended ∧ net.verdict = .faulted (.inputClosed 4) ∧
      net.HasFault 2 (.inputClosed 2) ∧ net.feeder? 2 = some 1 ∧ net.HasHalted 1 ∧
      ∀ j < net.nodes.length, net.HasFault j (.inputClosed 4) → net.feeder? j = some 2) = true := by
    decide
  obtain ⟨net, hrun, hnet⟩ := (Option.any_eq_true _ _).mp hreplay
  obtain ⟨hend, hreport, hthird, hfeeder, hsecond, honly⟩ := of_decide_eq_true hnet
  refine ⟨net, hrun, hend, ?_, ⟨hthird, ⟨2, rfl⟩, 1, hfeeder, hsecond⟩, hreport, ?_, by decide⟩
  · intro hok
    obtain ⟨node, hnode, hfault⟩ := hthird
    rw [hok node (List.mem_of_getElem? hnode)] at hfault
    cases hfault
  · rintro (hroot | ⟨j, hfault, -, u, hu, hhalted⟩)
    · exact Fault.not_isRoot_inputClosed 4 hroot
    · -- only the first machine has this fault, and the one before it has starved
      rw [honly j hfault.lt hfault] at hu
      obtain rfl := Option.some.inj hu
      exact hhalted.not_hasFault hthird

end Intcode.Chain
