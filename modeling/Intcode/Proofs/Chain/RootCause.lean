import Intcode.Proofs.Chain.Schedule
import Intcode.Proofs.Machine.Next

/-!
# The reported fault is a root cause

A machine that faults takes its neighbours with it: the one behind it finds its inbox closed, the
one before it is refused. `root_fault` (`Network.rootFault?`) sees only the faults, not the order in
which they happened, and still never reports that somebody was refused. The reason is that order. A
machine is refused by a listener that has faulted before; the listener was fed until then, since the
machine that is refused was still running, so the listener did not starve. Either its fault is its
own or it was refused in turn, and earlier: going on in this way ends at a fault that no hang-up
caused, also around a loop. `Blamed` is what remains of this argument in a single network, and every
firing keeps it.

Results:
* `Node.Turns.cause`: why a turn faults.
* `Blamed.fire?`: a firing keeps the blame in order.
* `rootFault?_cases`: what is reported, given all faults.
* **`root_cause_reported`**: a chain never reports a refusal, and if it reports that somebody
  starved, then nobody before that machine has faulted and nobody faulted in another way.
-/

namespace Intcode.Chain

/-! ## Why a machine faults -/

/-- **A turn that faults has one of three causes**: the program, an inbox that nobody feeds, or a
listener that does not hear. -/
theorem Node.Turns.cause {node after : Node} {fed heard : Bool} {sent : Option Word}
    (hnode : node.fault = none) (h : node.Turns fed heard after sent) {fault : Fault}
    (hfault : after.fault = some fault) :
    fault.IsRoot ∨ (fed = false ∧ fault = .inputClosed node.state.ip) ∨
      (heard = false ∧ fault = .outputClosed node.state.ip) := by
  cases h with
  | internal | receive | send =>
    rw [hnode] at hfault
    exact absurd hfault (by simp)
  | crash hnext =>
    obtain rfl := Option.some.inj hfault
    exact .inl (node.state.yields_next.of_error hnext)
  | misplace hnext hfront hdest =>
    obtain rfl := Option.some.inj hfault
    exact .inl ((node.state.yields_destination _).of_error hdest)
  | starve hnext hfront hfed =>
    obtain rfl := Option.some.inj hfault
    exact .inr (.inl ⟨hfed, rfl⟩)
  | refuse hnext hheard =>
    obtain rfl := Option.some.inj hfault
    exact .inr (.inr ⟨hheard, rfl⟩)

namespace Network

/-- A fault is final. -/
theorem exists_fault_of_fire? {net after : Network} {i j : Nat} (h : net.fire? i = some after)
    {node : Node} (hj : net.nodes[j]? = some node) {fault : Fault}
    (hfault : node.fault = some fault) :
    ∃ later, after.nodes[j]? = some later ∧ later.fault = some fault := by
  have hlt := lt_of_fire? h
  obtain ⟨fired, turned, sent, hi, hturn, rfl⟩ := fire?_eq_some_iff.mp h
  have hji : j ≠ i := by
    rintro rfl
    rw [hi] at hj
    obtain rfl := Option.some.inj hj
    rw [Node.fault_eq_none_of_turn hturn] at hfault
    exact absurd hfault (by simp)
  exact ⟨_, getElem?_pass_of_ne hlt hj hji turned sent, hfault⟩

/-- A fault after a firing was there before, or the firing has caused it. -/
theorem fault_of_fire? {net after : Network} {i j : Nat} (h : net.fire? i = some after)
    {later : Node} (hj : after.nodes[j]? = some later) {fault : Fault}
    (hfault : later.fault = some fault) :
    (∃ node, net.nodes[j]? = some node ∧ node.fault = some fault) ∨ fault.IsRoot ∨
      (net.isFed j = false ∧ ∃ ip, fault = .inputClosed ip) ∨
      (j = i ∧ net.isHeard j = false ∧ ∃ ip, fault = .outputClosed ip) := by
  have hlt := lt_of_fire? h
  obtain ⟨fired, turned, sent, hi, hturn, rfl⟩ := fire?_eq_some_iff.mp h
  by_cases hji : j = i
  · subst hji
    rw [getElem?_pass_self hlt] at hj
    obtain rfl := Option.some.inj hj
    rcases (Node.turns_of_turn hturn).cause (Node.fault_eq_none_of_turn hturn) hfault with
      hroot | ⟨hfed, rfl⟩ | ⟨hheard, rfl⟩
    · exact .inr (.inl hroot)
    · exact .inr (.inr (.inl ⟨hfed, _, rfl⟩))
    · exact .inr (.inr (.inr ⟨rfl, hheard, _, rfl⟩))
  · rw [getElem?_pass hlt, if_neg hji] at hj
    obtain ⟨node, hnode, rfl⟩ := Option.map_eq_some_iff.mp hj
    exact .inl ⟨node, hnode, hfault⟩

/-! ## Blame -/

/-- Some machine has a fault that no hang-up caused. -/
def HasRoot (net : Network) : Prop :=
  ∃ (j : Nat) (node : Node) (fault : Fault),
    net.nodes[j]? = some node ∧ node.fault = some fault ∧ fault.IsRoot

/-- Nobody has faulted because of a neighbour without the neighbour having given cause. -/
structure Blamed (net : Network) : Prop where
  /-- The inbox of a machine that has starved is closed. -/
  starved : ∀ {j : Nat} {node : Node} {ip : Nat}, net.nodes[j]? = some node →
    node.fault = some (.inputClosed ip) → net.isFed j = false
  /-- If a machine was refused, there is a root cause. -/
  refused : ∀ {j : Nat} {node : Node} {ip : Nat}, net.nodes[j]? = some node →
    node.fault = some (.outputClosed ip) → net.HasRoot

theorem HasRoot.fire? {net after : Network} {i : Nat} (hroot : net.HasRoot)
    (h : net.fire? i = some after) : after.HasRoot := by
  obtain ⟨j, node, fault, hj, hfault, hown⟩ := hroot
  obtain ⟨later, hlater, hsame⟩ := exists_fault_of_fire? h hj hfault
  exact ⟨j, later, fault, hlater, hsame, hown⟩

/-- **Whoever is refused while it runs is refused because of a root cause.** The listener was fed,
so it has not starved. -/
theorem Blamed.hasRoot_of_not_isHeard {net : Network} (hnet : net.Blamed) {j : Nat} {node : Node}
    (hj : net.nodes[j]? = some node) (hr : node.isRunning = true)
    (hheard : net.isHeard j = false) : net.HasRoot := by
  have hlt := (List.getElem?_eq_some_iff.mp hj).1
  have hdeaf : (net.listener? j).any net.isDeaf = true := by
    simpa [isHeard] using hheard
  obtain ⟨k, hl, hk⟩ := (Option.any_eq_true _ _).mp hdeaf
  obtain ⟨listener, hlistener, hsome⟩ := (Option.any_eq_true _ _).mp hk
  obtain ⟨fault, hfault⟩ := Option.isSome_iff_exists.mp hsome
  cases hown : fault.isDisconnect with
  | false => exact ⟨k, listener, fault, hlistener, hfault, hown⟩
  | true =>
    cases fault with
    | inputClosed ip =>
      have hclosed := hnet.starved hlistener hfault
      rw [(isFed_iff (listener?_lt hlt hl)).mpr ⟨j, node, hj, hr, hl⟩] at hclosed
      exact absurd hclosed (by simp)
    | outputClosed ip => exact hnet.refused hlistener hfault
    | parse | unknownOpcode | invalidMode | addressOutOfRange | overflow | stepLimit =>
      exact absurd hown (by simp [Fault.isDisconnect])

/-- **A firing keeps the blame in order.** -/
theorem Blamed.fire? {net after : Network} {i : Nat} (hnet : net.Blamed)
    (h : net.fire? i = some after) : after.Blamed := by
  constructor
  · intro j later ip hj hfault
    have hbefore : net.isFed j = false := by
      rcases fault_of_fire? h hj hfault with
        ⟨node, hnode, hsame⟩ | hroot | ⟨hfed, -⟩ | ⟨-, -, ip', hip⟩
      · exact hnet.starved hnode hsame
      · exact absurd hroot (Fault.not_isRoot_inputClosed ip)
      · exact hfed
      · exact absurd hip (by simp)
    cases hfed : after.isFed j with
    | false => rfl
    | true => rw [← hbefore, isFed_of_fire? h hfed]
  · intro j later ip hj hfault
    rcases fault_of_fire? h hj hfault with
      ⟨node, hnode, hsame⟩ | hroot | ⟨-, ip', hip⟩ | ⟨rfl, hheard, -⟩
    · exact (hnet.refused hnode hsame).fire? h
    · exact absurd hroot (Fault.not_isRoot_outputClosed ip)
    · exact absurd hip (by simp)
    · obtain ⟨fired, turned, sent, hfired, hturn, -⟩ := fire?_eq_some_iff.mp h
      exact (hnet.hasRoot_of_not_isHeard hfired (Node.isRunning_of_turn hturn) hheard).fire? h

theorem FaultFree.blamed {net : Network} (hok : net.FaultFree) : net.Blamed := by
  have hnone : ∀ {j : Nat} {node : Node} {fault : Fault}, net.nodes[j]? = some node →
      node.fault ≠ some fault := by
    intro j node fault hj hfault
    rw [hok node (List.mem_of_getElem? hj)] at hfault
    cases hfault
  exact ⟨fun hj hfault => absurd hfault (hnone hj), fun hj hfault => absurd hfault (hnone hj)⟩

theorem Blamed.replay {net final : Network} {schedule : List Nat} (hnet : net.Blamed)
    (h : net.replay schedule = some final) : final.Blamed :=
  replay_induction (fun hp hj => hp.fire? hj) schedule hnet h

/-! ## The report -/

/-- **What is reported**: the first root cause, and the first fault if there is no root cause. -/
theorem rootFault?_cases {faults : List Fault} {fault : Fault}
    (h : rootFault? faults = some fault) :
    (fault.IsRoot ∧ fault ∈ faults) ∨
      ((∀ other ∈ faults, ¬ other.IsRoot) ∧ faults.head? = some fault) := by
  unfold rootFault? at h
  cases hfind : faults.find? fun fault => !fault.isDisconnect with
  | some root =>
    rw [hfind] at h
    obtain rfl := Option.some.inj h
    have hroot := List.find?_some hfind
    exact .inl ⟨by simpa [Fault.IsRoot] using hroot, List.mem_of_find?_eq_some hfind⟩
  | none =>
    rw [hfind] at h
    refine .inr ⟨fun other hother => ?_, h⟩
    have hnone := List.find?_eq_none.mp hfind other hother
    simpa [Fault.IsRoot] using hnone

/-- No machine runs any more. -/
def Ended (net : Network) : Prop := ∀ node ∈ net.nodes, node.isRunning = false

instance (net : Network) : Decidable net.Ended :=
  inferInstanceAs (Decidable (∀ node ∈ net.nodes, node.isRunning = false))

theorem verdict_eq_faulted_iff {net : Network} {fault : Fault} :
    net.verdict = .faulted fault ↔
      net.Ended ∧ rootFault? (net.nodes.filterMap Node.fault) = some fault := by
  have hended : net.Ended ↔ net.nodes.any Node.isRunning = false := by
    simp [Ended, List.any_eq_false]
  rw [hended]
  unfold verdict
  cases net.nodes.any Node.isRunning with
  | true => simp
  | false => cases rootFault? (net.nodes.filterMap Node.fault) <;> simp

/-- A chain of which some machine has faulted reports a fault once all have ended. -/
theorem exists_verdict_eq_faulted {net : Network} (hend : net.Ended) (hfault : ¬ net.FaultFree) :
    ∃ fault, net.verdict = .faulted fault := by
  cases hroot : rootFault? (net.nodes.filterMap Node.fault) with
  | some fault => exact ⟨fault, verdict_eq_faulted_iff.mpr ⟨hend, hroot⟩⟩
  | none =>
    rw [rootFault?_eq_none_iff, List.filterMap_eq_nil_iff] at hroot
    exact absurd hroot hfault

/-- The first fault of a list of machines that have ended: those before it have halted. -/
theorem Ended.split_of_head? {net : Network} (hend : net.Ended) {fault : Fault}
    (h : (net.nodes.filterMap Node.fault).head? = some fault) :
    ∃ before node behind, net.nodes = before ++ node :: behind ∧ node.fault = some fault ∧
      ∀ earlier ∈ before, earlier.state.halted = true ∧ earlier.fault = none := by
  rw [List.head?_filterMap, List.findSome?_eq_some_iff] at h
  obtain ⟨before, node, behind, hnodes, hnode, hbefore⟩ := h
  refine ⟨before, node, behind, hnodes, hnode, fun earlier hearlier => ?_⟩
  have hnone := hbefore earlier hearlier
  have hstopped := hend earlier (by rw [hnodes]; exact List.mem_append_left _ hearlier)
  refine ⟨?_, hnone⟩
  cases hhalted : earlier.state.halted with
  | true => rfl
  | false => rw [← hstopped, Node.isRunning_iff.mpr ⟨hhalted, hnone⟩]

/-- A root cause is reported if there is one. -/
theorem HasRoot.isRoot_of_verdict {net : Network} (hroot : net.HasRoot) {fault : Fault}
    (h : net.verdict = .faulted fault) : fault.IsRoot := by
  obtain ⟨j, node, root, hj, hnode, hown⟩ := hroot
  rcases rootFault?_cases (verdict_eq_faulted_iff.mp h).2 with ⟨hreported, -⟩ | ⟨hnone, -⟩
  · exact hreported
  · exact absurd hown
      (hnone root (List.mem_filterMap.mpr ⟨node, List.mem_of_getElem? hj, hnode⟩))

/-- The reported fault is that of a machine. -/
theorem exists_mem_of_verdict {net : Network} {fault : Fault} (h : net.verdict = .faulted fault) :
    ∃ node ∈ net.nodes, node.fault = some fault := by
  have hmem : fault ∈ net.nodes.filterMap Node.fault := by
    rcases rootFault?_cases (verdict_eq_faulted_iff.mp h).2 with ⟨-, hmem⟩ | ⟨-, hhead⟩
    · exact hmem
    · exact List.mem_of_mem_head? hhead
  exact List.mem_filterMap.mp hmem

/-- A refusal is not reported. -/
theorem Blamed.verdict_ne_outputClosed {net : Network} (hnet : net.Blamed) (ip : Nat) :
    net.verdict ≠ .faulted (.outputClosed ip) := by
  intro h
  obtain ⟨node, hn, hfault⟩ := exists_mem_of_verdict h
  obtain ⟨j, hj⟩ := List.mem_iff_getElem?.mp hn
  have hroot := (hnet.refused hj hfault).isRoot_of_verdict h
  exact Fault.not_isRoot_outputClosed ip hroot

/-- If nobody has a fault of its own, whoever has faulted has starved. -/
theorem Blamed.exists_eq_inputClosed {net : Network} (hnet : net.Blamed) (hroot : ¬ net.HasRoot)
    {j : Nat} {fault : Fault} (h : ∃ node, net.nodes[j]? = some node ∧ node.fault = some fault) :
    ∃ ip, fault = .inputClosed ip := by
  obtain ⟨node, hnode, hfault⟩ := h
  cases fault with
  | inputClosed ip => exact ⟨ip, rfl⟩
  | outputClosed ip => exact absurd (hnet.refused hnode hfault) hroot
  | parse | unknownOpcode | invalidMode | addressOutOfRange | overflow | stepLimit =>
    exact absurd ⟨j, node, _, hnode, hfault, rfl⟩ hroot

/-- If it is reported that a machine starved, machines have starved and nothing else, and this one
is the first of them. -/
theorem Blamed.of_verdict_eq_inputClosed {net : Network} (hnet : net.Blamed) {ip : Nat}
    (h : net.verdict = .faulted (.inputClosed ip)) :
    (∀ node ∈ net.nodes, ∀ fault, node.fault = some fault → ∃ place, fault = .inputClosed place) ∧
      ∃ before node behind, net.nodes = before ++ node :: behind ∧
        node.fault = some (.inputClosed ip) ∧
        ∀ earlier ∈ before, earlier.state.halted = true ∧ earlier.fault = none := by
  have hnoroot : ¬ net.HasRoot := fun hroot =>
    Fault.not_isRoot_inputClosed ip (hroot.isRoot_of_verdict h)
  obtain ⟨hend, hreport⟩ := verdict_eq_faulted_iff.mp h
  constructor
  · intro node hn fault hfault
    obtain ⟨j, hj⟩ := List.mem_iff_getElem?.mp hn
    exact hnet.exists_eq_inputClosed hnoroot ⟨node, hj, hfault⟩
  · rcases rootFault?_cases hreport with ⟨hroot, -⟩ | ⟨-, hhead⟩
    · exact absurd hroot (Fault.not_isRoot_inputClosed ip)
    · exact hend.split_of_head? hhead

end Network

/-! ## Chains -/

theorem faultFree_wire (chain : Chain) : chain.wire.FaultFree := by
  intro node hn
  unfold wire nodes at hn
  cases hphases : chain.phases with
  | nil =>
    rw [hphases] at hn
    cases hn
  | cons first rest =>
    rw [hphases] at hn
    simp only [List.mem_cons, List.mem_map] at hn
    rcases hn with rfl | ⟨phase, -, rfl⟩ <;> rfl

/-- Whatever the schedule, nobody is to blame without cause. -/
theorem blamed_of_replay {chain : Chain} {schedule : List Nat} {net : Network}
    (hrun : chain.wire.replay schedule = some net) : net.Blamed :=
  chain.faultFree_wire.blamed.replay hrun

/-- **A chain reports a root cause.** Suppose that a schedule has ended all machines of a chain and
that some machine has faulted. Then a fault of one of the machines is reported, and it is never a
refusal: if some machine was refused, then another machine has a fault that no hang-up caused, and
such a fault is reported. If it is reported that a machine starved, then every fault of the chain is
of this kind, and all machines before that one have halted normally. The run of a chain, which
follows one of the schedules, never reports a refusal either. -/
theorem root_cause_reported (chain : Chain) :
    (∀ (schedule : List Nat) (net : Network), chain.wire.replay schedule = some net →
      net.Ended → ¬ net.FaultFree →
      ∃ fault, net.verdict = .faulted fault ∧
        (∃ node ∈ net.nodes, node.fault = some fault) ∧
        (∀ ip, fault ≠ .outputClosed ip) ∧
        (∀ (j : Nat) (node : Node) (ip : Nat), net.nodes[j]? = some node →
          node.fault = some (.outputClosed ip) →
          fault.IsRoot ∧ ∃ (k : Nat) (other : Node) (root : Fault),
            k ≠ j ∧ net.nodes[k]? = some other ∧ other.fault = some root ∧ root.IsRoot) ∧
        (∀ ip, fault = .inputClosed ip →
          (∀ node ∈ net.nodes, ∀ other, node.fault = some other →
            ∃ place, other = .inputClosed place) ∧
            ∃ before node behind, net.nodes = before ++ node :: behind ∧
              node.fault = some fault ∧
              ∀ earlier ∈ before, earlier.state.halted = true ∧ earlier.fault = none)) ∧
    ∀ fuel ip, chain.run fuel ≠ .faulted (.outputClosed ip) := by
  constructor
  · intro schedule net hrun hend hfaults
    have hnet := blamed_of_replay hrun
    obtain ⟨fault, hverdict⟩ := Network.exists_verdict_eq_faulted hend hfaults
    refine ⟨fault, hverdict, Network.exists_mem_of_verdict hverdict, ?_, ?_, ?_⟩
    · rintro ip rfl
      exact hnet.verdict_ne_outputClosed ip hverdict
    · intro j node ip hj hnode
      have hroot := hnet.refused hj hnode
      refine ⟨hroot.isRoot_of_verdict hverdict, ?_⟩
      obtain ⟨k, other, root, hk, hother, hown⟩ := hroot
      refine ⟨k, other, root, ?_, hk, hother, hown⟩
      rintro rfl
      rw [hj] at hk
      obtain rfl := Option.some.inj hk
      rw [hnode] at hother
      obtain rfl := Option.some.inj hother
      exact Fault.not_isRoot_outputClosed ip hown
    · rintro ip rfl
      exact hnet.of_verdict_eq_inputClosed hverdict
  · intro fuel ip h
    unfold Chain.run at h
    cases hs : chain.wire.settle fuel 0 with
    | none =>
      rw [hs] at h
      exact absurd h (by simp)
    | some net =>
      rw [hs] at h
      obtain ⟨schedule, hrun, -⟩ := Network.settle_eq_some hs
      exact (blamed_of_replay hrun).verdict_ne_outputClosed ip h

/-- Two machines; one whose setting is zero sends a value and halts, the other runs into data. -/
def derailing : Chain where
  program := ⟨[3, 9, 1005, 9, 8, 104, 7, 99, 50, 0]⟩
  phases := [0, 1]

/-- Two machines that need two values each; the first finds them and halts, the second starves. -/
def hungry : Chain where
  program := ⟨[3, 0, 3, 0, 99]⟩
  phases := [7, 8]

/-- The second machine of `derailing` crashes before the first sends to it, so the first is refused
and the crash is reported. In `hungry` it is reported that the second machine starved. -/
theorem root_cause_reported_derailing :
    (∃ net, derailing.wire.replay [1, 1, 1, 0, 0, 0] = some net ∧
      (net.nodes.map Node.fault) =
        [some (.outputClosed 5), some (.unknownOpcode 8 50 50)] ∧
      ∃ fault, net.verdict = .faulted fault ∧ fault.IsRoot) ∧
    ∃ net, hungry.wire.replay [0, 1, 0, 0, 1] = some net ∧
      net.verdict = .faulted (.inputClosed 2) ∧
      ∃ before node behind, net.nodes = before ++ node :: behind ∧
        node.fault = some (.inputClosed 2) ∧
        ∀ earlier ∈ before, earlier.state.halted = true ∧ earlier.fault = none := by
  have hcrash : (derailing.wire.replay [1, 1, 1, 0, 0, 0]).any (fun net => net.Ended ∧
      net.nodes.map Node.fault = [some (.outputClosed 5), some (.unknownOpcode 8 50 50)])
      = true := by decide
  have hstarve : (hungry.wire.replay [0, 1, 0, 0, 1]).any (fun net => net.Ended ∧
      net.verdict = .faulted (.inputClosed 2) ∧ ∃ node ∈ net.nodes, node.fault ≠ none)
      = true := by decide
  constructor
  · obtain ⟨net, hrun, hnet⟩ := (Option.any_eq_true _ _).mp hcrash
    obtain ⟨hend, hfaults⟩ := of_decide_eq_true hnet
    obtain ⟨first, hfirst, hrefused⟩ : ∃ node, net.nodes[0]? = some node ∧
        node.fault = some (.outputClosed 5) := by
      have hget : (net.nodes.map Node.fault)[0]? = some (some (.outputClosed 5)) := by
        rw [hfaults]
        rfl
      rw [List.getElem?_map] at hget
      exact Option.map_eq_some_iff.mp hget
    have hnot : ¬ net.FaultFree := fun hok => by
      rw [hok first (List.mem_of_getElem? hfirst)] at hrefused
      exact absurd hrefused (by simp)
    obtain ⟨fault, hverdict, -, -, hroot, -⟩ :=
      (root_cause_reported derailing).1 _ net hrun hend hnot
    exact ⟨net, hrun, hfaults, fault, hverdict, (hroot 0 first 5 hfirst hrefused).1⟩
  · obtain ⟨net, hrun, hnet⟩ := (Option.any_eq_true _ _).mp hstarve
    obtain ⟨hend, hreport, node, hn, hfault⟩ := of_decide_eq_true hnet
    have hnot : ¬ net.FaultFree := fun hok => hfault (hok node hn)
    obtain ⟨fault, hverdict, -, -, -, hfirst⟩ :=
      (root_cause_reported hungry).1 _ net hrun hend hnot
    rw [hreport] at hverdict
    cases hverdict
    exact ⟨net, hrun, hreport, (hfirst 2 rfl).2⟩

end Intcode.Chain
