import Intcode.Proofs.Chain.Confluence

/-!
# Closing a series into a loop

In a loop (`Topology::Feedback`) the last machine sends to the first, so the first can find more in
its inbox than in the series, waits where it would have starved, and the last can be refused. None
of this matters as long as the series runs without a fault: a machine that takes a turn without
faulting takes the same turn when more has arrived and when somebody may still send to it
(`Node.Turns.arrive`), and a first machine that has halted still accepts what it is sent. So the
loop can follow any schedule of the series that leads to no fault, firing for firing, and only the
first inbox tells the two apart.

`Network.close net values` is the loop made from a series whose last machine has output `values`.

Results:
* `fire?_close`: a firing of the series is a firing of the loop.
* `replay_close`: the same for a schedule.
* **`feedback_keeps_result`**: a chain that has a result in series has it in a loop.
-/

namespace Intcode.Chain

namespace Network

/-- The series closed into a loop, after `values` have come around to the first machine. -/
def close (net : Network) (values : List Word) : Network where
  topology := .feedback
  nodes := net.nodes.modifyHead fun node => node.arrive values

/-- What machine `i` of the loop has been sent beyond what it is sent in the series. -/
def around (i : Nat) (values : List Word) : List Word := if i = 0 then values else []

@[simp] theorem length_close (net : Network) (values : List Word) :
    (net.close values).nodes.length = net.nodes.length := by
  simp [close]

theorem getElem?_close (net : Network) (values : List Word) (i : Nat) :
    (net.close values).nodes[i]? =
      net.nodes[i]?.map fun node => node.arrive (around i values) := by
  unfold close around
  cases net.nodes with
  | nil => rfl
  | cons first rest =>
    cases i with
    | zero => rfl
    | succ i => simp

/-- A machine of the loop is one of the series that may have been sent more. -/
theorem exists_of_mem_close {net : Network} {values : List Word} {node : Node}
    (h : node ∈ (net.close values).nodes) :
    ∃ before ∈ net.nodes, ∃ more, node = before.arrive more := by
  obtain ⟨i, hi⟩ := List.mem_iff_getElem?.mp h
  rw [getElem?_close] at hi
  obtain ⟨before, hb, rfl⟩ := Option.map_eq_some_iff.mp hi
  exact ⟨before, List.mem_of_getElem? hb, _, rfl⟩

/-! ## Wiring -/

/-- Nobody sends to the first machine of a series. -/
theorem carried_zero_of_series {net : Network} (ht : net.topology = .series) (j : Nat)
    (sent : Option Word) : net.carried j 0 sent = [] := by
  unfold carried
  rw [if_neg]
  intro hl
  simp only [listener?, ht] at hl
  split at hl
  · exact absurd (Option.some.inj hl) (by omega)
  · exact absurd hl (by simp)

/-- Apart from the first machine, everybody is sent the same in the loop as in the series. -/
theorem carried_close {net : Network} (ht : net.topology = .series) (values : List Word) {i j : Nat}
    (hj : j < net.nodes.length) (hi : i ≠ 0) (sent : Option Word) :
    (net.close values).carried j i sent = net.carried j i sent := by
  have hl : (net.close values).listener? j = some i ↔ net.listener? j = some i := by
    simp only [listener?, ht, length_close]
    simp only [close, Option.some.injEq]
    by_cases hlast : j + 1 < net.nodes.length
    · rw [Nat.mod_eq_of_lt hlast, if_pos hlast, Option.some.injEq]
    · rw [if_neg hlast, show j + 1 = net.nodes.length by omega, Nat.mod_self]
      simp [hi.symm]
  simp only [carried, hl]

/-- A machine of the series fires, in the loop: everybody gets what it gets in the series, and the
first machine also what has come around. -/
theorem pass_close {net : Network} (ht : net.topology = .series) (values : List Word) {j : Nat}
    (hj : j < net.nodes.length) (turned : Node) (sent : Option Word) :
    (net.close values).pass j (turned.arrive (around j values)) sent =
      (net.pass j turned sent).close (values ++ (net.close values).carried j 0 sent) := by
  refine ext rfl fun i => ?_
  rw [getElem?_pass (by simpa using hj), getElem?_close, getElem?_close, getElem?_pass hj]
  have hnode : (if i = j then some (turned.arrive (around j values))
      else net.nodes[i]?.map fun node => node.arrive (around i values)) =
      (if i = j then some turned else net.nodes[i]?).map
        fun node => node.arrive (around i values) := by
    by_cases hij : i = j
    · subst hij
      rw [if_pos rfl, if_pos rfl, Option.map_some]
    · rw [if_neg hij, if_neg hij]
  rw [hnode, Option.map_map, Option.map_map]
  congr 1
  funext node
  simp only [Function.comp_apply, Node.arrive_arrive]
  by_cases hi : i = 0
  · subst hi
    rw [carried_zero_of_series ht]
    rfl
  · rw [carried_close ht values hj hi, around, around, if_neg hi, if_neg hi, List.append_nil,
      List.nil_append]

/-! ## The loop follows the series -/

theorem faultFree_close {net : Network} (hok : net.FaultFree) (values : List Word) :
    (net.close values).FaultFree := by
  intro node hn
  obtain ⟨before, hb, more, rfl⟩ := exists_of_mem_close hn
  exact hok before hb

/-- **A firing of the series is a firing of the loop**, if it leads to no fault. -/
theorem fire?_close {net after : Network} (ht : net.topology = .series) {j : Nat}
    (h : net.fire? j = some after) (hok : after.FaultFree) (values : List Word) :
    ∃ more, (net.close values).fire? j = some (after.close (values ++ more)) := by
  have hlt := lt_of_fire? h
  have hokNet := faultFree_of_fire? h hok
  obtain ⟨node, turned, sent, hj, hturn, rfl⟩ := fire?_eq_some_iff.mp h
  have hnode : (net.close values).nodes[j]? = some (node.arrive (around j values)) := by
    rw [getElem?_close, hj, Option.map_some]
  have hloop : (node.arrive (around j values)).turn ((net.close values).isFed j)
      ((net.close values).isHeard j) = some (turned.arrive (around j values), sent) := by
    have hr : node.isRunning = true := Node.isRunning_of_turn hturn
    rw [(faultFree_close hokNet values).isHeard]
    refine Node.turn_eq_some_iff.mpr ⟨hr, ?_⟩
    exact (Node.turns_of_turn hturn).arrive (fault_eq_none_of_pass hlt hok) _ _
  refine ⟨(net.close values).carried j 0 sent, ?_⟩
  rw [← pass_close ht values hlt]
  exact fire?_eq_some_iff.mpr ⟨_, _, sent, hnode, hloop, rfl⟩

/-- **The loop can follow any schedule of the series that leads to no fault.** -/
theorem replay_close {schedule : List Nat} {net final : Network} (ht : net.topology = .series)
    (h : net.replay schedule = some final) (hok : final.FaultFree) (values : List Word) :
    ∃ more, (net.close values).replay schedule = some (final.close (values ++ more)) := by
  induction schedule generalizing net values with
  | nil =>
    obtain rfl := Option.some.inj h
    exact ⟨[], by rw [List.append_nil, replay]⟩
  | cons j rest ih =>
    obtain ⟨after, hj, hrest⟩ := replay_cons_eq_some.mp h
    obtain ⟨more, hmore⟩ := fire?_close ht hj (faultFree_of_replay hrest hok) values
    obtain ⟨others, hothers⟩ := ih ((topology_of_fire? hj).trans ht) hrest (values ++ more)
    refine ⟨more ++ others, replay_cons_eq_some.mpr ⟨_, hmore, ?_⟩⟩
    rw [hothers, List.append_assoc]

/-! ## Ends -/

theorem allHalted_close {net : Network} (h : net.AllHalted) (values : List Word) :
    (net.close values).AllHalted := by
  intro node hn
  obtain ⟨before, hb, more, rfl⟩ := exists_of_mem_close hn
  exact h before hb

theorem signal_close (net : Network) (values : List Word) :
    (net.close values).signal = net.signal := by
  unfold signal
  rw [List.getLast?_eq_getElem?, List.getLast?_eq_getElem?, length_close, getElem?_close]
  cases net.nodes[net.nodes.length - 1]? <;> rfl

end Network

/-! ## Chains -/

theorem close_wire (program : Program) (phases : List Word) (signal : Word) :
    (Chain.mk program phases signal .series).wire.close [] =
      (Chain.mk program phases signal .feedback).wire := by
  refine Network.ext rfl fun i => ?_
  rw [Network.getElem?_close]
  have hnone : Network.around i [] = [] := by simp [Network.around]
  simp only [hnone, Node.arrive_nil, Option.map_id']
  rfl

/-- A schedule that halts everybody in series does so in the loop, with the same signal. -/
theorem replay_feedback_of_series {program : Program} {phases : List Word} {signal : Word}
    {schedule : List Nat} {net : Network}
    (hrun : (Chain.mk program phases signal .series).wire.replay schedule = some net)
    (hhalt : net.AllHalted) :
    ∃ final, (Chain.mk program phases signal .feedback).wire.replay schedule = some final ∧
      final.AllHalted ∧ final.signal = net.signal := by
  obtain ⟨more, hmore⟩ := Network.replay_close rfl hrun hhalt.faultFree []
  rw [close_wire] at hmore
  exact ⟨_, hmore, Network.allHalted_close hhalt _, Network.signal_close net _⟩

/-- **Closing a working series into a loop does not change its result.** If the run of a chain in
series finishes, then with the same fuel so does its run in a loop, and with the same result; and
if only some schedule of the series ends with a result, then the loop ends with it under every
schedule. -/
theorem feedback_keeps_result (program : Program) (phases : List Word) (signal : Word)
    (result : Option Word) :
    (∀ fuel, (Chain.mk program phases signal .series).run fuel = .finished result →
      (Chain.mk program phases signal .feedback).run fuel = .finished result) ∧
    ((∃ schedule net, (Chain.mk program phases signal .series).wire.replay schedule = some net ∧
        net.verdict = .finished result) →
      (Chain.mk program phases signal .feedback).Returns result) := by
  constructor
  · intro fuel h
    obtain ⟨schedule, net, hrun, hhalt, rfl, hlen⟩ := run_eq_finished_iff.mp h
    obtain ⟨final, hfinal, hloop, hsignal⟩ := replay_feedback_of_series hrun hhalt
    exact run_eq_finished_iff.mpr ⟨schedule, final, hfinal, hloop, hsignal, hlen⟩
  · rintro ⟨schedule, net, hrun, hverdict⟩
    obtain ⟨hhalt, rfl⟩ := Network.verdict_eq_finished_iff.mp hverdict
    obtain ⟨final, hfinal, hloop, hsignal⟩ := replay_feedback_of_series hrun hhalt
    exact returns_iff.mpr ⟨schedule, final, hfinal, hloop, hsignal⟩

/-- Two machines that each take two values and send both on. In series the second halts with a
value unread; in the loop the first, which has halted, is sent two more. -/
theorem feedback_keeps_result_relaying :
    (Chain.mk ⟨[3, 0, 3, 1, 4, 1, 4, 0, 99]⟩ [7, 8] 5 .series).run 20 = .finished (some 8) ∧
      (Chain.mk ⟨[3, 0, 3, 1, 4, 1, 4, 0, 99]⟩ [7, 8] 5 .feedback).run 20 = .finished (some 8) ∧
      (Chain.mk ⟨[3, 0, 3, 1, 4, 1, 4, 0, 99]⟩ [7, 8] 5 .feedback).Returns (some 8) := by
  have hseries : (Chain.mk ⟨[3, 0, 3, 1, 4, 1, 4, 0, 99]⟩ [7, 8] 5 .series).run 20 =
      .finished (some 8) := by decide
  obtain ⟨hrun, hreturns⟩ := feedback_keeps_result ⟨[3, 0, 3, 1, 4, 1, 4, 0, 99]⟩ [7, 8] 5 (some 8)
  obtain ⟨schedule, net, hnet, hhalt, hsignal, -⟩ := run_eq_finished_iff.mp hseries
  exact ⟨hseries, hrun 20 hseries,
    hreturns ⟨schedule, net, hnet, Network.verdict_eq_finished_iff.mpr ⟨hhalt, hsignal⟩⟩⟩

end Intcode.Chain
