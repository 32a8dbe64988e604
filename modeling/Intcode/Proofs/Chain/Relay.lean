import Intcode.Proofs.Chain.Confluence
import Intcode.Proofs.Chain.Standalone

/-!
# A series is a relay

In a series `run_chain` lets the machines run all at once, each on what has reached it so far.
`relay` runs them one after the other instead, each alone and to its end, on a queue with its
setting and then everything the one before it has output. The two give the same signal, and one has
a signal exactly if the other has.

From the chain to the relay: at the end of a run in which everybody halts, each machine is where
a stand-alone machine comes on its supply (`Standalone.lean`), and the supply is complete. From
the relay to the chain: the schedule that lets each machine run to its end before the next one
begins is one of the chain's schedules (`replay_solo`), and then all of them agree
(`Confluence.lean`).

Results:
* `relay_of_halted`: if all machines of a series halt, so does the relay, with the same signal.
* `replay_of_relay`: if the relay ends, the machines can run one after the other, and all halt.
* **`series_run_iff_relay`**: the two together, for the run of a chain and for all its schedules.
-/

namespace Intcode.Chain

/-- Machines run one after the other, each on a queue with its setting and the outputs of the one
before it; `feed` stands for these outputs at the first, and `last` is the result if there is no
machine left. -/
def relay (fuel : Nat) (program : Program) :
    Option Word → List Word → List Word → Ending (Option Word)
  | last, _, [] => .finished last
  | _, feed, phase :: rest =>
    match (Machine.batch program (phase :: feed)).run fuel with
    | (after, .finished last) => relay fuel program last after.state.outputs.toList rest
    | (_, .faulted fault) => .faulted fault
    | (_, .unfinished) => .unfinished

/-! ## From the chain to the relay -/

/-- A machine that comes to a halted state on a queue is run to that state, given the fuel. -/
theorem run_batch_of_proceed {program : Program} {queue rest : List Word} {state : State}
    (h : (Machine.batch program queue).proceed state.steps =
      ({ Machine.batch program rest with state := state }, none))
    (hhalted : state.halted = true) {fuel : Nat} (hfuel : state.steps < fuel) :
    (Machine.batch program queue).run fuel =
      ({ Machine.batch program rest with state := state }, .finished state.last) := by
  obtain ⟨extra, rfl⟩ := Nat.exists_eq_add_of_le hfuel
  have hreset : (Machine.batch program queue).reset = Machine.batch program queue := rfl
  unfold Machine.run
  rw [hreset, Machine.proceed_of_halted extra h hhalted]

/-- What follows the setting of machine `j` in its supply. -/
def feedOf (chain : Chain) (net : Network) (j : Nat) : List Word :=
  (if j = 0 then [chain.signal] else []) ++ net.fedLog j

theorem supply_eq_cons {chain : Chain} {j : Nat} {phase : Word}
    (h : chain.phases[j]? = some phase) (net : Network) :
    chain.supply net j = phase :: chain.feedOf net j := by
  simp [supply, seed, feedOf, h]

/-- In a series the feed of a machine is the log of the one before it. -/
theorem feedOf_succ (chain : Chain) {net : Network} (ht : net.topology = .series) {j : Nat}
    {node : Node} (hj : net.nodes[j]? = some node) :
    chain.feedOf net (j + 1) = node.state.outputs.toList := by
  simp [feedOf, Network.fedLog, Network.feeder?, ht, hj]

theorem feedOf_zero (chain : Chain) {net : Network} (ht : net.topology = .series) :
    chain.feedOf net 0 = [chain.signal] := by
  simp [feedOf, Network.fedLog, Network.feeder?, ht]

/-- The last output of the machine before machine `j`. -/
def lastBefore (net : Network) : Nat → Option Word
  | 0 => none
  | j + 1 => net.nodes[j]?.bind fun node => node.state.last

theorem lastBefore_length (net : Network) : lastBefore net net.nodes.length = net.signal := by
  unfold Network.signal
  rw [List.getLast?_eq_getElem?]
  cases hlen : net.nodes.length with
  | zero => simp [lastBefore, List.eq_nil_of_length_eq_zero hlen]
  | succ n => rfl

/-- **If all machines of a series halt, so does the relay**, with the same signal. The induction is
on the number of machines still to run; their feeds are those of the chain at its end. -/
theorem relay_of_halted {chain : Chain} {schedule : List Nat} {net : Network}
    (ht : chain.topology = .series) (hrun : chain.wire.replay schedule = some net)
    (hhalt : net.AllHalted) :
    ∃ bound, ∀ fuel, bound ≤ fuel →
      relay fuel chain.program none [chain.signal] chain.phases = .finished net.signal := by
  have hseries : net.topology = .series := (Network.topology_of_replay hrun).trans ht
  have hlen : net.nodes.length = chain.phases.length := by
    rw [Network.length_of_replay hrun, length_wire]
  suffices h : ∀ left j, j + left = chain.phases.length → ∃ bound, ∀ fuel, bound ≤ fuel →
      relay fuel chain.program (lastBefore net j) (chain.feedOf net j) (chain.phases.drop j) =
        .finished net.signal by
    obtain ⟨bound, hbound⟩ := h chain.phases.length 0 (Nat.zero_add _)
    rw [feedOf_zero chain hseries] at hbound
    exact ⟨bound, hbound⟩
  intro left
  induction left with
  | zero =>
    intro j hj
    refine ⟨0, fun fuel _ => ?_⟩
    rw [List.drop_eq_nil_of_le (by omega), relay, ← lastBefore_length, hlen, ← hj, Nat.add_zero]
  | succ left ih =>
    intro j hj
    obtain ⟨bound, hbound⟩ := ih (j + 1) (by omega)
    have hjlt : j < chain.phases.length := by omega
    have hnode : net.nodes[j]? = some net.nodes[j] := List.getElem?_eq_getElem (by omega)
    obtain ⟨rest, hproceed, -⟩ := (tracks_of_replay hrun _ (List.mem_of_getElem? hnode)).run
    rw [conserves_of_replay hrun j _ hnode,
      supply_eq_cons (List.getElem?_eq_getElem hjlt)] at hproceed
    have hhalted := (hhalt _ (List.mem_of_getElem? hnode)).1
    refine ⟨max bound (net.nodes[j].state.steps + 1), fun fuel hfuel => ?_⟩
    have hbatch := run_batch_of_proceed hproceed hhalted
      (show net.nodes[j].state.steps < fuel by omega)
    rw [List.drop_eq_getElem_cons hjlt, relay, hbatch]
    simp only
    rw [← feedOf_succ chain hseries hnode,
      show net.nodes[j].state.last = lastBefore net (j + 1) by simp [lastBefore, hnode]]
    exact hbound fuel (by omega)

/-! ## From the relay to the chain -/

namespace Node

/-- A step of the machine that runs alone is a turn, whoever feeds the machine. -/
theorem turn_of_step_batch {program : Program} {node : Node} {after : Machine}
    {instruction : Instruction} (hnode : node.fault = none)
    (h : (node.machine program .queue .discard).step = (after, .executed instruction)) :
    ∃ turned sent, after = turned.machine program .queue .discard ∧ turned.fault = none ∧
      ∀ fed, node.turn fed true = some (turned, sent) := by
  have hrun : node.isRunning = true := by
    refine isRunning_iff.mpr ⟨?_, hnode⟩
    cases Machine.step_eq_iff.mp h with
    | internal hrun | receive hrun | send hrun => exact hrun
  cases hturn : node.turn false true with
  | none => exact absurd ((turn_eq_none_iff hrun).mp hturn).2 (by simp)
  | some pair =>
    obtain ⟨turned, sent⟩ := pair
    cases hfault : turned.fault with
    | none =>
      obtain ⟨same, hstep⟩ := step_batch_of_executed program hturn hfault
      rw [h] at hstep
      cases hstep
      exact ⟨turned, sent, rfl, hfault, turn_of_executed hturn hfault⟩
    | some fault =>
      have hstep := step_machine_of_faulted program Inlet.serves_queue Outlet.serves_discard
        hturn hfault
      rw [h] at hstep
      cases hstep

theorem fresh_arrive (program : Program) (seed values : List Word) :
    (fresh program seed).arrive values = fresh program (seed ++ values) := by
  simp [fresh, arrive, Channel.extend]

end Node

namespace Network

/-- A series with machine `before.length` singled out. -/
def seriesAt (before : List Node) (node : Node) (behind : List Node) : Network :=
  ⟨.series, before ++ node :: behind⟩

/-- The machines behind another one, after it has sent values to the first of them. -/
def passOn (values : List Word) (behind : List Node) : List Node :=
  behind.modifyHead fun next => next.arrive values

theorem passOn_nil (behind : List Node) : passOn [] behind = behind := by
  cases behind <;> simp [passOn]

theorem passOn_passOn (xs ys : List Word) (behind : List Node) :
    passOn ys (passOn xs behind) = passOn (xs ++ ys) behind := by
  cases behind <;> simp [passOn, Node.arrive_arrive]

theorem getElem?_seriesAt (before behind : List Node) (node : Node) :
    (seriesAt before node behind).nodes[before.length]? = some node := by
  simp [seriesAt]

/-- The machine singled out passes what it sends to the next one. -/
theorem pass_seriesAt (before behind : List Node) (node turned : Node) (sent : Option Word) :
    (seriesAt before node behind).pass before.length turned sent =
      seriesAt before turned (passOn sent.toList behind) := by
  cases behind with
  | nil =>
    rw [pass_of_listener?_eq_none (by simp [listener?, seriesAt])]
    simp [put, seriesAt, passOn]
  | cons next rest =>
    have hl : (seriesAt before node (next :: rest)).listener? before.length =
        some (before.length + 1) := by
      simp [listener?, seriesAt]
    cases sent with
    | none =>
      rw [pass_none]
      simp [put, seriesAt, passOn]
    | some value =>
      rw [pass_of_listener?_eq_some hl]
      simp only [put, deliver, seriesAt, List.set_append_right _ _ (Nat.le_refl _), Nat.sub_self,
        List.set_cons_zero, Channel.put_eq_extend]
      exact congrArg (Network.mk .series)
        (List.modifyTailIdx_add _ 1 before (turned :: next :: rest))

/-- **A machine of a series runs to its end while the others stand still.** The machine behind it
gets everything it outputs. -/
theorem replay_solo {program : Program} {before : List Node} :
    ∀ {fuel : Nat} {behind : List Node} {node : Node} {after : Machine},
      (seriesAt before node behind).FaultFree →
      (node.machine program .queue .discard).proceed fuel = (after, some .halted) →
      ∃ schedule halted values,
        (seriesAt before node behind).replay schedule =
          some (seriesAt before halted (passOn values behind)) ∧
        halted.state = after.state ∧ halted.state.halted = true ∧ halted.fault = none ∧
        halted.state.outputs.toList = node.state.outputs.toList ++ values
  | 0, _, _, _, _, h => by
    cases h
  | fuel + 1, behind, node, after, hok, h => by
    have hnode := hok node (List.mem_of_getElem? (getElem?_seriesAt _ _ _))
    rw [Machine.proceed] at h
    rcases hstep : (node.machine program .queue .discard).step with ⟨second, outcome⟩
    rw [hstep] at h
    cases outcome with
    | stopped stop =>
      cases h
      have hhalted : node.state.halted = true := by
        cases Machine.step_eq_iff.mp hstep with
        | halted hhalted => exact hhalted
      cases (Machine.Steps.halted hhalted).step_eq.symm.trans hstep
      refine ⟨[], node, [], ?_, rfl, hhalted, hnode, (List.append_nil _).symm⟩
      rw [passOn_nil, replay]
    | executed instruction =>
      obtain ⟨turned, sent, rfl, hturned, hturn⟩ := Node.turn_of_step_batch hnode hstep
      have hfire : (seriesAt before node behind).fire? before.length =
          some (seriesAt before turned (passOn sent.toList behind)) := by
        rw [fire?_eq (getElem?_seriesAt _ _ _), hok.isHeard, hturn, Option.map_some, pass_seriesAt]
      have hokTurned := faultFree_pass (lt_of_fire? hfire) hok hturned sent
      rw [pass_seriesAt] at hokTurned
      obtain ⟨rest, halted, values, hrest, hstate, hhalted, hfault, hout⟩ :=
        replay_solo hokTurned h
      refine ⟨before.length :: rest, halted, sent.toList ++ values, ?_, hstate, hhalted, hfault, ?_⟩
      · rw [replay_cons_eq_some]
        refine ⟨_, hfire, ?_⟩
        rw [hrest, passOn_passOn]
      · rw [hout, (Node.turns_of_turn (hturn false)).outputs, List.append_assoc]

end Network

/-- Machines about to start, the first of them with `feed` behind its setting. -/
def lineUp (program : Program) (feed : List Word) : List Word → List Node
  | [] => []
  | phase :: rest => .fresh program (phase :: feed) :: rest.map fun phase => .fresh program [phase]

theorem nodes_eq_lineUp (program : Program) (signal : Word) (phases : List Word) :
    nodes program signal phases = lineUp program [signal] phases := by
  cases phases <;> rfl

theorem passOn_fresh (program : Program) (values phases : List Word) :
    Network.passOn values (phases.map fun phase => .fresh program [phase]) =
      lineUp program values phases := by
  cases phases with
  | nil => rfl
  | cons phase rest => simp [Network.passOn, lineUp, Node.fresh_arrive]

theorem fault_of_mem_lineUp {program : Program} (feed phases : List Word) {node : Node}
    (h : node ∈ lineUp program feed phases) : node.fault = none := by
  cases phases with
  | nil => cases h
  | cons phase rest =>
    simp only [lineUp, List.mem_cons, List.mem_map] at h
    rcases h with rfl | ⟨other, -, rfl⟩ <;> rfl

/-- A finished run has come to a halted machine. -/
theorem proceed_of_run_batch {program : Program} {queue : List Word} {fuel : Nat}
    {after : Machine} {last : Option Word}
    (h : (Machine.batch program queue).run fuel = (after, .finished last)) :
    (Machine.batch program queue).proceed fuel = (after, some .halted) ∧
      after.state.last = last := by
  have hreset : (Machine.batch program queue).reset = Machine.batch program queue := rfl
  unfold Machine.run at h
  rw [hreset] at h
  split at h
  · rename_i hproceed
    cases h
    exact ⟨hproceed, rfl⟩
  · cases h
  · cases h
  · cases h

/-- **If the relay ends, the machines of a series can run one after the other, and all halt.**
`before` are those that have run already. -/
theorem replay_of_relay {fuel : Nat} {program : Program} {result : Option Word} :
    ∀ {phases feed : List Word} {last : Option Word} {before : List Node},
      relay fuel program last feed phases = .finished result →
      (∀ node ∈ before, node.state.halted = true ∧ node.fault = none) →
      (before.getLast?.bind fun node => node.state.last) = last →
      ∃ schedule final,
        (⟨.series, before ++ lineUp program feed phases⟩ : Network).replay schedule = some final ∧
          final.AllHalted ∧ final.signal = result
  | [], feed, last, before, h, hbefore, hlast => by
    cases h
    refine ⟨[], _, rfl, ?_, ?_⟩
    · simpa [lineUp, Network.AllHalted] using hbefore
    · simpa [lineUp, Network.signal] using hlast
  | phase :: rest, feed, last, before, h, hbefore, hlast => by
    rw [relay] at h
    rcases hrun : (Machine.batch program (phase :: feed)).run fuel with ⟨after, ending⟩
    rw [hrun] at h
    cases ending with
    | faulted fault => cases h
    | unfinished => cases h
    | finished next =>
      obtain ⟨hproceed, hnext⟩ := proceed_of_run_batch hrun
      have hok : (Network.seriesAt before (.fresh program (phase :: feed))
          (rest.map fun phase => .fresh program [phase])).FaultFree := by
        intro node hn
        rcases List.mem_append.mp hn with hn | hn
        · exact (hbefore node hn).2
        · exact fault_of_mem_lineUp feed (phase :: rest) hn
      obtain ⟨first, halted, values, hfirst, hstate, hhalted, hfault, hout⟩ :=
        Network.replay_solo hok hproceed
      -- the machine that has run joins those before, and its log is the next feed
      have hvalues : values = after.state.outputs.toList := by
        rw [← hstate, hout]
        rfl
      rw [passOn_fresh, hvalues] at hfirst
      obtain ⟨second, final, hsecond, hfinal⟩ := replay_of_relay h
        (List.forall_mem_append.mpr ⟨hbefore, List.forall_mem_singleton.mpr ⟨hhalted, hfault⟩⟩)
        (show (before ++ [halted]).getLast?.bind (fun node => node.state.last) = next by
          simp [hstate, hnext])
      refine ⟨first ++ second, final, ?_, hfinal⟩
      rw [Network.replay_append]
      have hstart : (⟨.series, before ++ lineUp program feed (phase :: rest)⟩ : Network) =
          Network.seriesAt before (.fresh program (phase :: feed))
            (rest.map fun phase => .fresh program [phase]) := rfl
      rw [hstart, hfirst, Option.bind_some]
      rw [List.append_assoc] at hsecond
      exact hsecond

/-! ## The two together -/

/-- A series has a schedule that halts everybody exactly if the relay ends. -/
theorem series_halts_iff_relay (program : Program) (phases : List Word) (signal : Word)
    (result : Option Word) :
    (∃ schedule net, (Chain.mk program phases signal .series).wire.replay schedule = some net ∧
        net.AllHalted ∧ net.signal = result) ↔
      ∃ fuel, relay fuel program none [signal] phases = .finished result := by
  constructor
  · rintro ⟨schedule, net, hrun, hhalt, rfl⟩
    obtain ⟨bound, hbound⟩ := relay_of_halted rfl hrun hhalt
    exact ⟨bound, hbound bound (Nat.le_refl _)⟩
  · rintro ⟨fuel, hrelay⟩
    have hwire : (Chain.mk program phases signal .series).wire =
        ⟨.series, [] ++ lineUp program [signal] phases⟩ := by
      rw [List.nil_append, ← nodes_eq_lineUp]
      rfl
    rw [hwire]
    exact replay_of_relay hrelay (fun node hn => by cases hn) rfl

/-- **The signal of a series is that of the relay.** The run of a series finishes with a result
exactly if the machines, run alone one after the other, all halt and the last of them gives that
result; and exactly then the series ends with that result whatever the schedule. -/
theorem series_run_iff_relay (program : Program) (phases : List Word) (signal : Word)
    (result : Option Word) :
    ((∃ fuel, (Chain.mk program phases signal .series).run fuel = .finished result) ↔
      ∃ fuel, relay fuel program none [signal] phases = .finished result) ∧
    ((Chain.mk program phases signal .series).Returns result ↔
      ∃ fuel, relay fuel program none [signal] phases = .finished result) := by
  rw [exists_run_eq_finished_iff, returns_iff]
  have h := series_halts_iff_relay program phases signal result
  exact ⟨h, h⟩

/-- The amplifiers of the first example: settings 4, 3, 2, 1, 0 give 43210. -/
example : relay 20 ⟨[3, 15, 3, 16, 1002, 16, 10, 16, 1, 16, 15, 15, 4, 15, 99, 0, 0]⟩ none [0]
    [4, 3, 2, 1, 0] = .finished (some 43210) := by decide

end Intcode.Chain
