import Intcode.Proofs.Chain.Schedule
import Intcode.Proofs.Machine.Step

/-!
# Machines of a chain and stand-alone machines

A machine of a chain is a `Machine` like any other, with channels for its ports (`ChainMachine`),
and does not know that it is one of several. Whatever its neighbours do, it is in the state of a
machine that runs alone on a queue of all the values sent to it so far, and these are its seed
followed by everything the machine before it has output.

Two things carry the proof. A turn is a step of a machine at ports that are fed and heard as the
turn is, so as long as a machine does not fault its turns are the steps on a queue. And a queue
that gets longer does not change the steps already made (`Machine.proceed_feed`), so the arrivals
in between do no harm.

Results:
* `fire?_is_step`: a firing is a step of the machine at the ends of its channels.
* `Node.Tracks.turn`, `Node.Tracks.arrive`: a machine that tracks a stand-alone one goes on doing
  so.
* `Conserves.fire?`: what a machine was sent is its seed and the log of its feeder, after every
  firing.
* `history_of_replay`: the values a machine has taken and its firings, along a schedule.
* **`node_is_standalone`**: all that for every network that a chain reaches.
-/

namespace Intcode

/-! ## Turns are steps -/

/-- The outlet after a machine has sent a value to it, or none. -/
def Outlet.after (outlet : Outlet) (sent : Option Word) : Outlet :=
  (sent.bind outlet.push?).getD outlet

/-- `inlet` holds a list of values; it gives them out in order, and then blocks if it is `fed` and
is disconnected if not. -/
structure Inlet.Serves (inlet : List Word → Inlet) (fed : Bool) : Prop where
  pull_nil : (inlet []).pull = if fed then .blocked else .disconnected
  pull_cons : ∀ word rest, (inlet (word :: rest)).pull = .value word (inlet rest)

theorem Inlet.serves_queue : Inlet.Serves .queue false := ⟨rfl, fun _ _ => rfl⟩

theorem Inlet.serves_channel (fed : Bool) : Inlet.Serves (.channel · fed) fed :=
  ⟨rfl, fun _ _ => rfl⟩

/-- `outlet` accepts every value if it is `heard`, and refuses every value if it is not. -/
structure Outlet.Serves (outlet : Outlet) (heard : Bool) : Prop where
  push_of_heard : heard = true → ∀ word, ∃ after, outlet.push word = .accepted after
  push_of_unheard : heard = false → ∀ word, outlet.push word = .refused outlet

theorem Outlet.serves_discard : Outlet.Serves .discard true := ⟨fun _ _ => ⟨_, rfl⟩, nofun⟩

theorem Outlet.serves_channel (pending : Array Word) (heard : Bool) :
    Outlet.Serves (.channel pending heard) heard := by
  cases heard with
  | true => exact ⟨fun _ _ => ⟨_, rfl⟩, nofun⟩
  | false => exact ⟨nofun, fun _ _ => rfl⟩

/-- A machine about to run alone on a queue, what it outputs being discarded. -/
def Machine.batch (program : Program) (queue : List Word) : Machine where
  program := program
  input := .queue queue

namespace Chain

namespace Node

/-- The machine of a node, with ports of one's choice. -/
def machine (node : Node) (program : Program) (inlet : List Word → Inlet) (outlet : Outlet) :
    Machine where
  program := program
  input := inlet node.inbox.pending
  output := outlet
  state := node.state

variable {node after : Node} {fed heard : Bool} {sent : Option Word} {inlet : List Word → Inlet}
  {outlet : Outlet}

theorem pull_machine (program : Program) (hin : Inlet.Serves inlet fed) {value : Word}
    (hfront : node.inbox.front? = some value) :
    (node.machine program inlet outlet).input.pull =
      .value value (inlet node.inbox.take.pending) := by
  simp only [machine, Channel.pending_of_front? hfront]
  exact hin.pull_cons _ _

/-- **A turn without a fault is a step** of the machine, at an inlet that is fed and an outlet that
is heard as in the turn. -/
theorem step_machine_of_executed (program : Program) (hin : Inlet.Serves inlet fed)
    (hout : outlet.Serves heard)
    (h : node.turn fed heard = some (after, sent)) (hok : after.fault = none) :
    ∃ instruction, (node.machine program inlet outlet).step =
      (after.machine program inlet (outlet.after sent), .executed instruction) := by
  have hrun := (isRunning_iff.mp (isRunning_of_turn h)).1
  cases turns_of_turn h with
  | internal hnext => exact ⟨_, (Machine.Steps.internal hrun rfl hnext).step_eq⟩
  | receive hnext hfront hdest =>
    exact ⟨_, (Machine.Steps.receive hrun rfl hnext (pull_machine program hin hfront)
      hdest).step_eq⟩
  | @send _ value hnext hheard =>
    obtain ⟨output, hpush⟩ := hout.push_of_heard hheard value
    have hafter : outlet.after (some value) = output := by
      simp [Outlet.after, Outlet.push?, hpush, Push.accepted?]
    rw [hafter]
    exact ⟨_, (Machine.Steps.send hrun rfl hnext hpush).step_eq⟩
  | misplace => exact absurd hok (by simp)
  | crash | starve | refuse => exact absurd hok (by simp [fail])

/-- **A turn with a fault is a step with that fault.** -/
theorem step_machine_of_faulted (program : Program) (hin : Inlet.Serves inlet fed)
    (hout : outlet.Serves heard)
    (h : node.turn fed heard = some (after, sent)) {fault : Fault}
    (hfault : after.fault = some fault) :
    (node.machine program inlet outlet).step =
      (after.machine program inlet outlet, .stopped (.faulted fault)) := by
  obtain ⟨hrun, hnone⟩ := isRunning_iff.mp (isRunning_of_turn h)
  cases turns_of_turn h with
  | internal | receive | send =>
    rw [hnone] at hfault
    exact absurd hfault (by simp)
  | crash hnext =>
    obtain rfl := Option.some.inj hfault
    exact (Machine.Steps.crash hrun rfl hnext).step_eq
  | misplace hnext hfront hdest =>
    obtain rfl := Option.some.inj hfault
    exact (Machine.Steps.misplace hrun rfl hnext (pull_machine program hin hfront) hdest).step_eq
  | starve hnext hfront hfed =>
    obtain rfl := Option.some.inj hfault
    have hpull : (node.machine program inlet outlet).input.pull = .disconnected := by
      simp only [machine, Channel.pending_eq_nil_iff.mpr hfront]
      rw [hin.pull_nil, hfed]
      rfl
    exact (Machine.Steps.starve hrun rfl hnext hpull).step_eq
  | @refuse _ value hnext hheard =>
    obtain rfl := Option.some.inj hfault
    exact (Machine.Steps.refuse hrun rfl hnext (hout.push_of_unheard hheard value)).step_eq

/-- A running machine that takes no turn waits. -/
theorem step_machine_of_waiting (program : Program) (hin : Inlet.Serves inlet fed)
    (hr : node.isRunning = true) (h : node.turn fed heard = none) :
    (node.machine program inlet outlet).step =
      (node.machine program inlet outlet, .stopped .waiting) := by
  obtain ⟨⟨⟨instruction, dest, hnext⟩, hempty⟩, hfed⟩ := (turn_eq_none_iff hr).mp h
  have hpull : (node.machine program inlet outlet).input.pull = .blocked := by
    simp only [machine, hempty]
    rw [hin.pull_nil, hfed]
    rfl
  exact (Machine.Steps.wait (isRunning_iff.mp hr).1 rfl hnext hpull).step_eq

end Node

/-! ## Firings are steps -/

namespace Network

/-- The outlet of machine `j`: a channel to its listener, or nothing. -/
def outlet (net : Network) (j : Nat) : Outlet :=
  match net.listener? j with
  | none => .discard
  | some k => .channel #[] (!net.isDeaf k)

theorem serves_outlet (net : Network) (j : Nat) : (net.outlet j).Serves (net.isHeard j) := by
  unfold outlet isHeard
  rcases net.listener? j with _ | k
  · exact Outlet.serves_discard
  · exact Outlet.serves_channel _ _

/-- Machine `j` of a network, at the ends of its channels. -/
def machineAt (net : Network) (program : Program) (j : Nat) (node : Node) : Machine :=
  node.machine program (.channel · (net.isFed j)) (net.outlet j)

/-- **A firing is a step of the machine at the ends of its channels**: the machine executes an
instruction and passes on what it has sent, or it faults with the same fault, or it waits and so
does the firing. -/
theorem fire?_is_step {net : Network} {j : Nat} {node : Node} (program : Program)
    (hj : net.nodes[j]? = some node) (hr : node.isRunning = true) :
    (∃ turned sent instruction, net.fire? j = some (net.pass j turned sent) ∧
      turned.fault = none ∧
      (net.machineAt program j node).step =
        (turned.machine program (.channel · (net.isFed j)) ((net.outlet j).after sent),
          .executed instruction)) ∨
    (∃ turned sent fault, net.fire? j = some (net.pass j turned sent) ∧
      turned.fault = some fault ∧
      (net.machineAt program j node).step =
        (turned.machine program (.channel · (net.isFed j)) (net.outlet j),
          .stopped (.faulted fault))) ∨
    (net.fire? j = none ∧
      (net.machineAt program j node).step =
        (net.machineAt program j node, .stopped .waiting)) := by
  have hin := Inlet.serves_channel (net.isFed j)
  have hout := net.serves_outlet j
  rw [fire?_eq hj]
  cases hturn : node.turn (net.isFed j) (net.isHeard j) with
  | none => exact .inr (.inr ⟨rfl, Node.step_machine_of_waiting program hin hr hturn⟩)
  | some pair =>
    obtain ⟨turned, sent⟩ := pair
    cases hfault : turned.fault with
    | none =>
      obtain ⟨instruction, hstep⟩ := Node.step_machine_of_executed program hin hout hturn hfault
      exact .inl ⟨turned, sent, instruction, rfl, hfault, hstep⟩
    | some fault =>
      exact .inr (.inl ⟨turned, sent, fault, rfl, hfault,
        Node.step_machine_of_faulted program hin hout hturn hfault⟩)

end Network

namespace Node

variable {node after : Node} {fed heard : Bool} {sent : Option Word}

/-! ## What a turn leaves behind -/

theorem Turns.inbox_sent (h : node.Turns fed heard after sent) :
    after.inbox.sent = node.inbox.sent := by
  cases h <;> rfl

/-- What is sent is logged, and nothing else is. -/
theorem Turns.outputs (h : node.Turns fed heard after sent) :
    after.state.outputs.toList = node.state.outputs.toList ++ sent.toList := by
  cases h with
  | send => simp [State.sent]
  | internal | receive | crash | misplace | starve | refuse =>
    exact (List.append_nil _).symm

/-- How often the machine has fired: once for every instruction executed, and once for a fault. -/
def fired (node : Node) : Nat := node.state.steps + if node.fault = none then 0 else 1

theorem Turns.fired (hn : node.fault = none) (h : node.Turns fed heard after sent) :
    after.fired = node.fired + 1 := by
  unfold Node.fired
  cases h with
  | internal => simp [State.perform, hn]
  | receive => simp [State.received, hn]
  | send => simp [State.sent, hn]
  | crash | misplace | starve | refuse => simp [fail, hn]

end Node

namespace Channel

/-- The values already taken. -/
def gone (channel : Channel) : List Word := channel.sent.toList.take channel.taken

theorem gone_append_pending (channel : Channel) :
    channel.gone ++ channel.pending = channel.sent.toList :=
  List.take_append_drop _ _

theorem gone_take {channel : Channel} {value : Word} (h : channel.front? = some value) :
    channel.take.gone = channel.gone ++ [value] := by
  unfold gone take
  rw [List.take_add_one, Array.getElem?_toList]
  unfold front? at h
  rw [h]
  rfl

theorem gone_extend {channel : Channel} (h : channel.taken ≤ channel.sent.size)
    (values : List Word) : (channel.extend values).gone = channel.gone := by
  unfold gone extend
  simp [List.take_append_of_le_length, h]

theorem pending_extend {channel : Channel} (h : channel.taken ≤ channel.sent.size)
    (values : List Word) : (channel.extend values).pending = channel.pending ++ values := by
  unfold pending extend
  simp [List.drop_append_of_le_length, h]

end Channel

namespace Node

variable {node after : Node} {fed heard : Bool} {sent : Option Word}

/-- The value that the next turn takes. -/
def pull? (node : Node) : Option Word :=
  match node.state.next with
  | .ok (_, .receive _) => node.inbox.front?
  | _ => none

theorem Turns.gone (h : node.Turns fed heard after sent) :
    after.inbox.gone = node.inbox.gone ++ node.pull?.toList := by
  unfold pull?
  cases h with
  | receive hnext hfront hdest => simp [hnext, hfront, Channel.gone_take hfront]
  | misplace hnext hfront hdest => simp [hnext, hfront, Channel.gone_take hfront]
  | starve hnext hfront hfed => simp [hnext, hfront, fail]
  | internal hnext | send hnext | crash hnext | refuse hnext => simp [hnext, fail]

theorem Turns.taken_le (h : node.Turns fed heard after sent)
    (hle : node.inbox.taken ≤ node.inbox.sent.size) :
    after.inbox.taken ≤ after.inbox.sent.size := by
  cases h with
  | receive hnext hfront | misplace hnext hfront =>
    unfold Channel.front? at hfront
    exact (Array.getElem?_eq_some_iff.mp hfront).1
  | internal | send | crash | starve | refuse => exact hle

/-! ## Tracking a stand-alone machine -/

/-- The machine has taken no more than it was sent, and it is where a machine comes that runs alone
on all it was sent, with the same values left unless it has faulted. -/
structure Tracks (program : Program) (node : Node) : Prop where
  taken_le : node.inbox.taken ≤ node.inbox.sent.size
  run : ∃ rest, (Machine.batch program node.inbox.sent.toList).proceed node.state.steps =
      ({ Machine.batch program rest with state := node.state }, none) ∧
    (node.fault = none → rest = node.inbox.pending)

theorem tracks_fresh (program : Program) (seed : List Word) : (fresh program seed).Tracks program :=
  ⟨Nat.zero_le _, seed, rfl, fun _ => rfl⟩

/-- A turn without a fault does not depend on who feeds the machine. -/
theorem turn_of_executed (h : node.turn fed heard = some (after, sent)) (hok : after.fault = none)
    (fed' : Bool) : node.turn fed' true = some (after, sent) := by
  have hturns := (turns_of_turn h).arrive hok [] fed'
  rw [arrive_nil, arrive_nil] at hturns
  exact turn_eq_some_iff.mpr ⟨isRunning_of_turn h, hturns⟩

/-- A turn without a fault is a step of the machine that runs alone. -/
theorem step_batch_of_executed (program : Program) (h : node.turn fed heard = some (after, sent))
    (hok : after.fault = none) :
    ∃ instruction, (node.machine program .queue .discard).step =
      (after.machine program .queue .discard, .executed instruction) := by
  have hlast : Outlet.after .discard sent = .discard := by cases sent <;> rfl
  obtain ⟨instruction, hstep⟩ := step_machine_of_executed program Inlet.serves_queue
    Outlet.serves_discard (turn_of_executed h hok false) hok
  rw [hlast] at hstep
  exact ⟨instruction, hstep⟩

/-- **A machine that tracks a stand-alone one still does after its turn.** -/
theorem Tracks.turn {program : Program} (htracks : node.Tracks program)
    (h : node.turn fed heard = some (after, sent)) : after.Tracks program := by
  have hturns := turns_of_turn h
  have hnode := fault_eq_none_of_turn h
  refine ⟨hturns.taken_le htracks.taken_le, ?_⟩
  obtain ⟨rest, hproceed, hrest⟩ := htracks.run
  rw [hturns.inbox_sent]
  cases hfault : after.fault with
  | none =>
    obtain rfl := hrest hnode
    obtain ⟨instruction, hstep⟩ := step_batch_of_executed program h hfault
    have hsteps : after.state.steps = node.state.steps + 1 := by
      have hfired := hturns.fired hnode
      simpa [Node.fired, hnode, hfault] using hfired
    rw [hsteps]
    exact ⟨_, Machine.proceed_snoc hproceed hstep, fun _ => rfl⟩
  | some fault =>
    -- a fault changes nothing but the inbox
    have hstate : after.state = node.state := by
      cases hturns with
      | internal | receive | send =>
        rw [hnode] at hfault
        exact absurd hfault (by simp)
      | crash | misplace | starve | refuse => rfl
    rw [hstate]
    exact ⟨rest, hproceed, fun h => absurd h (by simp)⟩

/-- **A machine that tracks a stand-alone one still does after an arrival.** -/
theorem Tracks.arrive {program : Program} (htracks : node.Tracks program) (values : List Word) :
    (node.arrive values).Tracks program := by
  obtain ⟨rest, hproceed, hrest⟩ := htracks.run
  refine ⟨?_, rest ++ values, ?_, fun h => ?_⟩
  · have hle := htracks.taken_le
    simp only [Node.arrive, Channel.extend, Array.size_append]
    omega
  · have hsent : (node.arrive values).inbox.sent.toList = node.inbox.sent.toList ++ values := by
      simp [Node.arrive, Channel.extend]
    rw [hsent]
    exact Machine.proceed_feed values hproceed
  · rw [hrest h]
    exact (Channel.pending_extend htracks.taken_le values).symm

end Node

/-! ## Values on their way -/

namespace Network

/-- The log of the machine that feeds machine `j`; empty if there is none. -/
def fedLog (net : Network) (j : Nat) : List Word :=
  match (net.feeder? j).bind (net.nodes[·]?) with
  | some node => node.state.outputs.toList
  | none => []

/-- Machine `x` finds in its feeder's log what the firing has carried to it. -/
theorem fedLog_pass {net : Network} {j x : Nat} {node turned : Node} {sent : Option Word}
    (hj : net.nodes[j]? = some node)
    (hlog : turned.state.outputs.toList = node.state.outputs.toList ++ sent.toList)
    (hx : x < net.nodes.length) :
    (net.pass j turned sent).fedLog x = net.fedLog x ++ net.carried j x sent := by
  have hlt := (List.getElem?_eq_some_iff.mp hj).1
  have hcarried : net.carried j x sent = if net.feeder? x = some j then sent.toList else [] := by
    simp only [carried, feeder?_eq_iff hlt hx]
  unfold fedLog
  rw [feeder?_pass, hcarried]
  cases hf : net.feeder? x with
  | none => simp
  | some u =>
    simp only [Option.bind_some, Option.some.injEq]
    rw [getElem?_pass hlt]
    by_cases huj : u = j
    · subst huj
      simp [hj, hlog]
    · simp only [if_neg huj, List.append_nil]
      cases net.nodes[u]? <;> rfl

/-- What machine `j` takes from its inbox when machine `i` fires. -/
def pulled (net : Network) (i j : Nat) : List Word :=
  if i = j then (net.nodes[j]?.bind Node.pull?).toList else []

/-- The values that machine `j` takes from its inbox while a schedule is followed. -/
def pulls (j : Nat) : Network → List Nat → List Word
  | _, [] => []
  | net, i :: rest =>
    match net.fire? i with
    | none => []
    | some after => net.pulled i j ++ pulls j after rest

/-- One firing in the history of machine `j`. -/
theorem history_of_fire? {net after : Network} {i j : Nat} {node : Node}
    (h : net.fire? i = some after) (hj : net.nodes[j]? = some node)
    (hle : node.inbox.taken ≤ node.inbox.sent.size) :
    ∃ later, after.nodes[j]? = some later ∧
      later.inbox.gone = node.inbox.gone ++ net.pulled i j ∧
      later.fired = node.fired + if i = j then 1 else 0 := by
  have hlt := lt_of_fire? h
  obtain ⟨fired, turned, sent, hi, hturn, rfl⟩ := fire?_eq_some_iff.mp h
  by_cases hij : i = j
  · subst hij
    rw [hi] at hj
    obtain rfl := Option.some.inj hj
    have hturns := Node.turns_of_turn hturn
    refine ⟨turned.arrive (net.carried i i sent), getElem?_pass_self hlt _ _, ?_, ?_⟩
    · rw [pulled, if_pos rfl, hi, Option.bind_some, ← hturns.gone]
      exact Channel.gone_extend (hturns.taken_le hle) _
    · rw [if_pos rfl, ← hturns.fired (Node.fault_eq_none_of_turn hturn)]
      rfl
  · refine ⟨node.arrive (net.carried i j sent),
      getElem?_pass_of_ne hlt hj (Ne.symm hij) _ _, ?_, ?_⟩
    · rw [pulled, if_neg hij, List.append_nil]
      exact Channel.gone_extend hle _
    · rw [if_neg hij]
      rfl

theorem tracks_of_fire? {program : Program} {net after : Network} {j : Nat}
    (h : net.fire? j = some after) (htracks : ∀ node ∈ net.nodes, node.Tracks program) :
    ∀ node ∈ after.nodes, node.Tracks program :=
  forall_mem_of_fire? (P := fun node => node.Tracks program) (fun ht hturn => ht.turn hturn)
    (fun values ht => ht.arrive values) h htracks

/-- **The history of machine `j`**: the values it has taken are those that the schedule made it
take, in that order, and it has fired as often as the schedule names it. -/
theorem history_of_replay {program : Program} {final : Network} {j : Nat} :
    ∀ {schedule : List Nat} {net : Network} {node : Node},
      (∀ other ∈ net.nodes, other.Tracks program) → net.replay schedule = some final →
      net.nodes[j]? = some node → ∃ later, final.nodes[j]? = some later ∧
        later.inbox.gone = node.inbox.gone ++ net.pulls j schedule ∧
        later.fired = node.fired + schedule.count j
  | [], net, node, _, hrun, hj => by
    obtain rfl := Option.some.inj hrun
    exact ⟨node, hj, (List.append_nil _).symm, rfl⟩
  | i :: rest, net, node, htracks, hrun, hj => by
    obtain ⟨after, hi, hrest⟩ := replay_cons_eq_some.mp hrun
    obtain ⟨mid, hmid, hgone, hfired⟩ :=
      history_of_fire? hi hj (htracks node (List.mem_of_getElem? hj)).taken_le
    obtain ⟨later, hlater, hgone', hfired'⟩ :=
      history_of_replay (tracks_of_fire? hi htracks) hrest hmid
    refine ⟨later, hlater, ?_, ?_⟩
    · rw [hgone', hgone, pulls, hi, List.append_assoc]
    · rw [hfired', hfired, List.count_cons]
      simp only [beq_iff_eq]
      omega

end Network

/-! ## Chains -/

/-- What machine `j` finds in its inbox: its setting, and the first machine also the signal. -/
def seed (chain : Chain) (j : Nat) : List Word :=
  chain.phases[j]?.toList ++ if j = 0 then [chain.signal] else []

/-- All that machine `j` has been sent: its seed, and then the log of the machine before it. -/
def supply (chain : Chain) (net : Network) (j : Nat) : List Word :=
  chain.seed j ++ net.fedLog j

theorem getElem?_wire (chain : Chain) (j : Nat) :
    chain.wire.nodes[j]? =
      chain.phases[j]?.map fun _ => Node.fresh chain.program (chain.seed j) := by
  unfold wire nodes seed
  cases chain.phases with
  | nil => rfl
  | cons first rest =>
    cases j with
    | zero => rfl
    | succ j =>
      simp only [List.getElem?_cons_succ, List.getElem?_map]
      cases rest[j]? <;> rfl

theorem length_wire (chain : Chain) : chain.wire.nodes.length = chain.phases.length := by
  unfold wire nodes
  cases chain.phases with
  | nil => rfl
  | cons first rest => simp

/-- Every machine was sent its seed and the log of its feeder. -/
def Conserves (chain : Chain) (net : Network) : Prop :=
  ∀ (j : Nat) (node : Node), net.nodes[j]? = some node →
    node.inbox.sent.toList = chain.supply net j

theorem conserves_wire (chain : Chain) : chain.Conserves chain.wire := by
  intro j node hj
  rw [getElem?_wire] at hj
  obtain ⟨phase, -, rfl⟩ := Option.map_eq_some_iff.mp hj
  have hlog : chain.wire.fedLog j = [] := by
    unfold Network.fedLog
    split
    · rename_i up hup
      obtain ⟨u, -, hu⟩ := Option.bind_eq_some_iff.mp hup
      rw [getElem?_wire] at hu
      obtain ⟨other, -, rfl⟩ := Option.map_eq_some_iff.mp hu
      rfl
    · rfl
  rw [supply, hlog, List.append_nil]
  rfl

/-- **A firing loses nothing, doubles nothing and reorders nothing.** -/
theorem Conserves.fire? {chain : Chain} {net after : Network} {j : Nat}
    (hnet : chain.Conserves net) (h : net.fire? j = some after) : chain.Conserves after := by
  obtain ⟨fired, turned, sent, hj, hturn, rfl⟩ := Network.fire?_eq_some_iff.mp h
  have hturns := Node.turns_of_turn hturn
  have hlt := (List.getElem?_eq_some_iff.mp hj).1
  intro x node hx
  have hxlt : x < net.nodes.length := by
    have hlen := (List.getElem?_eq_some_iff.mp hx).1
    rwa [Network.length_pass] at hlen
  rw [supply, Network.fedLog_pass hj hturns.outputs hxlt, ← List.append_assoc]
  rw [Network.getElem?_pass hlt] at hx
  obtain ⟨before, hb, rfl⟩ := Option.map_eq_some_iff.mp hx
  have hbefore : before.inbox.sent.toList = chain.supply net x := by
    split at hb
    · rename_i hxj
      subst hxj
      obtain rfl := Option.some.inj hb
      rw [hturns.inbox_sent]
      exact hnet x fired hj
    · exact hnet x before hb
  rw [supply] at hbefore
  rw [← hbefore]
  simp [Node.arrive, Channel.extend]

theorem tracks_wire (chain : Chain) :
    ∀ node ∈ chain.wire.nodes, node.Tracks chain.program := by
  intro node hn
  obtain ⟨j, hj⟩ := List.mem_iff_getElem?.mp hn
  rw [getElem?_wire] at hj
  obtain ⟨phase, -, rfl⟩ := Option.map_eq_some_iff.mp hj
  exact Node.tracks_fresh _ _

theorem conserves_of_replay {chain : Chain} {schedule : List Nat} {net : Network}
    (hrun : chain.wire.replay schedule = some net) : chain.Conserves net :=
  Network.replay_induction (fun hnet h => hnet.fire? h) schedule chain.conserves_wire hrun

theorem tracks_of_replay {chain : Chain} {schedule : List Nat} {net : Network}
    (hrun : chain.wire.replay schedule = some net) :
    ∀ node ∈ net.nodes, node.Tracks chain.program :=
  Network.replay_induction (P := fun other => ∀ node ∈ other.nodes, node.Tracks chain.program)
    (fun htracks h => Network.tracks_of_fire? h htracks) schedule chain.tracks_wire hrun

/-- The machine `j` that a chain starts with. -/
theorem exists_wire_of_replay {chain : Chain} {schedule : List Nat} {net : Network}
    (hrun : chain.wire.replay schedule = some net) {j : Nat} (hj : j < net.nodes.length) :
    chain.wire.nodes[j]? = some (Node.fresh chain.program (chain.seed j)) := by
  rw [Network.length_of_replay hrun] at hj
  have hget := List.getElem?_eq_getElem hj
  have hwire := chain.getElem?_wire j
  rw [hget] at hwire
  obtain ⟨phase, -, hphase⟩ := Option.map_eq_some_iff.mp hwire.symm
  rw [hget, hphase]

/-- **A machine of a chain is a stand-alone machine, and no value is lost, doubled or moved.** In
every network that a chain reaches, and for every machine of it, faulted or not: the values it has
taken are the first of its supply; unless it has faulted, together with those in its inbox they
are the whole supply; it has fired once for each instruction it executed, and once more if it has
faulted; and its state is that of a machine on a queue with its supply after as many
instructions. -/
theorem node_is_standalone (chain : Chain) {schedule : List Nat} {net : Network}
    (hrun : chain.wire.replay schedule = some net) {j : Nat} {node : Node}
    (hj : net.nodes[j]? = some node) :
    chain.wire.pulls j schedule <+: chain.supply net j ∧
      (node.fault = none →
        chain.wire.pulls j schedule ++ node.inbox.pending = chain.supply net j) ∧
      schedule.count j = node.state.steps + (if node.fault = none then 0 else 1) ∧
      ∃ rest, (Machine.batch chain.program (chain.supply net j)).proceed node.state.steps =
          ({ Machine.batch chain.program rest with state := node.state }, none) ∧
        (node.fault = none → rest = node.inbox.pending) := by
  have htracks := tracks_of_replay hrun node (List.mem_of_getElem? hj)
  have hsent := conserves_of_replay hrun j node hj
  obtain ⟨later, hlater, hgone, hfired⟩ := Network.history_of_replay chain.tracks_wire hrun
    (exists_wire_of_replay hrun (List.getElem?_eq_some_iff.mp hj).1)
  rw [hj] at hlater
  obtain rfl := Option.some.inj hlater
  have hpulls : chain.wire.pulls j schedule = node.inbox.gone := hgone.symm
  have hall : chain.wire.pulls j schedule ++ node.inbox.pending = chain.supply net j := by
    rw [hpulls, ← hsent]
    exact node.inbox.gone_append_pending
  refine ⟨⟨_, hall⟩, fun _ => hall, ?_, ?_⟩
  · have hzero : (Node.fresh chain.program (chain.seed j)).fired = 0 := rfl
    rw [hzero, Nat.zero_add] at hfired
    exact hfired.symm
  · rw [← hsent]
    exact htracks.run

/-- One machine in a loop, which sends to itself what it was sent. -/
def selfLoop : Chain where
  program := ⟨[3, 0, 3, 1, 4, 1, 3, 2, 99]⟩
  phases := [7]
  signal := 5
  topology := .feedback

/-- After three firings the machine has sent itself a value, so its supply is that of a queue of
three. -/
theorem node_is_standalone_selfLoop : ∃ net node,
    selfLoop.wire.replay [0, 0, 0] = some net ∧ net.nodes[0]? = some node ∧
      selfLoop.supply net 0 = [7, 5, 5] ∧ selfLoop.wire.pulls 0 [0, 0, 0] = [7, 5] ∧
      [7, 5] ++ node.inbox.pending = [7, 5, 5] ∧
      ∃ rest, (Machine.batch selfLoop.program [7, 5, 5]).proceed node.state.steps =
        ({ Machine.batch selfLoop.program rest with state := node.state }, none) := by
  have hend : (selfLoop.wire.replay [0, 0, 0]).any (fun net =>
      net.nodes[0]?.any (fun node => node.fault = none) ∧ selfLoop.supply net 0 = [7, 5, 5])
      = true := by decide
  have hpulls : selfLoop.wire.pulls 0 [0, 0, 0] = [7, 5] := by decide
  obtain ⟨net, hrun, hnet⟩ := (Option.any_eq_true _ _).mp hend
  obtain ⟨hnode, hsupply⟩ := of_decide_eq_true hnet
  obtain ⟨node, hj, hfault⟩ := (Option.any_eq_true _ _).mp hnode
  obtain ⟨-, hall, -, rest, hproceed, -⟩ := node_is_standalone selfLoop hrun hj
  rw [hsupply] at hproceed hall
  rw [hpulls] at hall
  exact ⟨net, node, hrun, hj, hsupply, hpulls, hall (of_decide_eq_true hfault), rest, hproceed⟩

end Chain

end Intcode
