import Intcode.Chain

/-!
# One firing of a network

`Network.fire?` looks at the machine that fires, at the machine before it and at the machine after
it. This file separates the three. `Node.turn fed heard` is the part that concerns the machine
alone: `fed` says whether somebody can still send to it, `heard` whether what it sends is
accepted. `Network.pass` puts the machine back and hands the value it sent to the listener.

Results:
* `Node.turn_eq_some_iff`: everything a turn can be (`Node.Turns`), for case analysis.
* `Node.Turns.arrive`: a turn that does not fault is the same turn when more has arrived.
* `fire?_eq_some_iff`: a firing is a turn followed by a pass.
* `getElem?_pass`: the machines after a pass, one by one. Values only ever arrive at the end of an
  inbox (`Node.arrive`), so a firing leaves the other machines alone up to arrivals.
* `feeder?_eq_iff`: feeder and listener are inverse to each other, so at most one machine holds
  the sending end of an inbox, and `isFed_iff` says that the inbox is open exactly while that
  machine runs.
* `forall_mem_of_fire?`: what turns and arrivals preserve, firings preserve.
-/

namespace Intcode.Chain

/-! ## Arrivals -/

namespace Channel

/-- The channel with more values at its end. -/
def extend (channel : Channel) (values : List Word) : Channel :=
  { channel with sent := channel.sent ++ values.toArray }

theorem extend_nil (channel : Channel) : channel.extend [] = channel := by
  simp [extend]

theorem extend_extend (channel : Channel) (xs ys : List Word) :
    (channel.extend xs).extend ys = channel.extend (xs ++ ys) := by
  simp [extend, Array.append_assoc]

theorem put_eq_extend (channel : Channel) (value : Word) :
    channel.put value = channel.extend [value] := by
  simp [put, extend]

/-- A front value stays in front, whatever arrives. -/
theorem front?_extend {channel : Channel} {value : Word} (h : channel.front? = some value)
    (values : List Word) : (channel.extend values).front? = some value := by
  unfold front? at h ⊢
  obtain ⟨hlt, -⟩ := Array.getElem?_eq_some_iff.mp h
  simp only [extend]
  rw [Array.getElem?_append_left hlt, h]

theorem pending_eq_nil_iff {channel : Channel} : channel.pending = [] ↔ channel.front? = none := by
  unfold pending front?
  rw [List.drop_eq_nil_iff, Array.getElem?_eq_none_iff, Array.length_toList]

/-- The front value is the first of the pending ones, and the others stay. -/
theorem pending_of_front? {channel : Channel} {value : Word} (h : channel.front? = some value) :
    channel.pending = value :: channel.take.pending := by
  unfold front? at h
  obtain ⟨hlt, hget⟩ := Array.getElem?_eq_some_iff.mp h
  unfold pending take
  rw [List.drop_eq_getElem_cons (by simpa using hlt), Array.getElem_toList, hget]

end Channel

namespace Node

/-- The machine with more values in its inbox. -/
def arrive (node : Node) (values : List Word) : Node :=
  { node with inbox := node.inbox.extend values }

@[simp] theorem arrive_nil (node : Node) : node.arrive [] = node := by
  simp [arrive, Channel.extend_nil]

@[simp] theorem arrive_state (node : Node) (values : List Word) :
    (node.arrive values).state = node.state := rfl

@[simp] theorem arrive_fault (node : Node) (values : List Word) :
    (node.arrive values).fault = node.fault := rfl

theorem arrive_arrive (node : Node) (xs ys : List Word) :
    (node.arrive xs).arrive ys = node.arrive (xs ++ ys) := by
  simp [arrive, Channel.extend_extend]

theorem isRunning_iff {node : Node} :
    node.isRunning = true ↔ node.state.halted = false ∧ node.fault = none := by
  simp [isRunning]

/-! ## Turns -/

/-- One instruction of a machine that is `fed` or not and `heard` or not: the machine afterwards
and the value it has sent. There is none if the machine has ended, or waits. -/
def turn (node : Node) (fed heard : Bool) : Option (Node × Option Word) :=
  if node.isRunning then
    match node.state.next with
    | .error fault => some (node.fail fault, none)
    | .ok (_, .internal effect) => some ({ node with state := node.state.perform effect }, none)
    | .ok (_, .receive dest) =>
      match node.inbox.front? with
      | some value => some (node.accept dest value, none)
      | none => if fed then none else some (node.fail (.inputClosed node.state.ip), none)
    | .ok (_, .send value) =>
      if heard then some ({ node with state := node.state.sent value }, some value)
      else some (node.fail (.outputClosed node.state.ip), none)
  else none

/-- Only a running machine takes a turn. -/
theorem isRunning_of_turn {node after : Node} {fed heard : Bool} {sent : Option Word}
    (h : node.turn fed heard = some (after, sent)) : node.isRunning = true := by
  unfold turn at h
  split at h
  · assumption
  · exact absurd h (by simp)

theorem fault_eq_none_of_turn {node after : Node} {fed heard : Bool} {sent : Option Word}
    (h : node.turn fed heard = some (after, sent)) : node.fault = none :=
  (isRunning_iff.mp (isRunning_of_turn h)).2

/-- **Everything a turn can be**, with its conditions: three ways to execute an instruction, and
four to fault. -/
inductive Turns (node : Node) (fed heard : Bool) : Node → Option Word → Prop where
  /-- An instruction that neither receives nor sends. -/
  | internal {instruction : Instruction} {effect : Effect}
      (hnext : node.state.next = .ok (instruction, .internal effect)) :
      Turns node fed heard { node with state := node.state.perform effect } none
  /-- The front value is taken and stored. -/
  | receive {instruction : Instruction} {dest value : Word} {index : Nat}
      (hnext : node.state.next = .ok (instruction, .receive dest))
      (hfront : node.inbox.front? = some value) (hdest : node.state.destination dest = .ok index) :
      Turns node fed heard
        { node with state := node.state.received index value, inbox := node.inbox.take } none
  /-- A value is sent. -/
  | send {instruction : Instruction} {value : Word}
      (hnext : node.state.next = .ok (instruction, .send value)) (hheard : heard = true) :
      Turns node fed heard { node with state := node.state.sent value } (some value)
  /-- The instruction cannot be evaluated. -/
  | crash {fault : Fault} (hnext : node.state.next = .error fault) :
      Turns node fed heard (node.fail fault) none
  /-- The front value is taken and cannot be stored. -/
  | misplace {instruction : Instruction} {dest value : Word} {fault : Fault}
      (hnext : node.state.next = .ok (instruction, .receive dest))
      (hfront : node.inbox.front? = some value)
      (hdest : node.state.destination dest = .error fault) :
      Turns node fed heard { node with inbox := node.inbox.take, fault := some fault } none
  /-- There is no value, and there will be none. -/
  | starve {instruction : Instruction} {dest : Word}
      (hnext : node.state.next = .ok (instruction, .receive dest))
      (hfront : node.inbox.front? = none) (hfed : fed = false) :
      Turns node fed heard (node.fail (.inputClosed node.state.ip)) none
  /-- A value is sent and refused. -/
  | refuse {instruction : Instruction} {value : Word}
      (hnext : node.state.next = .ok (instruction, .send value)) (hheard : heard = false) :
      Turns node fed heard (node.fail (.outputClosed node.state.ip)) none

theorem turns_of_turn {node after : Node} {fed heard : Bool} {sent : Option Word}
    (h : node.turn fed heard = some (after, sent)) : node.Turns fed heard after sent := by
  unfold turn at h
  rw [if_pos (isRunning_of_turn h)] at h
  cases hn : node.state.next with
  | error fault =>
    rw [hn] at h
    cases h
    exact .crash hn
  | ok pair =>
    obtain ⟨instruction, action⟩ := pair
    cases action with
    | internal effect =>
      rw [hn] at h
      cases h
      exact .internal hn
    | receive dest =>
      rw [hn] at h
      cases hf : node.inbox.front? with
      | some value =>
        simp only [hf, accept] at h
        cases hd : node.state.destination dest with
        | ok index =>
          rw [hd] at h
          cases h
          exact .receive hn hf hd
        | error fault =>
          rw [hd] at h
          cases h
          exact .misplace hn hf hd
      | none =>
        cases fed with
        | true => simp [hf] at h
        | false =>
          simp only [hf] at h
          cases h
          exact .starve hn hf rfl
    | send value =>
      rw [hn] at h
      cases heard with
      | true =>
        cases h
        exact .send hn rfl
      | false =>
        cases h
        exact .refuse hn rfl

/-- A turn of a running machine is any of the cases, and nothing else. -/
theorem turn_eq_some_iff {node after : Node} {fed heard : Bool} {sent : Option Word} :
    node.turn fed heard = some (after, sent) ↔
      node.isRunning = true ∧ node.Turns fed heard after sent := by
  refine ⟨fun h => ⟨isRunning_of_turn h, turns_of_turn h⟩, fun ⟨hr, h⟩ => ?_⟩
  unfold turn
  rw [if_pos hr]
  cases h with
  | internal hnext => simp only [hnext]
  | receive hnext hfront hdest => simp only [hnext, hfront, accept, hdest]
  | send hnext hheard => simp only [hnext, hheard, if_true]
  | crash hnext => simp only [hnext]
  | misplace hnext hfront hdest => simp only [hnext, hfront, accept, hdest]
  | starve hnext hfront hfed => simp [hnext, hfront, hfed]
  | refuse hnext hheard => simp [hnext, hheard]

/-- **A turn without a fault is the same turn when more has arrived**, whoever else may still
send. -/
theorem Turns.arrive {node after : Node} {fed heard : Bool} {sent : Option Word}
    (h : node.Turns fed heard after sent) (hok : after.fault = none) (values : List Word)
    (fed' : Bool) : (node.arrive values).Turns fed' true (after.arrive values) sent := by
  cases h with
  | internal hnext => exact .internal hnext
  | receive hnext hfront hdest =>
    exact .receive hnext (Channel.front?_extend hfront values) hdest
  | send hnext _ => exact .send hnext rfl
  | crash hnext => exact absurd hok (by simp [fail])
  | misplace hnext hfront hdest => exact absurd hok (by simp)
  | starve hnext hfront hfed => exact absurd hok (by simp [fail])
  | refuse hnext hheard => exact absurd hok (by simp [fail])

/-- The machine is about to take a value, and there is none. -/
def Starved (node : Node) : Prop :=
  (∃ instruction dest, node.state.next = .ok (instruction, .receive dest)) ∧
    node.inbox.pending = []

/-- **A running machine takes no turn only if it is starved and fed.** -/
theorem turn_eq_none_iff {node : Node} {fed heard : Bool} (hr : node.isRunning = true) :
    node.turn fed heard = none ↔ node.Starved ∧ fed = true := by
  unfold turn Starved
  rw [if_pos hr, Channel.pending_eq_nil_iff]
  cases hn : node.state.next with
  | error fault => simp
  | ok pair =>
    obtain ⟨instruction, action⟩ := pair
    cases action with
    | internal effect => simp
    | send value => cases heard <;> simp
    | receive dest => cases node.inbox.front? <;> simp

end Node

namespace Network

/-! ## Wiring -/

theorem listener?_lt {net : Network} {j k : Nat} (hj : j < net.nodes.length)
    (h : net.listener? j = some k) : k < net.nodes.length := by
  unfold listener? at h
  split at h
  · split at h
    · obtain rfl := Option.some.inj h
      assumption
    · exact absurd h (by simp)
  · obtain rfl := Option.some.inj h
    exact Nat.mod_lt _ (by omega)

theorem feeder?_lt {net : Network} {j k : Nat} (hk : k < net.nodes.length)
    (h : net.feeder? k = some j) : j < net.nodes.length := by
  unfold feeder? at h
  split at h
  · split at h
    · exact absurd h (by simp)
    · obtain rfl := Option.some.inj h
      omega
  · obtain rfl := Option.some.inj h
    exact Nat.mod_lt _ (by omega)

/-- **Feeder and listener are inverse to each other.** -/
theorem feeder?_eq_iff {net : Network} {j k : Nat} (hj : j < net.nodes.length)
    (hk : k < net.nodes.length) : net.feeder? k = some j ↔ net.listener? j = some k := by
  unfold feeder? listener?
  cases net.topology with
  | series =>
    simp only
    split <;> split <;> simp <;> omega
  | feedback =>
    simp only [Option.some.injEq]
    -- around the ring, the one step that is not a plain successor is from the last to the first
    have hlast : (j + 1) % net.nodes.length = if j + 1 = net.nodes.length then 0 else j + 1 := by
      split
      · rename_i h
        rw [h, Nat.mod_self]
      · exact Nat.mod_eq_of_lt (by omega)
    have hfirst : (k + net.nodes.length - 1) % net.nodes.length =
        if k = 0 then net.nodes.length - 1 else k - 1 := by
      split
      · rename_i h
        rw [h, Nat.zero_add]
        exact Nat.mod_eq_of_lt (by omega)
      · rw [show k + net.nodes.length - 1 = k - 1 + net.nodes.length by omega, Nat.add_mod_right]
        exact Nat.mod_eq_of_lt (by omega)
    rw [hlast, hfirst]
    split <;> split <;> omega

/-- Two machines do not share a listener. -/
theorem listener?_inj {net : Network} {i j k : Nat} (hi : i < net.nodes.length)
    (hj : j < net.nodes.length) (hik : net.listener? i = some k)
    (hjk : net.listener? j = some k) : i = j := by
  have hk := listener?_lt hi hik
  have hfi := (feeder?_eq_iff hi hk).mpr hik
  rw [(feeder?_eq_iff hj hk).mpr hjk] at hfi
  exact (Option.some.inj hfi).symm

/-- **An inbox is open exactly while the machine that holds its sending end runs.** -/
theorem isFed_iff {net : Network} {k : Nat} (hk : k < net.nodes.length) :
    net.isFed k = true ↔ ∃ (u : Nat) (node : Node),
      net.nodes[u]? = some node ∧ node.isRunning = true ∧ net.listener? u = some k := by
  unfold isFed
  constructor
  · intro h
    cases hf : net.feeder? k with
    | none => rw [hf] at h; exact absurd h (by simp)
    | some u =>
      rw [hf] at h
      obtain ⟨node, hu, hr⟩ := (Option.any_eq_true _ _).mp h
      exact ⟨u, node, hu, hr, (feeder?_eq_iff (feeder?_lt hk hf) hk).mp hf⟩
  · rintro ⟨u, node, hu, hr, hl⟩
    obtain ⟨hlt, -⟩ := List.getElem?_eq_some_iff.mp hu
    rw [(feeder?_eq_iff hlt hk).mpr hl]
    simp [hu, hr]

/-- Is what machine `j` sends accepted? It is also when nobody listens. -/
def isHeard (net : Network) (j : Nat) : Bool := !(net.listener? j).any net.isDeaf

/-! ## A turn in a network -/

/-- What machine `i` gets of a value that machine `j` has sent. -/
def carried (net : Network) (j i : Nat) (sent : Option Word) : List Word :=
  if net.listener? j = some i then sent.toList else []

/-- The network after a turn has made machine `j` into `node` and `sent` a value. -/
def pass (net : Network) (j : Nat) (node : Node) (sent : Option Word) : Network :=
  { net with
    nodes := (net.nodes.set j node).mapIdx fun i other => other.arrive (net.carried j i sent) }

@[simp] theorem pass_topology (net : Network) (j : Nat) (node : Node) (sent : Option Word) :
    (net.pass j node sent).topology = net.topology := rfl

@[simp] theorem length_pass (net : Network) (j : Nat) (node : Node) (sent : Option Word) :
    (net.pass j node sent).nodes.length = net.nodes.length := by
  simp [pass]

/-- **The machines after a pass**: machine `j` is replaced, and every machine gets its share of
what was sent. -/
theorem getElem?_pass {net : Network} {j : Nat} (hj : j < net.nodes.length) (node : Node)
    (sent : Option Word) (i : Nat) :
    (net.pass j node sent).nodes[i]? =
      (if i = j then some node else net.nodes[i]?).map fun other =>
        other.arrive (net.carried j i sent) := by
  unfold pass
  rw [List.getElem?_mapIdx, List.getElem?_set]
  by_cases h : i = j
  · subst h; simp [hj]
  · rw [if_neg h, if_neg (Ne.symm h)]

theorem getElem?_pass_self {net : Network} {j : Nat} (hj : j < net.nodes.length) (node : Node)
    (sent : Option Word) :
    (net.pass j node sent).nodes[j]? = some (node.arrive (net.carried j j sent)) := by
  rw [getElem?_pass hj, if_pos rfl, Option.map_some]

/-- A machine that does not fire only gets what is sent to it. -/
theorem getElem?_pass_of_ne {net : Network} {i j : Nat} {other : Node}
    (hj : j < net.nodes.length) (hi : net.nodes[i]? = some other) (hij : i ≠ j) (node : Node)
    (sent : Option Word) :
    (net.pass j node sent).nodes[i]? = some (other.arrive (net.carried j i sent)) := by
  rw [getElem?_pass hj, if_neg hij, hi, Option.map_some]

/-- A pass does not rewire. -/
theorem listener?_pass (net : Network) (j : Nat) (node : Node) (sent : Option Word) :
    (net.pass j node sent).listener? = net.listener? := by
  funext i
  simp only [listener?, pass_topology, length_pass]

theorem feeder?_pass (net : Network) (j : Nat) (node : Node) (sent : Option Word) :
    (net.pass j node sent).feeder? = net.feeder? := by
  funext i
  simp only [feeder?, pass_topology, length_pass]

theorem ext {a b : Network} (ht : a.topology = b.topology)
    (hn : ∀ i : Nat, a.nodes[i]? = b.nodes[i]?) : a = b := by
  cases a; cases b
  simp only at ht hn
  rw [ht, List.ext_getElem? hn]

theorem pass_eq_put {net : Network} {j : Nat} {sent : Option Word}
    (h : ∀ i, net.carried j i sent = []) (node : Node) :
    net.pass j node sent = net.put j node := by
  refine ext rfl fun i => ?_
  simp only [pass, put, h, Node.arrive_nil]
  rw [List.getElem?_mapIdx, Option.map_id']

theorem carried_none (net : Network) (j i : Nat) : net.carried j i none = [] := by
  unfold carried
  split <;> rfl

theorem pass_none (net : Network) (j : Nat) (node : Node) :
    net.pass j node none = net.put j node :=
  pass_eq_put (net.carried_none j) node

theorem pass_of_listener?_eq_none {net : Network} {j : Nat} (h : net.listener? j = none)
    (node : Node) (sent : Option Word) : net.pass j node sent = net.put j node :=
  pass_eq_put (fun i => by simp [carried, h]) node

theorem pass_of_listener?_eq_some {net : Network} {j k : Nat} (h : net.listener? j = some k)
    (node : Node) (value : Word) :
    net.pass j node (some value) = (net.put j node).deliver k value := by
  refine ext rfl fun i => ?_
  simp only [put, deliver, pass, carried, h]
  rw [List.getElem?_modify, List.getElem?_mapIdx]
  by_cases hk : k = i
  · subst hk
    simp [Node.arrive, Channel.put_eq_extend]
  · simp [hk]

/-- A firing is a turn followed by a pass. -/
theorem fire?_eq {net : Network} {j : Nat} {node : Node} (hj : net.nodes[j]? = some node) :
    net.fire? j =
      (node.turn (net.isFed j) (net.isHeard j)).map fun turned => net.pass j turned.1 turned.2 := by
  unfold fire? Node.turn
  rw [hj]
  by_cases hr : node.isRunning = true
  · simp only [if_pos hr]
    cases node.state.next with
    | error fault => exact congrArg some (net.pass_none j _).symm
    | ok pair =>
      obtain ⟨instruction, action⟩ := pair
      cases action with
      | internal effect => exact congrArg some (net.pass_none j _).symm
      | receive dest =>
        simp only [receive?]
        cases node.inbox.front? with
        | some value => exact congrArg some (net.pass_none j _).symm
        | none => cases net.isFed j <;> simp [pass_none]
      | send value =>
        rcases hl : net.listener? j with _ | k
        · simp [send, isHeard, hl, pass_of_listener?_eq_none hl]
        · cases hd : net.isDeaf k <;>
            simp [send, isHeard, hl, hd, pass_of_listener?_eq_some hl, pass_none]
  · simp [hr]

/-- **A firing is a turn followed by a pass**, by parts. -/
theorem fire?_eq_some_iff {net after : Network} {j : Nat} :
    net.fire? j = some after ↔ ∃ (node turned : Node) (sent : Option Word),
      net.nodes[j]? = some node ∧
        node.turn (net.isFed j) (net.isHeard j) = some (turned, sent) ∧
        after = net.pass j turned sent := by
  cases hj : net.nodes[j]? with
  | none => simp [fire?, hj]
  | some node =>
    rw [fire?_eq hj, Option.map_eq_some_iff]
    constructor
    · rintro ⟨⟨turned, sent⟩, ht, rfl⟩
      exact ⟨node, turned, sent, rfl, ht, rfl⟩
    · rintro ⟨_, turned, sent, hn, ht, rfl⟩
      obtain rfl := Option.some.inj hn
      exact ⟨(turned, sent), ht, rfl⟩

/-- **What turns and arrivals preserve, firings preserve.** -/
theorem forall_mem_of_fire? {P : Node → Prop}
    (hturn : ∀ {node turned : Node} {fed heard : Bool} {sent : Option Word},
      P node → node.turn fed heard = some (turned, sent) → P turned)
    (harrive : ∀ {node : Node} (values : List Word), P node → P (node.arrive values))
    {net after : Network} {j : Nat} (h : net.fire? j = some after)
    (hall : ∀ node ∈ net.nodes, P node) : ∀ node ∈ after.nodes, P node := by
  obtain ⟨fired, turned, sent, hj, ht, rfl⟩ := fire?_eq_some_iff.mp h
  intro node hn
  obtain ⟨i, hi⟩ := List.mem_iff_getElem?.mp hn
  rw [getElem?_pass (List.getElem?_eq_some_iff.mp hj).1] at hi
  obtain ⟨before, hb, rfl⟩ := Option.map_eq_some_iff.mp hi
  apply harrive
  split at hb
  · obtain rfl := Option.some.inj hb
    exact hturn (hall fired (List.mem_of_getElem? hj)) ht
  · exact hall before (List.mem_of_getElem? hb)

end Network

end Intcode.Chain
