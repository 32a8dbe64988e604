import Intcode.Proofs.Chain.Schedule

/-!
# The schedule does not matter

`run_chain` has a thread for each machine, and nothing is known about the order in which they come
to their turns. Two machines of a network can fire in either order, and as long as neither order
leads to a fault both lead to the same network. Faults are what breaks this: a send is refused or
accepted depending on whether the listener has faulted before. So the diamond below (`fire?_comm`)
assumes that one of its two sides is without faults, and that is enough for a run in which everybody
halts.

Results:
* `Node.Turns.fault_eq_none`: a turn does not fault if it would not after more has arrived.
* `exists_fire?_of_ne`: a machine that can fire still can after another machine has fired.
* `fire?_comm`: the diamond.
* `replay_fire?`: a schedule that halts everybody can begin with any machine that can fire.
* `replay_rearrange`: any schedule extends to a rearrangement of one that halts everybody.
* `returns_iff`: a chain has a result under all schedules exactly if one of them halts everybody
  with that result.
* **`all_schedules_agree`**: if one schedule of a chain halts all machines, every schedule is at
  most as long, faults nowhere, and if it cannot be continued ends in the same network.
-/

namespace Intcode.Chain

/-! ## One machine -/

namespace Node

/-- A turn faults only if it also would after more has arrived: what keeps it from starving is
somebody who feeds it. -/
theorem Turns.fault_eq_none {node after later : Node} {fed fed' heard' : Bool}
    {sent sent' : Option Word} {values : List Word} (hn : node.fault = none)
    (h : node.Turns fed true after sent)
    (hlater : (node.arrive values).Turns fed' heard' later sent') (hok : later.fault = none)
    (hfeed : fed = false → values = []) : after.fault = none := by
  cases h with
  | internal hnext => exact hn
  | receive hnext hfront hdest => exact hn
  | send hnext hheard => exact hn
  | refuse hnext hheard => exact absurd hheard (by simp)
  | crash hnext =>
    cases hlater with
    | crash hnext' => exact absurd hok (by simp [fail])
    | internal hnext' | receive hnext' | send hnext' | misplace hnext' | starve hnext'
    | refuse hnext' =>
      rw [arrive_state, hnext] at hnext'
      exact absurd hnext' (by simp)
  | misplace hnext hfront hdest =>
    cases hlater with
    | receive hnext' hfront' hdest' =>
      rw [arrive_state, hnext] at hnext'
      cases hnext'
      rw [arrive_state, hdest] at hdest'
      exact absurd hdest' (by simp)
    | misplace => exact absurd hok (by simp)
    | crash | starve | refuse => exact absurd hok (by simp [fail])
    | internal hnext' | send hnext' =>
      rw [arrive_state, hnext] at hnext'
      exact absurd hnext' (by simp)
  | starve hnext hfront hfed =>
    rw [hfeed hfed, arrive_nil] at hlater
    cases hlater with
    | receive hnext' hfront' hdest' =>
      rw [hfront] at hfront'
      exact absurd hfront' (by simp)
    | misplace => exact absurd hok (by simp)
    | crash | starve | refuse => exact absurd hok (by simp [fail])
    | internal hnext' | send hnext' =>
      rw [hnext] at hnext'
      exact absurd hnext' (by simp)

/-- Of two arrivals the order does not matter if one of them brings nothing. -/
theorem arrive_comm {xs ys : List Word} (h : xs = [] ∨ ys = []) (node : Node) :
    (node.arrive xs).arrive ys = (node.arrive ys).arrive xs := by
  rcases h with rfl | rfl <;> simp

end Node

/-! ## Two machines -/

namespace Network

theorem carried_pass (net : Network) (j : Nat) (node : Node) (sent : Option Word) :
    (net.pass j node sent).carried = net.carried := by
  funext i k value
  simp only [carried, listener?_pass]

/-- Two machines do not send to one, so one of them sends nothing there. -/
theorem carried_eq_nil_or {net : Network} {i j : Nat} (hi : i < net.nodes.length)
    (hj : j < net.nodes.length) (hij : i ≠ j) (x : Nat) (sentI sentJ : Option Word) :
    net.carried i x sentI = [] ∨ net.carried j x sentJ = [] := by
  unfold carried
  by_cases hx : net.listener? i = some x
  · right
    rw [if_neg fun h => hij (listener?_inj hi hj hx h)]
  · left
    rw [if_neg hx]

/-- **Passes of two machines commute.** -/
theorem pass_comm {net : Network} {i j : Nat} (hi : i < net.nodes.length)
    (hj : j < net.nodes.length) (hij : i ≠ j) (nodeI nodeJ : Node) (sentI sentJ : Option Word) :
    (net.pass j nodeJ sentJ).pass i (nodeI.arrive (net.carried j i sentJ)) sentI =
      (net.pass i nodeI sentI).pass j (nodeJ.arrive (net.carried i j sentI)) sentJ := by
  refine ext rfl fun x => ?_
  rw [getElem?_pass (by simpa using hi), carried_pass, getElem?_pass hj,
    getElem?_pass (by simpa using hj), carried_pass, getElem?_pass hi]
  have hone := carried_eq_nil_or hi hj hij x sentI sentJ
  by_cases hxi : x = i
  · subst hxi
    rw [if_pos rfl, if_neg hij, if_pos rfl]
    exact congrArg some (Node.arrive_comm hone.symm nodeI)
  · by_cases hxj : x = j
    · subst hxj
      rw [if_neg hxi, if_pos rfl, if_pos rfl]
      exact congrArg some (Node.arrive_comm hone.symm nodeJ)
    · rw [if_neg hxi, if_neg hxj, if_neg hxj, if_neg hxi, Option.map_map, Option.map_map]
      congr 1
      funext other
      exact Node.arrive_comm hone.symm other

theorem faultFree_pass {net : Network} {j : Nat} (hj : j < net.nodes.length) {node : Node}
    (hok : net.FaultFree) (hnode : node.fault = none) (sent : Option Word) :
    (net.pass j node sent).FaultFree := by
  intro other ho
  obtain ⟨x, hx⟩ := List.mem_iff_getElem?.mp ho
  rw [getElem?_pass hj] at hx
  obtain ⟨before, hb, rfl⟩ := Option.map_eq_some_iff.mp hx
  rw [Node.arrive_fault]
  split at hb
  · obtain rfl := Option.some.inj hb
    exact hnode
  · exact hok before (List.mem_of_getElem? hb)

/-- The machine that has fired has not faulted, if nobody has. -/
theorem fault_eq_none_of_pass {net : Network} {j : Nat} (hj : j < net.nodes.length) {node : Node}
    {sent : Option Word} (hok : (net.pass j node sent).FaultFree) : node.fault = none := by
  have hfault := hok _ (List.mem_of_getElem? (getElem?_pass_self hj node sent))
  rwa [Node.arrive_fault] at hfault

/-- Whatever arrives comes from a machine that runs. -/
theorem carried_eq_nil_of_not_isFed {net : Network} {i j : Nat} {node : Node}
    (hi : net.nodes[i]? = some node) (hr : node.isRunning = true) (hj : j < net.nodes.length)
    (hfed : net.isFed j = false) (sent : Option Word) : net.carried i j sent = [] := by
  unfold carried
  rw [if_neg]
  intro hl
  have hopen := (isFed_iff hj).mpr ⟨i, node, hi, hr, hl⟩
  rw [hfed] at hopen
  exact absurd hopen (by simp)

/-- **A machine that can fire still can after another machine has fired.** -/
theorem exists_fire?_of_ne {net a b : Network} {i j : Nat} (hij : i ≠ j)
    (hi : net.fire? i = some a) (hj : net.fire? j = some b) : ∃ c, a.fire? j = some c := by
  have hlti := lt_of_fire? hi
  obtain ⟨nodeI, turnedI, sentI, hnodeI, hturnI, ha⟩ := fire?_eq_some_iff.mp hi
  obtain ⟨nodeJ, turnedJ, sentJ, hnodeJ, hturnJ, -⟩ := fire?_eq_some_iff.mp hj
  have hget : a.nodes[j]? = some (nodeJ.arrive (net.carried i j sentI)) := by
    rw [ha]
    exact getElem?_pass_of_ne hlti hnodeJ hij.symm _ _
  have hr := Node.isRunning_of_turn hturnJ
  have hrunning : (nodeJ.arrive (net.carried i j sentI)).isRunning = true := hr
  rw [fire?_eq hget]
  cases hturn : (nodeJ.arrive (net.carried i j sentI)).turn (a.isFed j) (a.isHeard j) with
  | some turned => exact ⟨_, rfl⟩
  | none =>
    -- it would have to be starved and fed, and then it was so before
    obtain ⟨⟨hnext, hempty⟩, hfed⟩ := (Node.turn_eq_none_iff hrunning).mp hturn
    have hbefore : nodeJ.inbox.pending = [] := by
      rw [Channel.pending_eq_nil_iff] at hempty ⊢
      cases hf : nodeJ.inbox.front? with
      | none => rfl
      | some value =>
        rw [show (nodeJ.arrive (net.carried i j sentI)).inbox.front? = some value from
          Channel.front?_extend hf _] at hempty
        exact absurd hempty (by simp)
    have hnone : nodeJ.turn (net.isFed j) (net.isHeard j) = none :=
      (Node.turn_eq_none_iff hr).mpr ⟨⟨hnext, hbefore⟩, isFed_of_fire? hi hfed⟩
    rw [hnone] at hturnJ
    exact absurd hturnJ (by simp)

/-- **The diamond.** If machine `j` can fire now, and also after machine `i` without anybody
faulting, then `i` can fire after `j`, and the two orders lead to the same network. -/
theorem fire?_comm {net a b c : Network} {i j : Nat} (hij : i ≠ j) (hi : net.fire? i = some a)
    (hj : net.fire? j = some b) (hc : a.fire? j = some c) (hok : c.FaultFree) :
    b.fire? i = some c := by
  have hokA := faultFree_of_fire? hc hok
  have hokNet := faultFree_of_fire? hi hokA
  have hlti := lt_of_fire? hi
  have hltj := lt_of_fire? hj
  obtain ⟨nodeI, turnedI, sentI, hnodeI, hturnI, rfl⟩ := fire?_eq_some_iff.mp hi
  obtain ⟨nodeJ, turnedJ, sentJ, hnodeJ, hturnJ, rfl⟩ := fire?_eq_some_iff.mp hj
  obtain ⟨nodeJ', turnedJ', sentJ', hnodeJ', hturnJ', rfl⟩ := fire?_eq_some_iff.mp hc
  rw [getElem?_pass_of_ne hlti hnodeJ hij.symm] at hnodeJ'
  obtain rfl := Option.some.inj hnodeJ'
  rw [hokNet.isHeard] at hturnI hturnJ
  rw [hokA.isHeard] at hturnJ'
  have hrI := Node.isRunning_of_turn hturnI
  have hrJ := Node.isRunning_of_turn hturnJ
  have hturnedI := fault_eq_none_of_pass hlti hokA
  have hturnedJ' := fault_eq_none_of_pass (by simpa using hltj) hok
  -- `j` does not fault now either, so its two turns are the same turn
  have hturnedJ : turnedJ.fault = none :=
    (Node.turns_of_turn hturnJ).fault_eq_none (Node.fault_eq_none_of_turn hturnJ)
      (Node.turns_of_turn hturnJ') hturnedJ' fun hfed =>
        carried_eq_nil_of_not_isFed hnodeI hrI hltj hfed sentI
  have hrunning : (nodeJ.arrive (net.carried i j sentI)).isRunning = true := hrJ
  have hsame := Node.turn_eq_some_iff.mpr ⟨hrunning,
    (Node.turns_of_turn hturnJ).arrive hturnedJ (net.carried i j sentI)
      ((net.pass i turnedI sentI).isFed j)⟩
  rw [hsame] at hturnJ'
  cases hturnJ'
  -- and the turn of `i` is the same after `j`
  have hokB := faultFree_pass hltj hokNet hturnedJ sentJ
  refine fire?_eq_some_iff.mpr ⟨nodeI.arrive (net.carried j i sentJ),
    turnedI.arrive (net.carried j i sentJ), sentI, ?_, ?_, (pass_comm hlti hltj hij ..).symm⟩
  · exact getElem?_pass_of_ne hltj hnodeI hij _ _
  · rw [hokB.isHeard]
    exact Node.turn_eq_some_iff.mpr ⟨hrI,
      (Node.turns_of_turn hturnI).arrive hturnedI _ _⟩

/-! ## Schedules that halt everybody -/

/-- **A schedule that halts everybody can begin with any machine that can fire.** The machine
fires sooner or later, and the diamond brings that firing to the front. -/
theorem replay_fire? : ∀ {schedule : List Nat} {net b final : Network} {j : Nat},
    net.replay schedule = some final → final.AllHalted → net.fire? j = some b →
      ∃ rest, (j :: rest).Perm schedule ∧ b.replay rest = some final
  | [], net, b, final, j, hrun, hhalt, hj => by
    obtain rfl := Option.some.inj hrun
    rw [hhalt.atRest j] at hj
    exact absurd hj (by simp)
  | i :: tail, net, b, final, j, hrun, hhalt, hj => by
    obtain ⟨a, hi, htail⟩ := replay_cons_eq_some.mp hrun
    by_cases hij : i = j
    · subst hij
      rw [hi] at hj
      obtain rfl := Option.some.inj hj
      exact ⟨tail, .refl _, htail⟩
    · obtain ⟨c, hc⟩ := exists_fire?_of_ne hij hi hj
      obtain ⟨rest, hperm, hrest⟩ := replay_fire? htail hhalt hc
      have hok := faultFree_of_replay hrest hhalt.faultFree
      have hbi := fire?_comm hij hi hj hc hok
      exact ⟨i :: rest, (List.Perm.swap i j rest).trans (hperm.cons i),
        replay_cons_eq_some.mpr ⟨c, hbi, hrest⟩⟩

/-- **Any schedule extends to a rearrangement of one that halts everybody**, with the same end. -/
theorem replay_rearrange : ∀ {other schedule : List Nat} {net now final : Network},
    net.replay schedule = some final → final.AllHalted → net.replay other = some now →
      ∃ rest, (other ++ rest).Perm schedule ∧ now.replay rest = some final
  | [], schedule, net, now, final, hrun, _, hother => by
    obtain rfl := Option.some.inj hother
    exact ⟨schedule, .refl _, hrun⟩
  | j :: other, schedule, net, now, final, hrun, hhalt, hother => by
    obtain ⟨b, hj, hnow⟩ := replay_cons_eq_some.mp hother
    obtain ⟨mid, hmid, hb⟩ := replay_fire? hrun hhalt hj
    obtain ⟨rest, hrest, hfinal⟩ := replay_rearrange hb hhalt hnow
    exact ⟨rest, (hrest.cons j).trans hmid, hfinal⟩

/-- A network at rest can only be replayed by the empty schedule. -/
theorem AtRest.replay_eq {net final : Network} (h : net.AtRest) {schedule : List Nat}
    (hrun : net.replay schedule = some final) : schedule = [] ∧ net = final := by
  cases schedule with
  | nil => exact ⟨rfl, Option.some.inj hrun⟩
  | cons j rest =>
    obtain ⟨after, hj, -⟩ := replay_cons_eq_some.mp hrun
    rw [h j] at hj
    exact absurd hj (by simp)

/-- `settle` finds the end, given more fuel than the schedule is long. -/
theorem settle_of_replay : ∀ {fuel last : Nat} {schedule : List Nat} {net final : Network},
    net.replay schedule = some final → final.AllHalted → schedule.length < fuel →
      net.settle fuel last = some final
  | 0, _, _, _, _, _, _, hlt => absurd hlt (by omega)
  | fuel + 1, last, schedule, net, final, hrun, hhalt, hlt => by
    rw [settle]
    cases hn : net.fireNext? last with
    | none => rw [((fireNext?_eq_none_iff.mp hn).replay_eq hrun).2]
    | some pair =>
      obtain ⟨j, after⟩ := pair
      obtain ⟨rest, hperm, hrest⟩ := replay_fire? hrun hhalt (fire?_of_fireNext? hn)
      have hlen := hperm.length_eq
      rw [List.length_cons] at hlen
      exact settle_of_replay hrest hhalt (by omega)

/-- Without a schedule to its end, `settle` has followed one for as long as it had fuel. -/
theorem exists_replay_of_settle_eq_none : ∀ {fuel last : Nat} {net : Network},
    net.settle fuel last = none → ∃ schedule after,
      schedule.length = fuel ∧ net.replay schedule = some after
  | 0, _, net, _ => ⟨[], net, rfl, rfl⟩
  | fuel + 1, last, net, h => by
    rw [settle] at h
    cases hn : net.fireNext? last with
    | none => rw [hn] at h; exact absurd h (by simp)
    | some pair =>
      obtain ⟨j, after⟩ := pair
      rw [hn] at h
      obtain ⟨rest, final, hlen, hrest⟩ := exists_replay_of_settle_eq_none h
      exact ⟨j :: rest, final, by rw [List.length_cons, hlen],
        replay_cons_eq_some.mpr ⟨after, fire?_of_fireNext? hn, hrest⟩⟩

end Network

/-! ## Chains -/

/-- Whatever the schedule, the chain comes to rest within a number of firings, and then it has this
result. -/
def Returns (chain : Chain) (result : Option Word) : Prop :=
  ∃ bound, ∀ schedule net, chain.wire.replay schedule = some net →
    schedule.length ≤ bound ∧ (net.AtRest → net.verdict = .finished result)

/-- The run of a chain finishes exactly if some schedule, shorter than the fuel, halts everybody. -/
theorem run_eq_finished_iff {chain : Chain} {fuel : Nat} {result : Option Word} :
    chain.run fuel = .finished result ↔
      ∃ schedule net, chain.wire.replay schedule = some net ∧ net.AllHalted ∧
        net.signal = result ∧ schedule.length < fuel := by
  unfold Chain.run
  constructor
  · intro h
    cases hs : chain.wire.settle fuel 0 with
    | none => rw [hs] at h; exact absurd h (by simp)
    | some net =>
      rw [hs] at h
      obtain ⟨schedule, hrun, -, hlen⟩ := Network.exists_replay_of_settle hs
      obtain ⟨hhalt, hsignal⟩ := Network.verdict_eq_finished_iff.mp h
      exact ⟨schedule, net, hrun, hhalt, hsignal, hlen⟩
  · rintro ⟨schedule, net, hrun, hhalt, rfl, hlen⟩
    rw [Network.settle_of_replay hrun hhalt hlen]
    exact Network.verdict_eq_finished_iff.mpr ⟨hhalt, rfl⟩

/-- The run of a chain finishes, given the fuel, exactly if some schedule halts everybody. -/
theorem exists_run_eq_finished_iff {chain : Chain} {result : Option Word} :
    (∃ fuel, chain.run fuel = .finished result) ↔
      ∃ schedule net, chain.wire.replay schedule = some net ∧ net.AllHalted ∧
        net.signal = result := by
  simp only [run_eq_finished_iff]
  constructor
  · rintro ⟨fuel, schedule, net, hrun, hhalt, hsignal, -⟩
    exact ⟨schedule, net, hrun, hhalt, hsignal⟩
  · rintro ⟨schedule, net, hrun, hhalt, hsignal⟩
    exact ⟨schedule.length + 1, schedule, net, hrun, hhalt, hsignal, Nat.lt_succ_self _⟩

/-- **One schedule that halts everybody decides all schedules.** -/
theorem returns_iff {chain : Chain} {result : Option Word} :
    chain.Returns result ↔
      ∃ schedule net, chain.wire.replay schedule = some net ∧ net.AllHalted ∧
        net.signal = result := by
  constructor
  · rintro ⟨bound, hall⟩
    cases hs : chain.wire.settle (bound + 1) 0 with
    | none =>
      obtain ⟨schedule, net, hlen, hrun⟩ := Network.exists_replay_of_settle_eq_none hs
      exact absurd (hall schedule net hrun).1 (by omega)
    | some net =>
      obtain ⟨schedule, hrun, hrest⟩ := Network.settle_eq_some hs
      exact ⟨schedule, net, hrun,
        Network.verdict_eq_finished_iff.mp ((hall schedule net hrun).2 hrest)⟩
  · rintro ⟨schedule, final, hrun, hhalt, rfl⟩
    refine ⟨schedule.length, fun other net hother => ?_⟩
    obtain ⟨rest, hperm, hrest⟩ := Network.replay_rearrange hrun hhalt hother
    have hlen := hperm.length_eq
    rw [List.length_append] at hlen
    refine ⟨by omega, fun hat => ?_⟩
    obtain ⟨-, rfl⟩ := hat.replay_eq hrest
    exact Network.verdict_eq_finished_iff.mpr ⟨hhalt, rfl⟩

/-- **The schedule does not matter.** Suppose that some schedule of a chain halts all machines.
Then every schedule is at most as long, leads to no fault, and can be continued to the same end;
if it cannot be continued it has arrived there, every machine has fired as often as in the first
schedule, and the chain has its signal. The run of the chain, which follows one of the schedules,
gives that signal as soon as it has fuel for the first. So a chain that has a result under one
schedule comes to that result under all of them. -/
theorem all_schedules_agree (chain : Chain) {schedule : List Nat} {final : Network}
    (hrun : chain.wire.replay schedule = some final) :
    (final.AllHalted →
      (∀ (other : List Nat) (net : Network), chain.wire.replay other = some net →
        other.length ≤ schedule.length ∧
          net.FaultFree ∧
          (∃ rest, (other ++ rest).Perm schedule ∧ net.replay rest = some final) ∧
          (net.AtRest →
            net = final ∧ other.Perm schedule ∧ net.verdict = .finished final.signal)) ∧
        ∀ fuel, schedule.length < fuel → chain.run fuel = .finished final.signal) ∧
      ∀ result, final.verdict = .finished result → chain.Returns result := by
  constructor
  · intro hhalt
    have hverdict : final.verdict = .finished final.signal :=
      Network.verdict_eq_finished_iff.mpr ⟨hhalt, rfl⟩
    constructor
    · intro other net hother
      obtain ⟨rest, hperm, hrest⟩ := Network.replay_rearrange hrun hhalt hother
      have hlen := hperm.length_eq
      rw [List.length_append] at hlen
      refine ⟨by omega, Network.faultFree_of_replay hrest hhalt.faultFree,
        ⟨rest, hperm, hrest⟩, fun hat => ?_⟩
      obtain ⟨rfl, rfl⟩ := hat.replay_eq hrest
      rw [List.append_nil] at hperm
      exact ⟨rfl, hperm, hverdict⟩
    · intro fuel hfuel
      unfold Chain.run
      rw [Network.settle_of_replay hrun hhalt hfuel]
      exact hverdict
  · intro result h
    exact returns_iff.mpr ⟨schedule, final, hrun, Network.verdict_eq_finished_iff.mp h⟩

/-- Two machines in a loop; each takes its setting and passes on the value after it. -/
def echoLoop : Chain where
  program := ⟨[3, 0, 3, 1, 4, 1, 99]⟩
  phases := [1, 2]
  signal := 5
  topology := .feedback

/-- The loop halts under one schedule, so it gives its signal under all of them. The second
machine sends to the first after that has halted. -/
theorem all_schedules_agree_echoLoop : ∃ final : Network,
    echoLoop.wire.replay [1, 0, 0, 0, 1, 0, 1, 1] = some final ∧ final.AllHalted ∧
      (∀ (other : List Nat) (net : Network), echoLoop.wire.replay other = some net →
        other.length ≤ 8 ∧ (net.AtRest → net = final ∧ net.verdict = .finished (some 5))) ∧
      ∀ fuel, 8 < fuel → echoLoop.run fuel = .finished (some 5) := by
  have hend : (echoLoop.wire.replay [1, 0, 0, 0, 1, 0, 1, 1]).any
      (fun net => net.AllHalted ∧ net.signal = some 5) = true := by decide
  obtain ⟨final, hrun, hfinal⟩ := (Option.any_eq_true _ _).mp hend
  obtain ⟨hhalt, hsignal⟩ := of_decide_eq_true hfinal
  obtain ⟨hall, hfuel⟩ := (all_schedules_agree echoLoop hrun).1 hhalt
  rw [hsignal] at hall hfuel
  refine ⟨final, hrun, hhalt, fun other net hother => ?_, hfuel⟩
  obtain ⟨hlen, -, -, hat⟩ := hall other net hother
  exact ⟨hlen, fun h => ⟨(hat h).1, (hat h).2.2⟩⟩

end Intcode.Chain
