import Intcode.Machine

/-!
# One step of a machine

`Machine.Steps` lists everything a call of `Machine::step` can come to, each case with its
conditions, so that a fact about all steps is a case analysis on it and `Machine.step` is not
unfolded again.

Results:
* `step_eq_iff`: `Machine.Steps` is the graph of `Machine.step`.
* `step_feed`: values added behind the others change nothing about a step, unless it ended because
  there were none.
* `proceed_map`: what no executed step notices, a run does not notice.
* `proceed_feed`: values added behind the others change nothing about any number of steps.
* `proceed_snoc`, `proceed_of_halted`: a run grows at its end, and once halted stays as it is.
-/

namespace Intcode.Machine

/-- **Everything a step can be.** -/
inductive Steps (machine : Machine) : Machine → Outcome → Prop where
  | halted (hhalted : machine.state.halted = true) : Steps machine machine (.stopped .halted)
  /-- The limit is used up. -/
  | exhausted {limit : Nat} (hrun : machine.state.halted = false)
      (hlimit : machine.exhausted? = some limit) :
      Steps machine machine (.stopped (.faulted (.stepLimit limit)))
  /-- The instruction cannot be evaluated. -/
  | crash {fault : Fault} (hrun : machine.state.halted = false)
      (hlimit : machine.exhausted? = none) (hnext : machine.state.next = .error fault) :
      Steps machine machine (.stopped (.faulted fault))
  /-- An instruction that neither receives nor sends. -/
  | internal {instruction : Instruction} {effect : Effect} (hrun : machine.state.halted = false)
      (hlimit : machine.exhausted? = none)
      (hnext : machine.state.next = .ok (instruction, .internal effect)) :
      Steps machine { machine with state := machine.state.perform effect } (.executed instruction)
  /-- A value is taken and stored. -/
  | receive {instruction : Instruction} {dest value : Word} {rest : Inlet} {index : Nat}
      (hrun : machine.state.halted = false) (hlimit : machine.exhausted? = none)
      (hnext : machine.state.next = .ok (instruction, .receive dest))
      (hpull : machine.input.pull = .value value rest)
      (hdest : machine.state.destination dest = .ok index) :
      Steps machine
        { machine with input := rest, state := machine.state.received index value }
        (.executed instruction)
  /-- A value is taken and cannot be stored. -/
  | misplace {instruction : Instruction} {dest value : Word} {rest : Inlet} {fault : Fault}
      (hrun : machine.state.halted = false) (hlimit : machine.exhausted? = none)
      (hnext : machine.state.next = .ok (instruction, .receive dest))
      (hpull : machine.input.pull = .value value rest)
      (hdest : machine.state.destination dest = .error fault) :
      Steps machine { machine with input := rest } (.stopped (.faulted fault))
  /-- There is no value, and there will be none. -/
  | starve {instruction : Instruction} {dest : Word} (hrun : machine.state.halted = false)
      (hlimit : machine.exhausted? = none)
      (hnext : machine.state.next = .ok (instruction, .receive dest))
      (hpull : machine.input.pull = .disconnected) :
      Steps machine machine (.stopped (.faulted (.inputClosed machine.state.ip)))
  /-- There is no value yet. -/
  | wait {instruction : Instruction} {dest : Word} (hrun : machine.state.halted = false)
      (hlimit : machine.exhausted? = none)
      (hnext : machine.state.next = .ok (instruction, .receive dest))
      (hpull : machine.input.pull = .blocked) :
      Steps machine machine (.stopped .waiting)
  /-- A value is sent. -/
  | send {instruction : Instruction} {value : Word} {output : Outlet}
      (hrun : machine.state.halted = false) (hlimit : machine.exhausted? = none)
      (hnext : machine.state.next = .ok (instruction, .send value))
      (hpush : machine.output.push value = .accepted output) :
      Steps machine { machine with output, state := machine.state.sent value }
        (.executed instruction)
  /-- A value is sent and refused. -/
  | refuse {instruction : Instruction} {value : Word} (hrun : machine.state.halted = false)
      (hlimit : machine.exhausted? = none)
      (hnext : machine.state.next = .ok (instruction, .send value))
      (hpush : machine.output.push value = .refused machine.output) :
      Steps machine machine (.stopped (.faulted (.outputClosed machine.state.ip)))
  /-- A value is sent, and there is no room for it yet. -/
  | block {instruction : Instruction} {value : Word} (hrun : machine.state.halted = false)
      (hlimit : machine.exhausted? = none)
      (hnext : machine.state.next = .ok (instruction, .send value))
      (hpush : machine.output.push value = .blocked) :
      Steps machine machine (.stopped .waiting)

/-- Each case is what the step does. -/
theorem Steps.step_eq {machine after : Machine} {outcome : Outcome}
    (h : machine.Steps after outcome) : machine.step = (after, outcome) := by
  unfold step execute
  cases h with
  | halted hhalted => simp [hhalted]
  | exhausted hrun hlimit => simp [hrun, hlimit, faulted]
  | crash hrun hlimit hnext => simp [hrun, hlimit, hnext, faulted]
  | internal hrun hlimit hnext => simp [hrun, hlimit, hnext]
  | receive hrun hlimit hnext hpull hdest =>
    simp [hrun, hlimit, hnext, Machine.receive, hpull, hdest]
  | misplace hrun hlimit hnext hpull hdest =>
    simp [hrun, hlimit, hnext, Machine.receive, hpull, hdest, faulted]
  | starve hrun hlimit hnext hpull =>
    simp [hrun, hlimit, hnext, Machine.receive, hpull, faulted]
  | wait hrun hlimit hnext hpull => simp [hrun, hlimit, hnext, Machine.receive, hpull]
  | send hrun hlimit hnext hpush => simp [hrun, hlimit, hnext, Machine.send, hpush]
  | refuse hrun hlimit hnext hpush =>
    simp [hrun, hlimit, hnext, Machine.send, hpush, faulted]
  | block hrun hlimit hnext hpush => simp [hrun, hlimit, hnext, Machine.send, hpush]

/-- A step is one of the cases. -/
theorem steps_step (machine : Machine) : machine.Steps machine.step.1 machine.step.2 := by
  suffices h : ∃ after outcome, machine.Steps after outcome by
    obtain ⟨after, outcome, h⟩ := h
    rw [h.step_eq]
    exact h
  cases hrun : machine.state.halted with
  | true => exact ⟨_, _, .halted hrun⟩
  | false =>
    cases hlimit : machine.exhausted? with
    | some limit => exact ⟨_, _, .exhausted hrun hlimit⟩
    | none =>
      cases hnext : machine.state.next with
      | error fault => exact ⟨_, _, .crash hrun hlimit hnext⟩
      | ok pair =>
        obtain ⟨instruction, action⟩ := pair
        cases action with
        | internal effect => exact ⟨_, _, .internal hrun hlimit hnext⟩
        | receive dest =>
          cases hpull : machine.input.pull with
          | disconnected => exact ⟨_, _, .starve hrun hlimit hnext hpull⟩
          | blocked => exact ⟨_, _, .wait hrun hlimit hnext hpull⟩
          | value value rest =>
            cases hdest : machine.state.destination dest with
            | ok index => exact ⟨_, _, .receive hrun hlimit hnext hpull hdest⟩
            | error fault => exact ⟨_, _, .misplace hrun hlimit hnext hpull hdest⟩
        | send value =>
          cases hpush : machine.output.push value with
          | accepted output => exact ⟨_, _, .send hrun hlimit hnext hpush⟩
          | refused output =>
            rw [Outlet.after_of_refused hpush] at hpush
            exact ⟨_, _, .refuse hrun hlimit hnext hpush⟩
          | blocked => exact ⟨_, _, .block hrun hlimit hnext hpush⟩

/-- **`Steps` is the graph of `step`.** -/
theorem step_eq_iff {machine after : Machine} {outcome : Outcome} :
    machine.step = (after, outcome) ↔ machine.Steps after outcome := by
  refine ⟨fun h => ?_, fun h => h.step_eq⟩
  have hsteps := machine.steps_step
  rwa [h] at hsteps

/-! ## More input -/

/-- The machine with values added to its queue, if it has one. -/
def feed (machine : Machine) (values : List Word) : Machine :=
  { machine with input := machine.input.feed values }

end Intcode.Machine

namespace Intcode.Inlet

/-- A value that can be pulled is still the one that is pulled after more have been added. -/
theorem pull_feed {inlet rest : Inlet} {word : Word} (h : inlet.pull = .value word rest)
    (values : List Word) : (inlet.feed values).pull = .value word (rest.feed values) := by
  cases inlet with
  | absent => cases h
  | queue words =>
    cases words with
    | nil => cases h
    | cons w ws => cases h; rfl
  | channel words isOpen =>
    cases words with
    | nil => cases isOpen <;> cases h
    | cons w ws => cases h; rfl

/-- Only a channel blocks, and a channel is not fed. -/
theorem pull_feed_of_blocked {inlet : Inlet} (h : inlet.pull = .blocked) (values : List Word) :
    (inlet.feed values).pull = .blocked := by
  cases inlet with
  | absent => cases h
  | queue words => cases words <;> cases h
  | channel words isOpen => exact h

end Intcode.Inlet

namespace Intcode.Machine

/-- **Values added behind the others change nothing about a step**, unless it ended because there
were none. -/
theorem step_feed {machine after : Machine} {outcome : Outcome}
    (h : machine.step = (after, outcome))
    (hin : ∀ ip, outcome ≠ .stopped (.faulted (.inputClosed ip))) (values : List Word) :
    (machine.feed values).step = (after.feed values, outcome) := by
  rw [step_eq_iff] at h ⊢
  cases h with
  | halted hhalted => exact .halted hhalted
  | exhausted hrun hlimit => exact .exhausted hrun hlimit
  | crash hrun hlimit hnext => exact .crash hrun hlimit hnext
  | internal hrun hlimit hnext => exact .internal hrun hlimit hnext
  | receive hrun hlimit hnext hpull hdest =>
    exact .receive hrun hlimit hnext (Inlet.pull_feed hpull values) hdest
  | misplace hrun hlimit hnext hpull hdest =>
    exact .misplace hrun hlimit hnext (Inlet.pull_feed hpull values) hdest
  | starve hrun hlimit hnext hpull => exact absurd rfl (hin _)
  | wait hrun hlimit hnext hpull =>
    exact .wait hrun hlimit hnext (Inlet.pull_feed_of_blocked hpull values)
  | send hrun hlimit hnext hpush => exact .send hrun hlimit hnext hpush
  | refuse hrun hlimit hnext hpush => exact .refuse hrun hlimit hnext hpush
  | block hrun hlimit hnext hpush => exact .block hrun hlimit hnext hpush

/-! ## Runs -/

/-- A run grows at its end. -/
theorem proceed_snoc : ∀ {count : Nat} {machine before after : Machine} {instruction : Instruction},
    machine.proceed count = (before, none) → before.step = (after, .executed instruction) →
      machine.proceed (count + 1) = (after, none)
  | 0, machine, before, after, instruction, h, hstep => by
    cases h
    simp [proceed, hstep]
  | count + 1, machine, before, after, instruction, h, hstep => by
    rw [proceed] at h ⊢
    rcases hfirst : machine.step with ⟨second, outcome⟩
    rw [hfirst] at h
    cases outcome with
    | executed first => exact proceed_snoc h hstep
    | stopped stop => cases h

/-- **A change that no executed step notices, a run does not notice** that has not stopped. -/
theorem proceed_map {f : Machine → Machine}
    (hf : ∀ {machine after : Machine} {instruction : Instruction},
      machine.step = (after, .executed instruction) →
        (f machine).step = (f after, .executed instruction)) :
    ∀ {count : Nat} {machine after : Machine},
      machine.proceed count = (after, none) → (f machine).proceed count = (f after, none)
  | 0, machine, after, h => by
    cases h
    rfl
  | count + 1, machine, after, h => by
    rw [proceed] at h ⊢
    rcases hfirst : machine.step with ⟨second, outcome⟩
    rw [hfirst] at h
    cases outcome with
    | executed first =>
      rw [hf hfirst]
      exact proceed_map hf h
    | stopped stop => cases h

/-- **Values added behind the others do not change a run** that has not stopped. -/
theorem proceed_feed (values : List Word) {count : Nat} {machine after : Machine}
    (h : machine.proceed count = (after, none)) :
    (machine.feed values).proceed count = (after.feed values, none) :=
  proceed_map (f := fun machine => machine.feed values)
    (fun hstep => step_feed hstep (by simp) values) h

/-- A run that has come to a halted machine stops there. -/
theorem proceed_of_halted (extra : Nat) : ∀ {count : Nat} {machine after : Machine},
    machine.proceed count = (after, none) → after.state.halted = true →
      machine.proceed (count + 1 + extra) = (after, some .halted)
  | 0, machine, after, h, hhalted => by
    cases h
    rw [Nat.add_assoc, Nat.zero_add, Nat.add_comm, proceed, (Steps.halted hhalted).step_eq]
  | count + 1, machine, after, h, hhalted => by
    rw [proceed] at h
    rw [Nat.add_right_comm, proceed]
    rcases hfirst : machine.step with ⟨second, outcome⟩
    rw [hfirst] at h
    cases outcome with
    | executed first => exact proceed_of_halted extra h hhalted
    | stopped stop => cases h

end Intcode.Machine
