import Intcode.Machine

/-!
# Machines at any port

Model of `Machine` with an output port of any type that implements `Output`. An `Outlet` is one of
the ports that come with the library. But all a machine wants of its outlet is an answer to each
value that it offers, and somebody may give it a port with other habits, one that refuses from some
moment on, say, or one that does not return. A `Session` is a machine with such a port instead of
its outlet: the port has states in `σ`, and `push` says what becomes of a value in a state. The
session also keeps a record of what was accepted.

The machine's own outlet has no part in it. When a value is offered the port is asked, and
the machine takes its step at an outlet that gives the same answer.
-/

namespace Intcode

/-- The value that the next step offers to the outlet, if it comes to that. -/
def Machine.offer? (machine : Machine) : Option Word :=
  if machine.state.halted ∨ machine.exhausted?.isSome then none
  else
    match machine.state.next with
    | .ok (_, .send value) => some value
    | _ => none

/-- A machine with a port in place of its outlet. -/
structure Session (σ : Type) where
  machine : Machine
  port : σ
  /-- The values that the port has accepted since the run began. -/
  accepted : List Word := []

namespace Session

variable {σ : Type} (push : σ → Word → Push σ)

/-- One step of the machine; a value that it offers is offered to the port. -/
def step (session : Session σ) : Session σ × Outcome :=
  match session.machine.offer? with
  | none =>
    let (machine, outcome) := session.machine.step
    ({ session with machine }, outcome)
  | some value =>
    match push session.port value with
    | .accepted port =>
      let (machine, outcome) := { session.machine with output := .discard }.step
      ({ machine, port, accepted := session.accepted ++ [value] }, outcome)
    | .refused port =>
      let (machine, outcome) := { session.machine with output := .channel #[] false }.step
      ({ session with machine, port }, outcome)
    | .blocked => (session, .stopped .waiting)

/-- Steps until the machine stops, at most `fuel` times. -/
def proceed : Nat → Session σ → Session σ × Option Stop
  | 0, session => (session, none)
  | fuel + 1, session =>
    match session.step push with
    | (after, .executed _) => proceed fuel after
    | (after, .stopped stop) => (after, some stop)

/-- The session at the start of a run, its port as it is. -/
def reset (session : Session σ) : Session σ :=
  { session with machine := session.machine.reset, accepted := [] }

/-- Runs the program from the start. -/
def run (fuel : Nat) (session : Session σ) : Session σ × Ending (Option Word) :=
  match session.reset.proceed push fuel with
  | (after, some stop) => (after, stop.ending after.machine.state.last)
  | (after, none) => (after, .unfinished)

/-- The machine with its port for an outlet. -/
def attached (session : Session Outlet) : Machine :=
  { session.machine with output := session.port }

/-! ## What a port always does -/

/-- The port after it has accepted values one after the other; none if it has not. -/
def pushAll? (port : σ) (words : List Word) : Option σ :=
  words.foldlM (fun port word => (push port word).accepted?) port

/-- Whatever the port has accepted before, its answer to the next value is one of these. -/
def Always (answers : Push σ → Prop) (port : σ) : Prop :=
  ∀ words after, pushAll? push port words = some after → ∀ word, answers (push after word)

/-- **Every push returns**, be it with a refusal. -/
def Responsive (port : σ) : Prop := Always push (· ≠ .blocked) port

/-- **Every push of the run from here on returns**, whatever the port would do with other values. -/
def Unblocked (session : Session σ) : Prop :=
  ∀ count before value, session.proceed push count = (before, none) →
    before.machine.offer? = some value → push before.port value ≠ .blocked

/-! ## Lemmas -/

variable {push} {answers : Push σ → Prop} {port after : σ}

theorem Always.answer (h : Always push answers port) (word : Word) : answers (push port word) :=
  h [] port rfl word

/-- What a port always does it still does after it has accepted a value. -/
theorem Always.of_accepted (h : Always push answers port) {word : Word}
    (haccepted : push port word = .accepted after) : Always push answers after := by
  intro words last hlast
  refine h (word :: words) last ?_
  rw [pushAll?, List.foldlM_cons, haccepted]
  exact hlast

/-- A port always answers like this if all its states do that it can come to by accepting values. -/
theorem Always.of_invariant {P : σ → Prop} (hport : P port)
    (hanswers : ∀ {port : σ}, P port → ∀ word, answers (push port word))
    (haccepts : ∀ {port after : σ} {word : Word}, P port → push port word = .accepted after →
      P after) : Always push answers port := by
  intro words
  induction words generalizing port with
  | nil =>
    intro after hafter
    cases hafter
    exact hanswers hport
  | cons word words ih =>
    intro after hafter
    rw [pushAll?, List.foldlM_cons] at hafter
    cases hpush : push port word with
    | accepted next =>
      rw [hpush] at hafter
      exact ih (haccepts hport hpush) after hafter
    | refused next | blocked =>
      rw [hpush] at hafter
      cases hafter

end Session

/-- An outlet answers unless it is a bounded channel with somebody at its other side. -/
theorem Outlet.responsive_of_ne {outlet : Outlet}
    (h : ∀ capacity pending, outlet ≠ .bounded capacity pending true) :
    Session.Responsive Outlet.push outlet := by
  refine Session.Always.of_invariant
    (P := fun outlet => ∀ capacity pending, outlet ≠ .bounded capacity pending true) h ?_ ?_
  · intro port hport word
    cases port with
    | discard | keep => nofun
    | channel pending isHeld => cases isHeld <;> nofun
    | bounded capacity pending isHeld =>
      cases isHeld with
      | true => exact absurd rfl (hport capacity pending)
      | false => nofun
  · intro port after word hport hpush
    cases port with
    | discard | keep =>
      cases hpush
      nofun
    | channel pending isHeld =>
      cases isHeld <;> cases hpush
      nofun
    | bounded capacity pending isHeld =>
      cases isHeld with
      | true => exact absurd rfl (hport capacity pending)
      | false => cases hpush

end Intcode
