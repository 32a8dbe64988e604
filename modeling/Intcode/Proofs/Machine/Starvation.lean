import Intcode.Proofs.Machine.Runs

/-!
# Starved machines

A machine takes a value from its inlet (`Input::pull`) when it executes an `in`, one value for each,
and never looks further. So values queued behind those that a run takes make no difference to the
run, and stay where they are. A run that wants one more value than there is faults, but the fault
leaves everything in place, and once the owner has added values the machine goes on as if they had
been there all along.

Results:
* `Runs.feed`: a run that does not starve ends the same way if more values are queued.
* `eq_of_starved`: a starved machine is left as it is, and nothing is pending.
* `Runs.resumes_feed_iff`: a starved run goes on with added values as if they had been there from
  the start.
* **`input_is_consumed_lazily`**: what added values do to a run that starves and to one that does
  not.
-/

namespace Intcode.Machine

variable {machine after : Machine} {ip : Nat} {ending : Ending (Option Word)}

/-! ## Runs that do not starve -/

/-- **A run that does not starve ends the same way if more values are queued**, and leaves them
where they are. -/
theorem Runs.feed (h : machine.Runs after ending) (hin : ∀ ip, ending ≠ .faulted (.inputClosed ip))
    (values : List Word) : (machine.feed values).Runs (after.feed values) ending := by
  refine h.map (f := fun machine => machine.feed values) rfl rfl fun hstep hstop => ?_
  refine step_feed hstep (fun ip heq => ?_) values
  exact hin ip (hstop _ heq).symm

/-! ## Runs that starve -/

/-- A starved machine is left as it is, and nothing is pending. -/
theorem eq_of_starved (h : machine.step = (after, .stopped (.faulted (.inputClosed ip)))) :
    after = machine ∧ machine.input.pull = .disconnected := by
  have hroot := Fault.not_isRoot_inputClosed ip
  cases step_eq_iff.mp h with
  | starve _ _ _ hpull => exact ⟨rfl, hpull⟩
  -- no other check raises this fault
  | crash _ _ hnext => exact absurd (machine.state.yields_next.of_error hnext) hroot
  | misplace _ _ _ _ hdest =>
    exact absurd ((machine.state.yields_destination _).of_error hdest) hroot

/-- A run that starves has executed instructions up to the one that finds no value. -/
theorem Runs.exists_proceed_of_starved (h : machine.Runs after (.faulted (.inputClosed ip))) :
    ∃ count, machine.reset.proceed count = (after, none) ∧ after.input.pull = .disconnected := by
  obtain ⟨count, last, hlast, hstop⟩ := h.exists_stops_faulted
  obtain ⟨rfl, hpull⟩ := eq_of_starved hstop
  exact ⟨count, hlast, hpull⟩

/-- **A starved run goes on with added values as if they had been there from the start.** -/
theorem Runs.resumes_feed_iff {final : Machine}
    (h : machine.Runs after (.faulted (.inputClosed ip))) (values : List Word) :
    (after.feed values).Resumes final ending ↔ (machine.feed values).Runs final ending := by
  obtain ⟨count, hproceed, -⟩ := h.exists_proceed_of_starved
  have hfed : (machine.feed values).reset.proceed count = (after.feed values, none) :=
    proceed_feed values hproceed
  rw [runs_iff_resumes]
  exact resumes_iff_of_proceed hfed

/-- A run that ends on a queue leaves a queue. -/
theorem Runs.queue {queue : List Word} (h : machine.Runs after ending)
    (hqueue : machine.input = .queue queue) :
    ∃ taken left, queue = taken ++ left ∧ after.input = .queue left := by
  obtain ⟨-, count, stop, hstops, -⟩ := resumes_iff.mp (runs_iff_resumes.mp h)
  have hreset : machine.reset.input = .queue queue := hqueue
  exact hstops.queue hreset

/-- **Input is consumed lazily, and a starved run can be resumed.** Take any program, limit and
outlet, and two lists of values. If the run on the first list ends otherwise than by starving, then
so does the run on both, in the same way, and it leaves the second list behind what the other left
of the first. If the run on the first list starves, it has taken all values; add those of the
second list and go on stepping, and the machine ends exactly as in a run on both, and exactly if
that ends. -/
theorem input_is_consumed_lazily (program : Program) (limit : Option Nat) (output : Outlet)
    (state : State) (queue more : List Word) :
    let on (values : List Word) : Machine :=
      { program, input := .queue values, output, limit, state }
    (∀ after ending, (on queue).Runs after ending →
      (∀ ip, ending ≠ .faulted (.inputClosed ip)) →
      ∃ left, after.input = .queue left ∧
        (on (queue ++ more)).Runs { after with input := .queue (left ++ more) } ending) ∧
    ∀ after ip, (on queue).Runs after (.faulted (.inputClosed ip)) →
      after.input = .queue [] ∧
        ∀ final ending, (after.feed more).Resumes final ending ↔
          (on (queue ++ more)).Runs final ending := by
  intro on
  constructor
  · intro after ending hruns hin
    obtain ⟨-, left, -, hleft⟩ := hruns.queue rfl
    have hfed : after.feed more = { after with input := .queue (left ++ more) } := by
      rw [Machine.feed, hleft]
      rfl
    have hboth := hruns.feed hin more
    rw [hfed] at hboth
    exact ⟨left, hleft, hboth⟩
  · intro after ip hruns
    obtain ⟨-, left, -, hleft⟩ := hruns.queue rfl
    obtain ⟨-, -, hpull⟩ := hruns.exists_proceed_of_starved
    refine ⟨?_, fun final ending => hruns.resumes_feed_iff more⟩
    -- a queue with a value in it would have given it
    cases left with
    | nil => exact hleft
    | cons value rest =>
      rw [hleft] at hpull
      cases hpull

/-- A program that outputs two values of its inlet. -/
def echoTwice : Program := ⟨[3, 9, 4, 9, 3, 9, 4, 9, 99, 0]⟩

/-- On one value the program starves; given two more it outputs the first of these and leaves the
other. -/
theorem input_is_consumed_lazily_echoTwice :
    ∃ after final, ({ program := echoTwice, input := .queue [5] } : Machine).Runs after
        (.faulted (.inputClosed 4)) ∧
      (after.feed [6, 7]).Resumes final (.finished (some 6)) ∧ final.input = .queue [7] := by
  have hstarves : ({ program := echoTwice, input := .queue [5] } : Machine).Runs
      (({ program := echoTwice, input := .queue [5] } : Machine).run 3).1
      (.faulted (.inputClosed 4)) := ⟨nofun, 3, rfl⟩
  have hwhole : ({ program := echoTwice, input := .queue [5, 6, 7] } : Machine).Runs
      (({ program := echoTwice, input := .queue [5, 6, 7] } : Machine).run 6).1
      (.finished (some 6)) := ⟨nofun, 6, rfl⟩
  obtain ⟨-, hresumes⟩ := (input_is_consumed_lazily echoTwice none .discard (.fresh echoTwice)
    [5] [6, 7]).2 _ 4 hstarves
  exact ⟨_, _, hstarves, (hresumes _ _).mpr hwhole, rfl⟩

end Intcode.Machine
