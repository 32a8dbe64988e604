import Intcode.Word

/-!
# Outlets

Model of the ports that implement `Output`. An `Outlet` is where a machine sends its output. It is
a value: offering it something gives the outlet as it is afterwards.

A push is answered `accepted`, or `refused` when nobody will ever take the value (`Disconnected`),
or it is `blocked` and does not return before the other side has acted. Only a bounded channel can
block: `SyncSender` waits for room, `Sender` never does, and the other ports have no other side.

* `after_of_refused`: an outlet that refuses is left as it was.
-/

namespace Intcode

/-- The answer to a push, with the port as it is afterwards. -/
inductive Push (σ : Type) where
  | accepted (after : σ)
  | refused (after : σ)
  | blocked
deriving DecidableEq

/-- The port after it has accepted a value, if it has. -/
def Push.accepted? {σ : Type} : Push σ → Option σ
  | accepted after => some after
  | refused _ | blocked => none

/-- Where a machine's output goes. -/
inductive Outlet where
  /-- Values are accepted and forgotten: `()`, or an absent port. -/
  | discard
  /-- Values are kept (`Vec`). -/
  | keep (accepted : Array Word)
  /-- Values wait until the other side takes them, as long as there is another side (`Sender`). -/
  | channel (pending : Array Word) (isHeld : Bool)
  /-- The same with room for `capacity` values (`SyncSender`); without any, each value has to be
  taken at once. -/
  | bounded (capacity : Nat) (pending : Array Word) (isHeld : Bool)
deriving DecidableEq

namespace Outlet

/-- Offers a value (`Output::push`). -/
def push (outlet : Outlet) (word : Word) : Push Outlet :=
  match outlet with
  | discard => .accepted discard
  | keep accepted => .accepted (keep (accepted.push word))
  | channel pending true => .accepted (channel (pending.push word) true)
  | bounded capacity pending true =>
    if pending.size < capacity then .accepted (bounded capacity (pending.push word) true)
    else .blocked
  | channel _ false | bounded _ _ false => .refused outlet

/-- Offers a value; none if it is not accepted. -/
def push? (outlet : Outlet) (word : Word) : Option Outlet := (outlet.push word).accepted?

/-- The values at the other side, if there is one: everything that was kept, or what waits in a
channel. -/
def collected? : Outlet → Option (Array Word)
  | discard => none
  | keep accepted => some accepted
  | channel pending true | bounded _ pending true => some pending
  | channel _ false | bounded _ _ false => none

/-- The outlet after its values were collected: a channel gives them away. -/
def drained : Outlet → Outlet
  | channel _ isHeld => channel #[] isHeld
  | bounded capacity _ isHeld => bounded capacity #[] isHeld
  | other => other

/-- The other side of a channel leaves, and what waited there is lost. -/
def close : Outlet → Outlet
  | channel _ _ => channel #[] false
  | bounded capacity _ _ => bounded capacity #[] false
  | other => other

/-! ## Lemmas -/

/-- A bounded channel whose other side is there accepts a value, or has no room for it. -/
theorem push_bounded (capacity : Nat) (pending : Array Word) (word : Word) :
    (bounded capacity pending true).push word =
        .accepted (bounded capacity (pending.push word) true) ∨
      (bounded capacity pending true).push word = .blocked := by
  rw [push]
  by_cases hroom : pending.size < capacity
  · exact .inl (if_pos hroom)
  · exact .inr (if_neg hroom)

/-- An outlet that refuses a value is left as it was. -/
theorem after_of_refused {outlet after : Outlet} {word : Word}
    (h : outlet.push word = .refused after) : after = outlet := by
  cases outlet with
  | discard | keep => cases h
  | channel pending isHeld =>
    cases isHeld with
    | true => cases h
    | false =>
      cases h
      rfl
  | bounded capacity pending isHeld =>
    cases isHeld with
    | true =>
      rcases push_bounded capacity pending word with haccepts | hblocks
      · cases haccepts.symm.trans h
      · cases hblocks.symm.trans h
    | false =>
      cases h
      rfl

end Outlet

end Intcode
