import Keyspace.Config
import Keyspace.Store
/-!
# Trying again

An action whose store call met a fault is tried again after a pause, as often as its policy
allows; under some policies an empty result is a reason too.  Every other outcome is final.
Before each try the deadline is looked at.

Main definitions:

* `Keyspace.RetryPolicy.pause` — the pause after a try;
* `Keyspace.RetryPolicy.wantsMore` — whether an outcome is a reason to try again;
* `Keyspace.RetryPolicy.run` — the action with its tries.
-/

set_option autoImplicit false

namespace Keyspace.RetryPolicy

/-! ### Pauses -/

/-- The number by which the first pause is multiplied after `attempt` more tries.  The attempt
counts modulo `2 ^ 32`, and a product beyond 64 bits is the largest number of 64 bits. -/
def factor (attempt : Nat) : Nat :=
  let exponent := attempt % UInt32.size
  if exponent < 64 then Nat.pow 2 exponent else Number.maxUInt64

/-- **The pause after a try**, where `attempt` tries came before it. -/
def pause (p : RetryPolicy) (attempt : Nat) : Nat :=
  min (min (p.initial * factor attempt) Number.maxUInt64) p.cap

/-! ### Tries -/

variable {σ α : Type}

/-- Whether an outcome is a reason to try again. -/
def wantsMore (p : RetryPolicy) (isEmpty : α → Bool) : Except Error α → Bool
  | .ok a => p.onEmpty && isEmpty a
  | .error e => e.isStore

/-- An action, unless the deadline has come. -/
def before (deadline : Option Nat) (operation : Operation) (attempts : Nat)
    (action : Action σ α) : Action σ α := fun w =>
  if w.elapsed deadline then (.error (.timeout operation attempts), w) else action w

/-- An action with `left` more tries after the first; `max - left` tries came before. -/
def runFrom (p : RetryPolicy) (deadline : Option Nat) (operation : Operation)
    (isEmpty : α → Bool) (action : Action σ α) : Nat → Action σ α
  | 0, w => before deadline operation p.max action w
  | left + 1, w =>
    let count := p.max - (left + 1)
    let (outcome, w) := before deadline operation count action w
    if p.wantsMore isEmpty outcome then
      p.runFrom deadline operation isEmpty action left (w.sleep (p.pause count))
    else (outcome, w)

/-- **An action, tried again under a policy.** -/
def run (p : RetryPolicy) (deadline : Option Nat) (operation : Operation) (isEmpty : α → Bool)
    (action : Action σ α) : Action σ α :=
  p.runFrom deadline operation isEmpty action p.max

end Keyspace.RetryPolicy
