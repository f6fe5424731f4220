import Keyspace.Update.Basic
/-!
# Steps of an update

The steps that put an update together, as data.  Their operands are of one type, plain data if
nothing else is said.

Main definitions:

* `Keyspace.Update.Step` — the steps;
* `Keyspace.Update.step`, `Keyspace.Update.steps` — one step, several steps.
-/

set_option autoImplicit false

namespace Keyspace.Update

/-- A step that puts an update together. -/
inductive Step (ν : Type := Datum) where
  | ofPartition (value : ν)
  | ofSort (value : ν)
  | ofKey (key : Key)
  | apply (form : ChangeForm) (path : String) (value : ν)
  | remove (path : String)
  | onlyIf (field : String) (op : Operator) (value : ν)
  | onlyIfExists (field : String)
  | onlyIfAbsent (field : String)
  | filter (fragment : Fragment)
  | before (deadline : Nat)
  /-- Nothing is sent when `duration` has passed from now on; a duration beyond the end of the clock
  ends the program, as it does for a query. -/
  | within (duration : Nat)

variable {ν : Type} [AsOperand ν]

/-- **The update after a step** that is taken at a time. -/
def step (now : Nat) (u : Update) : Step ν → Update
  | .ofPartition value => u.ofPartition value
  | .ofSort value => u.ofSort value
  | .ofKey key => u.ofKey key
  | .apply form path value => u.apply form path value
  | .remove path => u.remove path
  | .onlyIf field op value => u.onlyIf field op value
  | .onlyIfExists field => u.onlyIfExists field
  | .onlyIfAbsent field => u.onlyIfAbsent field
  | .filter fragment => u.filter fragment
  | .before deadline => u.before deadline
  | .within duration => u.before (now + duration)

/-- The update after some steps. -/
def steps (now : Nat) (u : Update) (ss : List (Step ν)) : Update := ss.foldl (step now) u

end Keyspace.Update
