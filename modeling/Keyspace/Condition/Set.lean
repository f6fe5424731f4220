import Keyspace.Condition.Basic
import Keyspace.Fragment
/-!
# Sets of conditions

Conditions and fragments are collected one by one, and all of them have to hold.  The first one
that is wrong is kept as an error, and from then on the set no longer changes; whoever uses the
set gets that error.

Main definitions:

* `Keyspace.ConditionSet` — conditions, fragments and the first error;
* `Keyspace.ConditionSet.append`, `Keyspace.ConditionSet.appendText`,
  `Keyspace.ConditionSet.appendFragment`, `Keyspace.ConditionSet.fail` — collecting;
* `Keyspace.ConditionSet.parts` — what was collected, or the error.
-/

set_option autoImplicit false

namespace Keyspace

/-- Conditions and fragments in the order they were added, and the first error. -/
structure ConditionSet where
  conditions : List Condition := []
  fragments : List Fragment := []
  error : Option Error := none
  deriving Repr

namespace ConditionSet

/-- The set without conditions. -/
def empty : ConditionSet := {}

/-- Whether an error was kept. -/
def failed (s : ConditionSet) : Bool := s.error.isSome

/-- The number of conditions and fragments. -/
def size (s : ConditionSet) : Nat := s.conditions.length + s.fragments.length

/-- **A change that a failed set ignores**, and whose error a set keeps. -/
def attempt (s : ConditionSet) (change : Except Error ConditionSet) : ConditionSet :=
  if s.failed then s
  else
    match change with
    | .ok t => t
    | .error e => { s with error := some e }

/-- The set with an error of its caller, unless it has one. -/
def fail (s : ConditionSet) (e : Error) : ConditionSet := s.attempt (.error e)

/-- The set with a condition more. -/
def add (s : ConditionSet) (c : Condition) : ConditionSet :=
  { s with conditions := s.conditions ++ [c] }

/-- The set with one condition more, if that is right. -/
def append (s : ConditionSet) (field : String) (op : Operator) (values : List Value) :
    ConditionSet :=
  s.attempt do
    let c ← Condition.check field op values
    .ok (s.add c)

/-- The set with one condition more, whose operator is spelt out. -/
def appendText (s : ConditionSet) (field op : String) (values : List Value) : ConditionSet :=
  s.attempt do
    let op ← Operator.read op
    let c ← Condition.check field op values
    .ok (s.add c)

/-- The set with one fragment more. -/
def appendFragment (s : ConditionSet) (f : Fragment) : ConditionSet :=
  s.attempt do
    f.validate
    .ok { s with fragments := s.fragments ++ [f] }

/-- The conditions and fragments of a set, or its error. -/
def parts (s : ConditionSet) : Except Error (List Condition × List Fragment) :=
  match s.error with
  | some e => .error e
  | none => .ok (s.conditions, s.fragments)

theorem parts_eq_ok {s : ConditionSet} {parts : List Condition × List Fragment}
    (h : s.parts = .ok parts) : parts = (s.conditions, s.fragments) := by
  unfold ConditionSet.parts at h
  split at h
  · cases h
  · exact (Except.ok.inj h).symm

/-- A failed set stays as it is. -/
theorem attempt_of_failed {s : ConditionSet} {change : Except Error ConditionSet}
    (h : s.failed = true) : s.attempt change = s := by
  simp [attempt, h]

end ConditionSet

end Keyspace
