import Keyspace.Dict
import Keyspace.Number.Integer
import Keyspace.Text.Blank
/-!
# Settings

Settings fix how many items a page has, how faults are retried and how batches are divided.  They
are read from named variables; a variable that is missing, or no number where one is asked for,
leaves the default.

Main definitions:

* `Keyspace.RetryPolicy` — how often to try again, and after what pause;
* `Keyspace.Config` — the settings, with their defaults;
* `Keyspace.Config.clamped` — settings that the store accepts;
* `Keyspace.Config.ofVariables` — the settings of some variables.
-/

set_option autoImplicit false

namespace Keyspace

/-- How often a call is tried again and after what pause, in milliseconds: the pause doubles from
`initial` on and is never longer than `cap`. -/
structure RetryPolicy where
  max : Nat
  initial : Nat := 100
  cap : Nat := 2000
  /-- Whether an empty result is a reason to try again. -/
  onEmpty : Bool := false
  deriving DecidableEq, Repr

/-- The settings of a handle. -/
structure Config where
  /-- The number of items that a call looks at, if the read does not say. -/
  pageSize : Option Int := none
  queryRetry : RetryPolicy := { max := 0 }
  batchRetry : RetryPolicy := { max := 2 }
  /-- The keys of one call of a batch. -/
  readChunk : Nat := 100
  /-- The writes of one call of a batch. -/
  writeChunk : Nat := 25
  /-- The calls of a batch that are under way together. -/
  concurrency : Nat := 10
  deriving DecidableEq, Repr

namespace Config

/-- The most keys that the store takes in one call. -/
def maxReadChunk : Nat := 100

/-- The most writes that the store takes in one call. -/
def maxWriteChunk : Nat := 25

/-- The nearest number from one to `most`. -/
def clamp (most n : Nat) : Nat := max 1 (min n most)

/-- **Settings within the limits of the store.** -/
def clamped (c : Config) : Config :=
  { c with
    readChunk := clamp maxReadChunk c.readChunk
    writeChunk := clamp maxWriteChunk c.writeChunk
    concurrency := max 1 c.concurrency }

theorem clamp_bounds {most : Nat} (h : 1 ≤ most) (n : Nat) :
    1 ≤ clamp most n ∧ clamp most n ≤ most := by
  unfold clamp
  omega

/-! ### Variables -/

/-- Variables with their values. -/
abbrev Variables := Dict String

/-- The number that a variable holds, blanks around it left out. -/
def number? (vars : Variables) (name : String) : Option Nat :=
  (vars.get? name).bind fun text => Number.readUnsigned Number.maxUInt64 (Text.trim text)

/-- The texts that switch something on. -/
def onTexts : List String := ["1", "true", "yes", "TRUE", "YES", "True"]

/-- The switch that a variable holds. -/
def switch? (vars : Variables) (name : String) : Option Bool :=
  (vars.get? name).map fun text => onTexts.contains (Text.trim text)

/-- A page size: at least one, and a number of 32 bits. -/
def pageSizeOf (n : Nat) : Option Int :=
  if 0 < n && n ≤ Number.maxInt32 then some n else none

/-- **The settings of some variables.** -/
def ofVariables (vars : Variables) : Config :=
  let default : Config := {}
  let query := default.queryRetry
  let config : Config :=
    { pageSize := (number? vars "DYNAMO_QUERY_PAGE_SIZE").bind pageSizeOf
      queryRetry :=
        { max := (number? vars "DYNAMO_QUERY_MAX_RETRIES").getD query.max
          initial := (number? vars "DYNAMO_QUERY_RETRY_INITIAL_MS").getD query.initial
          cap := (number? vars "DYNAMO_QUERY_RETRY_MAX_MS").getD query.cap
          onEmpty := (switch? vars "DYNAMO_QUERY_RETRY_ON_EMPTY").getD query.onEmpty }
      batchRetry :=
        { default.batchRetry with
          max := (number? vars "DYNAMO_QUERY_BATCH_MAX_RETRIES").getD default.batchRetry.max }
      readChunk := (number? vars "DYNAMO_QUERY_READ_CHUNK").getD default.readChunk
      writeChunk := (number? vars "DYNAMO_QUERY_WRITE_CHUNK").getD default.writeChunk
      concurrency := (number? vars "DYNAMO_QUERY_BATCH_CONCURRENCY").getD default.concurrency }
  config.clamped

end Config

end Keyspace
