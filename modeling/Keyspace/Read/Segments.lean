import Keyspace.Read.Pages
import Keyspace.Retry
/-!
# Scanning in segments

A scan can be divided into segments, which workers read side by side, each with its own tries.  A
worker that fails or crashes does not disturb the others: each reports what became of its segment,
and when all have reported, the items of the segments that were read are put together in the order
of the segments, next to a list of those that failed.

Main definitions:

* `Keyspace.Segmented` — what the workers brought;
* `Keyspace.SegmentReport`, `Keyspace.mergeReports` — what one of them reports, and all reports put
  together;
* `Keyspace.ScanRequest.worker` — the work of one;
* `Keyspace.ScanRequest.segmented` — the work of all.
-/

set_option autoImplicit false

namespace Keyspace

/-- A segment that was not read. -/
structure SegmentFailure where
  segment : Nat
  error : Error
  deriving Repr

/-- The items of the segments that were read, in order, and the segments that failed. -/
structure Segmented (α : Type) where
  items : List α := []
  failures : List SegmentFailure := []
  segments : Nat

namespace Segmented

variable {α β : Type}

/-- Whether every segment was read. -/
def isComplete (s : Segmented α) : Bool := s.failures.isEmpty

/-- All items, or the error of the first segment that failed. -/
def toExcept (s : Segmented α) : Except Error (List α) :=
  match s.failures with
  | [] => .ok s.items
  | failure :: _ => .error failure.error

/-- The outcome of one more segment. -/
def add (s : Segmented α) (segment : Nat) : Except Error (List α) → Segmented α
  | .ok items => { s with items := s.items ++ items }
  | .error e => { s with failures := s.failures ++ [⟨segment, e⟩] }

/-- Other items in place of these. -/
def mapItems (s : Segmented α) (f : List α → Except Error (List β)) :
    Except Error (Segmented β) := do
  let items ← f s.items
  .ok { items, failures := s.failures, segments := s.segments }

end Segmented

/-! ### Reports -/

/-- What a worker reports of its segment. -/
structure SegmentReport where
  segment : Nat
  outcome : Except Error (List Item)

/-- The error of a segment whose worker ended without a report. -/
def lostSegment (segment : Nat) : Error :=
  .segmentPanic segment "worker exited without reporting"

/-- What was reported of a segment, at last. -/
def reportOf? (reports : List SegmentReport) (segment : Nat) :
    Option (Except Error (List Item)) :=
  ((reports.filter fun r => r.segment == segment).getLast?).map SegmentReport.outcome

/-- **All reports put together**, segment by segment, in whatever order they came. -/
def mergeReports (segments : Nat) (reports : List SegmentReport) : Segmented Item :=
  (List.range segments).foldl
    (fun sofar k => sofar.add k ((reportOf? reports k).getD (.error (lostSegment k)))) { segments }

/-! ### Workers -/

/-- The error of a worker: an elapsed deadline and a crash stand for themselves, every other error
is one of the segment. -/
def segmentError (segment : Nat) : Error → Error
  | .timeout operation attempts => .timeout operation attempts
  | .segmentPanic k text => .segmentPanic k text
  | e => .segment segment e

namespace ScanRequest

variable {σ : Type}

/-- The request for one of some segments. -/
def forSegment (r : ScanRequest) (segment segments : Nat) : ScanRequest :=
  { r with segment := some segment, segments := some segments }

/-- **The work of one worker**: all items of its segment, from its start on. -/
def worker (store : Store σ) (r : ScanRequest) (retry : RetryPolicy) (deadline : Option Nat)
    (pageSize : Option Int) (segments segment : Nat) : Action σ (List Item) := fun w =>
  let pages := (r.forSegment segment segments).pager store segment
  let (outcome, w) := retry.run deadline .scan List.isEmpty
    (pages.items deadline { perCall := pageSize } none) w
  (outcome.mapError (segmentError segment), w)

/-- The workers from `segment` on, `left` in number.  All start at the same time; `latest` is when
the last of those before them was done. -/
def workers (work : Nat → Action σ (List Item)) (begun : Nat) :
    (left segment latest : Nat) → World σ → List SegmentReport × World σ
  | 0, _, latest, w => ([], { w with now := latest })
  | left + 1, segment, latest, w =>
    let (outcome, w) := work segment { w with now := begun }
    let (reports, w) := workers work begun left (segment + 1) (max latest w.now) w
    (⟨segment, outcome⟩ :: reports, w)

/-- **All segments, read side by side.** -/
def segmented (store : Store σ) (r : ScanRequest) (retry : RetryPolicy) (deadline : Option Nat)
    (pageSize : Option Int) (segments : Nat) (w : World σ) : Segmented Item × World σ :=
  let work := r.worker store retry deadline pageSize segments
  let (reports, w) := workers work w.now segments 0 w.now w
  (mergeReports segments reports, w)

end ScanRequest

end Keyspace
