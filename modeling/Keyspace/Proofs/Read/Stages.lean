import Mathlib.Logic.Function.Iterate
import Keyspace.Read.Segments
/-!
# The stages of a worker

The work of a worker on its segment is one action that runs to its end.  Workers that read side by
side take turns, and a turn is shorter: one request with its answer, or the end of a try.  Here
the work is cut into such steps.

Main definitions:

* `Keyspace.SplitScan` — a scan that is divided among workers;
* `Keyspace.SplitScan.work` — the work of one of them;
* `Keyspace.Stage`, `Keyspace.SplitScan.step` — how far a worker is, and a step of it.

Main results:

* `Keyspace.SplitScan.steps_work` — **a worker that takes its steps does its work**;
* `Keyspace.SplitScan.iterate_unique` — and it does so in one way only.
-/

set_option autoImplicit false

namespace Keyspace

variable {σ : Type}

/-- A scan that is divided among workers. -/
structure SplitScan (σ : Type) where
  store : Store σ
  request : ScanRequest
  retry : RetryPolicy
  deadline : Option Nat
  /-- The most items of a page. -/
  pageSize : Option Int
  /-- The number of workers. -/
  segments : Nat

/-- How far a worker is. -/
inductive Stage where
  /-- In a try with `left` more tries after it, `calls` pages were read, up to a key. -/
  | reading (left : Nat) (start : Option Item) (calls : Nat) (sofar : List Item)
  | done (outcome : Except Error (List Item))

namespace SplitScan

variable (j : SplitScan σ) (k : Nat)

/-- The work of a worker. -/
def work : Action σ (List Item) :=
  j.request.worker j.store j.retry j.deadline j.pageSize j.segments k

/-- A worker's request for the page behind a key. -/
def ask (start : Option Item) : ScanRequest :=
  (j.request.forSegment k j.segments).turn start j.pageSize

/-- A worker asks for the page behind a key, and waits for the answer. -/
def call (start : Option Item) (w : World σ) : Except WorkerFault Page × World σ :=
  w.call (.scan (j.ask k start)) (j.store.scanSegment (j.ask k start))

/-! ### Steps -/

/-- Where a worker starts. -/
def start : Stage := .reading j.retry.max none 0 []

/-- The end of a try with `left` more tries after it: a pause before the next one, or a report. -/
def settle (left : Nat) (outcome : Except Error (List Item)) (w : World σ) : Stage × World σ :=
  match left with
  | left + 1 =>
    if j.retry.wantsMore List.isEmpty outcome then
      (.reading left none 0 [], w.sleep (j.retry.pause (j.retry.max - (left + 1))))
    else (.done (outcome.mapError (segmentError k)), w)
  | 0 => (.done (outcome.mapError (segmentError k)), w)

/-- What a worker makes of an answer: a page more, or the end of a try. -/
def receive (left calls : Nat) (sofar : List Item) (answer : Except WorkerFault Page)
    (w : World σ) : Stage × World σ :=
  match answer with
  | .error fault => j.settle k left (.error (fault.toError k)) w
  | .ok page =>
    match page.next? with
    | some key => (.reading left (some key) (calls + 1) (sofar ++ page.items), w)
    | none => j.settle k left (.ok (sofar ++ page.items)) w

/-- **One step of a worker.**  When the deadline has come there is no request any more. -/
def step : Stage × World σ → Stage × World σ
  | (.done outcome, w) => (.done outcome, w)
  | (.reading left start calls sofar, w) =>
    if w.elapsed j.deadline then
      let attempts := if calls = 0 then j.retry.max - left else calls
      j.settle k left (.error (.timeout .scan attempts)) w
    else
      let (answer, w) := j.call k start w
      j.receive k left calls sofar answer w

variable {j k}

@[simp] theorem step_done (outcome : Except Error (List Item)) (w : World σ) :
    j.step k (.done outcome, w) = (.done outcome, w) := rfl

@[simp] theorem receive_fault (left calls : Nat) (sofar : List Item) (fault : WorkerFault)
    (w : World σ) : j.receive k left calls sofar (.error fault) w =
      j.settle k left (.error (fault.toError k)) w := rfl

theorem receive_last (left calls : Nat) (sofar : List Item) {page : Page}
    (hnext : page.next? = none) (w : World σ) : j.receive k left calls sofar (.ok page) w =
      j.settle k left (.ok (sofar ++ page.items)) w := by
  simp [receive, hnext]

theorem receive_page (left calls : Nat) (sofar : List Item) {page : Page} {key : Item}
    (hnext : page.next? = some key) (w : World σ) : j.receive k left calls sofar (.ok page) w =
      (.reading left (some key) (calls + 1) (sofar ++ page.items), w) := by
  simp [receive, hnext]

/-- The end of a try takes time at most. -/
theorem settle_still (left : Nat) (outcome : Except Error (List Item)) (w : World σ) :
    (j.settle k left outcome w).2.store = w.store ∧
      (j.settle k left outcome w).2.sent = w.sent := by
  cases left with
  | zero => exact ⟨rfl, rfl⟩
  | succ left =>
      unfold settle
      cases j.retry.wantsMore List.isEmpty outcome with
      | true => exact ⟨rfl, rfl⟩
      | false => exact ⟨rfl, rfl⟩

/-- What comes after an answer takes time at most. -/
theorem receive_still (left calls : Nat) (sofar : List Item) (answer : Except WorkerFault Page)
    (w : World σ) : (j.receive k left calls sofar answer w).2.store = w.store ∧
      (j.receive k left calls sofar answer w).2.sent = w.sent := by
  cases answer with
  | error fault => exact settle_still left _ w
  | ok page =>
      cases hnext : page.next? with
      | none =>
          rw [receive_last _ _ _ hnext]
          exact settle_still left _ w
      | some key =>
          rw [receive_page _ _ _ hnext]
          exact ⟨rfl, rfl⟩

theorem step_late {left calls : Nat} {start : Option Item} {sofar : List Item} {w : World σ}
    (h : w.elapsed j.deadline = true) :
    j.step k (.reading left start calls sofar, w) =
      j.settle k left
        (.error (.timeout .scan (if calls = 0 then j.retry.max - left else calls))) w := by
  simp [step, h]

theorem step_early {left calls : Nat} {start : Option Item} {sofar : List Item} {w : World σ}
    (h : w.elapsed j.deadline = false) :
    j.step k (.reading left start calls sofar, w) =
      j.receive k left calls sofar (j.call k start w).1 (j.call k start w).2 := by
  simp [step, h]

/-- A worker that is done stays as it is. -/
theorem iterate_done (n : Nat) (outcome : Except Error (List Item)) (w : World σ) :
    (j.step k)^[n] (.done outcome, w) = (.done outcome, w) :=
  Function.iterate_fixed (step_done outcome w) n

/-- However many steps a worker takes, it is done in one way at most. -/
theorem iterate_unique {x : Stage × World σ} {m n : Nat} {o o' : Except Error (List Item)}
    {w w' : World σ} (hm : (j.step k)^[m] x = (.done o, w))
    (hn : (j.step k)^[n] x = (.done o', w')) : o = o' ∧ w = w' := by
  have hboth : (j.step k)^[n + m] x = (j.step k)^[m + n] x := by rw [Nat.add_comm]
  rw [Function.iterate_add_apply, Function.iterate_add_apply, hm, hn, iterate_done, iterate_done]
    at hboth
  cases hboth
  exact ⟨rfl, rfl⟩

/-! ### Steps and work -/

/-- The pages that a worker reads. -/
def pager (j : SplitScan σ) (k : Nat) : Pager σ :=
  (j.request.forSegment k j.segments).pager j.store k

/-- How a worker puts its pages together. -/
def collector (j : SplitScan σ) : Collector (List Item) :=
  PageLimits.collector { perCall := j.pageSize }

theorem collector_limit (j : SplitScan σ) (sofar : List Item) :
    j.collector.limit sofar = j.pageSize := by
  unfold collector PageLimits.collector PageLimits.next PageLimits.missing
  cases j.pageSize with
  | none => rfl
  | some most => rfl

/-- A page that is read is the answer to a worker's request. -/
theorem pager_fetch (start : Option Item) (sofar : List Item) (w : World σ) :
    (j.pager k).fetch start (j.collector.limit sofar) w =
      ((j.call k start w).1.mapError (WorkerFault.toError k), (j.call k start w).2) := by
  rw [collector_limit]
  rfl

theorem call_of_fetch_ok {start : Option Item} {sofar : List Item} {w w' : World σ} {page : Page}
    (h : (j.pager k).fetch start (j.collector.limit sofar) w = (.ok page, w')) :
    j.call k start w = (.ok page, w') := by
  rw [pager_fetch] at h
  cases hcall : j.call k start w with
  | mk result v =>
      cases result with
      | error fault => simp [hcall] at h
      | ok page' => simpa [hcall] using h

theorem call_of_fetch_error {start : Option Item} {sofar : List Item} {w w' : World σ} {e : Error}
    (h : (j.pager k).fetch start (j.collector.limit sofar) w = (.error e, w')) :
    ∃ fault : WorkerFault, e = fault.toError k ∧ j.call k start w = (.error fault, w') := by
  rw [pager_fetch] at h
  cases hcall : j.call k start w with
  | mk result v =>
      cases result with
      | error fault =>
          simp only [hcall, mapError_error, Prod.mk.injEq, Except.error.injEq] at h
          exact ⟨fault, h.1.symm, by rw [h.2]⟩
      | ok page => simp [hcall] at h

/-- **A try, step by step.**  Before its first page the deadline has been looked at. -/
theorem steps_collect (left : Nat) (start : Option Item) (calls : Nat) (sofar : List Item)
    (w : World σ) (hfirst : calls = 0 → w.elapsed j.deadline = false) :
    ∃ n, (j.step k)^[n] (.reading left start calls sofar, w) =
      (let (outcome, w) := (j.pager k).collect j.deadline j.collector start calls sofar w
       j.settle k left outcome w) := by
  -- each round of the loop is one step
  fun_induction Pager.collect (j.pager k) j.deadline j.collector start calls sofar w with
  | case1 start calls sofar w late =>
      have hcalls : calls ≠ 0 := fun hzero => by simp [hfirst hzero] at late
      refine ⟨1, ?_⟩
      rw [Function.iterate_one, step_late late, if_neg hcalls]
      rfl
  | case2 start calls sofar w late e w' fetched =>
      obtain ⟨fault, rfl, hcall⟩ := call_of_fetch_error fetched
      refine ⟨1, ?_⟩
      rw [Function.iterate_one, step_early (Bool.eq_false_iff.2 late), hcall, receive_fault]
  | case3 start calls sofar w late page w' fetched got full =>
      simp [collector, PageLimits.collector, PageLimits.reached] at full
  | case4 start calls sofar w late page w' fetched got full next =>
      refine ⟨1, ?_⟩
      rw [Function.iterate_one, step_early (Bool.eq_false_iff.2 late), call_of_fetch_ok fetched,
        receive_last _ _ _ next]
      rfl
  | case5 start calls sofar w late page w' fetched got full key next lower ih =>
      obtain ⟨n, hn⟩ := ih (fun hzero => absurd hzero (Nat.succ_ne_zero calls))
      refine ⟨n + 1, ?_⟩
      rw [Function.iterate_succ_apply, step_early (Bool.eq_false_iff.2 late),
        call_of_fetch_ok fetched, receive_page _ _ _ next]
      exact hn

/-- One try of a worker. -/
def attempt (j : SplitScan σ) (k : Nat) : Action σ (List Item) :=
  (j.pager k).items j.deadline { perCall := j.pageSize } none

theorem attempt_eq (w : World σ) :
    j.attempt k w = (j.pager k).collect j.deadline j.collector none 0 [] w := by
  unfold attempt Pager.items
  simp only [collector]
  cases ((j.pager k).collect j.deadline (PageLimits.collector { perCall := j.pageSize }) none 0 []
    w) with
  | mk outcome w =>
      cases outcome with
      | error e => rfl
      | ok items => rfl

theorem steps_attempt (left : Nat) (w : World σ) :
    ∃ n, (j.step k)^[n] (.reading left none 0 [], w) =
      (let (outcome, w) :=
        RetryPolicy.before j.deadline .scan (j.retry.max - left) (j.attempt k) w
       j.settle k left outcome w) := by
  unfold RetryPolicy.before
  cases helapsed : w.elapsed j.deadline with
  | true =>
      refine ⟨1, ?_⟩
      rw [Function.iterate_one, step_late helapsed]
      rfl
  | false =>
      rw [attempt_eq]
      exact steps_collect left none 0 [] w fun _ => helapsed

/-- **All tries, step by step.** -/
theorem steps_runFrom (left : Nat) (w : World σ) :
    ∃ n, (j.step k)^[n] (.reading left none 0 [], w) =
      (let (outcome, w) :=
        j.retry.runFrom j.deadline .scan List.isEmpty (j.attempt k) left w
       (.done (outcome.mapError (segmentError k)), w)) := by
  induction left generalizing w with
  | zero => exact steps_attempt 0 w
  | succ left ih =>
      obtain ⟨n, hn⟩ := steps_attempt (j := j) (k := k) (left + 1) w
      unfold RetryPolicy.runFrom
      cases htry : RetryPolicy.before j.deadline .scan (j.retry.max - (left + 1)) (j.attempt k)
          w with
      | mk outcome w' =>
          simp only [htry, settle] at hn ⊢
          cases hmore : j.retry.wantsMore List.isEmpty outcome with
          | false =>
              refine ⟨n, ?_⟩
              rw [hn, hmore]
              rfl
          | true =>
              -- after the pause the next try starts where the first one did
              obtain ⟨m, hm⟩ := ih (w'.sleep (j.retry.pause (j.retry.max - (left + 1))))
              refine ⟨m + n, ?_⟩
              rw [Function.iterate_add_apply, hn, hmore]
              exact hm

/-- **A worker that takes its steps does its work.** -/
theorem steps_work (j : SplitScan σ) (k : Nat) (w : World σ) :
    ∃ n, (j.step k)^[n] (j.start, w) = (.done (j.work k w).1, (j.work k w).2) :=
  steps_runFrom j.retry.max w

end SplitScan

end Keyspace
