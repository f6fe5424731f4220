import Mathlib.Data.Finset.Lattice.Fold
import Keyspace.Proofs.Read.Apart
import Keyspace.Proofs.Read.Merged
import Keyspace.Proofs.World.Sent
/-!
# Workers side by side

The workers of a scan share its store and take their turns in some order.  Each has a clock of its
own, since a worker that waits for an answer does not hold up the others.  A worker that is done
reports, and the reports stand in the order in which they came.

Main definitions:

* `Keyspace.Crew` — all workers, with the store that they share;
* `Keyspace.SplitScan.turn`, `Keyspace.SplitScan.run` — a turn of one of them, and all turns of a
  schedule;
* `Keyspace.SplitScan.Finishes` — a schedule after which all are done.

Main results:

* `Keyspace.SplitScan.run_alike` — **after any schedule a worker is as far as its own turns bring
  it**;
* `Keyspace.SplitScan.mergeReports_run` — **the reports of a finished crew, put together, do not
  depend on the schedule**;
* `Keyspace.SplitScan.exists_turns` — every worker is done after some turns;
* `Keyspace.SplitScan.workers_run` — the workers one after the other are one of the schedules.
-/

set_option autoImplicit false

namespace Keyspace

variable {σ τ : Type}

/-- The outcome that a stage has come to. -/
def Stage.outcome? : Stage → Option (Except Error (List Item))
  | .reading _ _ _ _ => none
  | .done outcome => some outcome

/-- The workers of a scan, with the store that they share and the requests that they sent. -/
structure Crew (σ : Type) where
  store : σ
  sent : List Sent
  /-- The time of each worker. -/
  clock : Nat → Nat
  /-- How far each worker is. -/
  stage : Nat → Stage
  /-- What was reported, in the order in which it was. -/
  reports : List SegmentReport

/-- The world as a worker sees it. -/
def Crew.view (c : Crew σ) (k : Nat) : World σ :=
  { store := c.store, now := c.clock k, sent := c.sent }

namespace SplitScan

variable (j : SplitScan σ)

/-- What a worker reports in a step from one stage to another, if the step finishes its work. -/
def report (k : Nat) (stage stage' : Stage) : List SegmentReport :=
  match stage.outcome?, stage'.outcome? with
  | none, some outcome => [⟨k, outcome⟩]
  | _, _ => []

/-- **A turn of one worker.** -/
def turn (c : Crew σ) (k : Nat) : Crew σ :=
  let (stage, w) := j.step k (c.stage k, c.view k)
  { store := w.store, sent := w.sent, clock := Function.update c.clock k w.now
    stage := Function.update c.stage k stage
    reports := c.reports ++ report k (c.stage k) stage }

/-- All workers at their start. -/
def crew (w : World σ) : Crew σ :=
  { store := w.store, sent := w.sent, clock := fun _ => w.now, stage := fun _ => j.start
    reports := [] }

/-- **The workers take their turns** in the order of a schedule. -/
def run (schedule : List Nat) (w : World σ) : Crew σ := schedule.foldl j.turn (j.crew w)

/-- A schedule after which all workers are done. -/
def Finishes (schedule : List Nat) (w : World σ) : Prop :=
  ∀ k < j.segments, ∃ outcome, (j.run schedule w).stage k = .done outcome

variable {j} {part : Nat → σ → τ}

/-! ### Turns -/

/-- A turn is a step of the worker whose turn it is. -/
theorem turn_self (c : Crew σ) (k : Nat) :
    ((j.turn c k).stage k, (j.turn c k).view k) = j.step k (c.stage k, c.view k) := by
  simp [turn, Crew.view]

/-- The others stay as they are. -/
theorem turn_other (c : Crew σ) {k i : Nat} (hi : i ≠ k) :
    (j.turn c k).stage i = c.stage i ∧ (j.turn c k).clock i = c.clock i := by
  simp [turn, hi]

theorem turn_reports (c : Crew σ) (k : Nat) :
    (j.turn c k).reports = c.reports ++ report k (c.stage k) ((j.turn c k).stage k) := by
  simp [turn]

theorem run_append_singleton (schedule : List Nat) (k : Nat) (w : World σ) :
    j.run (schedule ++ [k]) w = j.turn (j.run schedule w) k := by
  simp [run]

/-- A worker that is done stays so in its turns. -/
theorem turn_done (c : Crew σ) {k : Nat} {outcome : Except Error (List Item)}
    (h : c.stage k = .done outcome) (i : Nat) : (j.turn c i).stage k = .done outcome := by
  by_cases hi : k = i
  · subst hi
    have hself := congrArg Prod.fst (turn_self (j := j) c k)
    rwa [h] at hself
  · rw [(turn_other c hi).1, h]

theorem foldl_turn_done (schedule : List Nat) (c : Crew σ) {k : Nat}
    {outcome : Except Error (List Item)} (h : c.stage k = .done outcome) :
    (schedule.foldl j.turn c).stage k = .done outcome := by
  induction schedule generalizing c with
  | nil => exact h
  | cons i rest ih => exact ih (j.turn c i) (turn_done c h i)

/-! ### What is sent -/

section

variable {P : Sent → Prop}

/-- A step sends a request only before the deadline. -/
theorem step_sends {k : Nat}
    (h : ∀ start (w : World σ), w.elapsed j.deadline = false → P ⟨w.now, .scan (j.ask k start)⟩)
    (x : Stage × World σ) : x.2.SentSince P (j.step k x).2 := by
  obtain ⟨stage, w⟩ := x
  cases stage with
  | done outcome => exact .refl w
  | reading left start calls sofar =>
      cases hlate : w.elapsed j.deadline with
      | true =>
          rw [step_late hlate]
          exact .of_eq (settle_still left _ w).2
      | false =>
          rw [step_early hlate]
          have hcall : w.SentSince P (j.call k start w).2 := .call w _ (h start w hlate)
          exact hcall.trans (.of_eq (receive_still left calls sofar _ _).2)

/-- **Turns send what steps send.** -/
theorem run_sends {schedule : List Nat}
    (h : ∀ k ∈ schedule, ∀ start (w : World σ), w.elapsed j.deadline = false →
      P ⟨w.now, .scan (j.ask k start)⟩) (i : Nat) (w : World σ) :
    w.SentSince P ((j.run schedule w).view i) := by
  induction schedule using List.reverseRecOn with
  | nil => exact .of_eq rfl
  | append_singleton schedule k ih =>
      have hfront := ih fun k hk => h k (List.mem_append_left _ hk)
      have hstep := step_sends (h k (List.mem_append_right _ (List.mem_singleton.2 rfl)))
        ((j.run schedule w).stage k, (j.run schedule w).view k)
      rw [run_append_singleton]
      obtain ⟨more, hsent, hall⟩ := hstep
      exact hfront.trans ⟨more, hsent, hall⟩

end

/-! ### Any schedule -/

/-- **After any schedule a worker is as far as its own turns bring it**, and its part of the store
is as it would be without the others. -/
theorem run_alike (h : j.store.KeepsApart part) (schedule : List Nat) (k : Nat) (w : World σ) :
    Alike part k ((j.run schedule w).stage k, (j.run schedule w).view k)
      ((j.step k)^[schedule.count k] (j.start, w)) := by
  induction schedule using List.reverseRecOn with
  | nil => exact ⟨rfl, ⟨rfl, rfl⟩, rfl⟩
  | append_singleton schedule i ih =>
      rw [run_append_singleton, List.count_append]
      by_cases hi : k = i
      · subst hi
        rw [List.count_singleton_self, Function.iterate_succ_apply', turn_self]
        exact step_alike h ih
      · obtain ⟨hstage, hsame⟩ := ih
        obtain ⟨hpart, hsent⟩ := step_other h hi
          ((j.run schedule w).stage i, (j.run schedule w).view i)
        obtain ⟨hstage', hclock⟩ := turn_other (j := j) (j.run schedule w) hi
        rw [List.count_singleton, if_neg (by simpa using Ne.symm hi), Nat.add_zero]
        exact ⟨hstage'.trans hstage, ⟨hpart.trans hsame.part, hsent.trans hsame.sent⟩,
          hclock.trans hsame.now⟩

/-- A worker that is done has done its work. -/
theorem work_of_done (h : j.store.KeepsApart part) {schedule : List Nat} {k : Nat} {w : World σ}
    {outcome : Except Error (List Item)} (hdone : (j.run schedule w).stage k = .done outcome) :
    outcome = (j.work k w).1 ∧ World.SameTo part k ((j.run schedule w).view k) (j.work k w).2 := by
  obtain ⟨n, hn⟩ := steps_work j k w
  have halike := run_alike h schedule k w
  generalize hx : (j.step k)^[schedule.count k] (j.start, w) = x at halike
  obtain ⟨stage, w'⟩ := x
  obtain ⟨hstage, hsame⟩ := halike
  rw [hdone] at hstage
  cases hstage
  obtain ⟨houtcome, rfl⟩ := iterate_unique hx hn
  exact ⟨houtcome, hsame⟩

/-- **Every worker is done after some turns**, however they lie among those of the others. -/
theorem exists_turns (h : j.store.KeepsApart part) (w : World σ) :
    ∃ turns, ∀ schedule, (∀ k < j.segments, turns ≤ schedule.count k) → j.Finishes schedule w := by
  choose steps hsteps using fun k => steps_work j k w
  refine ⟨(Finset.range j.segments).sup steps, fun schedule hcount k hk => ?_⟩
  have hle : steps k ≤ schedule.count k :=
    (Finset.le_sup (Finset.mem_range.2 hk)).trans (hcount k hk)
  obtain ⟨more, hmore⟩ := Nat.exists_eq_add_of_le' hle
  obtain ⟨hstage, _⟩ := run_alike h schedule k w
  rw [hmore, Function.iterate_add_apply, hsteps, iterate_done] at hstage
  exact ⟨_, hstage⟩

/-! ### Reports -/

theorem report_self (k : Nat) (stage : Stage) : report k stage stage = [] := by
  cases stage with
  | reading left start calls sofar => rfl
  | done outcome => rfl

/-- A turn brings a report of a segment if it finishes the work on it. -/
theorem reportOf?_turn (c : Crew σ) (k i : Nat)
    (h : reportOf? c.reports k = (c.stage k).outcome?) :
    reportOf? (j.turn c i).reports k = ((j.turn c i).stage k).outcome? := by
  rw [turn_reports]
  by_cases hi : k = i
  · subst hi
    cases hbefore : c.stage k with
    | done outcome =>
        rw [turn_done c hbefore k, report_self, List.append_nil, h, hbefore]
    | reading left start calls sofar =>
        cases (j.turn c k).stage k with
        | done outcome => exact (reportOf?_append_singleton _ _ k).trans (if_pos rfl)
        | reading left' start' calls' sofar' =>
            rw [hbefore] at h
            exact (congrArg (reportOf? · k) (List.append_nil _)).trans h
  · rw [(turn_other c hi).1, ← h]
    unfold report
    split
    · exact (reportOf?_append_singleton _ _ k).trans (if_neg (Ne.symm hi))
    · rw [List.append_nil]

/-- What is reported of a segment is what its worker has come to. -/
theorem reportOf?_run (schedule : List Nat) (k : Nat) (w : World σ) :
    reportOf? (j.run schedule w).reports k = ((j.run schedule w).stage k).outcome? := by
  induction schedule using List.reverseRecOn with
  | nil => rfl
  | append_singleton schedule i ih =>
      rw [run_append_singleton]
      exact reportOf?_turn _ k i ih

/-- **The reports of a finished crew, put together**, are the outcomes of workers that are alone, in
the order of the segments. -/
theorem mergeReports_run (h : j.store.KeepsApart part) {schedule : List Nat} {w : World σ}
    (hfinishes : j.Finishes schedule w) :
    mergeReports j.segments (j.run schedule w).reports =
      merged j.segments fun k => (j.work k w).1 := by
  refine mergeReports_eq fun k hk => ?_
  obtain ⟨outcome, hdone⟩ := hfinishes k hk
  rw [reportOf?_run, hdone, ← (work_of_done h hdone).1]
  rfl

/-! ### One after the other -/

/-- Some turns of one worker, while the others wait. -/
def turns (j : SplitScan σ) (m k : Nat) (c : Crew σ) : Crew σ :=
  (List.replicate m k).foldl j.turn c

theorem turns_succ (m k : Nat) (c : Crew σ) : j.turns (m + 1) k c = j.turn (j.turns m k c) k := by
  rw [turns, List.replicate_succ', List.foldl_append]
  rfl

/-- The worker takes as many steps. -/
theorem turns_self (m k : Nat) (c : Crew σ) :
    ((j.turns m k c).stage k, (j.turns m k c).view k) =
      (j.step k)^[m] (c.stage k, c.view k) := by
  induction m with
  | zero => rfl
  | succ m ih => rw [turns_succ, turn_self, ih, Function.iterate_succ_apply']

/-- The others stay as they are. -/
theorem turns_other (m : Nat) {k i : Nat} (hi : i ≠ k) (c : Crew σ) :
    (j.turns m k c).stage i = c.stage i ∧ (j.turns m k c).clock i = c.clock i := by
  induction m with
  | zero => exact ⟨rfl, rfl⟩
  | succ m ih =>
      rw [turns_succ, (turn_other _ hi).1, (turn_other _ hi).2]
      exact ih

/-- The worker reports once, if it comes to an outcome. -/
theorem turns_reports (m k : Nat) (c : Crew σ) (hstart : c.stage k = j.start) :
    (j.turns m k c).reports =
      c.reports ++ ((j.turns m k c).stage k).outcome?.toList.map (SegmentReport.mk k) := by
  induction m with
  | zero =>
      change c.reports = c.reports ++ (c.stage k).outcome?.toList.map _
      rw [hstart]
      exact (List.append_nil _).symm
  | succ m ih =>
      rw [turns_succ, turn_reports, ih]
      cases hbefore : (j.turns m k c).stage k with
      | done outcome => rw [turn_done _ hbefore k, report_self, List.append_nil]
      | reading left start calls sofar =>
          cases (j.turn (j.turns m k c) k).stage k with
          | done outcome => simp [report, Stage.outcome?]
          | reading left' start' calls' sofar' => simp [report, Stage.outcome?]

/-- What a crew shows to those who do not look at its clocks: a world, and some reports. -/
structure Shows (c : Crew σ) (reports : List SegmentReport) (w : World σ) : Prop where
  store : c.store = w.store
  sent : c.sent = w.sent
  reports : c.reports = reports

/-- A worker whose turn has not come yet does all its work. -/
theorem shows_work {c : Crew σ} {reports : List SegmentReport} {v : World σ}
    (h : Shows c reports v) (begun k : Nat) (hstart : c.stage k = j.start)
    (hclock : c.clock k = begun) :
    ∃ m, (∃ outcome, (j.turns m k c).stage k = .done outcome) ∧
      Shows (j.turns m k c) (reports ++ [⟨k, (j.work k { v with now := begun }).1⟩])
        (j.work k { v with now := begun }).2 := by
  obtain ⟨m, hm⟩ := steps_work j k { v with now := begun }
  have hview : c.view k = { v with now := begun } := by
    rw [Crew.view, h.store, h.sent, hclock]
  have hself := turns_self (j := j) m k c
  rw [hstart, hview, hm, Prod.mk.injEq] at hself
  obtain ⟨hdone, hworld⟩ := hself
  refine ⟨m, ⟨_, hdone⟩, congrArg World.store hworld, congrArg World.sent hworld, ?_⟩
  rw [turns_reports m k c hstart, hdone, h.reports]
  rfl

/-- **Workers one after the other** take the turns of a schedule. -/
theorem workers_run (j : SplitScan σ) (begun left segment latest : Nat) (c : Crew σ)
    {reports : List SegmentReport} {v : World σ} (h : Shows c reports v)
    (hfresh : ∀ k, segment ≤ k → c.stage k = j.start ∧ c.clock k = begun) :
    ∃ schedule : List Nat, (∀ k ∈ schedule, k < segment + left) ∧
      (∀ k, segment ≤ k → k < segment + left →
        ∃ outcome, (schedule.foldl j.turn c).stage k = .done outcome) ∧
      Shows (schedule.foldl j.turn c)
        (reports ++ (ScanRequest.workers j.work begun left segment latest v).1)
        (ScanRequest.workers j.work begun left segment latest v).2 := by
  induction left generalizing segment latest v c reports with
  | zero =>
      refine ⟨[], by simp, by omega, h.store, h.sent, ?_⟩
      simpa [ScanRequest.workers] using h.reports
  | succ left ih =>
      -- first all turns of this worker, then those of the others
      obtain ⟨hstart, hclock⟩ := hfresh segment le_rfl
      obtain ⟨m, ⟨outcome, hdone⟩, hshows⟩ := shows_work h begun segment hstart hclock
      have hfresh' : ∀ k, segment + 1 ≤ k →
          (j.turns m segment c).stage k = j.start ∧ (j.turns m segment c).clock k = begun := by
        intro k hk
        obtain ⟨hstage, hclock⟩ := turns_other m (Nat.ne_of_gt hk) c
        rw [hstage, hclock]
        exact hfresh k (Nat.le_of_lt hk)
      obtain ⟨schedule, hmem, hall, hafter⟩ := ih (segment + 1) _ _ hshows hfresh'
      refine ⟨List.replicate m segment ++ schedule, ?_, ?_, ?_⟩
      · intro k hk
        rcases List.mem_append.1 hk with hk | hk
        · rw [List.eq_of_mem_replicate hk]
          omega
        · have hlt := hmem k hk
          omega
      · intro k hle hlt
        rw [List.foldl_append, ← turns]
        by_cases hk : k = segment
        · subst hk
          exact ⟨outcome, foldl_turn_done schedule _ hdone⟩
        · exact hall k (by omega) (by omega)
      · rw [List.foldl_append, ← turns]
        simpa [ScanRequest.workers] using hafter

/-- **A scan in segments is one of the orders** in which its workers can take their turns. -/
theorem segmented_run (j : SplitScan σ) (w : World σ) :
    ∃ schedule, (∀ k ∈ schedule, k < j.segments) ∧ j.Finishes schedule w ∧
      (j.request.segmented j.store j.retry j.deadline j.pageSize j.segments w).1 =
        mergeReports j.segments (j.run schedule w).reports ∧
      (j.request.segmented j.store j.retry j.deadline j.pageSize j.segments w).2.store =
        (j.run schedule w).store ∧
      (j.request.segmented j.store j.retry j.deadline j.pageSize j.segments w).2.sent =
        (j.run schedule w).sent := by
  have hstart : Shows (j.crew w) [] w := ⟨rfl, rfl, rfl⟩
  obtain ⟨schedule, hmem, hall, hshows⟩ :=
    workers_run j w.now j.segments 0 w.now (j.crew w) hstart fun k _ => ⟨rfl, rfl⟩
  rw [Nat.zero_add] at hmem hall
  refine ⟨schedule, hmem, fun k hk => hall k (Nat.zero_le k) hk, ?_, hshows.store.symm,
    hshows.sent.symm⟩
  exact congrArg (mergeReports j.segments) hshows.reports.symm

end SplitScan

end Keyspace
