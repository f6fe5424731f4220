import Keyspace.Proofs.Read.Crew
import Keyspace.Proofs.Read.Story
import Keyspace.Read.Prepared
import Keyspace.Script
/-!
# Segments in any order

A read in segments gives the same result, and sends the same requests for each segment, in
whatever order its workers take their turns and finish.  What becomes of a segment is what would
become of it if its worker were alone: no other worker has a part in it.

Main definitions:

* `Keyspace.PreparedRead.split` — a prepared read, divided among workers;
* `Keyspace.PutTogether` — the outcomes of all segments, put together;
* `Keyspace.Script.part` — the replies of a script that are meant for one segment.

Main results:

* `Keyspace.Script.keepsApart` — a scripted store keeps the segments apart;
* `Keyspace.PreparedRead.segmented_in_any_order` — **segments are read alike in any order**.
-/

set_option autoImplicit false

namespace Keyspace

variable {σ τ : Type}

/-! ### Divided reads -/

/-- At most as many items as are wanted. -/
def atMost (limit : Option Int) (items : List Item) : List Item :=
  match limit with
  | some most => items.take most.toNat
  | none => items

/-- **The outcomes of all segments, put together**: the items of those that were read, in order and
at most as many as are wanted, and the errors of the others; as one outcome, all items, or the
error of the lowest segment that failed. -/
structure PutTogether (limit : Option Int) (n : Nat) (outcome : Nat → Except Error (List Item))
    (s : Segmented Item) : Prop where
  segments : s.segments = n
  items : s.items = atMost limit ((List.range n).flatMap fun k => brought (outcome k))
  failures : s.failures = (List.range n).filterMap fun k => failure? k (outcome k)
  complete : (∀ k < n, ∃ items, outcome k = .ok items) → s.toExcept = .ok s.items
  failed : ∀ k < n, ∀ e, outcome k = .error e → (∀ i < k, ∃ items, outcome i = .ok items) →
    s.toExcept = .error e

/-- Merged outcomes, cut to what is wanted, are the outcomes put together. -/
theorem PutTogether.of_merged (limit : Option Int) (n : Nat)
    (outcome : Nat → Except Error (List Item)) :
    PutTogether limit n outcome
      { merged n outcome with items := atMost limit (merged n outcome).items } where
  segments := rfl
  items := rfl
  failures := rfl
  complete := Segmented.toExcept_of_complete rfl
  failed _ hk _ := Segmented.toExcept_of_failed rfl hk

namespace PreparedRead

/-- A prepared read, divided among `n` workers. -/
def split (p : PreparedRead) (store : Store σ) (r : ScanRequest) (n : Nat) : SplitScan σ :=
  { store, request := r, retry := p.retry, deadline := p.deadline, pageSize := p.pageSize
    segments := n }

/-- After its deadline a read in segments does not begin. -/
theorem segmented_late {p : PreparedRead} {r : ScanRequest} (hr : p.request = .scan r)
    (store : Store σ) (n : Int) {w : World σ} (h : w.elapsed p.deadline = true) :
    p.segmented store n w = (.error (.timeout .scan 0), w) := by
  simp [segmented, hr, RetryPolicy.before, h]

/-- Before its deadline it brings what its workers bring, as far as it is wanted. -/
theorem segmented_early {p : PreparedRead} {r : ScanRequest} (hr : p.request = .scan r)
    (store : Store σ) (n : Int) {w : World σ} (h : w.elapsed p.deadline = false) :
    p.segmented store n w =
      (let (s, w) := r.segmented store p.retry p.deadline p.pageSize (max n 1).toNat w
       (.ok { s with items := atMost p.read.limit s.items }, w)) := by
  unfold segmented
  rw [hr]
  simp only [RetryPolicy.before, h, Bool.false_eq_true, if_false, atMost]
  cases p.read.limit with
  | none => rfl
  | some most => rfl

/-- **Segments are read alike in any order.**  A store that keeps the segments apart is read by `n`
workers, which try again and give up by themselves. -/
theorem segmented_in_any_order {store : Store σ} {part : Nat → σ → τ}
    (hapart : store.KeepsApart part) {p : PreparedRead} {r : ScanRequest}
    (hr : p.request = .scan r) {n : Nat} (hn : 1 ≤ n) (w : World σ) :
    let j := p.split store r n
    (w.elapsed p.deadline = true → p.segmented store n w = (.error (.timeout .scan 0), w)) ∧
    -- what the workers bring is put together, and their requests are all that is sent
    (w.elapsed p.deadline = false → ∃ s w', p.segmented store n w = (.ok s, w') ∧
      PutTogether p.read.limit n (fun k => (j.work k w).1) s ∧
      (∀ k < n, w'.sentFor k = (j.work k w).2.sentFor k) ∧
      w.SentSince (fun x => ∃ k < n, ∃ start, x.request = .scan (j.ask k start)) w') ∧
    -- so it is in every order in which the workers take their turns
    (∀ schedule, j.Finishes schedule w →
      mergeReports n (j.run schedule w).reports = merged n (fun k => (j.work k w).1) ∧
      ∀ k < n, ((j.run schedule w).view k).sentFor k = (j.work k w).2.sentFor k) ∧
    (∃ turns, ∀ schedule, (∀ k < n, turns ≤ schedule.count k) → j.Finishes schedule w) ∧
    -- each worker has a story of its own, in which the other segments do not occur
    ∀ k < n, j.Tells k w (j.work k w).1 (j.work k w).2 ∧
      ∀ t, part k t = part k w.store →
        (j.work k { w with store := t }).1 = (j.work k w).1 ∧
        (j.work k { w with store := t }).2.sentFor k = (j.work k w).2.sentFor k := by
  intro j
  have hcount : (max (n : Int) 1).toNat = n := by omega
  have hany : ∀ schedule, j.Finishes schedule w →
      mergeReports n (j.run schedule w).reports = merged n (fun k => (j.work k w).1) ∧
      ∀ k < n, ((j.run schedule w).view k).sentFor k = (j.work k w).2.sentFor k := by
    intro schedule hfinishes
    refine ⟨SplitScan.mergeReports_run hapart hfinishes, fun k hk => ?_⟩
    obtain ⟨outcome, hdone⟩ := hfinishes k hk
    exact (SplitScan.work_of_done hapart hdone).2.sent
  have hturns := SplitScan.exists_turns (j := j) hapart w
  refine ⟨segmented_late hr store n, fun hearly => ?_, hany, hturns, ?_⟩
  · -- the read itself is one of the orders
    obtain ⟨schedule, hmem, hfinishes, hmerged, _, hsent⟩ := SplitScan.segmented_run j w
    obtain ⟨hreports, hrequests⟩ := hany schedule hfinishes
    have hbrought := segmented_early hr store n hearly
    rw [hcount] at hbrought
    refine ⟨_, _, hbrought, ?_, fun k hk => ?_, ?_⟩
    · have hall := hmerged.trans hreports
      have hput := PutTogether.of_merged p.read.limit n fun k => (j.work k w).1
      rw [← hall] at hput
      exact hput
    · rw [← hrequests k hk]
      exact congrArg (List.filter (Sent.isFor k)) hsent
    · have hsends : w.SentSince (fun x => ∃ k < n, ∃ start, x.request = .scan (j.ask k start))
          ((j.run schedule w).view 0) :=
        SplitScan.run_sends (fun k hk start w' _ => ⟨k, hmem k hk, start, rfl⟩) 0 w
      obtain ⟨more, hmore, hall⟩ := hsends
      exact ⟨more, hsent.trans hmore, hall⟩
  · intro k _
    refine ⟨SplitScan.work_tells j k w, fun t ht => ?_⟩
    obtain ⟨houtcome, hafter⟩ := SplitScan.work_same (j := j) (w := { w with store := t }) (v := w)
      hapart ⟨⟨ht, rfl⟩, rfl⟩
    exact ⟨houtcome, hafter.sent⟩

end PreparedRead

/-! ### Scripted stores -/

namespace Script

/-- The replies that are meant for one segment. -/
def part (k : Nat) (s : Script) : List (Reply WorkerFault Page) :=
  s.filterMap (segmentReply? (some (k : Int)))

section

variable {α β : Type} {pick : ScriptEntry → Option α}

/-- The reply that is taken is the first of its kind, and the others remain. -/
theorem take_eq (pick : ScriptEntry → Option α) (s : Script) :
    (take pick s).1 = (s.filterMap pick).head? ∧
      (take pick s).2.filterMap pick = (s.filterMap pick).tail := by
  induction s with
  | nil => exact ⟨rfl, rfl⟩
  | cons e rest ih =>
      unfold take
      cases he : pick e with
      | some a => simp [he]
      | none => simpa [he] using ih

/-- Replies of another kind remain. -/
theorem filterMap_take {pick' : ScriptEntry → Option β}
    (h : ∀ e, (pick e).isSome = true → pick' e = none) (s : Script) :
    (take pick s).2.filterMap pick' = s.filterMap pick' := by
  induction s with
  | nil => rfl
  | cons e rest ih =>
      unfold take
      cases he : pick e with
      | some a => simp [h e (by simp [he])]
      | none => simp [List.filterMap_cons, ih]

end

/-- No reply is meant for two segments. -/
theorem segmentReply?_other {k i : Nat} (hi : i ≠ k) (e : ScriptEntry)
    (h : (segmentReply? (some (k : Int)) e).isSome = true) :
    segmentReply? (some (i : Int)) e = none := by
  cases e with
  | segment index reply =>
      have hk : (k : Int) = index := by
        by_contra hne
        simp [segmentReply?, hne] at h
      have hne : (i : Int) ≠ index := by omega
      simp [segmentReply?, hne]
  | _ => rfl

/-- **A scripted store keeps the segments apart.** -/
theorem keepsApart : store.KeepsApart part where
  own r k s t hr hpart := by
    have hreply : ∀ u : Script, (store.scanSegment r u).1 =
        ((part k u).head?).getD { result := .ok emptyPage } := by
      intro u
      change (take (segmentReply? r.segment) u).1.getD _ = _
      rw [hr, (take_eq _ u).1]
      rfl
    have hrest : ∀ u : Script, part k (store.scanSegment r u).2 = (part k u).tail := by
      intro u
      change part k (take (segmentReply? r.segment) u).2 = _
      rw [hr]
      exact (take_eq _ u).2
    rw [hreply, hreply, hrest, hrest, hpart]
    exact ⟨rfl, rfl⟩
  other r k i s hr hi := by
    change part i (take (segmentReply? r.segment) s).2 = part i s
    rw [hr]
    exact filterMap_take (segmentReply?_other hi) s

end Script

/-! ### A library -/

namespace Library

/-- The request for all books of the library. -/
def stocktakingRequest : ScanRequest := { table := "library", select := some .allAttributes }

/-- All books of the library, with one more try for each segment, and no request from 100 on. -/
def stocktaking : PreparedRead :=
  let library : TableSchema := { table := "library", partitionKey := "owner" }
  { read := { plan := library.scanPlan library.baseIndex [] }, expressions := {}
    retry := { max := 1, initial := 10 }, deadline := some 100, pageSize := none }

/-- A page with somebody's book, and the key behind which there may be more. -/
def ownedPage (owner : String) (last : Option Item) : Page :=
  { items := [[("owner", .text owner)]], count := 1, scanned := 1, last }

/-- Who owns a book. -/
def owner? (item : Item) : Option String :=
  match item.get? "owner" with
  | some (.text owner) => some owner
  | _ => none

/-- Two pages for segment 0, a fault at each try for segment 1, a crash behind the first page of
segment 2, and a first page that takes too long for segment 3. -/
def stocktakingReplies : Script :=
  [.segment 3 ⟨120, .ok (ownedPage "eve" (some [("owner", .text "eve")]))⟩,
    .segment 1 ⟨5, .error (.reported "throttled")⟩,
    .segment 0 ⟨1, .ok (ownedPage "ann" (some [("owner", .text "ann")]))⟩,
    .segment 2 ⟨1, .ok (ownedPage "dan" (some [("owner", .text "dan")]))⟩,
    .segment 1 ⟨5, .error (.reported "lost")⟩,
    .segment 2 ⟨1, .error (.crash "boom")⟩,
    .segment 0 ⟨1, .ok (ownedPage "bob" none)⟩]

/-- The workers of the stocktaking. -/
def stocktakers : SplitScan Script := stocktaking.split Script.store stocktakingRequest 4

end Library

/-- Books of four segments, of which one is read. -/
theorem library_segments_are_read_in_any_order :
    Script.store.KeepsApart Script.part ∧
      Library.stocktaking.request = .scan Library.stocktakingRequest ∧
      (match (Library.stocktaking.segmented Script.store 4
          { store := Library.stocktakingReplies }).1 with
        | .ok s =>
          (s.items.map Library.owner?, s.failures.map fun f => (f.segment, f.error.message))
        | .error _ => ([], [])) =
        ([some "ann", some "bob"],
          [(1, "scan segment 1 failed: DynamoDB Scan error: lost"),
            (2, "scan segment 2 worker panicked: boom"),
            (3, "deadline elapsed before Scan could be sent (after 1 attempt(s))")]) ∧
      ∀ schedule, Library.stocktakers.Finishes schedule { store := Library.stocktakingReplies } →
        mergeReports 4
            (Library.stocktakers.run schedule { store := Library.stocktakingReplies }).reports =
          merged 4 fun k =>
            (Library.stocktakers.work k { store := Library.stocktakingReplies }).1 := by
  obtain ⟨_, _, hany, _⟩ := PreparedRead.segmented_in_any_order Script.keepsApart
    (p := Library.stocktaking) (r := Library.stocktakingRequest) rfl (n := 4) (by decide)
    { store := Library.stocktakingReplies }
  exact ⟨Script.keepsApart, rfl, by decide +kernel, fun schedule hfinishes =>
    (hany schedule hfinishes).1⟩

end Keyspace
