import Keyspace.Proofs.Batch.Complete
import Keyspace.Proofs.Model.Decoding
/-!
# Deadlines of batches

A batch looks at its deadline before each round, not before each call.  Every round begins before
the deadline, and the calls that it can have under way together are sent when it begins.  The calls
for its other chunks are sent as earlier ones are answered, and that may be after the deadline.  So
a batch sends nothing at or after its deadline if all its chunks can be under way together; with
more chunks it may.

Main definitions:

* `Keyspace.Batch.RoundCalls`, `Keyspace.Batch.RoundCalls.KeepsTo` — the calls of a round, and when
  they keep to a deadline;
* `Keyspace.Batch.Job.KeepsRounds` — all that was sent between two worlds was sent in such rounds;
* `Keyspace.Store.IsFrugal` — a store leaves out no more than it was sent.

Main results:

* `Keyspace.Batch.length_chunksOf_le_iff` — how many chunks some work takes;
* `Keyspace.Batch.flow_together` — the first calls of a round are sent together;
* `Keyspace.Batch.run_rounds` — **the rounds of a batch begin before its deadline**;
* `Keyspace.Handle.rounds_begin_before_the_deadline` — batches of writes and of reads.
-/

set_option autoImplicit false

namespace Keyspace

namespace Batch

variable {σ κ ρ : Type}

/-! ### Chunks -/

/-- Some work fits into as many chunks as there is room for all of it. -/
theorem length_chunksOf_le_iff {size : Nat} (hsize : 0 < size) (xs : List κ) (n : Nat) :
    (chunksOf size xs).length ≤ n ↔ xs.length ≤ size * n := by
  fun_induction chunksOf size xs generalizing n with
  | case1 => simp
  | case2 x rest ih =>
      cases n with
      | zero => simp
      | succ n =>
          rw [List.length_cons, Nat.add_le_add_iff_right, ih n, List.length_drop, List.length_cons,
            Nat.mul_succ]
          omega

/-! ### Calls that are sent together -/

/-- The calls that fill the room are sent at once. -/
theorem fill_together (c : Courier σ κ ρ) (room : Nat) (waiting : List (List κ)) (w : World σ) :
    ∃ calls, (fill c room waiting w).2.2.sent = w.sent ++ calls ∧
      calls.length = min room waiting.length ∧ ∀ s ∈ calls, s.time = w.now := by
  induction room generalizing waiting w with
  | zero => exact ⟨[], by simp [fill], by simp, by simp⟩
  | succ room ih =>
      cases waiting with
      | nil => exact ⟨[], by simp [fill], by simp, by simp⟩
      | cons work waiting =>
          obtain ⟨calls, hsent, hlength, htimes⟩ := ih waiting (c.send work w).2
          refine ⟨⟨w.now, c.request work⟩ :: calls, ?_, ?_, ?_⟩
          · exact hsent.trans (List.append_assoc w.sent [_] calls)
          · rw [List.length_cons, List.length_cons, hlength]
            omega
          · exact List.forall_mem_cons.2 ⟨rfl, htimes⟩

/-- A round fills the room before anything else is done. -/
theorem flow_fills (c : Courier σ κ ρ) (concurrency : Nat) (chunks : List (List κ))
    (w : World σ) : ∃ first rest, (flow c concurrency chunks w).2.sent = w.sent ++ (first ++ rest) ∧
      first.length = min concurrency chunks.length ∧ ∀ s ∈ first, s.time = w.now := by
  obtain ⟨first, hfill, hlength, htimes⟩ := fill_together c concurrency chunks w
  unfold flow
  cases chunks with
  | nil => exact ⟨[], [], by simp [answers], by simp, by simp⟩
  | cons work chunks =>
      simp only [List.length_cons, answers, List.length_nil, Nat.sub_zero]
      rcases hfilled : fill c concurrency (work :: chunks) w with ⟨waiting, more, w'⟩
      rw [hfilled] at hfill
      simp only at hfill ⊢
      split
      · exact ⟨first, [], by rw [hfill, List.append_nil], hlength, htimes⟩
      · next call others _ =>
          obtain ⟨rest, hrest, -⟩ := answers_sends (P := fun _ => True) (c := c)
            (fun _ _ => trivial) concurrency chunks.length waiting (earliest call others).2
            { w' with now := (earliest call others).1.due }
          exact ⟨first, rest, by rw [hrest, hfill, List.append_assoc], hlength, htimes⟩

/-- **The first calls of a round are sent together**, as many as can be under way. -/
theorem flow_together (c : Courier σ κ ρ) {concurrency : Nat} (hroom : 0 < concurrency)
    (chunks : List (List κ)) (w : World σ) :
    ∃ calls, (flow c concurrency chunks w).2.sent = w.sent ++ calls ∧
      calls.map Sent.request = chunks.map c.request ∧
        ∀ s ∈ calls.take concurrency, s.time = w.now := by
  obtain ⟨⟨calls, hsent, hrequests⟩, -⟩ := (flow_spec c hroom chunks w).1
  obtain ⟨first, rest, hfill, hlength, htimes⟩ := flow_fills c concurrency chunks w
  obtain rfl : calls = first ++ rest := List.append_cancel_left (hsent.symm.trans hfill)
  refine ⟨first ++ rest, hsent, hrequests, fun s hs => htimes s ?_⟩
  have hcount := congrArg List.length hrequests
  rw [List.length_map, List.length_map, List.length_append] at hcount
  rcases Nat.le_total concurrency chunks.length with hmany | hfew
  · rw [Nat.min_eq_left hmany] at hlength
    rwa [List.take_append_of_le_length hlength.ge, List.take_of_length_le hlength.le] at hs
  · obtain rfl : rest = [] := List.eq_nil_of_length_eq_zero (by omega)
    rw [List.append_nil] at hs
    exact List.mem_of_mem_take hs

/-! ### Rounds -/

/-- The calls of a round: what was pending before it, when it began, and what was sent. -/
structure RoundCalls (κ : Type) where
  pending : List κ
  begun : Nat
  calls : List Sent

/-- **The calls of a round keep to a deadline**, as far as they are sent when it begins. -/
structure RoundCalls.KeepsTo (j : Job σ κ) (deadline : Option Nat) (r : RoundCalls κ) : Prop where
  /-- One call is sent for each chunk of what is pending, in the order of the chunks. -/
  requests : r.calls.map Sent.request = (chunksOf j.chunkSize r.pending).map j.courier.request
  /-- The round begins before the deadline. -/
  early : IsBefore deadline r.begun
  /-- The calls that can be under way together are sent when it begins. -/
  together : ∀ s ∈ r.calls.take (max 1 j.concurrency), s.time = r.begun

/-- A round whose chunks can all be under way together sends nothing late. -/
theorem RoundCalls.KeepsTo.isBefore {j : Job σ κ} {deadline : Option Nat} {r : RoundCalls κ}
    (h : r.KeepsTo j deadline)
    (hfits : (chunksOf j.chunkSize r.pending).length ≤ max 1 j.concurrency) :
    ∀ s ∈ r.calls, IsBefore deadline s.time := by
  have hcount : r.calls.length ≤ max 1 j.concurrency := by
    have hlengths := congrArg List.length h.requests
    rw [List.length_map, List.length_map] at hlengths
    omega
  intro s hs
  rw [h.together s (by rwa [List.take_of_length_le hcount])]
  exact h.early

/-- **A round that begins before the deadline.** -/
theorem Job.round_keepsTo (j : Job σ κ) {deadline : Option Nat} (pending : List κ) {w : World σ}
    (hearly : w.elapsed deadline = false) :
    ∃ r : RoundCalls κ, r.pending = pending ∧ r.KeepsTo j deadline ∧
      (j.round pending w).2.sent = w.sent ++ r.calls := by
  have hwidth : 0 < j.width (chunksOf j.chunkSize pending).length := by
    unfold Job.width
    omega
  obtain ⟨calls, hsent, hrequests, htimes⟩ :=
    flow_together j.courier hwidth (chunksOf j.chunkSize pending) w
  refine ⟨⟨pending, w.now, calls⟩, rfl, ⟨hrequests, World.isBefore_now hearly, ?_⟩, hsent⟩
  have hcount := congrArg List.length hrequests
  rw [List.length_map, List.length_map] at hcount
  intro s hs
  refine htimes s ?_
  unfold Job.width
  rcases Nat.le_total j.concurrency (chunksOf j.chunkSize pending).length with hmany | hfew
  · rwa [Nat.min_eq_right hmany]
  · rw [Nat.min_eq_left hfew, List.take_of_length_le (by omega)]
    exact List.mem_of_mem_take hs

/-! ### What an answer leaves out -/

/-- No answer leaves out more than was sent. -/
def Courier.IsFrugal (c : Courier σ κ (Answer κ)) : Prop :=
  ∀ (work : List κ) (s : σ) (a : Answer κ),
    (c.answer work s).1.result = .ok a → a.unprocessed.length ≤ work.length

/-- Calls leave no more than was sent in them. -/
theorem Courier.IsFrugal.length_left_le {c : Courier σ κ (Answer κ)} (h : c.IsFrugal)
    (works : List (List κ)) (s : σ) :
    ((c.replies works s).flatMap Settlement.left).length ≤ works.flatten.length := by
  induction works generalizing s with
  | nil => simp [Courier.replies]
  | cons work rest ih =>
      have hwork : (Settlement.left (work, (c.answer work s).1.result)).length ≤ work.length := by
        cases hresult : (c.answer work s).1.result with
        | ok a => exact h work s a hresult
        | error text => exact Nat.le_refl _
      have hrest := ih (c.answer work s).2
      rw [Courier.replies, List.flatMap_cons, List.length_append, List.flatten_cons,
        List.length_append]
      exact Nat.add_le_add hwork hrest

/-- A round leaves no more than was pending. -/
theorem Job.length_pending_le {j : Job σ κ} (h : j.courier.IsFrugal) (pending : List κ)
    (w : World σ) : (j.round pending w).1.pending.length ≤ pending.length := by
  obtain ⟨-, htells⟩ := j.round_spec pending w
  calc (j.round pending w).1.pending.length
      = _ := htells.pending.length_eq
    _ ≤ (chunksOf j.chunkSize pending).flatten.length := h.length_left_le _ w.store
    _ = pending.length := by rw [flatten_chunksOf]

/-! ### All rounds -/

/-- **All that was sent between two worlds was sent in rounds** that keep to a deadline.  If no
answer leaves out more than was sent, no round takes on more than some work. -/
def Job.KeepsRounds (j : Job σ κ) (deadline : Option Nat) (work : List κ) (w w' : World σ) : Prop :=
  ∃ rounds : List (RoundCalls κ), w'.sent = w.sent ++ rounds.flatMap RoundCalls.calls ∧
    (∀ r ∈ rounds, r.KeepsTo j deadline) ∧
      (j.courier.IsFrugal → ∀ r ∈ rounds, r.pending.length ≤ work.length)

namespace Job.KeepsRounds

variable {j : Job σ κ} {deadline : Option Nat} {work : List κ}

/-- Nothing was sent. -/
theorem nothing {w w' : World σ} (h : w'.sent = w.sent) : j.KeepsRounds deadline work w w' :=
  ⟨[], by simpa using h, by simp, by simp⟩

/-- A round comes before other rounds. -/
theorem cons {pending : List κ} {w w₁ w₂ : World σ} (hearly : w.elapsed deadline = false)
    (hmore : (j.round work w).1.pending = pending) (hround : (j.round work w).2.sent = w₁.sent)
    (h : j.KeepsRounds deadline pending w₁ w₂) : j.KeepsRounds deadline work w w₂ := by
  obtain ⟨r, rfl, hr, hsent⟩ := j.round_keepsTo work hearly
  obtain ⟨rounds, hrounds, hkeep, hsmall⟩ := h
  refine ⟨r :: rounds, ?_, List.forall_mem_cons.2 ⟨hr, hkeep⟩, fun hfrugal => ?_⟩
  · rw [hrounds, ← hround, hsent, List.flatMap_cons, List.append_assoc]
  · refine List.forall_mem_cons.2 ⟨Nat.le_refl _, fun r' hr' => (hsmall hfrugal r' hr').trans ?_⟩
    rw [← hmore]
    exact length_pending_le hfrugal r.pending w

/-- One round. -/
theorem round {w : World σ} (hearly : w.elapsed deadline = false) :
    j.KeepsRounds deadline work w (j.round work w).2 :=
  cons hearly rfl rfl (nothing rfl)

/-- **If all chunks can be under way together, nothing is sent late.** -/
theorem isBefore {w w' : World σ} (h : j.KeepsRounds deadline work w w') (hsize : 0 < j.chunkSize)
    (hfrugal : j.courier.IsFrugal) (hfits : work.length ≤ j.chunkSize * max 1 j.concurrency) :
    w.SentSince (fun s => IsBefore deadline s.time) w' := by
  obtain ⟨rounds, hsent, hkeep, hsmall⟩ := h
  refine ⟨rounds.flatMap RoundCalls.calls, hsent, fun s hs => ?_⟩
  obtain ⟨r, hr, hs⟩ := List.mem_flatMap.1 hs
  refine (hkeep r hr).isBefore ?_ s hs
  exact (length_chunksOf_le_iff hsize r.pending _).2 ((hsmall hfrugal r hr).trans hfits)

end Job.KeepsRounds

theorem roundsFrom_rounds (j : Job σ κ) (retry : RetryPolicy) (deadline : Option Nat) (left : Nat)
    (pending : List κ) (p : Progress) (w : World σ) :
    j.KeepsRounds deadline pending w (roundsFrom j retry deadline left pending p w).2 := by
  -- the deadline is looked at before each round, and the pause after it sends nothing
  induction left generalizing pending p w with
  | zero =>
      unfold roundsFrom
      cases hlate : w.elapsed deadline with
      | true => exact .nothing rfl
      | false =>
          simp only [Bool.false_eq_true, if_false]
          split
          · exact .round hlate
          · exact .round hlate
  | succ left ih =>
      unfold roundsFrom
      cases hlate : w.elapsed deadline with
      | true => exact .nothing rfl
      | false =>
          simp only [Bool.false_eq_true, if_false]
          split
          · exact .round hlate
          · exact .cons hlate rfl rfl (ih _ _ _)

/-- **The rounds of a batch begin before its deadline.** -/
theorem run_rounds (j : Job σ κ) (retry : RetryPolicy) (deadline : Option Nat) (work : List κ)
    (w : World σ) : j.KeepsRounds deadline work w (run j retry deadline work w).2 := by
  unfold run
  split
  · exact .nothing rfl
  · exact roundsFrom_rounds j retry deadline retry.max work {} w

/-- **After the deadline a batch does nothing.** -/
theorem run_late (j : Job σ κ) (retry : RetryPolicy) {deadline : Option Nat} (work : List κ)
    {w : World σ} (hlate : w.elapsed deadline = true) : (run j retry deadline work w).2 = w := by
  unfold run
  split
  · rfl
  · cases retry.max with
    | zero => simp [roundsFrom, hlate]
    | succ left => simp [roundsFrom, hlate]

/-! ### Writes and reads -/

/-- A batch of writes leaves the world that its rounds leave. -/
theorem write_snd (store : Store σ) (config : Config) (table : String) (writes : List Write)
    (deadline : Option Nat) (w : World σ) :
    (write store config table writes deadline w).2 =
      (run (writeJob store config table) config.batchRetry deadline writes w).2 := by
  unfold write
  rcases run (writeJob store config table) config.batchRetry deadline writes w with ⟨outcome, w'⟩
  cases outcome <;> rfl

/-- A batch of reads leaves the world that its rounds leave. -/
theorem get_snd (store : Store σ) (config : Config) (t : GetTemplate) (keys : List Item)
    (deadline : Option Nat) (w : World σ) :
    (get store config t keys deadline w).2 =
      (run (getJob store config t) config.batchRetry deadline keys w).2 := by
  unfold get
  rcases run (getJob store config t) config.batchRetry deadline keys w with ⟨outcome, w'⟩
  cases outcome <;> rfl

end Batch

/-- **A store leaves out no more than it was sent.** -/
structure Store.IsFrugal {σ : Type} (store : Store σ) : Prop where
  writes : ∀ (r : BatchWriteRequest) (s : σ) (reply : BatchWriteReply),
    (store.batchWrite r s).1.result = .ok reply → reply.unprocessed.length ≤ r.writes.length
  keys : ∀ (r : BatchGetRequest) (s : σ) (reply : BatchGetReply),
    (store.batchGet r s).1.result = .ok reply → reply.unprocessed.length ≤ r.keys.length

namespace Store.IsFrugal

variable {σ : Type} {store : Store σ}

theorem writeJob (h : store.IsFrugal) (config : Config) (table : String) :
    (Batch.writeJob store config table).courier.IsFrugal := by
  intro writes s a ha
  obtain ⟨reply, hreply, rfl⟩ := map_eq_ok ha
  exact h.writes _ s reply hreply

theorem getJob (h : store.IsFrugal) (config : Config) (t : Batch.GetTemplate) :
    (Batch.getJob store config t).courier.IsFrugal := by
  intro keys s a ha
  obtain ⟨reply, hreply, rfl⟩ := map_eq_ok ha
  exact h.keys _ s reply hreply

end Store.IsFrugal

/-- A scripted store answers for what it was sent. -/
theorem Script.store_isFrugal : Script.store.IsFrugal where
  writes r s reply h := by
    obtain ⟨g, -, rfl⟩ := map_eq_ok h
    exact (Batch.splitLast_sublist g.unprocessed r.writes).length_le
  keys r s reply h := by
    obtain ⟨g, -, rfl⟩ := map_eq_ok h
    exact (Batch.splitLast_sublist g.unprocessed r.keys).length_le

/-! ### Handles -/

namespace Handle

variable {σ α : Type}

/-- There is a write for each value and for each key. -/
theorem length_of_writes {h : Handle} {m : Model α} {values : List α} {keys : List Key}
    {s : TableSchema} {ws : List Write} (hws : h.writes m values keys = .ok (s, ws)) :
    ws.length = values.length + keys.length := by
  unfold writes at hws
  obtain ⟨_, -, hws⟩ := bind_eq_ok hws
  obtain ⟨items, hitems, hws⟩ := bind_eq_ok hws
  obtain ⟨keyItems, hkeys, hws⟩ := bind_eq_ok hws
  cases hws
  rw [List.length_append, List.length_map, List.length_map, length_of_mapM hitems,
    length_of_mapM hkeys]

/-- There is an item for each key. -/
theorem length_of_keyItems {h : Handle} {m : Model α} {keys : List Key} {s : TableSchema}
    {items : List Item} (hitems : h.keyItems m keys = .ok (s, items)) :
    items.length = keys.length := by
  unfold keyItems at hitems
  obtain ⟨_, -, hitems⟩ := bind_eq_ok hitems
  obtain ⟨_, hkeys, hitems⟩ := bind_eq_ok hitems
  cases hitems
  exact length_of_mapM hkeys

section

variable (h : Handle) (m : Model α) (store : Store σ) (values : List α) (keys : List Key)
  (projection : List String) (deadline : Option Nat) (w : World σ)

/-- A batch of writes is made in rounds. -/
theorem batchWrite_rounds : ∃ table work, work.length ≤ values.length + keys.length ∧
    (Batch.writeJob store h.config table).KeepsRounds deadline work w
      (h.batchWrite m store values keys deadline w).2 := by
  unfold batchWrite
  cases hws : h.writes m values keys with
  | error e => exact ⟨"", [], Nat.zero_le _, .nothing rfl⟩
  | ok r =>
      refine ⟨r.1.table, r.2, (length_of_writes hws).le, ?_⟩
      simp only [Batch.write_snd]
      exact Batch.run_rounds _ _ _ _ w

/-- A batch of reads is made in rounds. -/
theorem batchGet_rounds : ∃ t work, work.length ≤ keys.length ∧
    (Batch.getJob store h.config t).KeepsRounds deadline work w
      (h.batchGet m store keys projection deadline w).2 := by
  unfold batchGet
  cases hitems : h.keyItems m keys with
  | error e => exact ⟨⟨"", none, false⟩, [], Nat.zero_le _, .nothing rfl⟩
  | ok r =>
      refine ⟨⟨r.1.table, (Compiler.empty.projection projection).1, false⟩, r.2,
        (length_of_keyItems hitems).le, ?_⟩
      simp only [Batch.get_snd]
      exact Batch.run_rounds _ _ _ _ w

variable {deadline w}

theorem batchWrite_late (hlate : w.elapsed deadline = true) :
    (h.batchWrite m store values keys deadline w).2 = w := by
  unfold batchWrite
  split
  · rfl
  · rw [Batch.write_snd, Batch.run_late _ _ _ hlate]

theorem batchGet_late (hlate : w.elapsed deadline = true) :
    (h.batchGet m store keys projection deadline w).2 = w := by
  unfold batchGet
  split
  · rfl
  · simp only [Batch.get_snd, Batch.run_late _ _ _ hlate]

end

/-- **The rounds of a batch begin before its deadline**, and the calls that can be under way
together are sent when they begin; so nothing is sent late if that is all of them. -/
theorem rounds_begin_before_the_deadline (h : Handle) (m : Model α) (store : Store σ)
    (values : List α) (keys : List Key) (projection : List String) (deadline : Option Nat)
    (w : World σ) :
    let written := (h.batchWrite m store values keys deadline w).2
    let read := (h.batchGet m store keys projection deadline w).2
    -- after the deadline nothing is done
    (w.elapsed deadline = true → written = w ∧ read = w) ∧
    -- all calls belong to rounds that begin before it
    (∃ table work, (Batch.writeJob store h.config table).KeepsRounds deadline work w written) ∧
    (∃ t work, (Batch.getJob store h.config t).KeepsRounds deadline work w read) ∧
    -- batches whose chunks can all be under way together
    (store.IsFrugal → values.length + keys.length ≤
        Config.clamp Config.maxWriteChunk h.config.writeChunk * max 1 h.config.concurrency →
      w.SentSince (fun s => IsBefore deadline s.time) written) ∧
    (store.IsFrugal → keys.length ≤
        Config.clamp Config.maxReadChunk h.config.readChunk * max 1 h.config.concurrency →
      w.SentSince (fun s => IsBefore deadline s.time) read) := by
  obtain ⟨table, works, hworks, hwritten⟩ := h.batchWrite_rounds m store values keys deadline w
  obtain ⟨t, wanted, hwanted, hread⟩ := h.batchGet_rounds m store keys projection deadline w
  refine ⟨fun hlate => ?_, ⟨table, works, hwritten⟩, ⟨t, wanted, hread⟩, ?_, ?_⟩
  · exact ⟨h.batchWrite_late m store values keys hlate,
      h.batchGet_late m store keys projection hlate⟩
  · intro hfrugal hfits
    exact hwritten.isBefore (Config.clamp_bounds (by decide) _).1
      (hfrugal.writeJob h.config table) (hworks.trans hfits)
  · intro hfrugal hfits
    exact hread.isBefore (Config.clamp_bounds (by decide) _).1
      (hfrugal.getJob h.config t) (hwanted.trans hfits)

end Handle

namespace Library

/-- Books that come back. -/
def returns : Model Datum := .dynamic "returns" { table := "library", partitionKey := "owner" }

/-- One book to a call, and some calls under way together. -/
def desk (concurrency : Nat) : Handle := { config := { writeChunk := 1, concurrency } }

/-- Two books. -/
def returned : List Datum :=
  [.map [(.text "owner", .text "ann")], .map [(.text "owner", .text "bob")]]

/-- The first call is answered after 50, the second at once. -/
def slow : Script := [.batchWrite { delay := 50, result := .ok {} }]

end Library

/-- Two books that are stored before 10, in two calls at once. -/
theorem library_books_are_stored_in_time :
    Script.store.IsFrugal ∧
      (((Library.desk 2).batchWrite Library.returns Script.store
        Library.returned [] (some 10) { store := Library.slow }).2.sent.map Sent.time = [0, 0]) ∧
      World.SentSince (fun s => IsBefore (some 10) s.time) { store := Library.slow }
        ((Library.desk 2).batchWrite Library.returns Script.store
          Library.returned [] (some 10) { store := Library.slow }).2 := by
  obtain ⟨-, -, -, hwritten, -⟩ := Handle.rounds_begin_before_the_deadline (Library.desk 2)
    Library.returns Script.store Library.returned [] [] (some 10)
    { store := Library.slow }
  exact ⟨Script.store_isFrugal, by decide +kernel,
    hwritten Script.store_isFrugal (by decide)⟩

/-- One call at a time: the second book is stored at 50, although the deadline is 10. -/
theorem library_book_is_stored_late :
    ((Library.desk 1).batchWrite Library.returns Script.store
      Library.returned [] (some 10) { store := Library.slow }).2.sent.map Sent.time = [0, 50] := by
  decide +kernel

end Keyspace
