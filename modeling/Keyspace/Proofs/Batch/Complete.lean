import Keyspace.Proofs.Batch.Sent
import Keyspace.Proofs.Batch.Tally
import Keyspace.Script
/-!
# Nothing is lost by a batch

What a batch reports agrees with its calls, however the work is divided over rounds, whichever
calls meet faults, and in whatever order the answers arrive: a batch that succeeds has settled all
its work, and one that does not reports exactly what was not settled.

Main definitions:

* `Keyspace.Batch.Job.calls` — the calls for some chunks, with what came back;
* `Keyspace.Batch.Agrees` — an outcome agrees with some calls.

Main results:

* `Keyspace.Batch.write_loses_nothing` — **no write is lost, repeated or misreported**;
* `Keyspace.Batch.get_loses_nothing` — **no key and no item is lost**.
-/

set_option autoImplicit false

namespace Keyspace.Batch

variable {σ κ β : Type}

/-- The calls for some chunks that are sent one after the other, with what comes back. -/
def Job.calls (j : Job σ κ) (works : List (List κ)) (s : σ) : List (Settlement κ) :=
  j.courier.replies works s

/-! ### Outcomes -/

/-- **The outcome of a batch agrees with its calls**, where `left` is the work that a report lists
as not done. -/
structure Agrees (operation : Operation) (left : Remainder → List κ) (work : List κ)
    (calls : List (Settlement κ)) (outcome : Except Error (Summary β)) : Prop where
  /-- A batch that succeeds has settled all its work. -/
  done : ∀ s, outcome = .ok s → settledBy calls = (work : Multiset κ)
  /-- A batch that is left incomplete reports the work that was not settled. -/
  remainder : ∀ r, outcome = .error (.partialBatch r) →
    (left r : Multiset κ) + settledBy calls = (work : Multiset κ)
  /-- It reports a fault exactly if a call met one, and then the fault of a call. -/
  fault : ∀ r, outcome = .error (.partialBatch r) →
    (r.lastFault.isSome = true ↔ ∃ x ∈ calls, x.IsFault) ∧
      ∀ f, r.lastFault = some f → f.operation = operation ∧ ∃ x ∈ calls, x.2 = .error f.text
  /-- A batch that fails otherwise has sent nothing. -/
  late : ∀ e, outcome = .error e → e.isPartialBatch = false →
    e = .timeout operation 0 ∧ calls = []
  /-- What a call sends is not among what the calls before it settled. -/
  fresh : ∀ before x after, calls = before ++ x :: after →
    settledBy before + (x.1 : Multiset κ) ≤ (work : Multiset κ)

namespace Agrees

variable {operation : Operation} {left : Remainder → List κ} {work pending : List κ}
  {calls : List (Settlement κ)} {p : Progress}

theorem of_done (h : Tally operation work calls [] p) (hhonest : ∀ x ∈ calls, x.IsHonest)
    (s : Summary β) : Agrees operation left work calls (.ok s) where
  done _ _ := by simpa using h.pending hhonest
  remainder r hr := by cases hr
  fault r hr := by cases hr
  late e he := by cases he
  fresh := h.fresh hhonest

theorem of_incomplete (h : Tally operation work calls pending p)
    (hhonest : ∀ x ∈ calls, x.IsHonest) {r : Remainder} (hleft : (left r).Perm pending)
    (hfault : r.lastFault = p.lastFault) :
    Agrees operation left work calls (.error (.partialBatch r) : Except Error (Summary β)) where
  done s hs := by cases hs
  remainder r' hr := by
    cases hr
    rw [Multiset.coe_eq_coe.2 hleft]
    exact h.pending hhonest
  fault r' hr := by
    cases hr
    rw [hfault]
    refine ⟨?_, h.fault⟩
    rw [← Option.ne_none_iff_isSome, Ne, h.noFault]
    push Not
    rfl
  late e he hother := by
    cases he
    cases hother
  fresh := h.fresh hhonest

theorem of_late (operation : Operation) (left : Remainder → List κ) (work : List κ) :
    Agrees operation left work [] (.error (.timeout operation 0) : Except Error (Summary β)) where
  done s hs := by cases hs
  remainder r hr := by cases hr
  fault r hr := by cases hr
  late e he _ := by
    cases he
    exact ⟨rfl, rfl⟩
  fresh before x after hsplit := by simp at hsplit

end Agrees

/-! ### Writes -/

/-- The writes that a report lists as not done. -/
def remainingWrites (r : Remainder) : List Write :=
  r.puts.map Write.put ++ r.deletes.map Write.delete

/-- The two kinds of writes are all of them. -/
theorem puts_append_deletes (writes : List Write) :
    ((puts writes).map Write.put ++ (deletes writes).map Write.delete).Perm writes := by
  induction writes with
  | nil => exact List.Perm.refl _
  | cons x rest ih =>
      cases x with
      | put item => exact ih.cons (Write.put item)
      | delete key => exact List.perm_middle.trans (ih.cons (Write.delete key))

/-- **No write is lost, repeated or misreported.** -/
theorem write_loses_nothing (store : Store σ) (config : Config) (table : String)
    (writes : List Write) (deadline : Option Nat) (w : World σ) :
    ∃ works, (writeJob store config table).courier.Sent works w
        (write store config table writes deadline w).2 ∧
      ((∀ x ∈ (writeJob store config table).calls works w.store, x.IsHonest) →
        Agrees .batchWriteItem remainingWrites writes
          ((writeJob store config table).calls works w.store)
          (write store config table writes deadline w).1) ∧
      ∀ s, (write store config table writes deadline w).1 = .ok s → s.value = writes.length := by
  obtain ⟨works, hsent, htells⟩ :=
    run_spec (writeJob store config table) config.batchRetry deadline writes w
  refine ⟨works, ?_⟩
  unfold write
  rcases hran : run (writeJob store config table) config.batchRetry deadline writes w
    with ⟨outcome, w'⟩
  rw [hran] at hsent htells
  cases outcome with
  | done retries p =>
      refine ⟨hsent, fun hhonest => Agrees.of_done htells hhonest _, ?_⟩
      rintro s ⟨rfl⟩
      rfl
  | incomplete pending attempts elapsed p =>
      refine ⟨hsent, fun hhonest => ?_, ?_⟩
      · exact Agrees.of_incomplete htells hhonest (puts_append_deletes pending) rfl
      · rintro s ⟨⟩
  | late =>
      have hnone : (writeJob store config table).calls works w.store = [] := htells
      refine ⟨hsent, fun _ => ?_, ?_⟩
      · rw [hnone]
        exact Agrees.of_late .batchWriteItem remainingWrites writes
      · rintro s ⟨⟩

theorem splitLast_sublist {α : Type} (n : Nat) (xs : List α) : (splitLast n xs).2.Sublist xs := by
  rw [splitLast, List.splitAt_eq]
  exact List.drop_sublist _ xs

/-- A scripted store leaves out only what was sent. -/
theorem scripted_writes_honest (config : Config) (table : String) (works : List (List Write))
    (s : Script) : ∀ x ∈ (writeJob Script.store config table).calls works s, x.IsHonest := by
  induction works generalizing s with
  | nil => intro x hx; cases hx
  | cons work rest ih =>
      intro x hx
      rcases List.mem_cons.1 hx with rfl | hx
      · intro a ha
        rcases htaken : s.takeD Script.batchWriteReply? ({} : ScriptedWrite) with ⟨reply, s'⟩
        simp only [writeJob, Script.store, htaken, Script.mapReply] at ha
        cases hresult : reply.result with
        | error text => simp [hresult, Except.map] at ha
        | ok g =>
            simp only [hresult, Except.map, Except.ok.injEq] at ha
            rw [← ha]
            exact Multiset.coe_le.2 (splitLast_sublist g.unprocessed work).subperm
      · exact ih _ x hx

namespace Library

/-- A book is stored, and another one removed. -/
def writes : List Write :=
  [.put [("owner", .text "ann")], .delete [("owner", .text "bob")]]

/-- The store leaves one write out, and is busy when it is asked again. -/
def busy : Script :=
  [.batchWrite { result := .ok { unprocessed := 1 } }, .batchWrite { result := .error "busy" }]

/-- One more round than the first. -/
def config : Config := { batchRetry := { max := 1 } }

end Library

/-- A batch that reports the write that was left out. -/
theorem library_writes_lose_nothing :
    (∃ r, (write Script.store Library.config "library" Library.writes none
        { store := Library.busy }).1 = .error (.partialBatch r)) ∧
      ∃ works, Agrees .batchWriteItem remainingWrites Library.writes
        ((writeJob Script.store Library.config "library").calls works Library.busy)
        (write Script.store Library.config "library" Library.writes none
          { store := Library.busy }).1 := by
  obtain ⟨works, _, hagrees, _⟩ :=
    write_loses_nothing Script.store Library.config "library" Library.writes none
      { store := Library.busy }
  have hpartial : (match (write Script.store Library.config "library" Library.writes none
      { store := Library.busy }).1 with
      | .error e => e.isPartialBatch
      | .ok _ => false) = true := by decide +kernel
  refine ⟨?_, works, hagrees (scripted_writes_honest _ _ works Library.busy)⟩
  revert hpartial
  rcases (write Script.store Library.config "library" Library.writes none
    { store := Library.busy }).1 with e | s
  · intro hpartial
    cases e with
    | partialBatch r => exact ⟨r, rfl⟩
    | _ => cases hpartial
  · intro hpartial
    cases hpartial

/-! ### Reads -/

/-- The call for some keys differs from others of its batch in nothing but the keys. -/
def GetTemplate.Fits (t : GetTemplate) (r : Request) : Prop :=
  ∃ keys, r = .batchGet
    { table := t.table, keys, projection := t.projection.map Expression.text
      names := (t.projection.map Expression.names).getD [], consistent := t.consistent }

/-- **No key and no item is lost**, and all calls of a batch are alike but for their keys. -/
theorem get_loses_nothing (store : Store σ) (config : Config) (t : GetTemplate)
    (keys : List Item) (deadline : Option Nat) (w : World σ) :
    ∃ works, (getJob store config t).courier.Sent works w
        (get store config t keys deadline w).2 ∧
      ((∀ x ∈ (getJob store config t).calls works w.store, x.IsHonest) →
        Agrees .batchGetItem Remainder.keys keys ((getJob store config t).calls works w.store)
          (get store config t keys deadline w).1) ∧
      (∀ s, (get store config t keys deadline w).1 = .ok s →
        s.value.Perm (((getJob store config t).calls works w.store).flatMap
          Settlement.brought)) ∧
      (∀ r, (get store config t keys deadline w).1 = .error (.partialBatch r) →
        r.retrieved.Perm (((getJob store config t).calls works w.store).flatMap
          Settlement.brought)) ∧
      w.SentSince (fun s => t.Fits s.request) (get store config t keys deadline w).2 := by
  obtain ⟨works, hsent, htells⟩ :=
    run_spec (getJob store config t) config.batchRetry deadline keys w
  have hfits : w.SentSince (fun s => t.Fits s.request) (get store config t keys deadline w).2 :=
    get_sends (fun _ keys => ⟨keys, rfl⟩) keys deadline w
  refine ⟨works, ?_⟩
  unfold get at hfits ⊢
  rcases hran : run (getJob store config t) config.batchRetry deadline keys w
    with ⟨outcome, w'⟩
  rw [hran] at hsent htells hfits
  cases outcome with
  | done retries p =>
      refine ⟨hsent, fun hhonest => Agrees.of_done htells hhonest _, ?_, ?_, hfits⟩
      · rintro s ⟨rfl⟩
        exact htells.items
      · rintro r ⟨⟩
  | incomplete pending attempts elapsed p =>
      refine ⟨hsent, fun hhonest => ?_, ?_, ?_, hfits⟩
      · exact Agrees.of_incomplete htells hhonest (List.Perm.refl _) rfl
      · rintro s ⟨⟩
      · rintro r ⟨rfl⟩
        exact htells.items
  | late =>
      have hnone : (getJob store config t).calls works w.store = [] := htells
      refine ⟨hsent, fun _ => ?_, ?_, ?_, hfits⟩
      · rw [hnone]
        exact Agrees.of_late .batchGetItem Remainder.keys keys
      · rintro s ⟨⟩
      · rintro r ⟨⟩

/-- A scripted store leaves out only what was asked for. -/
theorem scripted_gets_honest (config : Config) (t : GetTemplate) (works : List (List Item))
    (s : Script) : ∀ x ∈ (getJob Script.store config t).calls works s, x.IsHonest := by
  induction works generalizing s with
  | nil => intro x hx; cases hx
  | cons work rest ih =>
      intro x hx
      rcases List.mem_cons.1 hx with rfl | hx
      · intro a ha
        rcases htaken : s.takeD Script.batchGetReply? ({} : ScriptedGet) with ⟨reply, s'⟩
        simp only [getJob, Script.store, htaken, Script.mapReply] at ha
        cases hresult : reply.result with
        | error text => simp [hresult, Except.map] at ha
        | ok g =>
            simp only [hresult, Except.map, Except.ok.injEq] at ha
            rw [← ha]
            exact Multiset.coe_le.2 (splitLast_sublist g.unprocessed work).subperm
      · exact ih _ x hx

/-- A batch that brings an item in its second round. -/
theorem library_gets_lose_nothing :
    ∃ works, Agrees .batchGetItem Remainder.keys [[("owner", .text "ann")]]
        ((getJob Script.store Library.config ⟨"library", none, true⟩).calls works
          [.batchGet { result := .error "busy" }])
        (get Script.store Library.config ⟨"library", none, true⟩ [[("owner", .text "ann")]] none
          { store := [.batchGet { result := .error "busy" }] }).1 := by
  obtain ⟨works, _, hagrees, _⟩ :=
    get_loses_nothing Script.store Library.config ⟨"library", none, true⟩
      [[("owner", .text "ann")]] none { store := [.batchGet { result := .error "busy" }] }
  exact ⟨works, hagrees (scripted_gets_honest _ _ works _)⟩

end Keyspace.Batch
