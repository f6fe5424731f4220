import Keyspace.Handle
import Keyspace.Proofs.World.Sent
/-!
# What a batch sends

A batch sends nothing but the requests for its chunks, however many rounds it takes and in
whatever order the answers arrive.

Main results:

* `Keyspace.Batch.flow_sends`, `Keyspace.Batch.run_sends` — **a round and all rounds send what the
  courier sends**;
* `Keyspace.Batch.get_sends` — batches of reads.
-/

set_option autoImplicit false

namespace Keyspace.Batch

variable {σ κ ρ : Type} {P : Sent → Prop}

/-! ### One round -/

theorem fill_sends {c : Courier σ κ ρ} (h : ∀ time work, P ⟨time, c.request work⟩) (room : Nat)
    (waiting : List (List κ)) (w : World σ) : w.SentSince P (fill c room waiting w).2.2 := by
  induction room generalizing waiting w with
  | zero => exact World.SentSince.refl w
  | succ room ih =>
      cases waiting with
      | nil => exact World.SentSince.refl w
      | cons work waiting =>
          have hsend : w.SentSince P (c.send work w).2 :=
            World.SentSince.send w (c.answer work) (h w.now work)
          exact hsend.trans (ih waiting (c.send work w).2)

theorem answers_sends {c : Courier σ κ ρ} (h : ∀ time work, P ⟨time, c.request work⟩)
    (concurrency left : Nat) (waiting : List (List κ)) (underWay : List (Call κ ρ))
    (w : World σ) : w.SentSince P (answers c concurrency left waiting underWay w).2 := by
  induction left generalizing waiting underWay w with
  | zero => exact World.SentSince.refl w
  | succ left ih =>
      have hfill := fill_sends h (concurrency - underWay.length) waiting w
      unfold answers
      rcases hfilled : fill c (concurrency - underWay.length) waiting w with ⟨rest, more, w'⟩
      rw [hfilled] at hfill
      simp only
      split
      · exact hfill
      · next call calls _ =>
          have htime : w'.SentSince P { w' with now := (earliest call calls).1.due } :=
            World.SentSince.of_eq rfl
          exact hfill.trans (htime.trans (ih _ _ _))

/-- **A round** sends what the courier sends. -/
theorem flow_sends {c : Courier σ κ ρ} (h : ∀ time work, P ⟨time, c.request work⟩)
    (concurrency : Nat) (chunks : List (List κ)) (w : World σ) :
    w.SentSince P (flow c concurrency chunks w).2 :=
  answers_sends h concurrency chunks.length chunks [] w

/-! ### All rounds -/

theorem roundsFrom_sends {j : Job σ κ} (h : ∀ time work, P ⟨time, j.courier.request work⟩)
    (retry : RetryPolicy) (deadline : Option Nat) (left : Nat) (pending : List κ) (p : Progress)
    (w : World σ) : w.SentSince P (roundsFrom j retry deadline left pending p w).2 := by
  induction left generalizing pending p w with
  | zero =>
      have hround : w.SentSince P (j.round pending w).2 := flow_sends h _ _ w
      unfold roundsFrom
      split
      · exact World.SentSince.refl w
      · simp only
        split
        · exact hround
        · exact hround
  | succ left ih =>
      have hround : w.SentSince P (j.round pending w).2 := flow_sends h _ _ w
      unfold roundsFrom
      simp only
      split
      · exact World.SentSince.refl w
      · split
        · exact hround
        · refine hround.trans (World.SentSince.trans ?_ (ih _ _ _))
          exact World.SentSince.of_eq rfl

/-- **A batch** sends what its courier sends. -/
theorem run_sends {j : Job σ κ} (h : ∀ time work, P ⟨time, j.courier.request work⟩)
    (retry : RetryPolicy) (deadline : Option Nat) (work : List κ) (w : World σ) :
    w.SentSince P (run j retry deadline work w).2 := by
  unfold run
  split
  · exact World.SentSince.refl w
  · exact roundsFrom_sends h retry deadline retry.max work {} w

theorem get_sends {store : Store σ} {config : Config} {t : GetTemplate}
    (h : ∀ time keys, P ⟨time, .batchGet (t.request keys)⟩) (keys : List Item)
    (deadline : Option Nat) : Action.Sends P (get store config t keys deadline) := by
  intro w
  have hrun : w.SentSince P (run (getJob store config t) config.batchRetry deadline keys w).2 :=
    run_sends h config.batchRetry deadline keys w
  unfold get
  rcases hran : run (getJob store config t) config.batchRetry deadline keys w with ⟨outcome, w'⟩
  rw [hran] at hrun
  cases outcome with
  | done retries p => exact hrun
  | incomplete pending attempts elapsed p => exact hrun
  | late => exact hrun

end Keyspace.Batch
