import Keyspace.Proofs.World.Sent
/-!
# Deadlines

The deadline is looked at before each call, and a call that is under way is waited for.  So all
requests are sent before the deadline, and an action that begins after it sends nothing at all.
The number of attempts in a timeout is the number of calls or tries that came before it: it is zero
only if there were none.

Main definitions:

* `Keyspace.Action.KeepsTo` — an action keeps to a deadline;
* `Keyspace.Action.Begins` — an action keeps to a deadline if it begins before it.

Main results:

* `Keyspace.Action.Begins.before`, `Keyspace.Action.Begins.retry` — **looking at the deadline first
  is enough**;
* `Keyspace.Pager.items_begins`, `Keyspace.Pager.count_begins` — so it is with pages;
* `Keyspace.Action.KeepsTo.reading` — what is made of an outcome does not matter.
-/

set_option autoImplicit false

namespace Keyspace

variable {σ α β : Type}

/-- **An action keeps to a deadline.**  Whether it gets as far as that, may hang on something that
is wrong with it. -/
structure Action.KeepsTo (deadline : Option Nat) (valid : Prop) (a : Action σ α) : Prop where
  /-- Nothing is sent at or after the deadline. -/
  sends : Action.Sends (fun s => IsBefore deadline s.time) a
  /-- After the deadline nothing is done, and the timeout counts no attempts. -/
  late : valid → ∀ w : World σ, w.elapsed deadline = true →
    ∃ operation, a w = (.error (.timeout operation 0), w)
  /-- A timeout that counts no attempts means that nothing was done. -/
  unsent : ∀ (w : World σ) (operation : Operation),
    (a w).1 = .error (.timeout operation 0) → (a w).2 = w

/-- An action keeps to a deadline if it begins before it: it does not end with a timeout that counts
no attempts. -/
structure Action.Begins (deadline : Option Nat) (a : Action σ α) : Prop where
  sends : Action.SendsBefore deadline (fun s => IsBefore deadline s.time) a
  begun : ∀ w : World σ, w.elapsed deadline = false → ∀ operation,
    (a w).1 ≠ .error (.timeout operation 0)

variable {deadline : Option Nat}

/-! ### Looking at the deadline -/

namespace RetryPolicy

theorem before_late (operation : Operation) (attempts : Nat) (a : Action σ α) {w : World σ}
    (h : w.elapsed deadline = true) :
    before deadline operation attempts a w = (.error (.timeout operation attempts), w) := by
  simp [before, h]

theorem before_early (operation : Operation) (attempts : Nat) (a : Action σ α) {w : World σ}
    (h : w.elapsed deadline = false) : before deadline operation attempts a w = a w := by
  simp [before, h]

/-- After the deadline there is no first try. -/
theorem run_late (p : RetryPolicy) (operation : Operation) (isEmpty : α → Bool) (a : Action σ α)
    {w : World σ} (h : w.elapsed deadline = true) :
    p.run deadline operation isEmpty a w = (.error (.timeout operation 0), w) := by
  unfold run
  cases hmax : p.max with
  | zero =>
      unfold runFrom
      rw [before_late operation _ a h, hmax]
  | succ left =>
      unfold runFrom
      simp only [before_late operation _ a h, hmax, Nat.sub_self]
      rfl

/-- A timeout counts the tries that came before it. -/
theorem runFrom_begun {p : RetryPolicy} {operation : Operation} {isEmpty : α → Bool}
    {a : Action σ α} (ha : a.Begins deadline) (left : Nat) (hleft : left ≤ p.max) (w : World σ)
    (hfirst : left = p.max → w.elapsed deadline = false) (operation' : Operation) :
    (p.runFrom deadline operation isEmpty a left w).1 ≠ .error (.timeout operation' 0) := by
  induction left generalizing w with
  | zero =>
      unfold runFrom
      cases hlate : w.elapsed deadline with
      | false =>
          rw [before_early operation _ a hlate]
          exact ha.begun w hlate operation'
      | true =>
          rw [before_late operation _ a hlate]
          intro htimeout
          simp only [Except.error.injEq, Error.timeout.injEq] at htimeout
          rw [hfirst htimeout.2.symm] at hlate
          cases hlate
  | succ left ih =>
      unfold runFrom
      cases hlate : w.elapsed deadline with
      | true =>
          have hmore : left + 1 ≠ p.max := fun hmax => by simp [hfirst hmax] at hlate
          simp only [before_late operation _ a hlate, wantsMore, Error.isStore,
            Bool.false_eq_true, if_false]
          intro htimeout
          simp only [Except.error.injEq, Error.timeout.injEq] at htimeout
          omega
      | false =>
          simp only [before_early operation _ a hlate]
          split
          · exact ih (by omega) _ (by omega)
          · exact ha.begun w hlate operation'

end RetryPolicy

namespace Action

/-- **An action behind a look at the deadline.** -/
theorem Begins.before {a : Action σ α} (h : a.Begins deadline) (operation : Operation) :
    KeepsTo deadline True (RetryPolicy.before deadline operation 0 a) where
  sends := Sends.before h.sends
  late _ w hlate := ⟨operation, RetryPolicy.before_late operation 0 a hlate⟩
  unsent w operation' htimeout := by
    cases hlate : w.elapsed deadline with
    | true => rw [RetryPolicy.before_late operation 0 a hlate]
    | false =>
        rw [RetryPolicy.before_early operation 0 a hlate] at htimeout
        exact absurd htimeout (h.begun w hlate operation')

/-- **Tries behind a look at the deadline each.** -/
theorem Begins.retry {a : Action σ α} (h : a.Begins deadline) (p : RetryPolicy)
    (operation : Operation) (isEmpty : α → Bool) :
    KeepsTo deadline True (p.run deadline operation isEmpty a) where
  sends := Sends.retry h.sends
  late _ w hlate := ⟨operation, p.run_late operation isEmpty a hlate⟩
  unsent w operation' htimeout := by
    cases hlate : w.elapsed deadline with
    | true => rw [p.run_late operation isEmpty a hlate]
    | false =>
        exact absurd htimeout
          (RetryPolicy.runFrom_begun h p.max (Nat.le_refl _) w (fun _ => hlate) operation')

/-- Less may have to be right for the deadline to be looked at. -/
theorem KeepsTo.imp {valid valid' : Prop} {a : Action σ α} (h : KeepsTo deadline valid a)
    (hvalid : valid' → valid) : KeepsTo deadline valid' a where
  sends := h.sends
  late hvalid' := h.late (hvalid hvalid')
  unsent := h.unsent

/-- An action that fails without doing anything. -/
theorem KeepsTo.nothing {valid : Prop} (hvalid : ¬valid) (e : Error) :
    KeepsTo deadline valid fun w : World σ => ((.error e : Except Error α), w) where
  sends := Sends.nothing (.error e)
  late h := absurd h hvalid
  unsent _ _ _ := rfl

/-- What is made of an outcome does not matter, unless it is a timeout. -/
theorem KeepsTo.reading {valid : Prop} {a : Action σ α} (h : KeepsTo deadline valid a)
    {f : α → Except Error β}
    (hf : ∀ w b, (a w).1 = .ok b → ∀ operation, f b ≠ .error (.timeout operation 0)) :
    KeepsTo deadline valid (Query.reading f a) where
  sends := Sends.reading h.sends
  late hvalid w hlate := by
    obtain ⟨operation, htimeout⟩ := h.late hvalid w hlate
    exact ⟨operation, by simp [Query.reading, htimeout, Except.bind]⟩
  unsent w operation htimeout := by
    have hbind : (a w).1.bind f = .error (.timeout operation 0) := htimeout
    cases hoperation : (a w).1 with
    | ok b =>
        rw [hoperation] at hbind
        exact absurd hbind (hf w b hoperation operation)
    | error e =>
        rw [hoperation] at hbind
        obtain rfl : e = .timeout operation 0 := Except.error.inj hbind
        exact h.unsent w operation hoperation

/-- A call is made before the deadline if it begins before it, and its faults are no timeouts. -/
theorem Begins.call {ε : Type} {r : Request} (answer : σ → Reply ε α × σ)
    {f : Except ε α → Except Error β}
    (hf : ∀ result operation attempts, f result ≠ .error (.timeout operation attempts)) :
    Begins deadline fun w : World σ => (f (w.call r answer).1, (w.call r answer).2) where
  sends := SendsBefore.call answer f fun _ hbefore => hbefore
  begun _ _ operation := hf _ operation 0

end Action

/-! ### Pages -/

/-- The faults of a store are no timeouts. -/
theorem storeError_ne_timeout (operation : Operation) (result : Except String α)
    (operation' : Operation) (attempts : Nat) :
    storeError operation result ≠ .error (.timeout operation' attempts) := by
  cases result with
  | error text => simp [storeError]
  | ok a => simp [storeError]

theorem WorkerFault.mapError_ne_timeout (segment : Nat) (result : Except WorkerFault α)
    (operation : Operation) (attempts : Nat) :
    result.mapError (WorkerFault.toError segment) ≠ .error (.timeout operation attempts) := by
  cases result with
  | ok a => simp
  | error fault =>
      cases fault with
      | reported text => simp [WorkerFault.toError]
      | crash text => simp [WorkerFault.toError]

namespace Pager

variable {p : Pager σ}

/-- Pages that are fetched before a deadline each, and whose faults are no timeouts. -/
structure IsPrompt (p : Pager σ) (deadline : Option Nat) : Prop where
  sends : ∀ start limit,
    (p.fetch start limit).SendsBefore deadline fun s => IsBefore deadline s.time
  faults : ∀ start limit w operation attempts,
    (p.fetch start limit w).1 ≠ .error (.timeout operation attempts)

/-- One page. -/
theorem IsPrompt.begins (h : p.IsPrompt deadline) (start : Option Item) (limit : Option Int) :
    (p.fetch start limit).Begins deadline where
  sends := h.sends start limit
  begun w _ operation := h.faults start limit w operation 0

/-- A timeout counts the pages that came before it. -/
theorem collect_begun (h : p.IsPrompt deadline) (c : Collector β) (start : Option Item)
    (calls : Nat) (sofar : β) (w : World σ) (hfirst : calls = 0 → w.elapsed deadline = false)
    (operation : Operation) :
    (p.collect deadline c start calls sofar w).1 ≠ .error (.timeout operation 0) := by
  fun_induction Pager.collect p deadline c start calls sofar w with
  | case1 start calls sofar w late =>
      intro htimeout
      simp only [Except.error.injEq, Error.timeout.injEq] at htimeout
      rw [hfirst htimeout.2] at late
      cases late
  | case2 start calls sofar w late e w' fetched =>
      have hfault := h.faults start (c.limit sofar) w operation 0
      rw [fetched] at hfault
      exact fun htimeout => hfault (congrArg Except.error (Except.error.inj htimeout))
  | case3 start calls sofar w late page w' fetched got full => simp
  | case4 start calls sofar w late page w' fetched got full next => simp
  | case5 start calls sofar w late page w' fetched got full key next lower ih =>
      exact ih fun hzero => absurd hzero (Nat.succ_ne_zero calls)

/-- **Items** are read before the deadline. -/
theorem items_begins (h : p.IsPrompt deadline) (l : PageLimits) (start : Option Item) :
    (p.items deadline l start).Begins deadline where
  sends := (items_sends (fun start _ => h.sends start _) start).sendsBefore deadline
  begun w hearly operation := by
    have hbegun := collect_begun h l.collector start 0 [] w (fun _ => hearly) operation
    unfold Pager.items
    cases houtcome : (p.collect deadline l.collector start 0 [] w).1 with
    | ok items => simp [houtcome, Except.map]
    | error e =>
        rw [houtcome] at hbegun
        simpa [houtcome, Except.map] using hbegun

/-- **Their number** is found before the deadline. -/
theorem count_begins (h : p.IsPrompt deadline) (perCall : Option Int) (start : Option Item) :
    (p.count deadline perCall start).Begins deadline where
  sends := (count_sends (fun start => h.sends start _) start).sendsBefore deadline
  begun w hearly operation :=
    collect_begun h (countCollector perCall) start 0 0 w (fun _ => hearly) operation

end Pager

/-- The pages of a request. -/
theorem PageRequest.pager_isPrompt (store : Store σ) (r : PageRequest) :
    (r.pager store).IsPrompt deadline where
  sends := PreparedRead.pager_sends store fun _ hbefore _ _ => hbefore
  faults _ _ _ operation attempts := by
    cases r with
    | query q => exact storeError_ne_timeout .query _ operation attempts
    | scan q => exact storeError_ne_timeout .scan _ operation attempts

/-- The pages of a segment. -/
theorem ScanRequest.pager_isPrompt (store : Store σ) (segment : Nat) (r : ScanRequest) :
    (r.pager store segment).IsPrompt deadline where
  sends _ _ := Action.SendsBefore.call (store.scanSegment _) _ fun _ hbefore => hbefore
  faults _ _ _ operation attempts :=
    WorkerFault.mapError_ne_timeout segment _ operation attempts

end Keyspace
