import Keyspace.Query.Run
import Keyspace.Update.Basic
/-!
# What an action sends

A world keeps the requests that were sent, in order.  Whatever an action does, it only adds to
them, and what all its requests have in common follows from what its single calls have in common:
trying again, reading page by page, and working in segments add no requests of their own.  All of
them look at the deadline before each call, so a call that they make begins before the deadline.

Main definitions:

* `Keyspace.World.SentSince` — all that was sent between two worlds has a property;
* `Keyspace.IsBefore` — a time before a deadline;
* `Keyspace.Action.Sends`, `Keyspace.Action.SendsBefore` — all that an action sends has a property,
  or it has if the action begins before a deadline.

Main results:

* `Keyspace.Action.Sends.retry`, `Keyspace.Pager.items_sends`, `Keyspace.Pager.count_sends`,
  `Keyspace.ScanRequest.segmented_sends` — **loops send what their calls send**;
* `Keyspace.PreparedRead.items_sends` and so on — the ways to run a read;
* `Keyspace.Query.run_sends` — a query sends what its prepared read sends, and nothing if it is
  wrong; so it is with `Keyspace.Query.all_sends` and the other ways to run one.
-/

set_option autoImplicit false

namespace Keyspace

variable {σ α β γ : Type}

/-! ### Between two worlds -/

/-- All that was sent between two worlds has a property. -/
def World.SentSince (P : Sent → Prop) (w w' : World σ) : Prop :=
  ∃ more, w'.sent = w.sent ++ more ∧ ∀ s ∈ more, P s

namespace World.SentSince

variable {P : Sent → Prop}

/-- Nothing was sent. -/
theorem of_eq {w w' : World σ} (h : w'.sent = w.sent) : w.SentSince P w' :=
  ⟨[], by simpa using h, by simp⟩

theorem refl (w : World σ) : w.SentSince P w := of_eq rfl

theorem trans {w₁ w₂ w₃ : World σ} (h₁ : w₁.SentSince P w₂) (h₂ : w₂.SentSince P w₃) :
    w₁.SentSince P w₃ := by
  obtain ⟨more₁, hsent₁, hall₁⟩ := h₁
  obtain ⟨more₂, hsent₂, hall₂⟩ := h₂
  refine ⟨more₁ ++ more₂, by rw [hsent₂, hsent₁, List.append_assoc], ?_⟩
  intro s hs
  rcases List.mem_append.1 hs with hs | hs
  · exact hall₁ s hs
  · exact hall₂ s hs

/-- A request that is sent. -/
theorem send {ε : Type} (w : World σ) {r : Request} (answer : σ → Reply ε α × σ)
    (h : P ⟨w.now, r⟩) : w.SentSince P (w.send r answer).2 :=
  ⟨[⟨w.now, r⟩], rfl, by simpa using h⟩

/-- A request that is sent and whose answer is waited for. -/
theorem call {ε : Type} (w : World σ) {r : Request} (answer : σ → Reply ε α × σ)
    (h : P ⟨w.now, r⟩) : w.SentSince P (w.call r answer).2 :=
  ⟨[⟨w.now, r⟩], rfl, by simpa using h⟩

end World.SentSince

/-! ### Actions -/

/-- A time before a deadline. -/
def IsBefore (deadline : Option Nat) (time : Nat) : Prop :=
  ∀ limit, deadline = some limit → time < limit

theorem World.isBefore_now {w : World σ} {deadline : Option Nat}
    (h : w.elapsed deadline = false) : IsBefore deadline w.now := by
  rintro limit rfl
  simpa [World.elapsed] using h

/-- All that an action sends has a property. -/
def Action.Sends (P : Sent → Prop) (a : Action σ α) : Prop :=
  ∀ w : World σ, w.SentSince P (a w).2

/-- All that an action sends has a property, if the action begins before a deadline. -/
def Action.SendsBefore (deadline : Option Nat) (P : Sent → Prop) (a : Action σ α) : Prop :=
  ∀ w : World σ, w.elapsed deadline = false → w.SentSince P (a w).2

/-- A request that is sent, and whose answer is waited for. -/
theorem Action.SendsBefore.call {ε : Type} {P : Sent → Prop} {deadline : Option Nat} {r : Request}
    (answer : σ → Reply ε α × σ) (f : Except ε α → Except Error β)
    (h : ∀ time, IsBefore deadline time → P ⟨time, r⟩) :
    Action.SendsBefore deadline P fun w : World σ => (f (w.call r answer).1, (w.call r answer).2) :=
  fun w hearly => World.SentSince.call w answer (h w.now (World.isBefore_now hearly))

namespace Action.Sends

variable {P : Sent → Prop}

theorem sendsBefore {a : Action σ α} (h : Action.Sends P a) (deadline : Option Nat) :
    Action.SendsBefore deadline P a := fun w _ => h w

/-- An action that does nothing. -/
theorem nothing (outcome : Except Error α) :
    Action.Sends P fun w : World σ => (outcome, w) := fun w => World.SentSince.refl w

theorem reading {f : β → Except Error γ} {a : Action σ β} (h : Action.Sends P a) :
    Action.Sends P (Query.reading f a) := h

theorem before {deadline : Option Nat} {operation : Operation} {attempts : Nat} {a : Action σ α}
    (h : Action.SendsBefore deadline P a) :
    Action.Sends P (RetryPolicy.before deadline operation attempts a) := by
  intro w
  unfold RetryPolicy.before
  split
  · exact World.SentSince.refl w
  · next hearly => exact h w (Bool.eq_false_iff.2 hearly)

/-- The tries that are left send what they send each. -/
theorem retryFrom {p : RetryPolicy} {deadline : Option Nat} {operation : Operation}
    {isEmpty : α → Bool} {a : Action σ α} (h : Action.SendsBefore deadline P a) (left : Nat) :
    Action.Sends P (p.runFrom deadline operation isEmpty a left) := by
  -- between two tries there is only a pause, which sends nothing
  induction left with
  | zero => exact before h
  | succ left ih =>
      intro w
      unfold RetryPolicy.runFrom
      have htry : w.SentSince P
          (RetryPolicy.before deadline operation (p.max - (left + 1)) a w).2 := before h w
      simp only
      split
      · refine htry.trans (World.SentSince.trans ?_ (ih _))
        exact World.SentSince.of_eq rfl
      · exact htry

/-- **Trying again** sends what the tries send. -/
theorem retry {p : RetryPolicy} {deadline : Option Nat} {operation : Operation}
    {isEmpty : α → Bool} {a : Action σ α} (h : Action.SendsBefore deadline P a) :
    Action.Sends P (p.run deadline operation isEmpty a) := retryFrom h p.max

end Action.Sends

/-! ### Pages -/

namespace Pager

variable {P : Sent → Prop} {p : Pager σ} {deadline : Option Nat}

/-- **Reading page by page** sends what the calls send that look at as many items as are asked
for. -/
theorem collect_sends_asked {c : Collector β}
    (h : ∀ start sofar, Action.SendsBefore deadline P (p.fetch start (c.limit sofar)))
    (start : Option Item) (calls : Nat) (sofar : β) (w : World σ) :
    w.SentSince P (p.collect deadline c start calls sofar w).2 := by
  fun_induction Pager.collect p deadline c start calls sofar w with
  | case1 start calls sofar w late => exact World.SentSince.refl w
  | case2 start calls sofar w late e w' fetched =>
      have hfetch := h start sofar w (Bool.eq_false_iff.2 late)
      rwa [fetched] at hfetch
  | case3 start calls sofar w late page w' fetched got full =>
      have hfetch := h start sofar w (Bool.eq_false_iff.2 late)
      rwa [fetched] at hfetch
  | case4 start calls sofar w late page w' fetched got full next =>
      have hfetch := h start sofar w (Bool.eq_false_iff.2 late)
      rwa [fetched] at hfetch
  | case5 start calls sofar w late page w' fetched got full key next lower ih =>
      have hfetch := h start sofar w (Bool.eq_false_iff.2 late)
      rw [fetched] at hfetch
      exact hfetch.trans ih

theorem collect_sends (h : ∀ start limit, Action.SendsBefore deadline P (p.fetch start limit))
    (c : Collector β) (start : Option Item) (calls : Nat) (sofar : β) (w : World σ) :
    w.SentSince P (p.collect deadline c start calls sofar w).2 :=
  collect_sends_asked (fun start _ => h start _) start calls sofar w

theorem items_sends {l : PageLimits}
    (h : ∀ start n, Action.SendsBefore deadline P (p.fetch start (l.next n)))
    (start : Option Item) : Action.Sends P (p.items deadline l start) := fun w =>
  collect_sends_asked (c := l.collector) (fun start items => h start items.length) start 0 [] w

theorem count_sends {perCall : Option Int}
    (h : ∀ start, Action.SendsBefore deadline P (p.fetch start perCall))
    (start : Option Item) : Action.Sends P (p.count deadline perCall start) := fun w =>
  collect_sends_asked (c := countCollector perCall) (fun start _ => h start) start 0 0 w

end Pager

/-- Without a number of items that are wanted, all calls look at as many items as a page has. -/
theorem PageLimits.next_of_perCall (perCall : Option Int) (n : Nat) :
    ({ perCall } : PageLimits).next n = perCall := by
  cases perCall <;> rfl

/-- The call for a page sends the request for that page. -/
theorem PageRequest.send_sends {P : Sent → Prop} (store : Store σ) {deadline : Option Nat}
    {r : PageRequest} (h : ∀ time, IsBefore deadline time → P ⟨time, r.toRequest⟩) :
    Action.SendsBefore deadline P (r.send store) := by
  cases r with
  | query q => exact Action.SendsBefore.call (store.query q) (storeError .query) h
  | scan q => exact Action.SendsBefore.call (store.scan q) (storeError .scan) h

/-! ### Segments -/

namespace ScanRequest

variable {P : Sent → Prop} {deadline : Option Nat}

theorem worker_sends (store : Store σ) {r : ScanRequest} (retry : RetryPolicy)
    (pageSize : Option Int) {segments segment : Nat}
    (h : ∀ time, IsBefore deadline time → ∀ start,
      P ⟨time, .scan ((r.forSegment segment segments).turn start pageSize)⟩) :
    Action.Sends P (r.worker store retry deadline pageSize segments segment) := by
  have hfetch : ∀ start n, Action.SendsBefore deadline P
      (((r.forSegment segment segments).pager store segment).fetch start
        (({ perCall := pageSize } : PageLimits).next n)) := fun start n =>
    Action.SendsBefore.call (store.scanSegment _) _ fun time hbefore => by
      rw [PageLimits.next_of_perCall]
      exact h time hbefore start
  exact Action.Sends.retry ((Pager.items_sends hfetch none).sendsBefore deadline)

theorem workers_sends {work : Nat → Action σ (List Item)} (h : ∀ k, Action.Sends P (work k))
    (begun left segment latest : Nat) (w : World σ) :
    w.SentSince P (workers work begun left segment latest w).2 := by
  induction left generalizing segment latest w with
  | zero => exact World.SentSince.of_eq rfl
  | succ left ih =>
      have hwork := h segment { w with now := begun }
      have hback : w.SentSince P { w with now := begun } := World.SentSince.of_eq rfl
      exact (hback.trans hwork).trans (ih _ _ _)

/-- **Working in segments** sends what the workers send. -/
theorem segmented_sends (store : Store σ) {r : ScanRequest} (retry : RetryPolicy)
    (pageSize : Option Int) (segments : Nat)
    (h : ∀ time, IsBefore deadline time → ∀ segment start,
      P ⟨time, .scan ((r.forSegment segment segments).turn start pageSize)⟩) (w : World σ) :
    w.SentSince P (r.segmented store retry deadline pageSize segments w).2 :=
  workers_sends (fun segment => worker_sends store retry pageSize
    fun time hbefore start => h time hbefore segment start) _ _ _ _ w

end ScanRequest

/-! ### Reads -/

namespace PreparedRead

variable {P : Sent → Prop} {p : PreparedRead}

theorem pager_sends (store : Store σ) {r : PageRequest} {deadline : Option Nat}
    (h : ∀ time, IsBefore deadline time → ∀ start limit,
      P ⟨time, (r.turn start limit).toRequest⟩) :
    ∀ start limit, Action.SendsBefore deadline P ((r.pager store).fetch start limit) :=
  fun start limit => PageRequest.send_sends store fun time hbefore => h time hbefore start limit

theorem items_sends (store : Store σ) (cap : Option Nat)
    (h : ∀ time, IsBefore p.deadline time → ∀ start n,
      P ⟨time, (p.request.turn start ((p.limits cap).next n)).toRequest⟩) :
    Action.Sends P (p.items store cap) :=
  Action.Sends.retry ((Pager.items_sends (fun start n => PageRequest.send_sends store
    fun time hbefore => h time hbefore start n) p.read.start).sendsBefore p.deadline)

theorem page_sends (store : Store σ)
    (h : ∀ time, IsBefore p.deadline time →
      P ⟨time, (p.request.turn p.read.start (p.read.limit.or p.pageSize)).toRequest⟩) :
    Action.Sends P (p.page store) :=
  Action.Sends.retry (PageRequest.send_sends store h)

theorem count_sends (store : Store σ)
    (h : ∀ time, IsBefore p.deadline time → ∀ start,
      P ⟨time, (p.countRequest.turn start p.pageSize).toRequest⟩) :
    Action.Sends P (p.count store) :=
  Action.Sends.retry ((Pager.count_sends (fun start => PageRequest.send_sends store
    fun time hbefore => h time hbefore start) p.read.start).sendsBefore p.deadline)

theorem item_sends (store : Store σ) {key : Item}
    (h : ∀ time, IsBefore p.deadline time →
      P ⟨time, .getItem (p.read.getRequest p.expressions key)⟩) :
    Action.Sends P (p.item store key) :=
  Action.Sends.retry (Action.SendsBefore.call (store.getItem _) _ h)

theorem segmented_sends (store : Store σ) (segments : Int)
    (h : ∀ r, p.request = .scan r → ∀ time, IsBefore p.deadline time →
      ∀ segment total start,
        P ⟨time, .scan ((r.forSegment segment total).turn start p.pageSize)⟩) :
    Action.Sends P (p.segmented store segments) := by
  intro w
  unfold segmented
  split
  · exact World.SentSince.refl w
  · next r hr =>
      refine Action.Sends.before (fun w _ => ?_) w
      have hall := ScanRequest.segmented_sends store p.retry p.pageSize
        (max segments 1).toNat (fun time hbefore segment => h r hr time hbefore segment _) w
      simp only
      split
      · exact hall
      · exact hall

end PreparedRead

/-! ### Queries -/

namespace Query

variable {P : Sent → Prop} {q : Query}

/-- **A query sends what its prepared read sends**, and nothing if it is wrong. -/
theorem run_sends {action : PreparedRead → Action σ β}
    (h : ∀ p, q.prepare = .ok p → Action.Sends P (action p)) : Action.Sends P (q.run action) := by
  intro w
  unfold Query.run
  split
  · exact World.SentSince.refl w
  · next p hp => exact h p hp w

variable (m : Model α) (store : Store σ)

/-- All values come from the items of the read, or from its segments. -/
theorem all_sends
    (hitems : ∀ p, q.prepare = .ok p → ∀ cap, Action.Sends P (p.items store cap))
    (hsegments : ∀ p, q.prepare = .ok p → ∀ n, Action.Sends P (p.segmented store n)) :
    Action.Sends P (q.all m store) := by
  refine run_sends fun p hp => Action.Sends.reading ?_
  split
  · exact Action.Sends.reading (hsegments p hp _)
  · exact hitems p hp _

/-- The first value comes from the items of the read, or from the item of its key. -/
theorem first_sends
    (hitems : ∀ p, q.prepare = .ok p → ∀ cap, Action.Sends P (p.items store cap))
    (hitem : ∀ p, q.prepare = .ok p → ∀ key, Action.Sends P (p.item store key)) :
    Action.Sends P (q.first m store) := by
  refine run_sends fun p hp => Action.Sends.reading ?_
  split
  · exact hitem p hp _
  · exact Action.Sends.reading (hitems p hp _)

/-- A page comes from the page of the read. -/
theorem page_sends (h : ∀ p, q.prepare = .ok p → Action.Sends P (p.page store)) :
    Action.Sends P (q.page m store) := by
  refine run_sends fun p hp => ?_
  split
  · exact Action.Sends.nothing _
  · exact Action.Sends.reading (h p hp)

end Query

end Keyspace
