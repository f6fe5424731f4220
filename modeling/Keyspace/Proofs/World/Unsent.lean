import Keyspace.Proofs.Model.Decoding
import Keyspace.Proofs.World.Deadline
/-!
# Errors before the first call

An error is local if it says that a request is wrong in itself, or that a cursor cannot be used.
Calls, tries, pages and workers bring no such errors: theirs are faults of the store, of time and of
segments.  So an action whose local errors come before its first call leaves the world as it is when
it has one.

Main definitions:

* `Keyspace.Error.isLocal` — the local errors;
* `Keyspace.Action.Avoids` — an action does not end with an error;
* `Keyspace.Action.RefusesFirst` — **an action with a local error does nothing**;
* `Keyspace.Action.Yields` — what holds of the results of an action.

Main results:

* `Keyspace.Action.Avoids.retry`, `Keyspace.Pager.collect_avoids` — loops have no errors but those
  of their calls and timeouts;
* `Keyspace.Action.RefusesFirst.reading` — what is made of an outcome;
* `Keyspace.Action.Yields.retry` — what holds of the results of all tries.
-/

set_option autoImplicit false

namespace Keyspace

variable {σ α β : Type}

/-! ### Local errors -/

/-- **The errors that are found without the store**: a request is wrong in itself, or a cursor
cannot be used. -/
def Error.isLocal (e : Error) : Bool := e.isValidation || e.isCursor

/-- An action does not end with an error. -/
def Action.Avoids (e : Error) (a : Action σ α) : Prop := ∀ w, (a w).1 ≠ .error e

/-- **An action with a local error does nothing**: it leaves store, time and requests sent as they
are. -/
def Action.RefusesFirst (a : Action σ α) : Prop :=
  ∀ w e, (a w).1 = .error e → e.isLocal = true → (a w).2 = w

section

variable {e : Error} (he : e.isLocal = true)
include he

theorem Error.ne_marshal_of_isLocal : e ≠ .marshal := by
  rintro rfl
  cases he

theorem Error.timeout_ne_of_isLocal (operation : Operation) (attempts : Nat) :
    .timeout operation attempts ≠ e := by
  rintro rfl
  cases he

/-- A model whose errors are those of decoding has no local ones. -/
theorem Model.FailsAsMarshal.decodeAll_ne_local {m : Model α} (hm : m.FailsAsMarshal)
    (items : List Item) : m.decodeAll items ≠ .error e :=
  decodeAll_ne_error (fun item => hm item e (Error.ne_marshal_of_isLocal he)) items

theorem Model.FailsAsMarshal.decodeOption_ne_local {m : Model α} (hm : m.FailsAsMarshal)
    (item : Option Item) : item.mapM m.decode ≠ .error e :=
  decodeOption_ne_error (fun item => hm item e (Error.ne_marshal_of_isLocal he)) item

/-- The faults of a store are not local. -/
theorem storeError_ne_local (operation : Operation) (result : Except String α) :
    storeError operation result ≠ .error e := by
  cases result with
  | ok a => simp [storeError]
  | error text =>
      rintro ⟨⟩
      cases he

/-- A worker has no local errors: what is local becomes an error of its segment. -/
theorem mapError_segmentError_ne_local (segment : Nat) (outcome : Except Error α) :
    outcome.mapError (segmentError segment) ≠ .error e := by
  cases outcome with
  | ok a => simp
  | error cause =>
      rintro ⟨⟩
      cases cause <;> cases he

end

/-! ### Actions without an error -/

namespace Action

variable {e : Error} {deadline : Option Nat} {a : Action σ α}

/-- A call has the errors that are made of its answers. -/
theorem Avoids.call {ε : Type} {r : Request} (answer : σ → Reply ε α × σ)
    {f : Except ε α → Except Error β} (hf : ∀ result, f result ≠ .error e) :
    Avoids e fun w : World σ => (f (w.call r answer).1, (w.call r answer).2) :=
  fun w => hf (w.call r answer).1

/-- An error that an action does not have is one of what is made of its result. -/
theorem Avoids.exists_of_reading (h : a.Avoids e) {f : α → Except Error β} {w : World σ}
    (herror : (Query.reading f a w).1 = .error e) : ∃ b, (a w).1 = .ok b ∧ f b = .error e := by
  have hbind : (a w).1.bind f = .error e := herror
  cases houtcome : (a w).1 with
  | error cause =>
      rw [houtcome] at hbind
      obtain rfl : cause = e := Except.error.inj hbind
      exact absurd houtcome (h w)
  | ok b =>
      rw [houtcome] at hbind
      exact ⟨b, rfl, hbind⟩

theorem Avoids.reading (h : a.Avoids e) {f : α → Except Error β} (hf : ∀ b, f b ≠ .error e) :
    Avoids e (Query.reading f a) := fun w => bind_ne_error (h w) hf

variable (he : e.isLocal = true)
include he

/-- Looking at the deadline adds timeouts only. -/
theorem Avoids.before (h : a.Avoids e) (operation : Operation) (attempts : Nat) :
    Avoids e (RetryPolicy.before deadline operation attempts a) := by
  intro w
  unfold RetryPolicy.before
  split
  · exact fun htimeout => Error.timeout_ne_of_isLocal he _ _ (Except.error.inj htimeout)
  · exact h w

/-- **Tries have the errors of one try, and timeouts.** -/
theorem Avoids.retry (h : a.Avoids e) (p : RetryPolicy) (operation : Operation)
    (isEmpty : α → Bool) : Avoids e (p.run deadline operation isEmpty a) := by
  have hfrom : ∀ left, Avoids e (p.runFrom deadline operation isEmpty a left) := by
    intro left
    induction left with
    | zero => exact h.before he operation p.max
    | succ left ih =>
        intro w
        unfold RetryPolicy.runFrom
        simp only
        split
        · exact ih _
        · exact h.before he operation _ w
  exact hfrom p.max

end Action

/-! ### Pages -/

namespace Pager

variable {p : Pager σ} {e : Error} {deadline : Option Nat} (he : e.isLocal = true)
  (h : ∀ start limit, (p.fetch start limit).Avoids e)
include he h

/-- **Pages one after the other have the errors of one page, and timeouts.** -/
theorem collect_avoids (c : Collector β) (start : Option Item) (calls : Nat) (sofar : β) :
    Action.Avoids e (p.collect deadline c start calls sofar) := by
  intro w
  fun_induction Pager.collect p deadline c start calls sofar w with
  | case1 start calls sofar w late =>
      exact fun htimeout => Error.timeout_ne_of_isLocal he _ _ (Except.error.inj htimeout)
  | case2 start calls sofar w late e' w' fetched =>
      have hfault := h start (c.limit sofar) w
      rw [fetched] at hfault
      exact fun herror => hfault (congrArg Except.error (Except.error.inj herror))
  | case3 start calls sofar w late page w' fetched got full => simp
  | case4 start calls sofar w late page w' fetched got full next => simp
  | case5 start calls sofar w late page w' fetched got full key next lower ih => exact ih

theorem items_avoids (l : PageLimits) (start : Option Item) :
    (p.items deadline l start).Avoids e :=
  fun w => map_ne_error _ (collect_avoids he h l.collector start 0 [] w)

theorem count_avoids (perCall : Option Int) (start : Option Item) :
    (p.count deadline perCall start).Avoids e :=
  collect_avoids he h (countCollector perCall) start 0 0

end Pager

/-- The calls for pages have no local errors. -/
theorem PageRequest.fetch_avoids {e : Error} (he : e.isLocal = true) (store : Store σ)
    (r : PageRequest) (start : Option Item) (limit : Option Int) :
    ((r.pager store).fetch start limit).Avoids e := by
  cases r with
  | query q => exact .call _ (storeError_ne_local he .query)
  | scan q => exact .call _ (storeError_ne_local he .scan)

/-! ### Refusing first -/

namespace Action.RefusesFirst

variable {a : Action σ α}

/-- An action without local errors. -/
theorem of_avoids (h : ∀ e, e.isLocal = true → a.Avoids e) : a.RefusesFirst :=
  fun w e herror he => absurd herror (h e he w)

/-- An action that fails without doing anything. -/
theorem nothing (e : Error) : RefusesFirst fun w : World σ => ((.error e : Except Error α), w) :=
  fun _ _ _ _ => rfl

/-- **What is made of an outcome**, if it is no local error. -/
theorem reading (h : a.RefusesFirst) {f : α → Except Error β}
    (hf : ∀ w b, (a w).1 = .ok b → ∀ e, e.isLocal = true → f b ≠ .error e) :
    RefusesFirst (Query.reading f a) := by
  intro w e herror he
  have hbind : (a w).1.bind f = .error e := herror
  cases houtcome : (a w).1 with
  | ok b =>
      rw [houtcome] at hbind
      exact absurd hbind (hf w b houtcome e he)
  | error cause =>
      rw [houtcome] at hbind
      obtain rfl : cause = e := Except.error.inj hbind
      exact h w cause houtcome he

/-- A query that cannot be prepared is refused, and one that can does what its read does. -/
theorem run {q : Query} {action : PreparedRead → Action σ β}
    (h : ∀ p, q.prepare = .ok p → (action p).RefusesFirst) : RefusesFirst (q.run action) := by
  intro w e herror he
  unfold Query.run at herror ⊢
  cases hprepare : q.prepare with
  | error cause => rfl
  | ok p =>
      rw [hprepare] at herror
      exact h p hprepare w e herror he

end Action.RefusesFirst

/-! ### Results -/

/-- **An action keeps an invariant, and its results have a property.** -/
def Action.Yields (Inv : σ → Prop) (Q : α → Prop) (a : Action σ α) : Prop :=
  ∀ w, Inv w.store → Inv (a w).2.store ∧ ∀ b, (a w).1 = .ok b → Q b

/-- **The results of all tries are results of one.** -/
theorem Action.Yields.retry {Inv : σ → Prop} {Q : α → Prop} {a : Action σ α} (h : a.Yields Inv Q)
    (p : RetryPolicy) (deadline : Option Nat) (operation : Operation) (isEmpty : α → Bool) :
    Action.Yields Inv Q (p.run deadline operation isEmpty a) := by
  have hbefore : ∀ attempts,
      Action.Yields Inv Q (RetryPolicy.before deadline operation attempts a) := by
    intro attempts w hw
    unfold RetryPolicy.before
    split
    · exact ⟨hw, by simp⟩
    · exact h w hw
  have hfrom : ∀ left, Action.Yields Inv Q (p.runFrom deadline operation isEmpty a left) := by
    intro left
    induction left with
    | zero => exact hbefore p.max
    | succ left ih =>
        intro w hw
        unfold RetryPolicy.runFrom
        simp only
        split
        · exact ih _ (hbefore _ w hw).1
        · exact hbefore _ w hw
  exact hfrom p.max

end Keyspace
