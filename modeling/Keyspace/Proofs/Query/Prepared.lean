import Keyspace.Proofs.Plan.Conditions
import Keyspace.Query.Run
/-!
# Prepared queries

What the read of a query takes over from the query, said once: everything but the plan and the
place to start.

Main results:

* `Keyspace.Query.planOf_perm`, `Keyspace.Query.planOf_keyConditions` — the conditions of the plan;
* `Keyspace.Query.build_spec`, `Keyspace.Query.prepare_spec` — **the read of a query**;
* `Keyspace.Query.all_eq`, `Keyspace.Query.first_eq` — which reads a query makes.
-/

set_option autoImplicit false

namespace Keyspace.Query

/-- **A planned query has the given conditions.** -/
theorem planOf_perm {q : Query} {cs : List Condition} {p : Plan} (h : q.planOf cs = .ok p) :
    (p.keyConditions ++ p.filterConditions).Perm cs := by
  unfold planOf at h
  split at h
  · exact TableSchema.scan_perm h
  · exact TableSchema.select_perm h

/-- A query that reads everything hands nothing to the key. -/
theorem planOf_keyConditions {q : Query} {cs : List Condition} {p : Plan}
    (h : q.planOf cs = .ok p) (hscan : p.isScan = true) : p.keyConditions = [] := by
  unfold planOf at h
  split at h
  · obtain ⟨i, rfl⟩ := TableSchema.scan_cases h
    rfl
  · exact TableSchema.select_keyConditions h hscan

theorem resume_spec {cursor : Option String} {r r' : Read} (h : resume cursor r = .ok r') :
    ∃ start, r' = { r with start := start } := by
  cases cursor with
  | none =>
      obtain rfl : r = r' := Except.ok.inj h
      exact ⟨r.start, rfl⟩
  | some text =>
      unfold resume at h
      simp only at h
      split at h
      · cases h
      · cases hkey : Cursor.decode text r.fingerprint with
        | error e => simp [hkey, bind, Except.bind] at h
        | ok key =>
            simp only [hkey, bind, Except.bind, Except.ok.injEq] at h
            exact ⟨some key, h.symm⟩

/-- **The read of a query**: only its plan and its start do not come from the query as they are. -/
theorem build_spec {q : Query} {r : Read} (h : q.build = .ok r) :
    ∃ plan start, q.planOf q.conditions.conditions = .ok plan ∧
      r = { plan, fragments := q.conditions.fragments, projection := q.projection
            order := q.order, limit := q.limit, start, consistent := q.consistent
            segments := if plan.isScan then q.segments else 1 } := by
  unfold build at h
  cases hparts : q.conditions.parts with
  | error cause => simp [hparts, bind, Except.bind] at h
  | ok parts =>
      obtain rfl := ConditionSet.parts_eq_ok hparts
      cases hplan : q.planOf q.conditions.conditions with
      | error cause => simp [hparts, hplan, bind, Except.bind] at h
      | ok plan =>
          simp only [hparts, hplan, bind, Except.bind] at h
          split at h
          · cases h
          · obtain ⟨start, hstart⟩ := resume_spec h
            exact ⟨plan, start, rfl, hstart⟩

/-- **The prepared read of a query.** -/
theorem prepare_spec {q : Query} {p : PreparedRead} (h : q.prepare = .ok p) :
    q.build = .ok p.read ∧ p.read.compile = .ok p.expressions ∧ p.retry = q.retry ∧
      p.deadline = q.deadline ∧ p.pageSize = q.pageSize := by
  unfold prepare at h
  cases hread : q.build with
  | error cause => simp [hread, bind, Except.bind] at h
  | ok read =>
      cases hcompiled : read.compile with
      | error cause => simp [hread, hcompiled, bind, Except.bind] at h
      | ok e =>
          simp only [hread, hcompiled, bind, Except.bind, Except.ok.injEq] at h
          subst h
          exact ⟨rfl, hcompiled, rfl, rfl, rfl⟩

/-! ### Running a prepared query -/

variable {σ α β : Type}

theorem reading_fst (f : β → Except Error α) (a : Action σ β) (w : World σ) :
    (reading f a w).1 = (a w).1.bind f := rfl

/-- Without segments all values come from one read. -/
theorem all_eq {q : Query} {p : PreparedRead} (hp : q.prepare = .ok p)
    (hparallel : p.read.isParallel = false) (m : Model α) (store : Store σ) (w : World σ) :
    q.all m store w =
      reading m.decodeAll (p.items store (p.read.limit.map Int.toNat)) w := by
  unfold all run
  simp only [hp, hparallel, Bool.false_eq_true, if_false]

/-- Unless one key is asked for the first value comes from a read for one item. -/
theorem first_eq {q : Query} {p : PreparedRead} (hp : q.prepare = .ok p)
    (hpoint : p.read.pointKey? = none) (m : Model α) (store : Store σ) (w : World σ) :
    q.first m store w = reading (fun item => item.mapM m.decode)
      (reading (fun items => .ok items.head?) (p.items store (some 1))) w := by
  unfold first run
  simp only [hp, hpoint]

end Keyspace.Query
