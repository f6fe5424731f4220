import Keyspace.Batch.Run
import Keyspace.Proofs.Expression.Compiled
import Keyspace.Read.Segments
/-!
# Closed requests

A request is closed if the placeholders its dictionaries declare are those that occur in its
expressions.  Which items a request starts behind, how many it looks at and which segment it reads
make no difference to that.  The expressions of a read need not all be sent: an item read by its
key has only a projection.

Main definitions:

* `Keyspace.Request.texts`, `Keyspace.Request.names`, `Keyspace.Request.values` — the expressions
  and dictionaries of a request;
* `Keyspace.Request.IsClosed` — the closed requests.

Main results:

* `Keyspace.Request.IsClosed.mem_tokens_iff` — **what occurs is what is declared**;
* `Keyspace.Read.request_closed`, `Keyspace.Read.getRequest_closed`,
  `Keyspace.Batch.GetTemplate.request_closed`, `Keyspace.Update.compile_closed` — **sound
  expressions make closed requests**.
-/

set_option autoImplicit false

namespace Keyspace

open Placeholder

namespace Request

/-- The expressions that a request carries. -/
def texts : Request → List String
  | .query r => r.key :: (r.filter.toList ++ r.projection.toList)
  | .scan r => r.filter.toList ++ r.projection.toList
  | .getItem r => r.projection.toList
  | .batchGet r => r.projection.toList
  | .batchWrite _ => []
  | .update r => r.update :: r.condition.toList

/-- The names that a request declares. -/
def names : Request → Dict String
  | .query r => r.names
  | .scan r => r.names
  | .getItem r => r.names
  | .batchGet r => r.names
  | .batchWrite _ => []
  | .update r => r.names

/-- The values that a request declares. -/
def values : Request → Dict Value
  | .query r => r.values
  | .scan r => r.values
  | .getItem _ => []
  | .batchGet _ => []
  | .batchWrite _ => []
  | .update r => r.values

/-- **The placeholders that a request declares are those of its expressions**: none dangles, and
none is unused. -/
structure IsClosed (r : Request) : Prop where
  names : ∀ p, p ∈ r.names.names ↔ isName p = true ∧ ∃ t ∈ r.texts, p ∈ tokens t
  values : ∀ p, p ∈ r.values.names ↔ isValue p = true ∧ ∃ t ∈ r.texts, p ∈ tokens t

/-- In the expressions of a closed request occurs what is declared, and nothing else. -/
theorem IsClosed.mem_tokens_iff {r : Request} (h : r.IsClosed) (p : String) :
    (∃ t ∈ r.texts, p ∈ tokens t) ↔ p ∈ r.names.names ∨ p ∈ r.values.names := by
  rw [h.names, h.values]
  constructor
  · rintro ⟨t, ht, hp⟩
    rcases isName_or_isValue_of_mem_tokens hp with hname | hvalue
    · exact Or.inl ⟨hname, t, ht, hp⟩
    · exact Or.inr ⟨hvalue, t, ht, hp⟩
  · rintro (⟨_, hp⟩ | ⟨_, hp⟩)
    · exact hp
    · exact hp

/-- A request is closed if another one with the same expressions and dictionaries is. -/
theorem IsClosed.congr {r s : Request} (h : r.IsClosed) (htexts : s.texts = r.texts)
    (hnames : s.names = r.names) (hvalues : s.values = r.values) : s.IsClosed := by
  constructor
  · intro p
    rw [hnames, htexts, h.names]
  · intro p
    rw [hvalues, htexts, h.values]

theorem IsClosed.turn {r : PageRequest} (h : r.toRequest.IsClosed) (start : Option Item)
    (limit : Option Int) : (r.turn start limit).toRequest.IsClosed := by
  cases r with
  | query q => exact h.congr rfl rfl rfl
  | scan q => exact h.congr rfl rfl rfl

theorem IsClosed.forSegment {r : ScanRequest} (h : (Request.scan r).IsClosed)
    (segment segments : Nat) (start : Option Item) (limit : Option Int) :
    (Request.scan ((r.forSegment segment segments).turn start limit)).IsClosed :=
  h.congr rfl rfl rfl

end Request

/-! ### Several expressions in one request -/

namespace Expressions

theorem mem_present {e : Expressions} {x : Expression} :
    x ∈ e.present ↔ e.key = some x ∨ e.filter = some x ∨ e.projection = some x ∨
      e.update = some x ∨ e.condition = some x := by
  simp [present, eq_comm]

/-- A request that carries some closed expressions and declares what they declare is closed. -/
theorem request_closed {e : Expressions} {r : Request} (hclosed : ∀ x ∈ e.present, x.Closed)
    (htexts : ∀ p, (∃ t ∈ r.texts, p ∈ tokens t) ↔ ∃ x ∈ e.present, p ∈ tokens x.text)
    (hnames : r.names = e.names) (hvalues : r.values = e.values) : r.IsClosed := by
  constructor
  · intro p
    rw [hnames, htexts]
    refine Dict.mem_names_unite.trans ?_
    constructor
    · rintro ⟨x, hx, hp⟩
      obtain ⟨hname, hp⟩ := ((hclosed x hx).names p).1 hp
      exact ⟨hname, x, hx, hp⟩
    · rintro ⟨hname, x, hx, hp⟩
      exact ⟨x, hx, ((hclosed x hx).names p).2 ⟨hname, hp⟩⟩
  · intro p
    rw [hvalues, htexts]
    refine Dict.mem_names_unite.trans ?_
    constructor
    · rintro ⟨x, hx, hp⟩
      obtain ⟨hvalue, hp⟩ := ((hclosed x hx).values p).1 hp
      exact ⟨hvalue, x, hx, hp⟩
    · rintro ⟨hvalue, x, hx, hp⟩
      exact ⟨x, hx, ((hclosed x hx).values p).2 ⟨hvalue, hp⟩⟩

end Expressions

/-- A request that carries no more than a projection is closed if that is. -/
theorem Request.closed_of_projection {r : Request} {projection : Option Expression}
    (hclosed : ∀ x, projection = some x → x.Closed ∧ x.values = [])
    (htexts : r.texts = (projection.map Expression.text).toList)
    (hnames : r.names = (projection.map Expression.names).getD []) (hvalues : r.values = []) :
    r.IsClosed := by
  cases projection with
  | none =>
      constructor
      · intro p
        rw [hnames, htexts]
        simp [Dict.names]
      · intro p
        rw [hvalues, htexts]
        simp [Dict.names]
  | some x =>
      obtain ⟨hx, hnone⟩ := hclosed x rfl
      constructor
      · intro p
        rw [hnames, htexts]
        simpa using hx.names p
      · intro p
        rw [hvalues, htexts, ← hnone]
        simpa using hx.values p

/-- A projection has no operands. -/
theorem Compiler.projection_values {c : Compiler} {paths : List String} {x : Expression}
    (h : (c.projection paths).1 = some x) : x.values = [] := by
  unfold projection at h
  split at h
  · cases h
  · cases h
    rfl

/-! ### Reads -/

namespace Read

/-- Which expressions a compiled read has. -/
theorem compile_shape {r : Read} {e : Expressions} (h : r.compile = .ok e) :
    e.update = none ∧ e.condition = none ∧ (r.plan.keyConditions = [] → e.key = none) ∧
      (r.projection = [] → e.projection = none) ∧
        ∀ x, e.projection = some x → x.values = [] := by
  unfold compile at h
  rcases h₁ : Compiler.empty.conditions r.plan.keyConditions with ⟨key, c₁⟩
  rcases h₂ : c₁.conditions r.plan.filterConditions with ⟨filter, c₂⟩
  rcases h₃ : c₂.projection r.projection with ⟨projection, c₃⟩
  rcases h₄ : c₃.merge filter r.fragments with ⟨outcome, c₄⟩
  simp only [h₁, h₂, h₃, h₄] at h
  cases outcome with
  | error cause => cases h
  | ok merged =>
      cases h
      refine ⟨rfl, rfl, fun hnone => ?_, fun hnone => ?_, fun x hx => ?_⟩
      · rw [hnone] at h₁
        exact (Prod.mk.inj h₁).1.symm
      · rw [hnone] at h₃
        exact (Prod.mk.inj h₃).1.symm
      · have hfirst : (c₂.projection r.projection).1 = some x := by
          rw [h₃]
          exact hx
        exact Compiler.projection_values hfirst

/-- **The requests for pages are closed.**  If there is a projection, the selection asks for it. -/
theorem request_closed {r : Read} {e : Expressions} {select : Option Selection}
    (h : r.compile = .ok e) (hclosed : ∀ x ∈ e.present, x.Closed)
    (hscan : r.plan.isScan = true → r.plan.keyConditions = [])
    (hselect : r.projection = [] ∨ select = none) : (r.request e select).toRequest.IsClosed := by
  obtain ⟨hupdate, hcondition, hkey, hprojection, _⟩ := compile_shape h
  -- a projection that is left out because of the selection is one that is not there
  have hsent : (if select.getD r.defaultSelection = .specificAttributes then
      e.projection.map Expression.text else none) = e.projection.map Expression.text := by
    split
    · rfl
    · next hother =>
        rcases hselect with hnone | rfl
        · rw [hprojection hnone]
          rfl
        · have hnone : r.projection = [] := by
            by_contra hsome
            apply hother
            simp [defaultSelection, hsome]
          rw [hprojection hnone]
          rfl
  refine Expressions.request_closed hclosed (fun p => ?_) ?_ ?_
  · unfold request
    simp only [hsent]
    split
    · next hscans =>
        simp [PageRequest.toRequest, Request.texts, Expressions.mem_present, hupdate, hcondition,
          hkey (hscan hscans), or_and_right, exists_or]
    · have hempty : ∀ p, p ∈ tokens ((e.key.map Expression.text).getD "") ↔
          ∃ x, e.key = some x ∧ p ∈ tokens x.text := by
        intro p
        cases e.key with
        | none => simp
        | some x => simp
      simp [PageRequest.toRequest, Request.texts, Expressions.mem_present, hupdate, hcondition,
        hempty, or_and_right, exists_or]
  · unfold request
    split
    · rfl
    · rfl
  · unfold request
    split
    · rfl
    · rfl


/-- **The request for one item is closed.** -/
theorem getRequest_closed {r : Read} {e : Expressions} (h : r.compile = .ok e)
    (hclosed : ∀ x ∈ e.present, x.Closed) (key : Item) :
    (Request.getItem (r.getRequest e key)).IsClosed := by
  obtain ⟨_, _, _, _, hvalues⟩ := compile_shape h
  refine Request.closed_of_projection (fun x hx => ⟨?_, hvalues x hx⟩) rfl rfl rfl
  exact hclosed x (Expressions.mem_present.2 (Or.inr (Or.inr (Or.inl hx))))

end Read

/-- **The request for several items is closed.** -/
theorem Batch.GetTemplate.request_closed {t : Batch.GetTemplate} {paths : List String}
    (ht : t.projection = (Compiler.empty.projection paths).1)
    (hpaths : ∀ path ∈ paths, isDocumentPath path = true) (keys : List Item) :
    (Request.batchGet (t.request keys)).IsClosed := by
  have hclosed : ∀ x, t.projection = some x → x.Closed ∧ x.values = [] := by
    intro x hx
    rw [ht] at hx
    exact ⟨Compiler.projection_closed hpaths hx, Compiler.projection_values hx⟩
  exact Request.closed_of_projection hclosed rfl rfl rfl

/-! ### Updates -/

/-- What the request of an update is made of. -/
theorem Update.compile_spec {u : Update} {r : UpdateRequest} (h : u.compile = .ok r) :
    ∃ e, u.expressions u.conditions.conditions u.conditions.fragments = .ok e ∧
      r.update = (e.update.map Expression.text).getD "" ∧
        r.condition = e.condition.map Expression.text ∧ r.names = e.names ∧
          r.values = e.values := by
  unfold Update.compile at h
  cases hparts : u.conditions.parts with
  | error cause => simp [hparts, bind, Except.bind] at h
  | ok parts =>
      obtain rfl := ConditionSet.parts_eq_ok hparts
      simp only [hparts, bind, Except.bind] at h
      split at h
      · cases h
      · split at h
        · cases h
        · split at h
          · cases h
          · split at h
            · cases h
            · split at h
              · cases h
              · next e he =>
                  cases h
                  exact ⟨e, he, rfl, rfl, rfl, rfl⟩

/-- Which expressions an update has. -/
theorem Update.expressions_shape {u : Update} {conditions : List Condition}
    {fragments : List Fragment} {e : Expressions}
    (h : u.expressions conditions fragments = .ok e) :
    e.key = none ∧ e.filter = none ∧ e.projection = none := by
  unfold Update.expressions at h
  simp only at h
  split at h
  · cases h
    exact ⟨rfl, rfl, rfl⟩
  · cases h

/-- **The request of an update is closed.** -/
theorem Update.compile_closed {u : Update} {r : UpdateRequest} (h : u.compile = .ok r)
    (hchanges : ∀ x ∈ u.changes, isDocumentPath x.path = true)
    (hconditions : ∀ x ∈ u.conditions.conditions, x.IsRegular) :
    (Request.update r).IsClosed := by
  obtain ⟨e, he, htext, hcondition, hnames, hvalues⟩ := Update.compile_spec h
  obtain ⟨hkey, hfilter, hprojection⟩ := Update.expressions_shape he
  have hsound := Update.expressions_sound he hchanges hconditions
  refine Expressions.request_closed hsound.closed (fun p => ?_) hnames hvalues
  have hupdate : p ∈ tokens ((e.update.map Expression.text).getD "") ↔
      ∃ x, e.update = some x ∧ p ∈ tokens x.text := by
    cases e.update with
    | none => simp
    | some x => simp
  simp [Request.texts, Expressions.mem_present, htext, hcondition, hkey, hfilter, hprojection,
    hupdate, or_and_right, exists_or]

end Keyspace
