import Keyspace.Proofs.Query.Prepared
import Keyspace.Proofs.Read.Listing
/-!
# What a query reads

A query without a deadline, which may be tried as often as there are faults, reads exactly what the
store lists for its request: all matching records behind its start in their order, or as many of
them as it is limited to, or the first one.  The size of the pages and the places of the faults
make no difference.

Main results:

* `Keyspace.RetryPolicy.run_of_faults` — **enough tries get through**;
* `Keyspace.Query.reads_its_listing` — **all values, and the first value, of a query**.
-/

set_option autoImplicit false

namespace Keyspace

variable {σ α β : Type}

/-! ### Trying again -/

/-- **Enough tries get through**: an action that brings the same whenever it meets no fault brings
it in the end. -/
theorem RetryPolicy.run_of_faults {policy : RetryPolicy} (hempty : policy.onEmpty = false)
    (operation : Operation) (isEmpty : β → Bool) {action : Action σ β} {x : β} {faults : σ → Nat}
    (haction : ∀ w : World σ, (action w).1 = .ok x ∨ ∃ e, (action w).1 = .error e ∧
      e.isStore = true ∧ faults (action w).2.store < faults w.store)
    (w : World σ) (hfaults : faults w.store ≤ policy.max) :
    (policy.run none operation isEmpty action w).1 = .ok x := by
  have hfrom : ∀ left w, faults w.store ≤ left →
      (policy.runFrom none operation isEmpty action left w).1 = .ok x := by
    intro left
    -- each try that fails uses up a fault, so the faults left are as many as the tries left
    induction left with
    | zero =>
        intro w hnone
        rcases haction w with hok | ⟨e, _, _, hfewer⟩
        · exact hok
        · omega
    | succ left ih =>
        intro w hleft
        unfold RetryPolicy.runFrom
        simp only
        rw [show RetryPolicy.before none operation (policy.max - (left + 1)) action w = action w
          from rfl]
        rcases haction w with hok | ⟨e, he, hstore, hfewer⟩
        · rcases hran : action w with ⟨outcome, w'⟩
          rw [hran] at hok
          simp only at hok ⊢
          rw [hok, if_neg]
          simp [RetryPolicy.wantsMore, hempty]
        · rcases hran : action w with ⟨outcome, w'⟩
          rw [hran] at he hfewer
          simp only at he hfewer ⊢
          have hmore : policy.wantsMore isEmpty (.error e : Except Error β) = true := hstore
          rw [he, if_pos hmore]
          refine ih _ ?_
          show faults w'.store ≤ left
          omega
  exact hfrom policy.max w hfaults

/-! ### Reads and queries -/

/-- The items of a prepared read, at most `cap` of them. -/
theorem PreparedRead.items_of_listing {l : Listing} {store : Store σ} {p : PreparedRead}
    {faults : σ → Nat} (h : l.ServedBy store p.request faults) (hdeadline : p.deadline = none)
    (hempty : p.retry.onEmpty = false) (hpage : ∀ most, p.pageSize = some most → 1 ≤ most)
    (cap : Option Nat) (w : World σ) (hfaults : faults w.store ≤ p.retry.max) :
    (p.items store cap w).1 =
      .ok ((p.limits cap).cut (Listing.matching (l.behind p.read.start))) := by
  unfold PreparedRead.items
  rw [hdeadline]
  refine RetryPolicy.run_of_faults hempty _ _ (fun w => ?_) w hfaults
  exact Listing.items_spec h hpage p.read.start w

namespace Query

/-- The items that are wanted of some. -/
def wanted (limit : Option Int) (items : List Item) : List Item :=
  match limit with
  | some most => items.take most.toNat
  | none => items

/-- **A query reads its listing**: all its values, and the first one. -/
theorem reads_its_listing {q : Query} {p : PreparedRead} (hp : q.prepare = .ok p) {l : Listing}
    {store : Store σ} {faults : σ → Nat} (hserved : l.ServedBy store p.request faults)
    (hdeadline : q.deadline = none) (hempty : q.retry.onEmpty = false)
    (hpage : ∀ most, q.pageSize = some most → 1 ≤ most) (m : Model α) (w : World σ)
    (hfaults : faults w.store ≤ q.retry.max) :
    (p.read.isParallel = false →
      (q.all m store w).1 =
        m.decodeAll (wanted q.limit (Listing.matching (l.behind p.read.start)))) ∧
    (p.read.pointKey? = none →
      (q.first m store w).1 =
        (Listing.matching (l.behind p.read.start)).head?.mapM m.decode) := by
  obtain ⟨hbuild, _, hretry, hprepared, hsize⟩ := prepare_spec hp
  obtain ⟨plan, start, _, hread⟩ := build_spec hbuild
  have hitems : ∀ cap, (p.items store cap w).1 =
      .ok ((p.limits cap).cut (Listing.matching (l.behind p.read.start))) := by
    intro cap
    refine PreparedRead.items_of_listing hserved ?_ ?_ ?_ cap w ?_
    · rw [hprepared, hdeadline]
    · rw [hretry, hempty]
    · rw [hsize]
      exact hpage
    · rw [hretry]
      exact hfaults
  constructor
  · intro hparallel
    have hwanted : (p.limits (p.read.limit.map Int.toNat)).cut
        (Listing.matching (l.behind p.read.start)) =
          wanted q.limit (Listing.matching (l.behind p.read.start)) := by
      rw [show p.read.limit = q.limit by rw [hread]]
      cases q.limit with
      | none => rfl
      | some most => rfl
    rw [all_eq hp hparallel, reading_fst, hitems, hwanted]
    rfl
  · intro hpoint
    have hhead : ((p.limits (some 1)).cut (Listing.matching (l.behind p.read.start))).head? =
        (Listing.matching (l.behind p.read.start)).head? := by
      rw [show (p.limits (some 1)).cut (Listing.matching (l.behind p.read.start)) =
        (Listing.matching (l.behind p.read.start)).take 1 from rfl, List.head?_take]
      rfl
    rw [first_eq hp hpoint, reading_fst, reading_fst, hitems, ← hhead]
    rfl

end Query

/-! ### A library -/

namespace Library

/-- Two books, one of which matches. -/
def shelf : Listing where
  records := [⟨[("owner", .text "ann")], false⟩, ⟨[("owner", .text "bob")], true⟩]
  position := List.length

/-- The page with the next book. -/
def nextBook (start : Option Item) : Page :=
  { items := Listing.matching ((shelf.behind start).take 1)
    count := 1
    scanned := 1
    last :=
      if 1 < (shelf.behind start).length then
        some (List.replicate (shelf.offset start + 1) ("owner", .null true))
      else none }

/-- A store that is busy some more times, and then shows one book at a time. -/
def shown (start : Option Item) : Nat → Reply String Page × Nat
  | 0 => ({ result := .ok (nextBook start) }, 0)
  | busy + 1 => ({ result := .error "busy" }, busy)

theorem behind_next {start : Option Item} {key : Item} (h : (nextBook start).next? = some key) :
    1 < (shelf.behind start).length ∧ key.length = shelf.offset start + 1 := by
  unfold nextBook at h
  split at h
  · next hmore =>
      refine ⟨hmore, ?_⟩
      simp only [Page.next?, Option.filter_eq_some_iff, Option.some.injEq] at h
      rw [← h.1, List.length_replicate]
  · cases h

theorem length_behind_next {start : Option Item} {key : Item}
    (h : (nextBook start).next? = some key) :
    (shelf.behind (some key)).length < (shelf.behind start).length := by
  obtain ⟨hmore, hkey⟩ := behind_next h
  unfold Listing.behind at hmore ⊢
  rw [List.length_drop] at hmore ⊢
  rw [show shelf.offset (some key) = key.length from rfl, hkey, List.length_drop]
  omega

/-- A page that is shown leaves fewer books behind its key. -/
theorem length_behind_shown {start : Option Item} {busy : Nat} {page : Page} {key : Item}
    (hok : (shown start busy).1.result = .ok page) (hnext : page.next? = some key) :
    (shelf.behind (some key)).length < (shelf.behind start).length := by
  cases busy with
  | zero => cases hok; exact length_behind_next hnext
  | succ busy => cases hok

/-- The store of the shelf.  Nothing but pages can be read. -/
def store : Store Nat :=
  { closed with
    query := fun r => shown r.start
    scan := fun r => shown r.start
    rank := fun _ start _ => (shelf.behind start).length
    rank_query := fun _ _ _ _ _ _ hok hnext => length_behind_shown hok hnext
    rank_scan := fun _ _ _ _ _ _ hok hnext => length_behind_shown hok hnext
    rank_scanSegment := fun _ _ _ _ _ _ hok _ => by cases hok }

theorem nextBook_shows (start : Option Item) {limit : Option Int}
    (hlimit : ∀ most, limit = some most → 1 ≤ most) :
    shelf.Shows start limit (nextBook start) (min 1 (shelf.behind start).length) where
  bound := Nat.min_le_right _ _
  advances hsome := by
    have hpos := List.length_pos_iff.2 hsome
    omega
  limited most hmost := by
    have hone := hlimit most hmost
    omega
  items := by
    show Listing.matching ((shelf.behind start).take 1) = _
    rw [List.take_eq_take_min]
  remains hmore := by
    unfold nextBook
    rw [if_pos (by omega)]
    rfl
  key key hkey := by
    obtain ⟨hmore, hlength⟩ := behind_next hkey
    show key.length = _
    omega

theorem shelf_served (r : PageRequest) : shelf.ServedBy store r id := by
  have hanswer : ∀ start limit, (r.turn start limit).answer store = shown start := by
    intro start limit
    cases r with
    | query q => rfl
    | scan q => rfl
  constructor
  · intro start limit n page hlimit hok
    rw [hanswer] at hok ⊢
    cases n with
    | zero =>
        cases hok
        exact ⟨⟨_, nextBook_shows start hlimit⟩, Nat.le_refl _⟩
    | succ n => cases hok
  · intro start limit n text _ herror
    rw [hanswer] at herror ⊢
    cases n with
    | zero => cases herror
    | succ n => exact Nat.lt_succ_self n

/-- One book. -/
def oneBook : Query :=
  { schema := { table := "library", partitionKey := "owner" }, limit := some 1
    retry := { max := 1 } }

end Library

/-- A query that meets a fault and a page without items before it finds its book. -/
theorem library_reads_its_listing :
    (Library.oneBook.all (.dynamic "library" Library.oneBook.schema) Library.store
        { store := 1 }).1 = .ok [.map [(.text "owner", .text "bob")]] ∧
      (Library.oneBook.first (.dynamic "library" Library.oneBook.schema) Library.store
        { store := 1 }).1 = .ok (some (.map [(.text "owner", .text "bob")])) := by
  obtain ⟨p, hp, hstart, hparallel, hpoint⟩ : ∃ p, Library.oneBook.prepare = .ok p ∧
      p.read.start = none ∧ p.read.isParallel = false ∧ p.read.pointKey? = none :=
    ⟨_, rfl, rfl, rfl, rfl⟩
  have hpage : ∀ most, Library.oneBook.pageSize = some most → 1 ≤ most := by
    intro most hmost
    cases hmost
  obtain ⟨hall, hfirst⟩ := Query.reads_its_listing hp (Library.shelf_served p.request) rfl rfl
    hpage (.dynamic "library" Library.oneBook.schema) { store := 1 } (Nat.le_refl 1)
  rw [hall hparallel, hfirst hpoint, hstart]
  exact ⟨rfl, rfl⟩

end Keyspace
