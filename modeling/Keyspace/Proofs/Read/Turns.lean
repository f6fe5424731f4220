import Keyspace.Proofs.World.Sent
import Mathlib.Data.List.Chain
/-!
# The turns of a page loop

A page loop takes turns: each asks for the page behind the key of the page before, and the loop
ends with a page that has no key, with enough items, with a fault or at the deadline.  The turns
make up what the loop sends, and since each of them shows the items it brings, they also tell how
many items the loop had collected when a page was asked for.

Main definitions:

* `Keyspace.Turn` — a turn, with what it sends and brings;
* `Keyspace.PageRequest.IsLoop` — the turns of one loop follow each other.

Main results:

* `Keyspace.PageRequest.items_turns` — **what a loop sends, turn by turn**: it goes on only while
  items are missing, and asks for as many as its limits say;
* `Keyspace.RetryPolicy.run_parts` — tries send one after the other what a try sends.
-/

set_option autoImplicit false

namespace Keyspace

variable {σ α τ : Type}

/-! ### Turns -/

/-- A turn of a page loop: the world in which a page is asked for, the key behind which it starts,
and the number of items to look at. -/
structure Turn (σ : Type) where
  world : World σ
  start : Option Item
  limit : Option Int

namespace Turn

/-- What a turn sends. -/
def sent (r : PageRequest) (t : Turn σ) : Sent :=
  ⟨t.world.now, (r.turn t.start t.limit).toRequest⟩

/-- What comes back, and the world after it. -/
def outcome (store : Store σ) (r : PageRequest) (t : Turn σ) : Except Error Page × World σ :=
  (r.pager store).fetch t.start t.limit t.world

/-- The items that a turn brings; a fault brings none. -/
def items (store : Store σ) (r : PageRequest) (t : Turn σ) : List Item :=
  match (t.outcome store r).1 with
  | .ok page => page.items
  | .error _ => []

/-- A turn goes on behind the page of another one. -/
def Follows (store : Store σ) (r : PageRequest) (t u : Turn σ) : Prop :=
  ∃ page key, t.outcome store r = (.ok page, u.world) ∧ page.next? = some key ∧
    u.start = some key

end Turn

namespace PageRequest

variable {store : Store σ} {r : PageRequest}

/-- **The turns of one loop** that begins behind a key in a world. -/
structure IsLoop (store : Store σ) (r : PageRequest) (start : Option Item) (w : World σ)
    (ts : List (Turn σ)) : Prop where
  first : ∀ t, ts.head? = some t → t.world = w ∧ t.start = start
  follows : ts.IsChain (Turn.Follows store r)

theorem IsLoop.nil (start : Option Item) (w : World σ) : r.IsLoop store start w [] where
  first t ht := by cases ht
  follows := .nil

theorem IsLoop.single (t : Turn σ) : r.IsLoop store t.start t.world [t] where
  first u hu := by cases hu; exact ⟨rfl, rfl⟩
  follows := .singleton t

/-- One turn more in front. -/
theorem IsLoop.cons {t : Turn σ} {page : Page} {key : Item} {w : World σ} {ts : List (Turn σ)}
    (houtcome : t.outcome store r = (.ok page, w)) (hnext : page.next? = some key)
    (h : r.IsLoop store (some key) w ts) : r.IsLoop store t.start t.world (t :: ts) where
  first u hu := by cases hu; exact ⟨rfl, rfl⟩
  follows := by
    refine List.isChain_cons.2 ⟨fun u hu => ?_, h.follows⟩
    obtain ⟨hworld, hstart⟩ := h.first u hu
    exact ⟨page, key, by rw [houtcome, hworld], hnext, hstart⟩

/-- A call for a page sends one request. -/
theorem sent_fetch (store : Store σ) (r : PageRequest) (start : Option Item) (limit : Option Int)
    (w : World σ) :
    ((r.pager store).fetch start limit w).2.sent = w.sent ++ [Turn.sent r ⟨w, start, limit⟩] := by
  cases r with
  | query q => rfl
  | scan q => rfl

/-- What the limits of a loop mean for its turns, when `n` items were collected before the first of
them: at each turn some are missing, and as many are asked for as the limits say. -/
def IsPaced (store : Store σ) (r : PageRequest) (l : PageLimits) (n : Nat)
    (ts : List (Turn σ)) : Prop :=
  ∀ before t after, ts = before ++ t :: after →
    l.reached (n + (before.flatMap (Turn.items store r)).length) = false ∧
      t.limit = l.next (n + (before.flatMap (Turn.items store r)).length)

theorem IsPaced.nil (l : PageLimits) (n : Nat) : r.IsPaced store l n [] := by
  intro before t after h
  simp at h

theorem IsPaced.cons {l : PageLimits} {n : Nat} {t : Turn σ} {ts : List (Turn σ)}
    (hmissing : l.reached n = false) (hlimit : t.limit = l.next n)
    (h : r.IsPaced store l (n + (t.items store r).length) ts) : r.IsPaced store l n (t :: ts) := by
  intro before u after hts
  cases before with
  | nil =>
      obtain ⟨rfl, -⟩ := List.cons.inj hts
      exact ⟨hmissing, hlimit⟩
  | cons first before =>
      obtain ⟨rfl, hrest⟩ := List.cons.inj hts
      rw [List.flatMap_cons, List.length_append, ← Nat.add_assoc]
      exact h before u after hrest

/-- **What a loop sends, turn by turn**, when some items have been collected. -/
theorem collect_turns (store : Store σ) (r : PageRequest) (deadline : Option Nat) (l : PageLimits)
    (start : Option Item) (calls : Nat) (sofar : List Item)
    (hmissing : l.reached sofar.length = false) (w : World σ) :
    ∃ ts, r.IsLoop store start w ts ∧ r.IsPaced store l sofar.length ts ∧
      ((r.pager store).collect deadline l.collector start calls sofar w).2.sent =
        w.sent ++ ts.map (Turn.sent r) := by
  -- the last turn of a loop, whatever it brings
  have hlast : ∀ {start : Option Item} {sofar : List Item} {w w' : World σ}
      {outcome : Except Error Page},
      (r.pager store).fetch start (l.collector.limit sofar) w = (outcome, w') →
      l.reached sofar.length = false →
      ∃ ts, r.IsLoop store start w ts ∧ r.IsPaced store l sofar.length ts ∧
        w'.sent = w.sent ++ ts.map (Turn.sent r) := by
    intro start sofar w w' outcome hfetched hmissing
    have hsent := sent_fetch store r start (l.next sofar.length) w
    rw [show (r.pager store).fetch start (l.next sofar.length) w = (outcome, w')
      from hfetched] at hsent
    exact ⟨[⟨w, start, l.next sofar.length⟩], .single ⟨w, start, _⟩,
      .cons hmissing rfl (.nil l _), hsent⟩
  fun_induction Pager.collect (r.pager store) deadline l.collector start calls sofar w with
  | case1 start calls sofar w late => exact ⟨[], .nil start w, .nil l _, (List.append_nil _).symm⟩
  | case2 start calls sofar w late e w' fetched => exact hlast fetched hmissing
  | case3 start calls sofar w late page w' fetched got full => exact hlast fetched hmissing
  | case4 start calls sofar w late page w' fetched got full next => exact hlast fetched hmissing
  | case5 start calls sofar w late page w' fetched got full key next lower ih =>
      obtain ⟨ts, hloop, hpaced, hsent⟩ := ih (Bool.eq_false_iff.2 full)
      have houtcome : Turn.outcome store r ⟨w, start, l.next sofar.length⟩ = (.ok page, w') :=
        fetched
      have hitems : Turn.items store r ⟨w, start, l.next sofar.length⟩ = page.items := by
        rw [Turn.items, houtcome]
      have hfirst := sent_fetch store r start (l.next sofar.length) w
      rw [show (r.pager store).fetch start (l.next sofar.length) w = (.ok page, w')
        from fetched] at hfirst
      refine ⟨⟨w, start, l.next sofar.length⟩ :: ts, .cons houtcome next hloop,
        .cons hmissing rfl ?_, ?_⟩
      · rw [hitems, ← List.length_append]
        exact hpaced
      · rw [hsent, show w'.sent = _ from hfirst, List.map_cons, List.append_assoc,
          List.singleton_append]

/-- **What a page loop sends, turn by turn.** -/
theorem items_turns (store : Store σ) (r : PageRequest) (deadline : Option Nat) {l : PageLimits}
    (hmissing : l.reached 0 = false) (start : Option Item) (w : World σ) :
    ∃ ts, (r.IsLoop store start w ts ∧ r.IsPaced store l 0 ts) ∧
      ((r.pager store).items deadline l start w).2.sent = w.sent ++ ts.map (Turn.sent r) := by
  obtain ⟨ts, hloop, hpaced, hsent⟩ :=
    collect_turns store r deadline l start 0 [] hmissing w
  exact ⟨ts, ⟨hloop, hpaced⟩, hsent⟩

end PageRequest

/-! ### Tries -/

section

variable {p : RetryPolicy} {deadline : Option Nat} {operation : Operation} {isEmpty : α → Bool}
  {a : Action σ α} {f : τ → Sent} {History : World σ → List τ → Prop}

theorem RetryPolicy.before_parts
    (h : ∀ w, ∃ ts, History w ts ∧ (a w).2.sent = w.sent ++ ts.map f) (deadline : Option Nat)
    (operation : Operation) (attempts : Nat) (w : World σ) :
    ∃ tries : List (List τ), (∀ ts ∈ tries, ∃ v, History v ts) ∧
      (RetryPolicy.before deadline operation attempts a w).2.sent =
        w.sent ++ tries.flatten.map f := by
  unfold RetryPolicy.before
  split
  · exact ⟨[], by simp, (List.append_nil _).symm⟩
  · obtain ⟨ts, hhistory, hsent⟩ := h w
    exact ⟨[ts], by simpa using ⟨w, hhistory⟩, by simpa using hsent⟩

/-- **Tries send one after the other what a try sends.**  Each has a history of its own. -/
theorem RetryPolicy.run_parts
    (h : ∀ w, ∃ ts, History w ts ∧ (a w).2.sent = w.sent ++ ts.map f) (w : World σ) :
    ∃ tries : List (List τ), (∀ ts ∈ tries, ∃ v, History v ts) ∧
      (p.run deadline operation isEmpty a w).2.sent = w.sent ++ tries.flatten.map f := by
  have hfrom : ∀ left w, ∃ tries : List (List τ), (∀ ts ∈ tries, ∃ v, History v ts) ∧
      (p.runFrom deadline operation isEmpty a left w).2.sent =
        w.sent ++ tries.flatten.map f := by
    intro left
    induction left with
    | zero => exact before_parts h deadline operation p.max
    | succ left ih =>
        intro w
        obtain ⟨first, hfirst, hsent⟩ :=
          before_parts h deadline operation (p.max - (left + 1)) w
        unfold RetryPolicy.runFrom
        simp only
        split
        · -- the pause before the next try sends nothing
          obtain ⟨rest, hrest, hmore⟩ := ih ((RetryPolicy.before deadline operation
            (p.max - (left + 1)) a w).2.sleep (p.pause (p.max - (left + 1))))
          refine ⟨first ++ rest, List.forall_mem_append.2 ⟨hfirst, hrest⟩, ?_⟩
          rw [hmore, List.flatten_append, List.map_append, ← List.append_assoc, ← hsent]
          rfl
        · exact ⟨first, hfirst, hsent⟩
  exact hfrom p.max w

end

end Keyspace
