import Keyspace.Proofs.Plan.Positions
import Keyspace.Proofs.World.Deadline
/-!
# Actions side by side

Two actions that are run side by side, each on a store of its own, have outcomes that are related if
their single calls have: trying again and reading page by page ask the same questions of both.  The
stores may go their own ways as long as they stay related, and the clocks have to agree only if
there is a deadline.

Main definitions:

* `Keyspace.World.Abreast` — two worlds whose stores are related, and whose times are the same if
  that matters.

Main results:

* `Keyspace.RetryPolicy.run_abreast` — **tries side by side**;
* `Keyspace.Pager.collect_abreast` — **pages side by side**.
-/

set_option autoImplicit false

namespace Keyspace

variable {σ τ α β γ : Type}

/-- **Worlds with related stores.**  If there is a deadline the time is the same in both. -/
structure World.Abreast (R : σ → τ → Prop) (deadline : Option Nat) (w : World σ) (v : World τ) :
    Prop where
  store : R w.store v.store
  now : deadline ≠ none → w.now = v.now

namespace World.Abreast

variable {R : σ → τ → Prop} {deadline : Option Nat} {w : World σ} {v : World τ}

/-- The deadline has come in both worlds or in none. -/
theorem elapsed (h : w.Abreast R deadline v) : w.elapsed deadline = v.elapsed deadline := by
  cases deadline with
  | none => rfl
  | some limit =>
      unfold World.elapsed
      rw [h.now (Option.some_ne_none limit)]

/-- After the same pause two worlds are still abreast. -/
theorem sleep (h : w.Abreast R deadline v) (duration : Nat) :
    (w.sleep duration).Abreast R deadline (v.sleep duration) where
  store := h.store
  now hdeadline := congrArg (· + duration) (h.now hdeadline)

/-- After two calls that leave related stores, and take the same time if there is a deadline, two
worlds are still abreast. -/
theorem call {ε ζ : Type} (h : w.Abreast R deadline v) {r : Request} {s : Request}
    {answer : σ → Reply ε α × σ} {answer' : τ → Reply ζ β × τ}
    (hstore : R (answer w.store).2 (answer' v.store).2)
    (hdelay : deadline ≠ none → (answer w.store).1.delay = (answer' v.store).1.delay) :
    (w.call r answer).2.Abreast R deadline (v.call s answer').2 where
  store := hstore
  now hdeadline := by
    show w.now + (answer w.store).1.delay = v.now + (answer' v.store).1.delay
    rw [h.now hdeadline, hdelay hdeadline]

end World.Abreast

/-! ### Tries -/

/-- **Tries side by side**: if single tries have related outcomes, and leave worlds that are abreast
whenever there is a reason to try again, all tries together have related outcomes. -/
theorem RetryPolicy.run_abreast {p : RetryPolicy} {deadline : Option Nat}
    {operation operation' : Operation} {isEmpty : α → Bool} {isEmpty' : β → Bool}
    {a : Action σ α} {b : Action τ β} {R : σ → τ → Prop}
    {S : Except Error α → Except Error β → Prop}
    (htry : ∀ (w : World σ) (v : World τ), w.Abreast R deadline v → w.elapsed deadline = false →
      S (a w).1 (b v).1 ∧
        (p.wantsMore isEmpty (a w).1 = true → (a w).2.Abreast R deadline (b v).2))
    (hreason : ∀ x y, S x y → p.wantsMore isEmpty x = p.wantsMore isEmpty' y)
    (hlate : deadline ≠ none → ∀ attempts, S (.error (.timeout operation attempts))
      (.error (.timeout operation' attempts)))
    {w : World σ} {v : World τ} (h : w.Abreast R deadline v) :
    S (p.run deadline operation isEmpty a w).1 (p.run deadline operation' isEmpty' b v).1 := by
  have hcome : ∀ {w : World σ}, w.elapsed deadline = true → deadline ≠ none := by
    rintro w helapsed rfl
    cases helapsed
  unfold run
  induction p.max generalizing w v with
  | zero =>
      unfold runFrom
      cases helapsed : w.elapsed deadline with
      | true =>
          rw [before_late operation _ a helapsed,
            before_late operation' _ b (h.elapsed.symm.trans helapsed)]
          exact hlate (hcome helapsed) _
      | false =>
          rw [before_early operation _ a helapsed,
            before_early operation' _ b (h.elapsed.symm.trans helapsed)]
          exact (htry w v h helapsed).1
  | succ left ih =>
      unfold runFrom
      cases helapsed : w.elapsed deadline with
      | true =>
          simp only [before_late operation _ a helapsed,
            before_late operation' _ b (h.elapsed.symm.trans helapsed), wantsMore, Error.isStore,
            Bool.false_eq_true, if_false]
          exact hlate (hcome helapsed) _
      | false =>
          obtain ⟨houtcome, hmore⟩ := htry w v h helapsed
          simp only [before_early operation _ a helapsed,
            before_early operation' _ b (h.elapsed.symm.trans helapsed),
            ← hreason _ _ houtcome]
          split
          · next hagain => exact ih ((hmore hagain).sleep _)
          · exact houtcome

/-! ### Pages -/

/-- Two sources of pages side by side: pages that are related, whatever was fetched before. -/
structure Pager.Abreast (p : Pager σ) (p' : Pager τ) (R : σ → τ → Prop) (deadline : Option Nat)
    (P : Page → Page → Prop) : Prop where
  operation : p.operation = p'.operation
  fetch : ∀ start limit (w : World σ) (v : World τ), w.Abreast R deadline v →
    AlikeOutcomes P (p.fetch start limit w).1 (p'.fetch start limit v).1 ∧
      (p.fetch start limit w).2.Abreast R deadline (p'.fetch start limit v).2
  next : ∀ page page', P page page' → page.next? = page'.next?

/-- Two ways to put pages together, side by side. -/
structure Collector.Abreast (c : Collector β) (c' : Collector γ) (P : Page → Page → Prop)
    (T : β → γ → Prop) : Prop where
  limit : ∀ x y, T x y → c.limit x = c'.limit y
  add : ∀ x y page page', T x y → P page page' → T (c.add x page) (c'.add y page')
  full : ∀ x y, T x y → c.full x = c'.full y

section

variable {p : Pager σ} {p' : Pager τ} {R : σ → τ → Prop} {deadline : Option Nat}
  {P : Page → Page → Prop} (hpages : p.Abreast p' R deadline P) {start : Option Item}
  {limit : Option Int} {w w' : World σ} {v : World τ} (h : w.Abreast R deadline v)
include hpages h

/-- Beside a page there is a page. -/
theorem Pager.Abreast.page {page : Page} (fetched : p.fetch start limit w = (.ok page, w')) :
    ∃ page' v', p'.fetch start limit v = (.ok page', v') ∧ P page page' ∧
      w'.Abreast R deadline v' := by
  obtain ⟨houtcome, hafter⟩ := hpages.fetch start limit w v h
  rw [fetched] at houtcome hafter
  obtain ⟨page', hpage', hrelated⟩ := houtcome.exists_of_ok rfl
  exact ⟨page', _, Prod.ext hpage' rfl, hrelated, hafter⟩

/-- Beside an error there is the same error. -/
theorem Pager.Abreast.fault {e : Error} (fetched : p.fetch start limit w = (.error e, w')) :
    ∃ v', p'.fetch start limit v = (.error e, v') ∧ w'.Abreast R deadline v' := by
  obtain ⟨houtcome, hafter⟩ := hpages.fetch start limit w v h
  rw [fetched] at houtcome hafter
  generalize hfetched : (p'.fetch start limit v).1 = outcome at houtcome
  cases houtcome with
  | error => exact ⟨_, Prod.ext hfetched rfl, hafter⟩

end

/-- The next page, and what comes after it. -/
theorem Pager.collect_eq {p : Pager σ} {deadline : Option Nat} {w : World σ}
    (h : w.elapsed deadline = false) (c : Collector β) (start : Option Item) (calls : Nat)
    (sofar : β) :
    p.collect deadline c start calls sofar w =
      match p.fetch start (c.limit sofar) w with
      | (.error e, w') => (.error e, w')
      | (.ok page, w') =>
        if c.full (c.add sofar page) then (.ok (c.add sofar page), w')
        else
          match page.next? with
          | none => (.ok (c.add sofar page), w')
          | some key => p.collect deadline c (some key) (calls + 1) (c.add sofar page) w' := by
  rw [Pager.collect, if_neg (Bool.eq_false_iff.1 h)]
  split
  · next e w' fetched => rw [fetched]
  · next page w' fetched =>
      conv_rhs => rw [fetched]
      simp only
      split
      · rfl
      · split
        · next hnext => rw [hnext]
        · next key hnext => rw [hnext]

/-- **Pages side by side**: what is made of related pages is related. -/
theorem Pager.collect_abreast {p : Pager σ} {p' : Pager τ} {R : σ → τ → Prop}
    {deadline : Option Nat} {P : Page → Page → Prop} (hpages : p.Abreast p' R deadline P)
    {c : Collector β} {c' : Collector γ} {T : β → γ → Prop} (hadds : c.Abreast c' P T)
    (start : Option Item) (calls : Nat) {sofar : β} {sofar' : γ} (hsofar : T sofar sofar')
    {w : World σ} {v : World τ} (h : w.Abreast R deadline v) :
    AlikeOutcomes T (p.collect deadline c start calls sofar w).1
        (p'.collect deadline c' start calls sofar' v).1 ∧
      (p.collect deadline c start calls sofar w).2.Abreast R deadline
        (p'.collect deadline c' start calls sofar' v).2 := by
  fun_induction Pager.collect p deadline c start calls sofar w generalizing sofar' v
  case case1 start calls sofar w late =>
    unfold Pager.collect
    rw [if_pos (h.elapsed.symm.trans late), hpages.operation]
    exact ⟨.error _, h⟩
  case case2 start calls sofar w late e w' fetched =>
    obtain ⟨v', fetched', hafter⟩ := hpages.fault h fetched
    rw [collect_eq (h.elapsed.symm.trans (Bool.eq_false_iff.2 late)),
      ← hadds.limit _ _ hsofar, fetched']
    exact ⟨.error e, hafter⟩
  case case3 start calls sofar w late page w' fetched got full =>
    obtain ⟨page', v', fetched', hpage, hafter⟩ := hpages.page h fetched
    have hgot : T got (c'.add sofar' page') := hadds.add _ _ _ _ hsofar hpage
    rw [collect_eq (h.elapsed.symm.trans (Bool.eq_false_iff.2 late)),
      ← hadds.limit _ _ hsofar, fetched']
    simp only [← hadds.full _ _ hgot, full, if_true]
    exact ⟨.ok hgot, hafter⟩
  case case4 start calls sofar w late page w' fetched got full next =>
    obtain ⟨page', v', fetched', hpage, hafter⟩ := hpages.page h fetched
    have hgot : T got (c'.add sofar' page') := hadds.add _ _ _ _ hsofar hpage
    rw [collect_eq (h.elapsed.symm.trans (Bool.eq_false_iff.2 late)),
      ← hadds.limit _ _ hsofar, fetched']
    simp only [← hadds.full _ _ hgot, full, ← hpages.next _ _ hpage, next]
    exact ⟨.ok hgot, hafter⟩
  case case5 start calls sofar w late page w' fetched got full key next lower ih =>
    obtain ⟨page', v', fetched', hpage, hafter⟩ := hpages.page h fetched
    have hgot : T got (c'.add sofar' page') := hadds.add _ _ _ _ hsofar hpage
    rw [collect_eq (h.elapsed.symm.trans (Bool.eq_false_iff.2 late)),
      ← hadds.limit _ _ hsofar, fetched']
    simp only [← hadds.full _ _ hgot, full, ← hpages.next _ _ hpage, next]
    exact ih hgot hafter

end Keyspace
