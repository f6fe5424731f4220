import Keyspace.Proofs.Read.Stages
/-!
# The story of a worker

A worker asks for pages, each behind the one before, until a try ends: with the last page, with a
fault, with a crash, or because the deadline has come.  A fault, and under some policies an empty
result, is a reason for another try, which starts over.  What the worker reports follows from its
last try.

Main definitions:

* `Keyspace.Exchange`, `Keyspace.Store.Answers` — requests, and what a store answers to them;
* `Keyspace.SplitScan.Pages`, `Keyspace.SplitScan.Ends` — pages read one behind the other, and how
  a try ends;
* `Keyspace.SplitScan.Own` — requests for a worker's segment, behind its own keys;
* `Keyspace.SplitScan.Tells` — what a worker did until it reported.

Main results:

* `Keyspace.SplitScan.step_within` — a step goes on with the story;
* `Keyspace.SplitScan.work_tells` — **every worker has a story**.
-/

set_option autoImplicit false

namespace Keyspace

variable {σ : Type}

/-! ### Exchanges -/

/-- A request of a worker, and the answer to it. -/
structure Exchange where
  request : ScanRequest
  answer : Except WorkerFault Page

/-- **What a store answers** to some requests, one after the other. -/
inductive Store.Answers (store : Store σ) (s : σ) : List Exchange → σ → Prop
  | none : store.Answers s [] s
  | more {xs : List Exchange} {t : σ} (h : store.Answers s xs t) (r : ScanRequest) :
      store.Answers s (xs ++ [⟨r, (store.scanSegment r t).1.result⟩]) (store.scanSegment r t).2

namespace SplitScan

variable (j : SplitScan σ) (k : Nat)

/-! ### Tries -/

/-- **Pages read one behind the other**, from the start of the segment up to a key: every request
asks for what is behind the key of the page before. -/
inductive Pages : List Exchange → Option Item → List Item → Prop
  | none : Pages [] none []
  | more {xs : List Exchange} {start : Option Item} {items : List Item} {page : Page} {key : Item}
      (h : Pages xs start items) (hnext : page.next? = some key) :
      Pages (xs ++ [⟨j.ask k start, .ok page⟩]) (some key) (items ++ page.items)

/-- **How a try ends**, with `tries` before it: what is reported unless it is tried again. -/
inductive Ends (tries : Nat) : List Exchange → World σ → Except Error (List Item) → Prop
  /-- All pages were read. -/
  | complete {xs : List Exchange} {start : Option Item} {items : List Item} {page : Page}
      {w : World σ} (h : j.Pages k xs start items) (hnext : page.next? = none) :
      Ends tries (xs ++ [⟨j.ask k start, .ok page⟩]) w (.ok (items ++ page.items))
  /-- There was a fault. -/
  | fault {xs : List Exchange} {start : Option Item} {items : List Item} {text : String}
      {w : World σ} (h : j.Pages k xs start items) :
      Ends tries (xs ++ [⟨j.ask k start, .error (.reported text)⟩]) w
        (.error (.segment k (.store ⟨.scan, text⟩)))
  /-- The worker crashed. -/
  | crash {xs : List Exchange} {start : Option Item} {items : List Item} {text : String}
      {w : World σ} (h : j.Pages k xs start items) :
      Ends tries (xs ++ [⟨j.ask k start, .error (.crash text)⟩]) w (.error (.segmentPanic k text))
  /-- The deadline had come. -/
  | late {xs : List Exchange} {start : Option Item} {items : List Item} {w : World σ}
      (h : j.Pages k xs start items) (helapsed : w.elapsed j.deadline = true) :
      Ends tries xs w (.error (.timeout .scan (if xs.length = 0 then tries else xs.length)))

/-- Whether what a try came to is a reason for another one. -/
def again : Except Error (List Item) → Bool
  | .ok items => j.retry.onEmpty && items.isEmpty
  | .error (.segment _ _) => true
  | .error _ => false

/-! ### Requests of a worker's own -/

/-- **Requests of a worker's own**: all are for its segment, and each asks for the start of the
segment or for what is behind a key of one of the pages. -/
def Own (xs : List Exchange) : Prop :=
  ∀ x ∈ xs, x.request.segment = some (k : Int) ∧ x.request.segments = some (j.segments : Int) ∧
    ∀ key, x.request.start = some key →
      ∃ y ∈ xs, ∃ page, y.answer = .ok page ∧ page.next? = some key

variable {j k}

theorem Own.flatten {xss : List (List Exchange)} (h : ∀ xs ∈ xss, j.Own k xs) :
    j.Own k xss.flatten := by
  intro x hx
  obtain ⟨xs, hxs, hx⟩ := List.mem_flatten.1 hx
  obtain ⟨hsegment, hsegments, hkey⟩ := h xs hxs x hx
  refine ⟨hsegment, hsegments, fun key hstart => ?_⟩
  obtain ⟨y, hy, hpage⟩ := hkey key hstart
  exact ⟨y, List.mem_flatten_of_mem hxs hy, hpage⟩

/-- The key that pages lead to is a key of the last of them. -/
theorem Pages.exists_page {xs : List Exchange} {start : Option Item} {items : List Item}
    (h : j.Pages k xs start items) (key : Item) (hstart : start = some key) :
    ∃ y ∈ xs, ∃ page, y.answer = .ok page ∧ page.next? = some key := by
  cases h with
  | none => cases hstart
  | @more _ _ _ page _ _ hnext =>
      cases hstart
      exact ⟨_, List.mem_append_right _ (List.mem_singleton.2 rfl), page, rfl, hnext⟩

/-- One request more, behind the pages that were read. -/
theorem Own.ask {xs : List Exchange} {start : Option Item} {items : List Item}
    (hown : j.Own k xs) (hpages : j.Pages k xs start items) (answer : Except WorkerFault Page) :
    j.Own k (xs ++ [⟨j.ask k start, answer⟩]) := by
  intro x hx
  have hkeys : ∀ key, x.request.start = some key →
      ∃ y ∈ xs, ∃ page, y.answer = .ok page ∧ page.next? = some key := by
    intro key hstart
    rcases List.mem_append.1 hx with hx | hx
    · exact (hown x hx).2.2 key hstart
    · obtain rfl := List.mem_singleton.1 hx
      exact hpages.exists_page key hstart
  have hsegment : x.request.segment = some (k : Int) ∧
      x.request.segments = some (j.segments : Int) := by
    rcases List.mem_append.1 hx with hx | hx
    · exact ⟨(hown x hx).1, (hown x hx).2.1⟩
    · obtain rfl := List.mem_singleton.1 hx
      exact ⟨rfl, rfl⟩
  refine ⟨hsegment.1, hsegment.2, fun key hstart => ?_⟩
  obtain ⟨y, hy, hpage⟩ := hkeys key hstart
  exact ⟨y, List.mem_append_left _ hy, hpage⟩

theorem Pages.own {xs : List Exchange} {start : Option Item} {items : List Item}
    (h : j.Pages k xs start items) : j.Own k xs := by
  induction h with
  | none => intro x hx; cases hx
  | more h hnext ih => exact ih.ask h _

theorem Ends.own {n : Nat} {xs : List Exchange} {w : World σ}
    {outcome : Except Error (List Item)} (h : j.Ends k n xs w outcome) : j.Own k xs := by
  cases h with
  | complete h hnext => exact h.own.ask h _
  | fault h => exact h.own.ask h _
  | crash h => exact h.own.ask h _
  | late h helapsed => exact h.own

variable (j k)

/-! ### Stories -/

/-- What a worker did between two worlds: some tries that were followed by another one, and then
some more exchanges. -/
structure Past (w : World σ) (tries : List (List Exchange)) (last : List Exchange)
    (w' : World σ) : Prop where
  answers : j.store.Answers w.store (tries.flatten ++ last) w'.store
  sent : ∃ more, w'.sent = w.sent ++ more ∧
    more.map Sent.request = (tries.flatten ++ last).map fun x => .scan x.request
  repeated : ∀ xs ∈ tries, ∃ n v outcome, j.Ends k n xs v outcome ∧ j.again outcome = true

/-- **What a worker did until it reported**, with requests of its own: as many tries as its policy
allows, or fewer if there was no reason for another one. -/
def Tells (w : World σ) (outcome : Except Error (List Item)) (w' : World σ) : Prop :=
  ∃ tries last, j.Past k w tries last w' ∧ j.Own k (tries.flatten ++ last) ∧
    tries.length ≤ j.retry.max ∧ j.Ends k tries.length last w' outcome ∧
      (tries.length = j.retry.max ∨ j.again outcome = false)

/-- The story of a worker up to some stage. -/
def Within (w : World σ) : Stage × World σ → Prop
  | (.reading left start calls sofar, w') =>
    ∃ tries last, j.Past k w tries last w' ∧ tries.length + left = j.retry.max ∧
      j.Pages k last start sofar ∧ last.length = calls
  | (.done outcome, w') => j.Tells k w outcome w'

variable {j k}

namespace Past

variable {w w' : World σ} {tries : List (List Exchange)} {last : List Exchange}

/-- Nothing was done yet. -/
theorem none (w : World σ) : j.Past k w [] [] w where
  answers := .none
  sent := ⟨[], by simp, by simp⟩
  repeated := by simp

/-- One request more. -/
theorem call (h : j.Past k w tries last w') (start : Option Item) :
    j.Past k w tries (last ++ [⟨j.ask k start, (j.call k start w').1⟩]) (j.call k start w').2 where
  answers := by
    rw [← List.append_assoc]
    exact h.answers.more (j.ask k start)
  sent := by
    obtain ⟨more, hsent, hrequests⟩ := h.sent
    refine ⟨more ++ [⟨w'.now, .scan (j.ask k start)⟩], ?_, ?_⟩
    · rw [SplitScan.call, World.call_sent, hsent, List.append_assoc]
    · simp [hrequests]
  repeated := h.repeated

/-- A pause before the next try. -/
theorem again (h : j.Past k w tries last w') {n : Nat} {outcome : Except Error (List Item)}
    (hends : j.Ends k n last w' outcome) (hagain : j.again outcome = true) (duration : Nat) :
    j.Past k w (tries ++ [last]) [] (w'.sleep duration) where
  answers := by simpa [World.sleep] using h.answers
  sent := by simpa [World.sleep] using h.sent
  repeated := by
    intro xs hxs
    rcases List.mem_append.1 hxs with hxs | hxs
    · exact h.repeated xs hxs
    · obtain rfl := List.mem_singleton.1 hxs
      exact ⟨n, w', outcome, hends, hagain⟩

/-- **All requests of a worker are its own.** -/
theorem own (h : j.Past k w tries last w') (hlast : j.Own k last) :
    j.Own k (tries.flatten ++ last) := by
  have hflat : tries.flatten ++ last = (tries ++ [last]).flatten := by simp
  rw [hflat]
  refine Own.flatten fun xs hxs => ?_
  rcases List.mem_append.1 hxs with hxs | hxs
  · obtain ⟨n, v, outcome, hends, _⟩ := h.repeated xs hxs
    exact hends.own
  · obtain rfl := List.mem_singleton.1 hxs
    exact hlast

end Past

/-- A try is repeated for the reasons for which an action is. -/
theorem again_fault (fault : WorkerFault) :
    j.again (.error (segmentError k (fault.toError k))) =
      j.retry.wantsMore List.isEmpty (.error (fault.toError k) : Except Error (List Item)) := by
  cases fault with
  | reported text => rfl
  | crash text => rfl

/-- **The end of a try goes on with the story**: there is another try, or a report. -/
theorem settle_within {w w' : World σ} {tries : List (List Exchange)} {last : List Exchange}
    {left : Nat} {outcome : Except Error (List Item)} (h : j.Past k w tries last w')
    (hleft : tries.length + left = j.retry.max)
    (hends : j.Ends k tries.length last w' (outcome.mapError (segmentError k)))
    (hagain : j.again (outcome.mapError (segmentError k)) =
      j.retry.wantsMore List.isEmpty outcome) :
    j.Within k w (j.settle k left outcome w') := by
  cases left with
  | zero => exact ⟨tries, last, h, h.own hends.own, by omega, hends, Or.inl hleft⟩
  | succ left =>
      unfold settle
      cases hmore : j.retry.wantsMore List.isEmpty outcome with
      | true =>
          rw [hmore] at hagain
          exact ⟨tries ++ [last], [], h.again hends hagain _, by simp; omega, .none, rfl⟩
      | false =>
          rw [hmore] at hagain
          exact ⟨tries, last, h, h.own hends.own, by omega, hends, Or.inr hagain⟩

/-- **A step goes on with the story.** -/
theorem step_within {w : World σ} {x : Stage × World σ} (h : j.Within k w x) :
    j.Within k w (j.step k x) := by
  obtain ⟨stage, w'⟩ := x
  cases stage with
  | done outcome => exact h
  | reading left start calls sofar =>
      obtain ⟨tries, last, hpast, hleft, hpages, hcalls⟩ := h
      cases helapsed : w'.elapsed j.deadline with
      | true =>
          rw [step_late helapsed]
          refine settle_within hpast hleft ?_ rfl
          have htries : j.retry.max - left = tries.length := by omega
          rw [htries, ← hcalls]
          exact .late hpages helapsed
      | false =>
          rw [step_early helapsed]
          have hmore := hpast.call start
          generalize (j.call k start w').2 = v at hmore ⊢
          generalize (j.call k start w').1 = answer at hmore ⊢
          cases answer with
          | error fault =>
              refine settle_within hmore hleft ?_ (again_fault fault)
              cases fault with
              | reported text => exact .fault hpages
              | crash text => exact .crash hpages
          | ok page =>
              cases hnext : page.next? with
              | none =>
                  rw [receive_last _ _ _ hnext]
                  exact settle_within hmore hleft (.complete hpages hnext) rfl
              | some key =>
                  rw [receive_page _ _ _ hnext]
                  exact ⟨tries, _, hmore, hleft, .more hpages hnext, by simp [hcalls]⟩

theorem iterate_within {w : World σ} {x : Stage × World σ} (h : j.Within k w x) (n : Nat) :
    j.Within k w ((j.step k)^[n] x) := by
  induction n with
  | zero => exact h
  | succ n ih =>
      rw [Function.iterate_succ_apply']
      exact step_within ih

/-- **Every worker has a story.** -/
theorem work_tells (j : SplitScan σ) (k : Nat) (w : World σ) :
    j.Tells k w (j.work k w).1 (j.work k w).2 := by
  obtain ⟨n, hn⟩ := steps_work j k w
  have hstart : j.Within k w (j.start, w) := ⟨[], [], .none w, by simp, .none, rfl⟩
  have hdone := iterate_within hstart n
  rwa [hn] at hdone

end SplitScan

end Keyspace
