import Keyspace.Proofs.Expression.Compiled
/-!
# Calls of one compiler

A compiler is called any number of times, in any order, and some of the calls fail.  What a call
returns may be merged with fragments by a later one.  Generated placeholders are numbered, and
what fragments bring is new when they bring it; but no number is passed over because a fragment
brought its placeholder before.  So placeholders are kept apart if the accepted fragments bring
none that the compiler generates in one of the calls, as when fragments are merged last.  Nothing is
checked of the expression that fragments are merged with, so it has to be one of the compiler's own.

Main definitions:

* `Keyspace.Compiler.Call`, `Keyspace.Compiler.History` — calls, and what they have returned;
* `Keyspace.Compiler.History.KeepsApart` — what accepted fragments bring is not generated;
* `Keyspace.Compiler.History.Unambiguous` — **no placeholder has two targets in what was
  returned**.

Main results:

* `Keyspace.Compiler.History.Accounts.call` — what each call adds to the account of operands and
  fragments;
* `Keyspace.Compiler.History.keepsApart_of_merges_last` — fragments that are merged last;
* `Keyspace.Compiler.never_issues_twice` — **no placeholder is issued for two targets**.
-/

set_option autoImplicit false

namespace Keyspace

/-- The values that a fragment brings, each name once. -/
def Fragment.bindings (f : Fragment) : Dict Value := Dict.ofList f.values

namespace Compiler

/-! ### Calls -/

/-- A call of a compiler.  A merge names the earlier call whose expression is joined with the
fragments: what another compiler has returned may hold the same placeholders for other targets, as
`library_merges_what_is_not_its_own` shows. -/
inductive Call where
  | conditions (xs : List Condition)
  | projection (paths : List String)
  | update (xs : List Change)
  | merge (generated : Option Nat) (fragments : List Fragment)

namespace Call

/-- The operands that a call gives to the compiler. -/
def operands : Call → List Value
  | conditions xs => xs.flatMap Condition.values
  | projection _ => []
  | update xs => xs.filterMap Change.operand?
  | merge _ _ => []

/-- The fragments that a call gives to the compiler. -/
def fragments : Call → List Fragment
  | merge _ fs => fs
  | _ => []

/-- Whether a call merges fragments. -/
def isMerge : Call → Bool
  | merge _ _ => true
  | _ => false

end Call

/-- What a call returns. -/
abbrev Answer := Except Error (Option Expression)

/-- The calls so far with their answers, and the compiler that they have left. -/
structure History where
  compiler : Compiler := empty
  answers : List (Call × Answer) := []

namespace History

/-- The expression that an earlier call has returned. -/
def answer? (h : History) (i : Nat) : Option Expression :=
  match h.answers[i]? with
  | some (_, .ok e) => e
  | _ => none

/-- What a call returns, and the compiler that it leaves. -/
def answer (h : History) : Call → Answer × Compiler
  | .conditions xs =>
    let (e, c) := h.compiler.conditions xs
    (.ok e, c)
  | .projection paths =>
    let (e, c) := h.compiler.projection paths
    (.ok e, c)
  | .update xs =>
    let (e, c) := h.compiler.update xs
    (.ok (some e), c)
  | .merge generated fs => h.compiler.merge (generated.bind h.answer?) fs

/-- One more call. -/
def call (h : History) (x : Call) : History :=
  let (answer, c) := h.answer x
  ⟨c, h.answers ++ [(x, answer)]⟩

/-- **Calls one after the other.** -/
def run (calls : List Call) : History := calls.foldl call {}

/-- The expressions that were returned. -/
def Returned (h : History) (e : Expression) : Prop := ∃ x, (x, .ok (some e)) ∈ h.answers

/-- The operands of all calls. -/
def operands (h : History) : List Value := h.answers.flatMap fun x => x.1.operands

/-- The fragments of the calls that did not fail. -/
def accepted (h : History) : List Fragment :=
  h.answers.flatMap fun x => if x.2.isOk then x.1.fragments else []

end History

/-! ### Targets -/

/-- Whether a placeholder was issued by the compiler itself. -/
def hasGenerated (c : Compiler) (p : String) : Bool :=
  ({ c with brought := [] } : Compiler).hasIssued p

/-- **What accepted fragments bring is not generated**, neither before nor after. -/
def History.KeepsApart (h : History) : Prop :=
  ∀ f ∈ h.accepted, ∀ p ∈ f.declared, h.compiler.hasGenerated p = false

instance (h : History) : Decidable h.KeepsApart :=
  inferInstanceAs (Decidable (∀ f ∈ h.accepted, ∀ p ∈ f.declared,
    h.compiler.hasGenerated p = false))

/-- What a call binds: its operands get a placeholder each, its fragments bring theirs, and the
returned expression shows both.  A failed call binds nothing. -/
def Call.Binds (x : Call) (row : List (String × Value)) : Answer → Prop
  | .error _ => row = []
  | .ok e => ∃ placed : List (String × Value), placed.map Prod.snd = x.operands ∧
      row = placed ++ x.fragments.flatMap Fragment.bindings ∧
      ∀ b ∈ row, ∃ g, e = some g ∧ g.values.get? b.1 = some b.2

/-- **No placeholder has two targets in what was returned.** -/
structure History.Unambiguous (h : History) : Prop where
  /-- A name stands for one attribute in all returned expressions. -/
  names : ∀ e e', h.Returned e → h.Returned e' → ∀ p a b,
    e.names.get? p = some a → e'.names.get? p = some b → a = b
  /-- The operands and the fragments of all calls have placeholders of their own, and no returned
  expression binds any other. -/
  values : ∃ rows : List (List (String × Value)),
    List.Forall₂ (fun x row => x.1.Binds row x.2) h.answers rows ∧
      (rows.flatten.map Prod.fst).Nodup ∧
      ∀ e, h.Returned e → ∀ p v, e.values.get? p = some v → (p, v) ∈ rows.flatten
  /-- Whichever returned expressions a request is assembled of, uniting them loses nothing. -/
  kept : ∀ e : Expressions, (∀ x ∈ e.present, h.Returned x) →
    ∀ x ∈ e.present, x.names.Within e.names ∧ x.values.Within e.values

/-! ### One call -/

theorem Call.fragments_of_not_merge {x : Call} (h : x.isMerge = false) : x.fragments = [] := by
  cases x with
  | merge generated fs => cases h
  | conditions xs => rfl
  | projection paths => rfl
  | update xs => rfl

/-- Whether they are taken in or not, fragments leave what was issued as it is. -/
theorem bringAll_keeps (c : Compiler) (fs : List Fragment) :
    (c.bringAll fs).2.attributes = c.attributes ∧
      (c.bringAll fs).2.operandCount = c.operandCount ∧
      c.brought <+: (c.bringAll fs).2.brought := by
  induction fs generalizing c with
  | nil => exact ⟨rfl, rfl, List.prefix_refl _⟩
  | cons f rest ih =>
      cases hbring : c.bring f with
      | error e => simp [bringAll, hbring]
      | ok b =>
          obtain ⟨-, -, -, rfl⟩ := bring_spec hbring
          obtain ⟨hattributes, hcount, hbrought⟩ := ih { c with brought := c.brought ++ f.declared }
          simp only [bringAll, hbring]
          exact ⟨hattributes, hcount, (List.prefix_append _ _).trans hbrought⟩

/-- Only no conditions have no expression. -/
theorem conditions_eq_none {c : Compiler} {xs : List Condition} (h : (c.conditions xs).1 = none) :
    xs = [] := by
  unfold conditions at h
  split at h
  · next hempty => exact List.isEmpty_iff.1 hempty
  · cases h

namespace History

/-- **What a call can return, and what it makes of the compiler.** -/
inductive Outcome (h : History) : Call → Answer → Compiler → Prop
  /-- An expression is generated, unless there is nothing to say. -/
  | generated {x : Call} {e : Option Expression} {d : Compiler} : x.isMerge = false →
      h.compiler.Grows d x.operands.length →
      (∀ g, e = some g → h.compiler.Binds d x.operands g) →
      (e = none → x.operands = []) → Outcome h x (.ok e) d
  /-- Without fragments an earlier expression is returned again. -/
  | unchanged (generated : Option Nat) :
      Outcome h (.merge generated []) (.ok (generated.bind h.answer?)) h.compiler
  /-- All fragments are taken in. -/
  | joined {generated : Option Nat} {fs : List Fragment} {d : Compiler} :
      h.compiler.TakenIn d fs →
      Outcome h (.merge generated fs) (.ok (some (join fs (generated.bind h.answer?)))) d
  /-- Some fragment is refused; those before it were taken in. -/
  | refused {generated : Option Nat} {fs : List Fragment} {e : Error} {d : Compiler} :
      d.attributes = h.compiler.attributes → d.operandCount = h.compiler.operandCount →
      h.compiler.brought <+: d.brought → Outcome h (.merge generated fs) (.error e) d

theorem outcome (h : History) (x : Call) : h.Outcome x (h.answer x).1 (h.answer x).2 := by
  cases x with
  | conditions xs =>
      refine .generated rfl (conditions_grows _ xs) (fun g hg => conditions_binds hg) ?_
      intro hnone
      rw [conditions_eq_none hnone]
      rfl
  | projection paths =>
      exact .generated rfl (projection_grows _ paths) (fun g hg => projection_binds hg)
        fun _ => rfl
  | update xs =>
      refine .generated rfl (update_grows _ xs) ?_ fun hnone => by cases hnone
      rintro g ⟨rfl⟩
      exact update_binds _ xs
  | merge generated fs =>
      have hkeeps := h.compiler.bringAll_keeps fs
      simp only [answer, Compiler.merge]
      split
      · next hempty =>
          rw [List.isEmpty_iff.1 hempty]
          exact .unchanged generated
      · split
        · next hbring => exact .joined (bringAll_spec hbring)
        · next hbring =>
            rw [hbring] at hkeeps
            exact .refused hkeeps.1 hkeeps.2.1 hkeeps.2.2

namespace Outcome

variable {h : History} {x : Call} {a : Answer} {d : Compiler}

/-- Attributes keep their placeholders. -/
theorem attributes (hx : h.Outcome x a d) : h.compiler.attributes <+: d.attributes := by
  cases hx with
  | generated _ hgrows => exact hgrows.attributes
  | unchanged _ => exact List.prefix_refl _
  | joined htaken => exact htaken.attributes ▸ List.prefix_refl _
  | refused hattributes => exact hattributes ▸ List.prefix_refl _

/-- Operands are counted. -/
theorem operandCount (hx : h.Outcome x a d) :
    d.operandCount = h.compiler.operandCount + x.operands.length := by
  cases hx with
  | generated _ hgrows => exact hgrows.operandCount
  | unchanged _ => rfl
  | joined htaken => exact htaken.operandCount
  | refused _ hcount => exact hcount

/-- The fragments of a call that does not fail are taken in. -/
theorem takenIn (hx : h.Outcome x a d) : ∃ b,
    h.compiler.TakenIn b (if a.isOk then x.fragments else []) ∧ b.brought <+: d.brought := by
  have hnone : h.compiler.TakenIn h.compiler [] := bringAll_spec rfl
  cases hx with
  | generated hmerge hgrows =>
      rw [Call.fragments_of_not_merge hmerge, ite_self]
      exact ⟨_, hnone, hgrows.brought ▸ List.prefix_refl _⟩
  | unchanged _ => exact ⟨_, hnone, List.prefix_refl _⟩
  | joined htaken => exact ⟨_, htaken, List.prefix_refl _⟩
  | refused _ _ hbrought => exact ⟨_, hnone, hbrought⟩

/-- A merge generates nothing. -/
theorem of_merge (hx : h.Outcome x a d) (hmerge : x.isMerge = true) :
    d.attributes = h.compiler.attributes ∧ d.operandCount = h.compiler.operandCount := by
  cases hx with
  | generated hno =>
      rw [hmerge] at hno
      cases hno
  | unchanged => exact ⟨rfl, rfl⟩
  | joined htaken => exact ⟨htaken.attributes, htaken.operandCount⟩
  | refused hattributes hcount => exact ⟨hattributes, hcount⟩

end Outcome

/-! ### What a call adds -/

theorem operands_call (h : History) (x : Call) :
    (h.call x).operands = h.operands ++ x.operands := by
  simp [operands, call]

theorem accepted_call (h : History) (x : Call) :
    (h.call x).accepted =
      h.accepted ++ (if (h.answer x).1.isOk then x.fragments else []) := by
  simp [accepted, call]

theorem returned_call {h : History} {x : Call} {e : Expression} :
    (h.call x).Returned e ↔ h.Returned e ∨ (h.answer x).1 = .ok (some e) := by
  simp only [Returned, call, List.mem_append, List.mem_singleton, Prod.mk.injEq, exists_or]
  constructor
  · rintro (⟨y, hy⟩ | ⟨y, -, hy⟩)
    · exact Or.inl ⟨y, hy⟩
    · exact Or.inr hy.symm
  · rintro (⟨y, hy⟩ | hy)
    · exact Or.inl ⟨y, hy⟩
    · exact Or.inr ⟨x, rfl, hy.symm⟩

theorem returned_of_answer? {h : History} {i : Nat} {e : Expression}
    (hi : h.answer? i = some e) : h.Returned e := by
  unfold answer? at hi
  split at hi
  · next x e' hget =>
      obtain rfl : e' = some e := hi
      exact ⟨x, List.mem_of_getElem? hget⟩
  · cases hi

/-- What holds before the first call and is kept by each holds of all calls. -/
theorem run_induction {P : History → Prop} (hempty : P {})
    (hcall : ∀ h x, P h → P (h.call x)) (calls : List Call) : P (run calls) := by
  unfold run
  induction calls using List.reverseRecOn with
  | nil => exact hempty
  | append_singleton calls x ih =>
      rw [List.foldl_append]
      exact hcall _ x ih

/-! ### The account of operands and fragments -/

/-- **The account of all calls so far**: operands are counted, every accepted fragment was new when
it was brought, and what was returned shows nothing else. -/
structure Accounts (h : History) : Prop where
  count : h.compiler.operandCount = h.operands.length
  shows : ∀ e, h.Returned e → h.compiler.Shows h.operands h.accepted e
  valid : ∀ f ∈ h.accepted, f.validate = .ok ()
  used : ∀ f ∈ h.accepted, f.unused? = none
  brought : ∀ f ∈ h.accepted, ∀ p ∈ f.declared, p ∈ h.compiler.brought
  apart : h.accepted.Pairwise fun f g => ∀ p ∈ f.declared, p ∉ g.declared

/-- What a call returns shows its operands, its fragments and what was there. -/
theorem Outcome.shows {h : History} {x : Call} {e : Expression} {d : Compiler}
    (hx : h.Outcome x (.ok (some e)) d) (hs : h.Accounts) :
    d.Shows (h.operands ++ x.operands) (h.accepted ++ x.fragments) e := by
  have hearlier : ∀ i : Option Nat, ∀ g, i.bind h.answer? = some g →
      h.compiler.Shows h.operands h.accepted g := by
    intro i g hg
    obtain ⟨n, -, hn⟩ := Option.bind_eq_some_iff.1 hg
    exact hs.shows g (returned_of_answer? hn)
  generalize hanswer : (Except.ok (some e) : Answer) = a at hx
  cases hx with
  | generated hmerge hgrows hbinds =>
      obtain rfl := Except.ok.inj hanswer
      have hshows := (hbinds e rfl).shows (List.prefix_refl _) h.operands [] hs.count.symm
        (h.accepted ++ x.fragments)
      rwa [List.append_nil] at hshows
  | unchanged i =>
      exact (hearlier i e (Except.ok.inj hanswer).symm).mono (List.prefix_refl _) _ _
  | @joined i fs d htaken =>
      obtain rfl := Option.some.inj (Except.ok.inj hanswer)
      refine shows_join (List.subset_append_right _ fs) fun g hg => ?_
      exact (hearlier i g hg).mono (htaken.attributes ▸ List.prefix_refl _) _ _
  | refused => cases hanswer

/-- **What each call adds to the account.** -/
theorem Accounts.call {h : History} (hs : h.Accounts) (x : Call) : (h.call x).Accounts := by
  have hx := h.outcome x
  obtain ⟨b, htaken, hbrought⟩ := hx.takenIn
  have hfresh : ∀ f ∈ h.accepted, ∀ p ∈ f.declared, h.compiler.hasIssued p = true :=
    fun f hf p hp => hasIssued_iff.2 (Or.inr (Or.inr (hs.brought f hf p hp)))
  constructor
  · rw [operands_call, List.length_append, ← hs.count]
    exact hx.operandCount
  · intro e he
    rw [operands_call, accepted_call]
    rcases returned_call.1 he with he | he
    · exact (hs.shows e he).mono hx.attributes _ _
    · rw [he] at hx ⊢
      exact hx.shows hs
  · rw [accepted_call]
    exact List.forall_mem_append.2 ⟨hs.valid, htaken.valid⟩
  · rw [accepted_call]
    exact List.forall_mem_append.2 ⟨hs.used, htaken.used⟩
  · rw [accepted_call]
    rw [htaken.brought] at hbrought
    refine List.forall_mem_append.2 ⟨fun f hf p hp => ?_, fun f hf p hp => ?_⟩
    · exact hbrought.subset (List.mem_append_left _ (hs.brought f hf p hp))
    · exact hbrought.subset (List.mem_append_right _ (List.mem_flatMap.2 ⟨f, hf, hp⟩))
  · rw [accepted_call]
    refine List.pairwise_append.2 ⟨hs.apart, htaken.apart, fun f hf g hg p hpf hpg => ?_⟩
    have hno := htaken.fresh g hg p hpg
    rw [hfresh f hf p hpf] at hno
    cases hno

/-- **The account of any calls.** -/
theorem accounts_run (calls : List Call) : (run calls).Accounts := by
  refine run_induction ?_ (fun h x hs => hs.call x) calls
  exact ⟨rfl, fun e he => by simp [Returned] at he, by simp [accepted], by simp [accepted],
    by simp [accepted], .nil⟩

/-! ### Fragments that bring nothing that is generated -/

theorem hasGenerated_iff {c : Compiler} {p : String} :
    c.hasGenerated p = true ↔ (∃ n < c.attributes.length, p = Placeholder.ofName n) ∨
      ∃ n < c.operandCount, p = Placeholder.ofValue n := by
  simp [hasGenerated, hasIssued_iff]

/-- What was generated stays generated. -/
theorem KeepsApart.of_call {h : History} {x : Call} (hk : (h.call x).KeepsApart) :
    h.KeepsApart := by
  have hx := h.outcome x
  intro f hf p hp
  have hno := hk f (by rw [accepted_call]; exact List.mem_append_left _ hf) p hp
  rw [Bool.eq_false_iff, Ne, hasGenerated_iff] at hno ⊢
  rintro (⟨n, hn, rfl⟩ | ⟨n, hn, rfl⟩)
  · exact hno (Or.inl ⟨n, Nat.lt_of_lt_of_le hn hx.attributes.length_le, rfl⟩)
  · refine hno (Or.inr ⟨n, Nat.lt_of_lt_of_le hn ?_, rfl⟩)
    rw [show (h.call x).compiler.operandCount = _ from hx.operandCount]
    exact Nat.le_add_right _ _

/-- Among the accepted fragments and what is generated no placeholder has two meanings. -/
theorem Accounts.takenIn {h : History} (hs : h.Accounts) (hk : h.KeepsApart) :
    TakenIn { h.compiler with brought := [] }
      { h.compiler with brought := h.accepted.flatMap Fragment.declared } h.accepted :=
  ⟨rfl, rfl, rfl, hs.valid, hs.used, hk, hs.apart⟩

/-! ### Rows of the account -/

/-- The rows of all calls hold the numbered operands and what the accepted fragments bring, each of
them once. -/
def Balanced (h : History) : Prop :=
  ∃ rows : List (List (String × Value)),
    List.Forall₂ (fun x row => x.1.Binds row x.2) h.answers rows ∧
      rows.flatten.Perm (numbered 0 h.operands ++ h.accepted.flatMap Fragment.bindings)

/-- The row of a call: its operands with the next numbers, and what its fragments bring. -/
theorem Outcome.binds {h : History} {x : Call} {a : Answer} {d : Compiler}
    (hx : h.Outcome x a d)
    (hjoin : ∀ e, a = .ok (some e) → ∀ b ∈ x.fragments.flatMap Fragment.bindings,
      e.values.get? b.1 = some b.2) :
    x.Binds (numbered h.compiler.operandCount x.operands ++
      (if a.isOk then x.fragments else []).flatMap Fragment.bindings) a := by
  cases hx with
  | @generated _ e _ hmerge _ hbinds hnone =>
      have hfragments := Call.fragments_of_not_merge hmerge
      refine ⟨_, map_snd_numbered _ _, rfl, fun b hb => ?_⟩
      rw [hfragments, ite_self, List.flatMap_nil, List.append_nil] at hb
      cases e with
      | none =>
          rw [hnone rfl] at hb
          cases hb
      | some g =>
          refine ⟨g, rfl, ?_⟩
          rw [(hbinds g rfl).values]
          exact get?_numbered hb
  | unchanged => exact ⟨[], rfl, rfl, fun b hb => by cases hb⟩
  | joined htaken => exact ⟨[], rfl, rfl, fun b hb => ⟨_, rfl, hjoin _ rfl b hb⟩⟩
  | refused => rfl

/-- What a call returns declares what its fragments bring. -/
theorem Outcome.declares {h : History} {x : Call} {e : Expression} {d : Compiler}
    (hx : h.Outcome x (.ok (some e)) d) {f : Fragment} (hf : f ∈ x.fragments) {p : String}
    (hp : p ∈ f.bindings.names) : p ∈ e.values.names := by
  generalize hanswer : (Except.ok (some e) : Answer) = a at hx
  cases hx with
  | generated hmerge =>
      rw [Call.fragments_of_not_merge hmerge] at hf
      cases hf
  | unchanged => cases hf
  | joined htaken =>
      obtain rfl := Option.some.inj (Except.ok.inj hanswer)
      rw [join_values, Dict.mem_names_unite]
      exact ⟨_, mem_joinParts.2 (Or.inl ⟨f, hf, rfl⟩), Dict.mem_names_ofList.1 hp⟩
  | refused => cases hanswer

/-- What a call returns shows what its fragments bring: a declared placeholder has one meaning. -/
theorem Accounts.shows_bindings {h : History} (hs : h.Accounts) {x : Call}
    (hk : (h.call x).KeepsApart) {e : Expression} (he : (h.answer x).1 = .ok (some e)) :
    ∀ b ∈ x.fragments.flatMap Fragment.bindings, e.values.get? b.1 = some b.2 := by
  rintro ⟨p, v⟩ hb
  obtain ⟨f, hf, hv⟩ := List.mem_flatMap.1 hb
  have hget := (Dict.sorted_ofList f.values).get?_of_mem hv
  have hx := h.outcome x
  rw [he] at hx
  obtain ⟨w, hw⟩ := Dict.mem_names_iff.1 (hx.declares hf (Dict.mem_names_iff.2 ⟨v, hget⟩))
  have haccepted : f ∈ (h.call x).accepted := by
    rw [accepted_call, he]
    exact List.mem_append_right _ hf
  have hs' := hs.call x
  have hmeaning := (hs'.shows e (returned_call.2 (Or.inr he))).values p w hw
  rw [hw, ValueMeaning.unique (hs'.takenIn hk) (Nat.le_of_eq hs'.count.symm) p w v hmeaning
    (Or.inr ⟨f, haccepted, hget⟩)]

/-- **Each call adds its row.** -/
theorem Balanced.call {h : History} (hb : h.Balanced) (hs : h.Accounts) (x : Call)
    (hk : (h.call x).KeepsApart) : (h.call x).Balanced := by
  obtain ⟨rows, hrows, hperm⟩ := hb
  have hrow := (h.outcome x).binds fun e he => hs.shows_bindings hk he
  refine ⟨rows ++ [_], List.rel_append hrows (.cons hrow .nil), ?_⟩
  rw [operands_call, accepted_call, numbered_append, List.flatMap_append, List.flatten_append,
    List.flatten_singleton, Nat.zero_add, ← hs.count]
  refine (hperm.append_right _).trans ?_
  -- the operands of the row move to the operands, in front of what fragments brought before
  simp only [List.append_assoc]
  refine List.Perm.append_left _ ?_
  simp only [← List.append_assoc]
  exact List.perm_append_comm.append_right _

/-- **The rows of any calls** whose fragments bring nothing that is generated. -/
theorem balanced_run (calls : List Call) (hk : (run calls).KeepsApart) :
    (run calls).Balanced := by
  have hboth : (run calls).Accounts ∧ ((run calls).KeepsApart → (run calls).Balanced) := by
    refine run_induction (P := fun h => h.Accounts ∧ (h.KeepsApart → h.Balanced))
      ⟨accounts_run [], fun _ => ⟨[], .nil, .nil⟩⟩ ?_ calls
    rintro h x ⟨hs, hb⟩
    exact ⟨hs.call x, fun hk => (hb hk.of_call).call hs x hk⟩
  exact hboth.2 hk

/-! ### No placeholder for two targets -/

/-- The placeholders of the numbered operands and of the accepted fragments are all different. -/
theorem Accounts.nodup {h : History} (hs : h.Accounts) (hk : h.KeepsApart) :
    ((numbered 0 h.operands ++ h.accepted.flatMap Fragment.bindings).map Prod.fst).Nodup := by
  have hdeclared : ∀ {f : Fragment} {p : String}, p ∈ f.bindings.names → p ∈ f.declared :=
    fun hp => List.mem_append_right _ (Dict.mem_names_ofList.1 hp)
  rw [List.map_append, List.map_flatMap]
  refine List.nodup_append.2 ⟨nodup_map_fst_numbered _ _, ?_, ?_⟩
  · refine List.pairwise_flatMap.2 ⟨fun f _ => (Dict.sorted_ofList f.values).nodup, ?_⟩
    refine hs.apart.imp fun hfg p hp q hq heq => ?_
    exact hfg p (hdeclared hp) (heq ▸ hdeclared hq)
  · rintro p hp q hq rfl
    obtain ⟨⟨p, v⟩, hb, rfl⟩ := List.mem_map.1 hp
    obtain ⟨f, hf, hq⟩ := List.mem_flatMap.1 hq
    obtain ⟨n, rfl, hn⟩ := mem_numbered.1 hb
    have hno := hk f hf _ (hdeclared hq)
    rw [Bool.eq_false_iff, Ne, hasGenerated_iff, hs.count] at hno
    exact hno (Or.inr ⟨0 + n, by simpa using (List.getElem?_eq_some_iff.1 hn).1, rfl⟩)

/-- What a returned expression binds stands in the account. -/
theorem Accounts.mem_of_returned {h : History} (hs : h.Accounts) {e : Expression}
    (he : h.Returned e) {p : String} {v : Value} (hv : e.values.get? p = some v) :
    (p, v) ∈ numbered 0 h.operands ++ h.accepted.flatMap Fragment.bindings := by
  rcases (hs.shows e he).values p v hv with ⟨n, rfl, hn⟩ | ⟨f, hf, hget⟩
  · refine List.mem_append_left _ (mem_numbered.2 ⟨n, ?_, hn⟩)
    rw [Nat.zero_add]
  · exact List.mem_append_right _ (List.mem_flatMap.2 ⟨f, hf, Dict.mem_of_get? hget⟩)

/-- **An account whose fragments bring nothing that is generated is unambiguous.** -/
theorem Accounts.unambiguous {h : History} (hs : h.Accounts) (hk : h.KeepsApart)
    (hb : h.Balanced) : h.Unambiguous := by
  have htaken := hs.takenIn hk
  -- what an expression shows does not depend on what the compiler knows of the fragments
  have hshows : ∀ x, h.Returned x →
      Shows { h.compiler with brought := [] } h.operands h.accepted x := by
    intro x hx
    obtain ⟨hnamesSorted, hvaluesSorted, hnames, hvalues⟩ := hs.shows x hx
    exact ⟨hnamesSorted, hvaluesSorted, hnames, hvalues⟩
  obtain ⟨rows, hrows, hperm⟩ := hb
  refine ⟨fun e e' he he' p a b ha hb => ?_, ⟨rows, hrows, ?_, fun e he p v hv => ?_⟩,
    fun e he x hx => ⟨?_, ?_⟩⟩
  · exact NameMeaning.unique htaken p a b ((hshows e he).names p a ha)
      ((hshows e' he').names p b hb)
  · exact (hperm.map Prod.fst).nodup_iff.2 (hs.nodup hk)
  · exact hperm.mem_iff.2 (hs.mem_of_returned he hv)
  · exact names_within_of_shows htaken (fun y hy => hshows y (he y hy)) x hx
  · exact values_within_of_shows htaken (Nat.le_of_eq hs.count.symm)
      (fun y hy => hshows y (he y hy)) x hx

/-! ### Fragments that are merged last -/

theorem hasIssued_of_hasGenerated {c : Compiler} {p : String} (h : c.hasGenerated p = true) :
    c.hasIssued p = true := by
  rw [hasGenerated_iff] at h
  rw [hasIssued_iff, ← or_assoc]
  exact Or.inl h

/-- A merge generates nothing, and checks what its fragments bring. -/
theorem KeepsApart.call_merge {h : History} (hk : h.KeepsApart) {x : Call}
    (hmerge : x.isMerge = true) : (h.call x).KeepsApart := by
  have hx := h.outcome x
  have hsame : ∀ p, (h.call x).compiler.hasGenerated p = h.compiler.hasGenerated p := by
    obtain ⟨hattributes, hcount⟩ := hx.of_merge hmerge
    intro p
    have hiff : (h.call x).compiler.hasGenerated p = true ↔ h.compiler.hasGenerated p = true := by
      rw [hasGenerated_iff, hasGenerated_iff, call, hattributes, hcount]
    exact Bool.eq_iff_iff.2 hiff
  obtain ⟨b, htaken, -⟩ := hx.takenIn
  intro f hf p hp
  rw [hsame, Bool.eq_false_iff]
  rw [accepted_call] at hf
  rcases List.mem_append.1 hf with hf | hf
  · rw [hk f hf p hp]
    exact Bool.false_ne_true
  · intro hgenerated
    have hno := htaken.fresh f hf p hp
    rw [hasIssued_of_hasGenerated hgenerated] at hno
    cases hno

/-- **Fragments that are merged last bring nothing that is generated.** -/
theorem keepsApart_of_merges_last {generated merges : List Call}
    (hgenerated : ∀ x ∈ generated, x.isMerge = false) (hmerges : ∀ x ∈ merges, x.isMerge = true) :
    (run (generated ++ merges)).KeepsApart := by
  have hfirst : (run generated).accepted = [] := by
    unfold run
    induction generated using List.reverseRecOn with
    | nil => rfl
    | append_singleton calls x ih =>
        obtain ⟨hcalls, hx⟩ := List.forall_mem_append.1 hgenerated
        rw [List.foldl_append, List.foldl_cons, List.foldl_nil, accepted_call, ih hcalls,
          Call.fragments_of_not_merge (hx x List.mem_cons_self), ite_self]
        rfl
  have hstart : (run generated).KeepsApart := by
    intro f hf
    rw [hfirst] at hf
    cases hf
  rw [run, List.foldl_append, ← run]
  generalize run generated = h at hstart
  induction merges generalizing h with
  | nil => exact hstart
  | cons x rest ih =>
      obtain ⟨hx, hrest⟩ := List.forall_mem_cons.1 hmerges
      exact ih hrest (h.call x) (hstart.call_merge hx)

end History

/-- **No placeholder is issued for two targets**, whatever calls are made in whatever order, if the
accepted fragments bring none that the compiler generates. -/
theorem never_issues_twice (calls : List Call) (hk : (History.run calls).KeepsApart) :
    (History.run calls).Unambiguous :=
  (History.accounts_run calls).unambiguous hk (History.balanced_run calls hk)

end Compiler

/-! ### A library -/

namespace Library

open Compiler

/-- Fragments are brought before, between and after what is generated, and one of them twice. -/
def alternately : List Call :=
  let emma : Fragment :=
    { expression := "#t = :t", names := [("#t", "title")], values := [(":t", .text "Emma")] }
  let novels : Fragment :=
    { expression := "#k = :k", names := [("#k", "kind")], values := [(":k", .text "novel")] }
  [.merge none [emma], .conditions [⟨"owner", .eq, [.text "ann"]⟩], .merge (some 1) [novels, emma],
    .projection ["title"], .conditions [⟨"owner", .eq, [.text "bob"]⟩], .merge (some 4) []]

/-- A fragment whose placeholders are generated afterwards. -/
def overtaken : List Call :=
  let anns : Fragment :=
    { expression := "#n0 = :v0", names := [("#n0", "owner")], values := [(":v0", .text "ann")] }
  [.merge none [anns], .conditions [⟨"title", .eq, [.text "Emma"]⟩]]

end Library

/-- The library's calls are kept apart, one that fails among them. -/
theorem library_calls_are_unambiguous :
    (Compiler.History.run Library.alternately).KeepsApart ∧
      (Compiler.History.run Library.alternately).answers.map (·.2.isOk) =
        [true, true, false, true, true, true] ∧
      (Compiler.History.run Library.alternately).Unambiguous :=
  ⟨by decide +kernel, by decide +kernel, Compiler.never_issues_twice _ (by decide +kernel)⟩

/-- **A placeholder that a fragment brought first is generated again**, and one of the two
bindings is lost. -/
theorem library_placeholder_is_issued_twice :
    let h := Compiler.History.run Library.overtaken
    let brought : Expression := ⟨"#n0 = :v0", [("#n0", "owner")], [(":v0", .text "ann")]⟩
    let generated : Expression := ⟨"#n0 = :v0", [("#n0", "title")], [(":v0", .text "Emma")]⟩
    h.Returned brought ∧ h.Returned generated ∧
      Expressions.names { key := some generated, filter := some brought } = [("#n0", "owner")] ∧
      ¬h.Unambiguous := by
  intro h brought generated
  have hbrought : h.Returned brought := ⟨_, List.mem_cons_self⟩
  have hgenerated : h.Returned generated := ⟨_, List.mem_cons_of_mem _ List.mem_cons_self⟩
  refine ⟨hbrought, hgenerated, by decide +kernel, fun hunambiguous => ?_⟩
  have hsame := hunambiguous.names brought generated hbrought hgenerated "#n0" "owner" "title"
    rfl rfl
  exact absurd hsame (by decide)

/-- **What another compiler has returned is merged as it is**, and then a placeholder has two
targets in what the two calls of one compiler have returned. -/
theorem library_merges_what_is_not_its_own :
    let own := Compiler.empty.conditions [⟨"owner", .eq, [.text "ann"]⟩]
    let foreign := Compiler.empty.conditions [⟨"title", .eq, [.text "Emma"]⟩]
    let novels : Fragment :=
      { expression := "#k = :k", names := [("#k", "kind")], values := [(":k", .text "novel")] }
    own.1 = some ⟨"#n0 = :v0", [("#n0", "owner")], [(":v0", .text "ann")]⟩ ∧
      (own.2.merge foreign.1 [novels]).1 = .ok (some
        ⟨"(#k = :k) AND (#n0 = :v0)", [("#k", "kind"), ("#n0", "title")],
          [(":k", .text "novel"), (":v0", .text "Emma")]⟩) :=
  ⟨rfl, rfl⟩

end Keyspace
