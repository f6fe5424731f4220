import Keyspace.Dict
import Mathlib.Data.List.Induction
import Mathlib.Data.List.Nodup
/-!
# United dictionaries

Dictionaries are united one after the other, and a name takes its last value.  If all of them give
a name only values that it may stand for, and no name may stand for two, then nothing is lost by
uniting them.

Main definitions:

* `Keyspace.Dict.Under` — a dictionary gives names only values that they may stand for;
* `Keyspace.Dict.Within` — whatever a dictionary shows, another one shows too;
* `Keyspace.Dict.unite` — several dictionaries united.

Main results:

* `Keyspace.Dict.get?_union` — **what a united dictionary shows**;
* `Keyspace.Dict.mem_names_unite` — its names;
* `Keyspace.Dict.within_unite` — **dictionaries that agree lose nothing when they are united**.
-/

set_option autoImplicit false

namespace Keyspace.Dict

variable {α β : Type}

/-! ### Names and values -/

/-- A name is one of a dictionary if it has a value there. -/
theorem mem_names_iff {d : Dict α} {n : String} : n ∈ d.names ↔ ∃ v, d.get? n = some v := by
  induction d with
  | nil => simp [names]
  | cons e rest ih =>
      obtain ⟨m, v⟩ := e
      simp only [names] at ih
      rw [get?_cons, names, List.map_cons, List.mem_cons, ih]
      by_cases h : n = m
      · simp [h]
      · simp [h]

@[simp] theorem contains_iff {d : Dict α} {n : String} :
    d.contains n = true ↔ n ∈ d.names := by
  simp [contains, names]

/-! ### Two dictionaries -/

theorem union_cons (d : Dict α) (e : String × α) (rest : Dict α) :
    d.union (e :: rest) = (insert e.1 e.2 d).union rest := rfl

/-- **What a united dictionary shows**: the last value of the second one, or else that of the
first. -/
theorem get?_union (d e : Dict α) (n : String) :
    (d.union e).get? n = ((ofList e).get? n).or (d.get? n) := by
  induction e generalizing d with
  | nil => rfl
  | cons x rest ih =>
      have hof : ofList (x :: rest) = union [(x.1, x.2)] rest := rfl
      rw [union_cons, ih, hof, ih, get?_insert, get?_cons, get?_nil, Option.or_assoc]
      by_cases h : n = x.1
      · simp [h]
      · simp [h]

theorem mem_names_union {d e : Dict α} {n : String} :
    n ∈ (d.union e).names ↔ n ∈ d.names ∨ n ∈ e.names := by
  induction e generalizing d with
  | nil => simp [union, names]
  | cons x rest ih =>
      rw [union_cons, ih, mem_names_insert]
      simp only [names, List.map_cons, List.mem_cons, or_assoc, or_left_comm]

theorem mem_names_ofList {entries : List (String × α)} {n : String} :
    n ∈ (ofList entries).names ↔ n ∈ entries.map Prod.fst := by
  have h : n ∈ (union [] entries).names ↔ n ∈ names [] ∨ n ∈ names entries := mem_names_union
  rw [show ofList entries = union [] entries from rfl, h]
  simp [names]

/-- A dictionary of entries shows nothing but entries. -/
theorem mem_of_get?_ofList {entries : List (String × α)} {n : String} {v : α}
    (h : (ofList entries).get? n = some v) : (n, v) ∈ entries := by
  induction entries with
  | nil => cases h
  | cons x rest ih =>
      have hof : ofList (x :: rest) = union [(x.1, x.2)] rest := rfl
      rw [hof, get?_union, Option.or_eq_some_iff] at h
      rcases h with h | ⟨_, h⟩
      · exact List.mem_cons_of_mem _ (ih h)
      · rw [get?_cons, get?_nil] at h
        split at h
        · next hn => cases h; subst hn; exact List.mem_cons_self
        · cases h

/-- A dictionary of entries shows each entry, if no name has two values. -/
theorem get?_ofList_of_mem {entries : List (String × α)}
    (hunique : ∀ n v w, (n, v) ∈ entries → (n, w) ∈ entries → v = w) {n : String} {v : α}
    (h : (n, v) ∈ entries) : (ofList entries).get? n = some v := by
  obtain ⟨w, hw⟩ := mem_names_iff.1 (mem_names_ofList.2 (List.mem_map_of_mem (f := Prod.fst) h))
  rw [hw, hunique n w v (mem_of_get?_ofList hw) h]

/-- A dictionary in order is the one of its entries. -/
theorem get?_ofList_of_sorted {d : Dict α} (h : d.Sorted) (n : String) :
    (ofList d).get? n = d.get? n := by
  induction d with
  | nil => rfl
  | cons x rest ih =>
      obtain ⟨m, v⟩ := x
      have hbelow : ∀ k ∈ Dict.names rest, m < k := (List.pairwise_cons.1 h).1
      have hof : ofList ((m, v) :: rest) = union [(m, v)] rest := rfl
      rw [hof, get?_union, ih (List.pairwise_cons.1 h).2, get?_cons, get?_cons, get?_nil]
      by_cases hn : n = m
      · subst hn
        rw [get?_eq_none_of_lt hbelow]
        simp
      · simp [hn]

/-- In a dictionary in order no name stands twice. -/
theorem Sorted.nodup {d : Dict α} (h : d.Sorted) : d.names.Nodup :=
  List.Pairwise.imp (fun {a b} (hlt : a < b) (heq : a = b) => String.lt_irrefl a (heq ▸ hlt)) h

/-- What a dictionary shows is one of its entries. -/
theorem mem_of_get? {d : Dict α} {n : String} {v : α} (h : d.get? n = some v) : (n, v) ∈ d := by
  induction d with
  | nil => cases h
  | cons x rest ih =>
      obtain ⟨m, w⟩ := x
      rw [get?_cons] at h
      split at h
      · next hn =>
          cases h
          exact hn ▸ List.mem_cons_self
      · exact List.mem_cons_of_mem _ (ih h)

/-- A dictionary in order shows each of its entries. -/
theorem Sorted.get?_of_mem {d : Dict α} (h : d.Sorted) {n : String} {v : α} (hmem : (n, v) ∈ d) :
    d.get? n = some v := by
  induction d with
  | nil => cases hmem
  | cons x rest ih =>
      obtain ⟨m, w⟩ := x
      obtain ⟨hbelow, hrest⟩ := List.pairwise_cons.1 h
      rw [get?_cons]
      rcases List.mem_cons.1 hmem with heq | hmem
      · cases heq
        exact if_pos rfl
      · have hlt : m < n := hbelow n (List.mem_map_of_mem (f := Prod.fst) hmem)
        rw [if_neg fun heq : n = m => String.lt_irrefl m (heq ▸ hlt), ih hrest hmem]

/-- A dictionary of entries holds nothing but entries. -/
theorem mem_of_mem_ofList {entries : List (String × α)} {e : String × α}
    (h : e ∈ ofList entries) : e ∈ entries :=
  mem_of_get?_ofList ((sorted_ofList entries).get?_of_mem h)

/-- **A dictionary of entries with different names** holds just these, in order. -/
theorem ofList_perm {entries : List (String × α)} (h : (entries.map Prod.fst).Nodup) :
    (ofList entries).Perm entries := by
  have hnodup : (ofList entries).Nodup := (sorted_ofList entries).nodup.of_map Prod.fst
  refine (List.perm_ext_iff_of_nodup hnodup (h.of_map Prod.fst)).2 fun e =>
    ⟨mem_of_mem_ofList, fun he => mem_of_get? (get?_ofList_of_mem (fun n v w hv hw => ?_) he)⟩
  exact congrArg Prod.snd (List.inj_on_of_nodup_map h hv hw rfl)

/-- The entries of a dictionary in order make it up. -/
theorem ofList_of_sorted {d : Dict α} (h : d.Sorted) : ofList d = d :=
  (sorted_ofList d).ext h (get?_ofList_of_sorted h)

/-! ### Several dictionaries -/

/-- What a dictionary shows of a name is something that the name may stand for. -/
def Under (R : String → α → Prop) (d : Dict α) : Prop := ∀ n v, d.get? n = some v → R n v

/-- Whatever a dictionary shows, another one shows too. -/
def Within (d e : Dict α) : Prop := ∀ n v, d.get? n = some v → e.get? n = some v

/-- The dictionaries of some things, united one after the other. -/
def unite (f : β → Dict α) (xs : List β) : Dict α := xs.foldl (fun d x => d.union (f x)) empty

theorem Under.union {R : String → α → Prop} {d e : Dict α} (hd : d.Under R)
    (he : (ofList e).Under R) : (d.union e).Under R := by
  intro n v hv
  rw [get?_union, Option.or_eq_some_iff] at hv
  rcases hv with hv | ⟨_, hv⟩
  · exact he n v hv
  · exact hd n v hv

theorem unite_append_singleton (f : β → Dict α) (xs : List β) (x : β) :
    unite f (xs ++ [x]) = (unite f xs).union (f x) := by
  simp only [unite, List.foldl_append, List.foldl_cons, List.foldl_nil]

/-- **The names of united dictionaries** are the names of all of them. -/
theorem mem_names_unite {f : β → Dict α} {xs : List β} {n : String} :
    n ∈ (unite f xs).names ↔ ∃ x ∈ xs, n ∈ (f x).names := by
  induction xs using List.reverseRecOn with
  | nil => simp [unite, names, empty]
  | append_singleton xs x ih =>
      rw [unite_append_singleton, mem_names_union, ih]
      simp [or_and_right, exists_or]

theorem sorted_unite (f : β → Dict α) (xs : List β) : (unite f xs).Sorted := by
  induction xs using List.reverseRecOn with
  | nil => exact List.Pairwise.nil
  | append_singleton xs x ih =>
      rw [unite_append_singleton]
      exact ih.union _

theorem under_unite {R : String → α → Prop} {f : β → Dict α} {xs : List β}
    (h : ∀ x ∈ xs, (ofList (f x)).Under R) : (unite f xs).Under R := by
  induction xs using List.reverseRecOn with
  | nil => intro n v hv; cases hv
  | append_singleton xs x ih =>
      rw [unite_append_singleton]
      refine Under.union (ih fun y hy => ?_) ?_
      · exact h y (List.mem_append_left _ hy)
      · exact h x (by simp)

/-- **Dictionaries that agree lose nothing when they are united.** -/
theorem within_unite {R : String → α → Prop} (hR : ∀ n v w, R n v → R n w → v = w)
    {f : β → Dict α} {xs : List β} (h : ∀ x ∈ xs, (ofList (f x)).Under R) {x : β} (hx : x ∈ xs) :
    (ofList (f x)).Within (unite f xs) := by
  intro n v hv
  have hn : n ∈ (f x).names := by
    have hof : n ∈ (ofList (f x)).names := mem_names_iff.2 ⟨v, hv⟩
    simpa [names] using mem_names_ofList.1 hof
  obtain ⟨w, hw⟩ := mem_names_iff.1 (mem_names_unite.2 ⟨x, hx, hn⟩)
  have hvw : v = w := hR n v w (h x hx n v hv) (under_unite h n w hw)
  rw [hvw, hw]

end Keyspace.Dict
