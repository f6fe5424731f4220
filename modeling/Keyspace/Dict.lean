/-!
# Dictionaries

A dictionary gives values to names, each name once.  Its entries stand in increasing order of
their names, so that two dictionaries with the same entries are the same list, and everything
that is written out of a dictionary comes in one order.  Names are compared by their characters'
code points, which is the order of their UTF-8 bytes.

Main definitions:

* `Keyspace.Dict` — the list of entries;
* `Keyspace.Dict.insert`, `Keyspace.Dict.ofList`, `Keyspace.Dict.union` — the later value of a
  name wins;
* `Keyspace.Dict.get?`, `Keyspace.Dict.names`, `Keyspace.Dict.contains` — what a dictionary shows;
* `Keyspace.Dict.Sorted` — the order of the entries.

Main results:

* `Keyspace.Dict.get?_insert` — **what an insertion changes**;
* `Keyspace.Dict.Sorted.insert`, `Keyspace.Dict.Sorted.union`, `Keyspace.Dict.sorted_ofList` —
  every dictionary that is built here is in order;
* `Keyspace.Dict.Sorted.ext` — dictionaries in order that show the same are the same.
-/

set_option autoImplicit false

namespace Keyspace

/-- Names with a value each, in increasing order of the names. -/
abbrev Dict (α : Type) := List (String × α)

namespace Dict

variable {α β : Type}

/-- No entries. -/
def empty : Dict α := []

/-- The names, in increasing order. -/
def names (d : Dict α) : List String := d.map Prod.fst

/-- The order of the entries: each name is smaller than all that follow. -/
def Sorted (d : Dict α) : Prop := d.names.Pairwise (· < ·)

/-- The value of a name. -/
def get? (d : Dict α) (name : String) : Option α := d.lookup name

/-- Whether a name has a value. -/
def contains (d : Dict α) (name : String) : Bool := d.any (·.1 == name)

/-- **A dictionary in which `name` has the value `value`** and all other names keep theirs. -/
def insert (name : String) (value : α) : Dict α → Dict α
  | [] => [(name, value)]
  | (n, v) :: rest =>
    if name < n then (name, value) :: (n, v) :: rest
    else if name = n then (name, value) :: rest
    else (n, v) :: insert name value rest

/-- The dictionary of some entries; of two for one name the later counts. -/
def ofList (entries : List (String × α)) : Dict α :=
  entries.foldl (fun d e => insert e.1 e.2 d) []

/-- All entries of two dictionaries; a name in both takes the second one's value. -/
def union (d more : Dict α) : Dict α :=
  more.foldl (fun d e => insert e.1 e.2 d) d

/-- The dictionary with every value changed. -/
def mapValues (f : α → β) (d : Dict α) : Dict β := d.map fun e => (e.1, f e.2)

/-! ### What an insertion shows -/

@[simp] theorem insert_nil (name : String) (value : α) :
    insert name value [] = [(name, value)] := rfl

@[simp] theorem get?_nil (name : String) : get? ([] : Dict α) name = none := rfl

theorem get?_cons (n name : String) (v : α) (rest : Dict α) :
    get? ((n, v) :: rest) name = if name = n then some v else get? rest name := by
  by_cases h : name = n
  · subst h; simp [get?]
  · simp [get?, List.lookup_cons, h, beq_false_of_ne h]

/-- **The inserted name has the inserted value, and every other name keeps its own.** -/
theorem get?_insert (d : Dict α) (name n : String) (value : α) :
    (insert name value d).get? n = if n = name then some value else d.get? n := by
  induction d with
  | nil => rw [insert_nil, get?_cons, get?_nil]
  | cons e rest ih =>
    obtain ⟨m, v⟩ := e
    unfold insert
    split
    · rw [get?_cons]
    · split
      · next h =>
        subst h
        by_cases hn : n = name
        · simp [get?_cons, hn]
        · simp [get?_cons, hn]
      · next h =>
        rw [get?_cons, get?_cons, ih]
        by_cases hm : n = m
        · subst hm
          simp [Ne.symm h]
        · simp [hm]

/-- Exactly the inserted name is new. -/
theorem mem_names_insert {name n : String} {value : α} {d : Dict α} :
    n ∈ (insert name value d).names ↔ n = name ∨ n ∈ d.names := by
  induction d with
  | nil => simp [names]
  | cons e rest ih =>
    obtain ⟨m, v⟩ := e
    simp only [names] at ih
    unfold insert
    split
    · simp [names]
    · split
      · next h => subst h; simp [names]
      · simp only [names, List.map_cons, List.mem_cons, ih]
        exact or_left_comm

/-! ### The order of the entries -/

/-- Of two different names the one that is not smaller is greater. -/
theorem lt_of_not_lt_of_ne {a b : String} (h : ¬a < b) (ne : a ≠ b) : b < a := by
  rcases Decidable.em (b < a) with lt | nlt
  · exact lt
  · exact absurd (String.le_antisymm (String.not_lt.1 nlt) (String.not_lt.1 h)) ne

/-- **An insertion keeps the order.** -/
theorem Sorted.insert {d : Dict α} (h : d.Sorted) (name : String) (value : α) :
    Sorted (Dict.insert name value d) := by
  induction d with
  | nil => exact List.pairwise_cons.2 ⟨fun _ mem => absurd mem List.not_mem_nil, List.Pairwise.nil⟩
  | cons e rest ih =>
    obtain ⟨m, v⟩ := e
    have below : ∀ n ∈ Dict.names rest, m < n := (List.pairwise_cons.1 h).1
    have ordered : Sorted rest := (List.pairwise_cons.1 h).2
    unfold Dict.insert
    split
    · next lt =>
      refine List.pairwise_cons.2 ⟨?_, h⟩
      intro n mem
      rcases List.mem_cons.1 mem with rfl | mem
      · exact lt
      · exact String.lt_trans lt (below n mem)
    · split
      · next eq =>
        subst eq
        exact List.pairwise_cons.2 ⟨below, ordered⟩
      · next nlt ne =>
        refine List.pairwise_cons.2 ⟨?_, ih ordered⟩
        intro n mem
        rcases mem_names_insert.1 mem with rfl | mem
        · exact lt_of_not_lt_of_ne nlt ne
        · exact below n mem

/-- Uniting a dictionary with entries in any order keeps the order. -/
theorem Sorted.union {d : Dict α} (h : d.Sorted) (more : Dict α) : Sorted (d.union more) := by
  unfold Dict.union
  induction more generalizing d with
  | nil => exact h
  | cons e rest ih => exact ih (h.insert e.1 e.2)

/-- **The dictionary of some entries is in order.** -/
theorem sorted_ofList (entries : List (String × α)) : Sorted (ofList entries) :=
  Sorted.union (d := []) List.Pairwise.nil entries

/-- Below the first name there is none. -/
theorem get?_eq_none_of_lt {d : Dict α} {name : String} (h : ∀ n ∈ d.names, name < n) :
    d.get? name = none := by
  induction d with
  | nil => rfl
  | cons e rest ih =>
    obtain ⟨m, v⟩ := e
    have lt : name < m := h m List.mem_cons_self
    rw [get?_cons, if_neg (fun eq : name = m => String.lt_irrefl m (eq ▸ lt))]
    exact ih fun n mem => h n (List.mem_cons_of_mem m mem)

/-- **Dictionaries in order that show the same are the same.** -/
theorem Sorted.ext {d : Dict α} (hd : d.Sorted) {e : Dict α} (he : e.Sorted)
    (same : ∀ n, d.get? n = e.get? n) : d = e := by
  induction d generalizing e with
  | nil =>
    cases e with
    | nil => rfl
    | cons y more =>
      obtain ⟨k, w⟩ := y
      simpa [get?_cons] using same k
  | cons x rest ih =>
    obtain ⟨m, v⟩ := x
    have belowD : ∀ n ∈ Dict.names rest, m < n := (List.pairwise_cons.1 hd).1
    cases e with
    | nil => simpa [get?_cons] using same m
    | cons y more =>
      obtain ⟨k, w⟩ := y
      have belowE : ∀ n ∈ Dict.names more, k < n := (List.pairwise_cons.1 he).1
      have first : m = k := by
        rcases Decidable.em (m = k) with eq | ne
        · exact eq
        · have atM := same m
          have atK := same k
          rw [get?_cons, get?_cons, if_pos rfl, if_neg ne] at atM
          rw [get?_cons, get?_cons, if_pos rfl, if_neg (Ne.symm ne)] at atK
          rcases Decidable.em (m < k) with lt | nlt
          · rw [get?_eq_none_of_lt fun n mem => String.lt_trans lt (belowE n mem)] at atM
            cases atM
          · have lt := lt_of_not_lt_of_ne nlt ne
            rw [get?_eq_none_of_lt fun n mem => String.lt_trans lt (belowD n mem)] at atK
            cases atK
      subst first
      have value : v = w := by simpa [get?_cons] using same m
      subst value
      have tail : rest = more := by
        refine ih (List.pairwise_cons.1 hd).2 (List.pairwise_cons.1 he).2 fun n => ?_
        rcases Decidable.em (n = m) with rfl | ne
        · rw [get?_eq_none_of_lt belowD, get?_eq_none_of_lt belowE]
        · simpa [get?_cons, ne] using same n
      rw [tail]

end Dict

end Keyspace
