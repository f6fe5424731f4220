import Mathlib.Data.List.Basic
import Keyspace.Read.Segments
/-!
# Reports put together

The reports of the workers come in some order, and are put together in the order of the segments:
the items of those that were read, one after the other, and the errors of the others.

Main definitions:

* `Keyspace.merged` — the outcomes of all segments, in order.

Main results:

* `Keyspace.mergeReports_eq` — **reports put together are outcomes in order**, whichever order the
  reports came in;
* `Keyspace.Segmented.toExcept_of_complete`, `Keyspace.Segmented.toExcept_of_failed` — all items, or
  the error of the lowest segment that failed.
-/

set_option autoImplicit false

namespace Keyspace

variable {n k : Nat} {outcome : Nat → Except Error (List Item)}

/-- The items that an outcome brings; an error brings none. -/
def brought : Except Error (List Item) → List Item
  | .ok items => items
  | .error _ => []

/-- The failure of a segment with some outcome. -/
def failure? (k : Nat) : Except Error (List Item) → Option SegmentFailure
  | .ok _ => none
  | .error e => some ⟨k, e⟩

/-- **The outcomes of all segments, in order.** -/
def merged (n : Nat) (outcome : Nat → Except Error (List Item)) : Segmented Item where
  items := (List.range n).flatMap fun k => brought (outcome k)
  failures := (List.range n).filterMap fun k => failure? k (outcome k)
  segments := n

/-! ### Reports -/

/-- The last report of a segment stands for the segment. -/
theorem reportOf?_append_singleton (reports : List SegmentReport) (r : SegmentReport) (k : Nat) :
    reportOf? (reports ++ [r]) k =
      if r.segment = k then some r.outcome else reportOf? reports k := by
  unfold reportOf?
  rw [List.filter_append]
  by_cases hk : r.segment = k
  · simp [hk]
  · simp [hk]

/-- One segment more. -/
theorem add_eq (s : Segmented Item) (k : Nat) (o : Except Error (List Item)) :
    s.add k o =
      { items := s.items ++ brought o, failures := s.failures ++ (failure? k o).toList
        segments := s.segments } := by
  cases o with
  | ok items => simp [Segmented.add, brought, failure?]
  | error e => simp [Segmented.add, brought, failure?]

theorem foldl_add_outcome (n total : Nat) (outcome : Nat → Except Error (List Item)) :
    (List.range n).foldl (fun s k => s.add k (outcome k)) ({ segments := total } : Segmented Item) =
      { merged n outcome with segments := total } := by
  induction n with
  | zero => rfl
  | succ n ih =>
      rw [List.range_succ, List.foldl_append, ih, List.foldl_cons, List.foldl_nil, add_eq]
      cases houtcome : outcome n with
      | ok items => simp [merged, List.range_succ, houtcome, failure?]
      | error e => simp [merged, List.range_succ, houtcome, failure?]

/-- Reports put together are outcomes in order, where nothing reported is an outcome, too. -/
theorem mergeReports_eq_merged (n : Nat) (reports : List SegmentReport) :
    mergeReports n reports =
      merged n fun k => (reportOf? reports k).getD (.error (lostSegment k)) :=
  foldl_add_outcome n n _

/-- **Reports put together are outcomes in order.** -/
theorem mergeReports_eq {reports : List SegmentReport}
    (h : ∀ k < n, reportOf? reports k = some (outcome k)) :
    mergeReports n reports = merged n outcome := by
  refine Eq.trans (List.foldl_ext _ _ _ fun s k hk => ?_) (foldl_add_outcome n n outcome)
  rw [h k (List.mem_range.1 hk), Option.getD_some]

/-! ### Failures -/

/-- A failure is an outcome of a segment. -/
theorem error_of_mem_failures {f : SegmentFailure} (h : f ∈ (merged n outcome).failures) :
    ∃ k < n, outcome k = .error f.error := by
  obtain ⟨k, hk, hfailure⟩ := List.mem_filterMap.1 h
  refine ⟨k, List.mem_range.1 hk, ?_⟩
  cases houtcome : outcome k with
  | ok items => simp [houtcome, failure?] at hfailure
  | error e =>
      rw [houtcome, failure?, Option.some.injEq] at hfailure
      rw [← hfailure]

/-- What is reported of a segment is in one of the reports. -/
theorem exists_report {reports : List SegmentReport} {o : Except Error (List Item)}
    (h : reportOf? reports k = some o) : ∃ r ∈ reports, r.outcome = o := by
  obtain ⟨r, hlast, hr⟩ := Option.map_eq_some_iff.1 h
  exact ⟨r, List.mem_of_mem_filter (List.mem_of_getLast? hlast), hr⟩

/-- Nothing failed if every segment was read. -/
theorem failures_merged_eq_nil (h : ∀ k < n, ∃ items, outcome k = .ok items) :
    (merged n outcome).failures = [] := by
  refine List.filterMap_eq_nil_iff.2 fun k hk => ?_
  obtain ⟨items, hitems⟩ := h k (List.mem_range.1 hk)
  rw [hitems]
  rfl

/-- The first failure is that of the lowest segment that failed. -/
theorem head?_failures_merged {e : Error} (hk : k < n) (herror : outcome k = .error e)
    (hbelow : ∀ i < k, ∃ items, outcome i = .ok items) :
    (merged n outcome).failures.head? = some ⟨k, e⟩ := by
  obtain ⟨m, rfl⟩ := Nat.exists_eq_add_of_lt hk
  have hfront : (List.range k).filterMap (fun i => failure? i (outcome i)) = [] :=
    failures_merged_eq_nil hbelow
  simp only [merged, Nat.add_assoc, List.range_add, List.filterMap_append, hfront,
    List.nil_append, List.range_succ_eq_map, List.map_cons, Nat.add_zero]
  simp [failure?, herror]

/-- A failure was reported, or its segment was lost. -/
theorem mem_failures_mergeReports {reports : List SegmentReport} {f : SegmentFailure}
    (h : f ∈ (mergeReports n reports).failures) :
    (∃ r ∈ reports, r.outcome = .error f.error) ∨ ∃ k < n, f.error = lostSegment k := by
  rw [mergeReports_eq_merged] at h
  obtain ⟨k, hk, houtcome⟩ := error_of_mem_failures h
  cases hreported : reportOf? reports k with
  | none =>
      rw [hreported, Option.getD_none] at houtcome
      exact Or.inr ⟨k, hk, (Except.error.inj houtcome).symm⟩
  | some outcome =>
      rw [hreported, Option.getD_some] at houtcome
      obtain ⟨r, hr, hreport⟩ := exists_report hreported
      exact Or.inl ⟨r, hr, hreport.trans houtcome⟩

namespace Segmented

variable {s : Segmented Item}

theorem toExcept_of_complete (hfailures : s.failures = (merged n outcome).failures)
    (h : ∀ k < n, ∃ items, outcome k = .ok items) : s.toExcept = .ok s.items := by
  unfold toExcept
  rw [hfailures, failures_merged_eq_nil h]

theorem toExcept_of_failed {e : Error} (hfailures : s.failures = (merged n outcome).failures)
    (hk : k < n) (herror : outcome k = .error e)
    (hbelow : ∀ i < k, ∃ items, outcome i = .ok items) : s.toExcept = .error e := by
  have hhead := head?_failures_merged hk herror hbelow
  unfold toExcept
  rw [hfailures]
  cases hlist : (merged n outcome).failures with
  | nil => simp [hlist] at hhead
  | cons failure rest =>
      rw [hlist, List.head?_cons, Option.some.injEq] at hhead
      rw [hhead]

end Segmented

end Keyspace
