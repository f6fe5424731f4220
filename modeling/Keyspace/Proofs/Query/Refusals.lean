import Keyspace.Proofs.Builder.Query
import Keyspace.Proofs.Query.Paging
/-!
# Why a query is not sent

A query that is not sent has an error that one of its steps left, is wrong in itself, or has a
cursor that cannot be used.  There is no other error before the first call.

Main results:

* `Keyspace.TableSchema.select_ne_error`, `Keyspace.Read.compile_ne_error`,
  `Keyspace.Cursor.decode_ne_error` — the errors of planning, compiling and resuming;
* `Keyspace.Query.prepare_error` — **why a query is not sent**.
-/

set_option autoImplicit false

namespace Keyspace

variable {e : Error}

/-! ### Planning -/

theorem ConditionSet.parts_ne_error {s : ConditionSet} (h : s.error ≠ some e) :
    s.parts ≠ .error e := by
  unfold parts
  split
  · next e' he' =>
      intro herror
      obtain rfl : e' = e := Except.error.inj herror
      exact h he'
  · simp

namespace TableSchema

theorem named_ne_error (he : e.isValidation = false) (s : TableSchema) (name : String) :
    s.named name ≠ .error e := by
  unfold named
  split
  · simp
  · exact fun h => Error.ne_invalid he _ (Except.error.inj h).symm

theorem select_ne_error (he : e.isValidation = false) (s : TableSchema) (cs : List Condition)
    (index : Option String) (projection : List String) :
    s.select cs index projection ≠ .error e := by
  cases index with
  | some name => exact bind_ne_error (named_ne_error he s name) fun _ => by simp
  | none => simp [select]

theorem scan_ne_error (he : e.isValidation = false) (s : TableSchema) (cs : List Condition)
    (index : Option String) : s.scan cs index ≠ .error e := by
  cases index with
  | some name => exact bind_ne_error (named_ne_error he s name) fun _ => by simp
  | none => simp [scan]

end TableSchema

/-! ### Compiling -/

namespace Compiler

theorem bring_ne_error (he : e.isValidation = false) (c : Compiler) (f : Fragment) :
    c.bring f ≠ .error e := by
  refine bind_ne_error (Fragment.validate_ne_error he f) fun _ => ?_
  split
  · rintro ⟨⟩
    cases he
  · split
    · exact fun h => Error.ne_invalid he _ (Except.error.inj h).symm
    · simp

theorem bringAll_ne_error (he : e.isValidation = false) (c : Compiler) (fs : List Fragment) :
    (c.bringAll fs).1 ≠ .error e := by
  induction fs generalizing c with
  | nil => simp [bringAll]
  | cons f rest ih =>
      unfold bringAll
      split
      · exact ih _
      · next e' hbring =>
          intro h
          obtain rfl : e' = e := Except.error.inj h
          exact bring_ne_error he c f hbring

theorem merge_ne_error (he : e.isValidation = false) (c : Compiler)
    (generated : Option Expression) (fs : List Fragment) :
    (c.merge generated fs).1 ≠ .error e := by
  unfold merge
  split
  · simp
  · split
    · simp
    · next e' c' hbring =>
        intro h
        obtain rfl : e' = e := Except.error.inj h
        exact bringAll_ne_error he c fs (congrArg Prod.fst hbring)

end Compiler

theorem Read.compile_ne_error (he : e.isValidation = false) (r : Read) : r.compile ≠ .error e := by
  unfold compile
  simp only
  split
  · simp
  · next e' c' hmerge =>
      intro h
      obtain rfl : e' = e := Except.error.inj h
      exact Compiler.merge_ne_error he _ _ _ (congrArg Prod.fst hmerge)

/-! ### Resuming -/

theorem Cursor.decode_ne_error (he : e.isCursor = false) (text : String) (shape : Fingerprint) :
    Cursor.decode text shape ≠ .error e := by
  unfold decode
  cases read text shape with
  | ok key => simp
  | error fault =>
      rintro ⟨⟩
      cases he

namespace Query

theorem resume_ne_error (hvalid : e.isValidation = false) (hcursor : e.isCursor = false)
    (cursor : Option String) (r : Read) : resume cursor r ≠ .error e := by
  cases cursor with
  | none => simp [resume]
  | some text =>
      unfold resume
      simp only
      split
      · exact fun h => Error.ne_invalid hvalid _ (Except.error.inj h).symm
      · exact bind_ne_error (Cursor.decode_ne_error hcursor text _) fun _ => by simp

/-! ### All of it -/

theorem planOf_ne_error (he : e.isValidation = false) (q : Query) (cs : List Condition) :
    q.planOf cs ≠ .error e := by
  unfold planOf
  split
  · exact TableSchema.scan_ne_error he _ _ _
  · exact TableSchema.select_ne_error he _ _ _ _

theorem planned_ne_error (he : e.isValidation = false) {q : Query} (hq : q.error? ≠ some e) :
    q.planned ≠ .error e := by
  refine bind_ne_error (ConditionSet.parts_ne_error hq) fun parts => ?_
  refine bind_ne_error (planOf_ne_error he q parts.1) fun plan => ?_
  split
  · exact fun h => Error.ne_invalid he _ (Except.error.inj h).symm
  · simp

/-- **Why a query is not sent**: one of its steps left an error, it is wrong in itself, or its
cursor cannot be used. -/
theorem prepare_error {q : Query} (h : q.prepare = .error e) :
    q.error? = some e ∨ e.isValidation = true ∨ e.isCursor = true := by
  by_contra hnone
  simp only [not_or, Bool.not_eq_true] at hnone
  obtain ⟨hq, hvalid, hcursor⟩ := hnone
  refine bind_ne_error ?_ (fun r => map_ne_error _ (Read.compile_ne_error hvalid r))
    ((prepare_eq q).symm.trans h)
  rw [build_eq]
  exact bind_ne_error (planned_ne_error hvalid hq) (resume_ne_error hvalid hcursor q.cursor)

end Query

end Keyspace
