import Keyspace.Proofs.Expression.Named
import Keyspace.Proofs.Plan.Whole
import Keyspace.Proofs.Request.Closed
import Keyspace.Proofs.Request.Form
import Keyspace.Read.Prepared
/-!
# Requests without a projection

A read without its projection has the same expressions otherwise, and asks for the same items if its
plan is the same; a count of them is the same request, but for the selection.  Even with another
plan for the same conditions no more placeholders are issued without the projection, and so every
read that can be compiled can be compiled without it.

Main definitions:

* `Keyspace.Read.compiler` — the compiler behind the generated expressions of a read;
* `Keyspace.Read.whole`, `Keyspace.PreparedRead.whole` — a read without its projection;
* `Keyspace.PageRequest.counting` — the request for the number of items.

Main results:

* `Keyspace.Read.exists_compile_of_perm` — **a read can be compiled without its projection**;
* `Keyspace.Read.collision_of_compile_error` — what can be wrong with it otherwise;
* `Keyspace.PreparedRead.countRequest_whole` — **the count of a read asks for the same items**.
-/

set_option autoImplicit false

namespace Keyspace

/-! ### Expressions -/

/-- Fragments are joined with an expression if they are taken in. -/
theorem Compiler.merge_eq (c : Compiler) (generated : Option Expression) (fs : List Fragment) :
    (c.merge generated fs).1 = (c.bringAll fs).1.map fun _ =>
      if fs.isEmpty then generated else some (join fs generated) := by
  unfold merge
  split
  · next hempty =>
      rw [List.isEmpty_iff.1 hempty]
      rfl
  · rcases c.bringAll fs with ⟨_ | _, d⟩ <;> rfl

namespace Read

/-- The compiler behind the generated expressions of a read. -/
def compiler (r : Read) : Compiler :=
  let key := Compiler.empty.conditions r.plan.keyConditions
  let filter := key.2.conditions r.plan.filterConditions
  (filter.2.projection r.projection).2

/-- **The expressions of a read**, if its fragments are taken in. -/
theorem compile_eq_bringAll (r : Read) :
    let key := Compiler.empty.conditions r.plan.keyConditions
    let filter := key.2.conditions r.plan.filterConditions
    let projection := filter.2.projection r.projection
    r.compile = (r.compiler.bringAll r.fragments).1.map fun _ =>
      { key := key.1, projection := projection.1
        filter := if r.fragments.isEmpty then filter.1
          else some (Compiler.join r.fragments filter.1) } := by
  intro key filter projection
  rw [r.compile_eq, Compiler.merge_eq]
  show Except.map _ ((projection.2.bringAll r.fragments).1.map _) = _
  rw [show r.compiler = projection.2 from rfl]
  cases (projection.2.bringAll r.fragments).1 <;> rfl

/-- What has been issued for the conditions of a read. -/
theorem compiler_spec (r : Read) :
    ∃ c : Compiler, c.Grows r.compiler 0 ∧ (r.projection = [] → r.compiler = c) ∧
      Compiler.empty.Collects c
        ((r.plan.keyConditions ++ r.plan.filterConditions).flatMap Condition.attributes) ∧
      Compiler.empty.Grows c
        ((r.plan.keyConditions ++ r.plan.filterConditions).flatMap Condition.values).length := by
  let c := Compiler.empty.conditions r.plan.keyConditions
  let d := c.2.conditions r.plan.filterConditions
  refine ⟨d.2, d.2.projection_grows r.projection, fun hnone => ?_, ?_, ?_⟩
  · unfold compiler
    rw [hnone]
    rfl
  · rw [List.flatMap_append]
    exact (Compiler.empty.conditions_collects _).trans (c.2.conditions_collects _)
  · rw [List.flatMap_append, List.length_append]
    exact (Compiler.empty.conditions_grows _).trans (c.2.conditions_grows _)

/-- **A read that can be compiled can be compiled in any other way**, unless a fragment has a
placeholder that is issued then. -/
theorem collision_of_compile_error {r r' : Read} (hfragments : r'.fragments = r.fragments)
    {e' : Expressions} (h' : r'.compile = .ok e') {cause : Error}
    (h : r.compile = .error cause) : ∃ p, cause = .placeholderCollision p := by
  rw [r'.compile_eq_bringAll, hfragments] at h'
  obtain ⟨_, hbrought, -⟩ := map_eq_ok h'
  have hadmits := Compiler.admits_of_bringAll (Prod.ext hbrought rfl)
  rw [r.compile_eq_bringAll] at h
  cases hrefused : (r.compiler.bringAll r.fragments).1 with
  | ok _ =>
      rw [hrefused] at h
      cases h
  | error e =>
      rw [hrefused] at h
      obtain rfl := Except.error.inj h
      obtain ⟨p, hp, -⟩ := Compiler.collision_of_bringAll hadmits (Prod.ext hrefused rfl)
      exact ⟨p, hp⟩

section

variable {r r' : Read} (hconditions : (r'.plan.keyConditions ++ r'.plan.filterConditions).Perm
    (r.plan.keyConditions ++ r.plan.filterConditions)) (hprojection : r'.projection = [])
include hconditions hprojection

/-- **Without a projection no more is issued**, however the conditions are divided. -/
theorem hasIssued_of_perm {p : String} (h : r'.compiler.hasIssued p = true) :
    r.compiler.hasIssued p = true := by
  obtain ⟨c, hmore, -, hnames, hgrows⟩ := r.compiler_spec
  obtain ⟨c', -, hsame, hnames', hgrows'⟩ := r'.compiler_spec
  rw [hsame hprojection, Compiler.hasIssued_iff, hgrows'.brought] at h
  rw [Compiler.hasIssued_iff]
  have hlength : c'.attributes.length ≤ r.compiler.attributes.length :=
    (hnames'.length_le hnames List.nodup_nil (hconditions.flatMap_right _).subset).trans
      hmore.attributes.length_le
  have hcount : c'.operandCount = r.compiler.operandCount := by
    rw [hmore.operandCount, hgrows.operandCount, hgrows'.operandCount,
      (hconditions.flatMap_right _).length_eq, Nat.add_zero]
  refine h.imp ?_ (Or.imp ?_ ?_)
  · exact fun ⟨n, hn, hp⟩ => ⟨n, hn.trans_le hlength, hp⟩
  · exact fun ⟨n, hn, hp⟩ => ⟨n, hcount ▸ hn, hp⟩
  · exact fun hbrought => absurd hbrought List.not_mem_nil

variable (hfragments : r'.fragments = r.fragments)
include hfragments

/-- **A read that can be compiled can be compiled without its projection.** -/
theorem exists_compile_of_perm {e : Expressions} (h : r.compile = .ok e) :
    ∃ e', r'.compile = .ok e' := by
  rw [r.compile_eq_bringAll] at h
  obtain ⟨_, hbrought, -⟩ := map_eq_ok h
  have hadmits := (Compiler.admits_of_bringAll (Prod.ext hbrought rfl)).of_fewer fun p =>
    hasIssued_of_perm hconditions hprojection (p := p)
  rw [r'.compile_eq_bringAll, hfragments, Compiler.bringAll_of_admits hadmits]
  exact ⟨_, rfl⟩

end

/-- A read without its projection. -/
def whole (r : Read) : Read := { r with projection := [] }

/-- **Without the projection of a read its other expressions are the same.** -/
theorem compile_whole {r : Read} {e : Expressions} (h : r.compile = .ok e) :
    r.whole.compile = .ok { e with projection := none } := by
  have hconditions : (r.whole.plan.keyConditions ++ r.whole.plan.filterConditions).Perm
      (r.plan.keyConditions ++ r.plan.filterConditions) := .refl _
  obtain ⟨e', he'⟩ := exists_compile_of_perm hconditions rfl rfl h
  rw [he']
  rw [r.compile_eq_bringAll] at h
  rw [r.whole.compile_eq_bringAll] at he'
  obtain ⟨_, -, rfl⟩ := map_eq_ok h
  obtain ⟨_, -, rfl⟩ := map_eq_ok he'
  rfl

/-- A projection has no operands. -/
theorem values_of_compile {r : Read} {e : Expressions} (h : r.compile = .ok e) :
    ({ e with projection := none } : Expressions).values = e.values := by
  obtain ⟨hupdate, hcondition, -, -, hvalues⟩ := compile_shape h
  obtain ⟨key, filter, projection, update, condition⟩ := e
  cases hupdate
  cases hcondition
  cases projection with
  | none => rfl
  | some x =>
      have hlast : (Expressions.mk key filter (some x) none none).present =
          (Expressions.mk key filter none none none).present ++ [x] := by
        cases key <;> cases filter <;> rfl
      unfold Expressions.values
      rw [hlast, List.foldl_append, List.foldl_cons, List.foldl_nil, hvalues x rfl]
      rfl

end Read

/-! ### Requests -/

/-- **The request for the number of items** that a request asks for: the names of the projection are
not needed any more. -/
def PageRequest.counting (names : Dict String) : PageRequest → PageRequest
  | .query r => .query { r with select := some .count, projection := none, names }
  | .scan r => .scan { r with select := some .count, projection := none, names }

namespace PreparedRead

/-- A prepared read without its projection. -/
def whole (p : PreparedRead) : PreparedRead :=
  { p with read := p.read.whole, expressions := { p.expressions with projection := none } }

/-- **The count of a read without its projection asks for the same items.** -/
theorem countRequest_whole {p : PreparedRead} (h : p.read.compile = .ok p.expressions) :
    p.whole.countRequest = p.request.counting p.whole.expressions.names := by
  have hvalues : p.whole.expressions.values = p.expressions.values := Read.values_of_compile h
  have hscan : p.whole.read.plan.isScan = p.read.plan.isScan := rfl
  unfold countRequest request Read.request
  rw [hvalues, hscan]
  split
  · rfl
  · rfl

end PreparedRead

end Keyspace
