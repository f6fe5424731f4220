import Keyspace.Expression.Basic
import Keyspace.Expression.Clause
/-!
# Compiling expressions

One compiler writes all expressions of a request and keeps the placeholders in them apart.  An
attribute gets the placeholder `#nK` when it is first named, where `K` attributes were named
before it, and keeps it; every operand gets a placeholder `:vK` of its own.  Fragments bring their
placeholders with them, and none of these may have been issued or brought before.

Main definitions:

* `Keyspace.Compiler` — what has been issued;
* `Keyspace.Compiler.place`, `Keyspace.Compiler.operands` — placeholders for a path, for operands;
* `Keyspace.Compiler.conditions`, `Keyspace.Compiler.projection` — generated expressions;
* `Keyspace.Compiler.merge` — fragments joined with a generated expression.
-/

set_option autoImplicit false

namespace Keyspace

/-- The attributes with a placeholder in the order of their numbers, the number of operands so
far, and the placeholders that fragments brought. -/
structure Compiler where
  attributes : List String := []
  operandCount : Nat := 0
  brought : List String := []
  deriving DecidableEq, Repr

namespace Compiler

/-- The compiler that has issued nothing. -/
def empty : Compiler := {}

/-- Whether a placeholder has a meaning already. -/
def hasIssued (c : Compiler) (p : String) : Bool :=
  ((List.range c.attributes.length).map Placeholder.ofName).contains p ||
    ((List.range c.operandCount).map Placeholder.ofValue).contains p || c.brought.contains p

/-! ### Issuing placeholders -/

/-- The placeholder of an attribute. -/
def name (c : Compiler) (attr : String) : String × Compiler :=
  match c.attributes.idxOf? attr with
  | some n => (Placeholder.ofName n, c)
  | none =>
    (Placeholder.ofName c.attributes.length, { c with attributes := c.attributes ++ [attr] })

/-- The steps of a path with placeholders. -/
def placeSteps (c : Compiler) : List PathStep → PlacedPath × Compiler
  | [] => ([], c)
  | s :: rest =>
    let (p, c) := c.name s.name
    let (ps, c) := c.placeSteps rest
    (⟨p, s.name, s.indexes⟩ :: ps, c)

/-- **A path with placeholders.** -/
def place (c : Compiler) (path : String) : PlacedPath × Compiler := c.placeSteps (pathSteps path)

/-- **Operands with a new placeholder each.** -/
def operands (c : Compiler) : List Value → List (String × Value) × Compiler
  | [] => ([], c)
  | v :: rest =>
    let p := Placeholder.ofValue c.operandCount
    let (ps, c) := ({ c with operandCount := c.operandCount + 1 } : Compiler).operands rest
    ((p, v) :: ps, c)

/-! ### Generated expressions -/

/-- A condition with placeholders. -/
def clause (c : Compiler) (x : Condition) : Clause × Compiler :=
  let (path, c) := c.place x.field
  let (operands, c) := c.operands x.values
  (⟨x.operator, path, operands⟩, c)

/-- Conditions with placeholders. -/
def clauses (c : Compiler) : List Condition → List Clause × Compiler
  | [] => ([], c)
  | x :: rest =>
    let (y, c) := c.clause x
    let (ys, c) := c.clauses rest
    (y :: ys, c)

/-- Paths with placeholders. -/
def placeAll (c : Compiler) : List String → List PlacedPath × Compiler
  | [] => ([], c)
  | path :: rest =>
    let (p, c) := c.place path
    let (ps, c) := c.placeAll rest
    (p :: ps, c)

/-- **The expression that all conditions hold**; no conditions have none. -/
def conditions (c : Compiler) (xs : List Condition) : Option Expression × Compiler :=
  if xs.isEmpty then (none, c)
  else
    let (ys, c) := c.clauses xs
    let e : Expression :=
      { text := " AND ".intercalate (ys.map Clause.text)
        names := Dict.ofList (ys.flatMap fun y => y.path.names)
        values := Dict.ofList (ys.flatMap Clause.operands) }
    (some e, c)

/-- **The list of the paths to be read**; no paths have none. -/
def projection (c : Compiler) (paths : List String) : Option Expression × Compiler :=
  if paths.isEmpty then (none, c)
  else
    let (ps, c) := c.placeAll paths
    let e : Expression :=
      { text := ", ".intercalate (ps.map PlacedPath.text)
        names := Dict.ofList (ps.flatMap PlacedPath.names) }
    (some e, c)

/-! ### Fragments -/

/-- A fragment's placeholders are taken in, if the fragment is right, none of them was there
before, and all of them are used. -/
def bring (c : Compiler) (f : Fragment) : Except Error Compiler := do
  f.validate
  match f.declared.find? c.hasIssued with
  | some p => .error (.placeholderCollision p)
  | none =>
    match f.unused? with
    | some p => .error (.invalid (.unusedPlaceholder p))
    | none => .ok { c with brought := c.brought ++ f.declared }

/-- The fragments' placeholders are taken in one fragment after the other.  The compiler that an
error leaves keeps those of the fragments before. -/
def bringAll (c : Compiler) : List Fragment → Except Error Unit × Compiler
  | [] => (.ok (), c)
  | f :: rest =>
    match c.bring f with
    | .ok c => c.bringAll rest
    | .error e => (.error e, c)

/-- The text that all parts hold: one part stands as it is, several stand in parentheses. -/
def conjunction : List String → String
  | [part] => part
  | parts => " AND ".intercalate (parts.map fun part => "(" ++ part ++ ")")

/-- Fragments, and after them a generated expression, as one expression. -/
def join (fragments : List Fragment) (generated : Option Expression) : Expression :=
  let parts := fragments.map (fun f => (⟨f.expression, f.names, f.values⟩ : Expression)) ++
    generated.toList
  { text := conjunction (parts.map Expression.text)
    names := parts.foldl (fun d e => d.union e.names) Dict.empty
    values := parts.foldl (fun d e => d.union e.values) Dict.empty }

/-- **The expression that fragments and a generated expression hold.**  Without fragments it is
the generated one. -/
def merge (c : Compiler) (generated : Option Expression) (fragments : List Fragment) :
    Except Error (Option Expression) × Compiler :=
  if fragments.isEmpty then (.ok generated, c)
  else
    match c.bringAll fragments with
    | (.ok (), c) => (.ok (some (join fragments generated)), c)
    | (.error e, c) => (.error e, c)

end Compiler

end Keyspace
