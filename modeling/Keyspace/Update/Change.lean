import Keyspace.Expression.Compiler
/-!
# Changes to an item

An update changes an item at some document paths.  In the update expression the changes are
gathered in up to four sections, which set values, remove attributes, add to numbers and sets, and
delete elements of sets.

Main definitions:

* `Keyspace.ChangeForm`, `Keyspace.Change` — the changes;
* `Keyspace.PlacedChange`, `Keyspace.PlacedChange.text` — changes with placeholders, their text;
* `Keyspace.Compiler.update` — the update expression;
* `Keyspace.Value.asSet` — the set that a list of values stands for.
-/

set_option autoImplicit false

namespace Keyspace

/-! ### Changes -/

/-- How an operand changes what is at a path. -/
inductive ChangeForm where
  | set
  /-- Set if there is nothing yet. -/
  | setIfAbsent
  | increment
  | decrement
  /-- Put behind a list. -/
  | append
  /-- Put in front of a list. -/
  | prepend
  /-- Add to a number or a set. -/
  | add
  /-- Delete from a set. -/
  | delete
  deriving DecidableEq, Repr

/-- A change at a document path. -/
inductive Change where
  | apply (form : ChangeForm) (path : String) (operand : Value)
  | remove (path : String)
  deriving Repr, BEq

/-- The path that a change is made at. -/
def Change.path : Change → String
  | .apply _ path _ => path
  | .remove path => path

/-! ### Sections -/

/-- A section of an update expression. -/
inductive UpdateSection where
  | set
  | remove
  | add
  | delete
  deriving DecidableEq, Repr

namespace UpdateSection

/-- The sections in the order they are written in. -/
def all : List UpdateSection := [set, remove, add, delete]

/-- The word that a section starts with. -/
def keyword : UpdateSection → String
  | set => "SET"
  | remove => "REMOVE"
  | add => "ADD"
  | delete => "DELETE"

end UpdateSection

/-- The section that a form belongs to. -/
def ChangeForm.home : ChangeForm → UpdateSection
  | .add => .add
  | .delete => .delete
  | _ => .set

/-! ### Placeholders -/

/-- A change with placeholders; the operand's placeholder comes with its value. -/
inductive PlacedChange where
  | apply (form : ChangeForm) (path : PlacedPath) (operand : String × Value)
  | remove (path : PlacedPath)
  deriving Repr

namespace PlacedChange

/-- The path of a change. -/
def path : PlacedChange → PlacedPath
  | .apply _ path _ => path
  | .remove path => path

/-- The operand of a change. -/
def operand? : PlacedChange → Option (String × Value)
  | .apply _ _ operand => some operand
  | .remove _ => none

/-- The section that a change belongs to. -/
def home : PlacedChange → UpdateSection
  | .apply form _ _ => form.home
  | .remove _ => .remove

/-- **The text of a change** inside its section. -/
def text : PlacedChange → String
  | .remove path => path.text
  | .apply form path (v, _) =>
    let p := path.text
    match form with
    | .set => p ++ " = " ++ v
    | .setIfAbsent => p ++ " = if_not_exists(" ++ p ++ ", " ++ v ++ ")"
    | .increment => p ++ " = " ++ p ++ " + " ++ v
    | .decrement => p ++ " = " ++ p ++ " - " ++ v
    | .append => p ++ " = list_append(" ++ p ++ ", " ++ v ++ ")"
    | .prepend => p ++ " = list_append(" ++ v ++ ", " ++ p ++ ")"
    | .add | .delete => p ++ " " ++ v

end PlacedChange

/-- The text of a section, if some changes belong to it. -/
def UpdateSection.text? (s : UpdateSection) (cs : List PlacedChange) : Option String :=
  match cs.filter fun c => c.home = s with
  | [] => none
  | own => some (s.keyword ++ " " ++ ", ".intercalate (own.map PlacedChange.text))

namespace Compiler

/-- A change with placeholders. -/
def change (c : Compiler) : Change → PlacedChange × Compiler
  | .remove path =>
    let (path, c) := c.place path
    (.remove path, c)
  | .apply form path operand =>
    let (path, c) := c.place path
    let p := Placeholder.ofValue c.operandCount
    (.apply form path (p, operand), { c with operandCount := c.operandCount + 1 })

/-- Changes with placeholders. -/
def changes (c : Compiler) : List Change → List PlacedChange × Compiler
  | [] => ([], c)
  | x :: rest =>
    let (y, c) := c.change x
    let (ys, c) := c.changes rest
    (y :: ys, c)

/-- **The update expression of some changes.** -/
def update (c : Compiler) (xs : List Change) : Expression × Compiler :=
  let (ys, c) := c.changes xs
  ({ text := " ".intercalate (UpdateSection.all.filterMap fun s => s.text? ys)
     names := Dict.ofList (ys.flatMap fun y => y.path.names)
     values := Dict.ofList (ys.filterMap PlacedChange.operand?) }, c)

end Compiler

/-! ### Sets -/

namespace Value

/-- The text of a text. -/
def text? : Value → Option String
  | .text s => some s
  | _ => none

/-- The digits of a number. -/
def number? : Value → Option String
  | .number n => some n
  | _ => none

/-- The bytes of a binary. -/
def binary? : Value → Option (List UInt8)
  | .binary b => some b
  | _ => none

/-- The set of values that are all of one kind. -/
def setOf (values : List Value) : Option Value :=
  ((values.mapM text?).map .texts).or <|
    ((values.mapM number?).map .numbers).or ((values.mapM binary?).map .binaries)

/-- **A list as a set**; other values stay as they are.  The elements have to be all texts, all
numbers or all binaries, and there has to be one. -/
def asSet : Value → Except Error Value
  | .list [] => .error (.invalid .emptySet)
  | .list vs =>
    match setOf vs with
    | some s => .ok s
    | none => .error (.invalid .mixedSet)
  | v => .ok v

end Value

end Keyspace
