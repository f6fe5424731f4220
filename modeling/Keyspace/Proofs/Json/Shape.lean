import Keyspace.Json.Reader
import Keyspace.Proofs.Dict.Union
import Keyspace.Proofs.Json.Tokens
/-!
# Reading what was written as JSON

The tokens that a value is written of have the shape of the value, and the shape gives the value
back, if its members are in order, its numbers are read as themselves and it is not too deep.

Main definitions:

* `Keyspace.Json.outline` — the shape of a value;
* `Keyspace.Json.depth` — the number of arrays and objects inside each other;
* `Keyspace.Json.Canonical` — values that are read back as themselves.

Main results:

* `Keyspace.Json.outline_ofBytes?` — **a written value has its shape**;
* `Keyspace.Json.toJson?_outline` — **the shape gives the value back**.
-/

set_option autoImplicit false

namespace Keyspace.Json

open Outline (Expect Frame Reading feed feedAll place)

/-! ### The shape of a value -/

mutual

/-- **The shape of a value.** -/
def outline : Json → Outline
  | .null => .null
  | .bool b => .bool b
  | .int n => .number (toString n)
  | .real literal => .number literal
  | .string s => .string (some s)
  | .array xs => .array (outlineOfElements xs)
  | .object ms => .object (outlineOfMembers ms)

/-- The shape of each element. -/
def outlineOfElements : List Json → List Outline
  | [] => []
  | x :: xs => outline x :: outlineOfElements xs

/-- The name and the shape of each member. -/
def outlineOfMembers : List (String × Json) → List (Option String × Outline)
  | [] => []
  | (name, x) :: ms => (some name, outline x) :: outlineOfMembers ms

end

theorem feedAll_cons {r r' : Reading} {t : Token} (h : feed r t = some r') (ts : List Token) :
    feedAll r (t :: ts) = feedAll r' ts := by
  simp [feedAll, h]

/-- What may come where the first or a further element of an array is read. -/
def isElementPlace : Expect → Bool
  | .value | .elementOrEnd => true
  | _ => false

/-- What may come where the first or a further name of an object is read. -/
def isNamePlace : Expect → Bool
  | .name | .nameOrEnd => true
  | _ => false

/-- A token that ends no array is read as the beginning of a value. -/
theorem feed_of_isElementPlace {e : Expect} (he : isElementPlace e = true) (fs : List Frame)
    {t : Token} (ht : t ≠ .closeArray) : feed ⟨e, fs⟩ t = Outline.feedValue fs t := by
  cases e with
  | value => rfl
  | elementOrEnd => cases t <;> first | rfl | exact absurd rfl ht
  | _ => cases he

/-- A name where one may come. -/
theorem feed_of_isNamePlace {e : Expect} (he : isNamePlace e = true) (fs : List Frame)
    (name : Option String) : feed ⟨e, fs⟩ (.string name) = some ⟨.colon name, fs⟩ := by
  cases e with
  | name => rfl
  | nameOrEnd => rfl
  | _ => cases he

mutual

/-- **The tokens of a value put its shape in its place.** -/
theorem feedAll_tokens : ∀ (j : Json) {e : Expect}, isElementPlace e = true →
    ∀ (fs : List Frame) (ts : List Token),
      feedAll ⟨e, fs⟩ (j.tokens ++ ts) = (place j.outline fs).bind fun r => feedAll r ts
  | .null, e, he, fs, ts => by
      simp [tokens, outline, feedAll, feed_of_isElementPlace he, Outline.feedValue]
  | .bool b, e, he, fs, ts => by
      simp [tokens, outline, feedAll, feed_of_isElementPlace he, Outline.feedValue]
  | .int n, e, he, fs, ts => by
      simp [tokens, outline, feedAll, feed_of_isElementPlace he, Outline.feedValue]
  | .real literal, e, he, fs, ts => by
      simp [tokens, outline, feedAll, feed_of_isElementPlace he, Outline.feedValue]
  | .string s, e, he, fs, ts => by
      simp [tokens, outline, feedAll, feed_of_isElementPlace he, Outline.feedValue]
  | .array xs, e, he, fs, ts => by
      have hopen : feed ⟨e, fs⟩ .openArray = some ⟨.elementOrEnd, .array [] :: fs⟩ :=
        feed_of_isElementPlace he fs (by decide)
      rw [tokens, List.append_assoc, List.cons_append, List.singleton_append,
        feedAll_cons hopen, feedAll_elements xs (fun _ => rfl) rfl]
      rfl
  | .object ms, e, he, fs, ts => by
      have hopen : feed ⟨e, fs⟩ .openObject = some ⟨.nameOrEnd, .object [] :: fs⟩ :=
        feed_of_isElementPlace he fs (by decide)
      rw [tokens, List.append_assoc, List.cons_append, List.singleton_append,
        feedAll_cons hopen, feedAll_members ms (fun _ => rfl) rfl]
      rfl

/-- The elements of an open array, and its end. -/
theorem feedAll_elements : ∀ (xs : List Json) {e : Expect}, (xs = [] → e = .elementOrEnd) →
    isElementPlace e = true → ∀ (acc : List Outline) (fs : List Frame) (ts : List Token),
      feedAll ⟨e, .array acc :: fs⟩ (separated (tokensOfElements xs) ++ .closeArray :: ts) =
        (place (.array (acc.reverse ++ outlineOfElements xs)) fs).bind fun r => feedAll r ts
  | [], e, hend, _, acc, fs, ts => by
      rw [hend rfl, tokensOfElements, separated, outlineOfElements, List.append_nil,
        List.nil_append, feedAll]
      rfl
  | [x], e, _, he, acc, fs, ts => by
      rw [tokensOfElements, tokensOfElements, separated, feedAll_tokens x he, outlineOfElements,
        outlineOfElements, ← List.reverse_cons]
      rfl
  | x :: y :: xs, e, _, he, acc, fs, ts => by
      have hcomma : feed ⟨.separator, .array (x.outline :: acc) :: fs⟩ .comma =
          some ⟨.value, .array (x.outline :: acc) :: fs⟩ := rfl
      rw [tokensOfElements, tokensOfElements, separated, List.append_assoc, List.cons_append,
        feedAll_tokens x he, place, Option.bind_some, feedAll_cons hcomma, ← tokensOfElements,
        feedAll_elements (y :: xs) (fun h => by cases h) rfl, outlineOfElements,
        List.reverse_cons, List.append_assoc, List.singleton_append]
      · rfl
      · intro h
        cases h

/-- The members of an open object, and its end. -/
theorem feedAll_members : ∀ (ms : List (String × Json)) {e : Expect}, (ms = [] → e = .nameOrEnd) →
    isNamePlace e = true →
      ∀ (acc : List (Option String × Outline)) (fs : List Frame) (ts : List Token),
        feedAll ⟨e, .object acc :: fs⟩ (separated (tokensOfMembers ms) ++ .closeObject :: ts) =
          (place (.object (acc.reverse ++ outlineOfMembers ms)) fs).bind fun r => feedAll r ts
  | [], e, hend, _, acc, fs, ts => by
      rw [hend rfl, tokensOfMembers, separated, outlineOfMembers, List.append_nil,
        List.nil_append, feedAll]
      rfl
  | [(name, x)], e, _, he, acc, fs, ts => by
      have hcolon : feed ⟨.colon (some name), .object acc :: fs⟩ .colon =
          some ⟨.value, .member acc (some name) :: fs⟩ := rfl
      rw [tokensOfMembers, tokensOfMembers, separated, List.cons_append, List.cons_append,
        feedAll_cons (feed_of_isNamePlace he _ _), feedAll_cons hcolon, feedAll_tokens x rfl,
        outlineOfMembers, outlineOfMembers, ← List.reverse_cons]
      rfl
  | (name, x) :: m :: ms, e, _, he, acc, fs, ts => by
      have hcolon : feed ⟨.colon (some name), .object acc :: fs⟩ .colon =
          some ⟨.value, .member acc (some name) :: fs⟩ := rfl
      have hcomma : feed ⟨.separator, .object ((some name, x.outline) :: acc) :: fs⟩ .comma =
          some ⟨.name, .object ((some name, x.outline) :: acc) :: fs⟩ := rfl
      rw [tokensOfMembers, separated, List.append_assoc, List.cons_append, List.cons_append,
        List.cons_append, feedAll_cons (feed_of_isNamePlace he _ _), feedAll_cons hcolon,
        feedAll_tokens x rfl, place, Option.bind_some, feedAll_cons hcomma,
        feedAll_members (m :: ms) (fun h => by cases h) rfl, outlineOfMembers,
        List.reverse_cons, List.append_assoc, List.singleton_append]
      · rfl
      · intro h
        cases h

end

/-- **A written value has its shape.** -/
theorem outline_ofBytes? {j : Json} (h : j.isSpelt = true) :
    Outline.ofBytes? j.toBytes = some j.outline := by
  have hfeed := feedAll_tokens j (e := .value) rfl [] []
  rw [List.append_nil] at hfeed
  rw [Outline.ofBytes?, ofBytes_toBytes h, Option.bind_some, Outline.ofTokens?, hfeed]
  rfl

/-! ### The value of a shape -/

mutual

/-- The number of arrays and objects inside each other. -/
def depth : Json → Nat
  | .array xs => depthOfElements xs + 1
  | .object ms => depthOfMembers ms + 1
  | _ => 0

/-- The depth of the deepest element. -/
def depthOfElements : List Json → Nat
  | [] => 0
  | x :: xs => max (depth x) (depthOfElements xs)

/-- The depth of the deepest member. -/
def depthOfMembers : List (String × Json) → Nat
  | [] => 0
  | (_, x) :: ms => max (depth x) (depthOfMembers ms)

end

mutual

/-- Values that are read back as themselves: members are in order, and numbers are what they are
read as. -/
def Canonical : Json → Prop
  | .int n => Outline.number? (toString n) = some (.int n)
  | .real literal => Outline.number? literal = some (.real literal)
  | .array xs => AreCanonical xs
  | .object ms => Dict.Sorted ms ∧ MembersCanonical ms
  | _ => True

/-- Elements that are read back as themselves. -/
def AreCanonical : List Json → Prop
  | [] => True
  | x :: xs => Canonical x ∧ AreCanonical xs

/-- Members that are read back as themselves. -/
def MembersCanonical : List (String × Json) → Prop
  | [] => True
  | (_, x) :: ms => Canonical x ∧ MembersCanonical ms

end

mutual

/-- **The shape gives the value back.** -/
theorem toJson?_outline : ∀ (j : Json) {d : Nat}, j.Canonical → j.depth ≤ d →
    Outline.toJson? d j.outline = some j
  | .null, _, _, _ => rfl
  | .bool _, _, _, _ => rfl
  | .int _, _, h, _ => h
  | .real _, _, h, _ => h
  | .string _, _, _, _ => rfl
  | .array xs, d, h, hd => by
      have hd' : depthOfElements xs + 1 ≤ d := hd
      rw [outline, Outline.toJson?, if_neg (by omega),
        elementsToJson?_outline xs h (by omega : depthOfElements xs ≤ d - 1)]
      rfl
  | .object ms, d, h, hd => by
      have hd' : depthOfMembers ms + 1 ≤ d := hd
      rw [outline, Outline.toJson?, if_neg (by omega),
        membersToJson?_outline ms h.2 (by omega : depthOfMembers ms ≤ d - 1), Option.map_some,
        ofMembers, Dict.ofList_of_sorted h.1]

/-- The elements of an array. -/
theorem elementsToJson?_outline : ∀ (xs : List Json) {d : Nat}, AreCanonical xs →
    depthOfElements xs ≤ d → Outline.elementsToJson? d (outlineOfElements xs) = some xs
  | [], _, _, _ => rfl
  | x :: xs, d, h, hd => by
      have hd' : max (depth x) (depthOfElements xs) ≤ d := hd
      simp only [outlineOfElements, Outline.elementsToJson?,
        toJson?_outline x h.1 (by omega : depth x ≤ d),
        elementsToJson?_outline xs h.2 (by omega : depthOfElements xs ≤ d)]
      rfl

/-- The members of an object. -/
theorem membersToJson?_outline : ∀ (ms : List (String × Json)) {d : Nat}, MembersCanonical ms →
    depthOfMembers ms ≤ d → Outline.membersToJson? d (outlineOfMembers ms) = some ms
  | [], _, _, _ => rfl
  | (name, x) :: ms, d, h, hd => by
      have hd' : max (depth x) (depthOfMembers ms) ≤ d := hd
      simp only [outlineOfMembers, Outline.membersToJson?,
        toJson?_outline x h.1 (by omega : depth x ≤ d),
        membersToJson?_outline ms h.2 (by omega : depthOfMembers ms ≤ d)]
      rfl

end

end Keyspace.Json
