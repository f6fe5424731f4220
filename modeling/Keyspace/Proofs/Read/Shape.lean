import Keyspace.Proofs.Cursor.RoundTrip
import Keyspace.Proofs.Text.Joined
import Keyspace.Read.Basic
/-!
# What a cursor is bound to

A cursor is bound to the fingerprint of its read, and the fingerprint is made of the shape, a text
whose parts are joined by `|`, `:` and `,`.  Nothing in the parts is escaped.  Reads whose parts
hold no separators have the same shape only if they agree part by part; others may share their
shape although they differ, and so may reads whose fragments differ in the meaning of their
placeholders alone.

Main definitions:

* `Keyspace.Frame`, `Keyspace.Read.frame` — the parts of a shape;
* `Keyspace.Frame.Plain` — frames without separators in their parts.

Main results:

* `Keyspace.Read.shape_eq` — a shape is made of its frame;
* `Keyspace.Frame.eq_of_pieces` — **a plain frame is read back part by part**;
* `Keyspace.Read.cursors_keep_plain_frames` — a cursor is accepted under its own frame only.
-/

set_option autoImplicit false

namespace Keyspace

/-! ### Frames -/

/-- **The parts of a shape.**  Of a condition it has the attribute and the operator, of a fragment
the text. -/
structure Frame where
  table : String
  index : String
  access : Access
  keyConditions : List (String × Operator)
  filterConditions : List (String × Operator)
  fragments : List String
  projection : List String
  order : SortOrder
  segments : Int
  deriving DecidableEq, Repr

/-- The parts of a read's shape. -/
def Read.frame (r : Read) : Frame :=
  { table := r.plan.table, index := r.plan.index.name, access := r.plan.access
    keyConditions := r.plan.keyConditions.map fun c => (c.field, c.operator)
    filterConditions := r.plan.filterConditions.map fun c => (c.field, c.operator)
    fragments := r.fragments.map Fragment.expression
    projection := r.projection, order := r.order, segments := r.segments }

namespace Frame

/-- The piece of a shape for a condition. -/
def conditionPiece (sign : String) (c : String × Operator) : String :=
  sign ++ ":" ++ c.1 ++ ":" ++ c.2.name

/-- The pieces of a shape that begin with a sign. -/
def signedPieces (f : Frame) : List String :=
  f.keyConditions.map (conditionPiece "k") ++ f.filterConditions.map (conditionPiece "f") ++
    f.fragments.map ("r:" ++ ·) ++ ["p:" ++ ",".intercalate f.projection] ++
    ["o:" ++ f.order.name] ++ ["s:" ++ toString f.segments]

/-- The pieces of a shape. -/
def pieces (f : Frame) : List String := f.table :: f.index :: f.access.name :: f.signedPieces

/-- **Frames without separators in their parts.**  An attribute of a condition may hold a colon. -/
structure Plain (f : Frame) : Prop where
  table : '|' ∉ f.table.toList
  index : '|' ∉ f.index.toList
  keyConditions : ∀ c ∈ f.keyConditions, '|' ∉ c.1.toList
  filterConditions : ∀ c ∈ f.filterConditions, '|' ∉ c.1.toList
  fragments : ∀ text ∈ f.fragments, '|' ∉ text.toList
  projection : ∀ path ∈ f.projection, '|' ∉ path.toList
  paths : ∀ path ∈ f.projection, path ≠ "" ∧ ',' ∉ path.toList

end Frame

/-- **A shape is made of its frame.** -/
theorem Read.shape_eq (r : Read) : r.shape = "|".intercalate r.frame.pieces := by
  have hconditions : ∀ (sign : String) (cs : List Condition),
      (cs.map (Read.conditionShape sign)) =
        ((cs.map fun c => (c.field, c.operator)).map (Frame.conditionPiece sign)).map
          ("|" ++ ·) := by
    intro sign cs
    simp [Read.conditionShape, Frame.conditionPiece, String.append_assoc]
  simp only [Read.shape, Frame.pieces, Frame.signedPieces, Read.frame, intercalate_cons,
    hconditions, List.map_append, List.map_cons, List.map_nil, List.map_map,
    String.join_append, String.join_cons, String.join_nil, String.append_empty,
    String.append_assoc]
  simp [Function.comp_def, ← String.append_assoc]

namespace Frame

theorem not_mem_conditionPiece {sign : String} (hsign : '|' ∉ sign.toList)
    {c : String × Operator} (hc : '|' ∉ c.1.toList) : '|' ∉ (conditionPiece sign c).toList := by
  have hname : ∀ op : Operator, '|' ∉ op.name.toList := by
    intro op
    cases op <;> decide
  simp [conditionPiece, String.toList_append, hsign, hc, hname]

/-- The pieces of a plain frame hold no bar. -/
theorem Plain.not_mem_pieces {f : Frame} (h : f.Plain) :
    ∀ piece ∈ f.pieces, '|' ∉ piece.toList := by
  have haccess : '|' ∉ f.access.name.toList := by cases f.access <;> decide
  have horder : '|' ∉ f.order.name.toList := by cases f.order <;> decide
  have hsegments : '|' ∉ (toString f.segments).toList := fun hmem =>
    absurd (mem_toString_int hmem) (by decide)
  have hpaths : '|' ∉ (",".intercalate f.projection).toList :=
    not_mem_intercalate (by decide) h.projection
  intro piece hpiece
  simp only [pieces, signedPieces, List.mem_cons, List.mem_append, List.mem_map, List.not_mem_nil,
    or_false, or_assoc] at hpiece
  rcases hpiece with rfl | rfl | rfl | ⟨c, hc, rfl⟩ | ⟨c, hc, rfl⟩ | ⟨text, htext, rfl⟩ |
    rfl | rfl | rfl
  · exact h.table
  · exact h.index
  · exact haccess
  · exact not_mem_conditionPiece (by decide) (h.keyConditions c hc)
  · exact not_mem_conditionPiece (by decide) (h.filterConditions c hc)
  · simp [String.toList_append, h.fragments text htext]
  · simpa [String.toList_append] using hpaths
  · simpa [String.toList_append] using horder
  · simpa [String.toList_append] using hsegments

/-! ### Reading the pieces -/

/-- The pieces that begin with a character. -/
def marked (mark : Char) (pieces : List String) : List String :=
  pieces.filter fun piece => piece.toList.head? == some mark

theorem marked_append (mark : Char) (xs ys : List String) :
    marked mark (xs ++ ys) = marked mark xs ++ marked mark ys := List.filter_append ..

/-- All pieces of a kind begin with its character. -/
theorem marked_map {α : Type} {piece : α → String} {c : Char}
    (hpiece : ∀ x, (piece x).toList.head? = some c) (mark : Char) (xs : List α) :
    marked mark (xs.map piece) = if c = mark then xs.map piece else [] := by
  by_cases hmark : c = mark
  · rw [if_pos hmark, marked, List.filter_eq_self]
    intro x hx
    obtain ⟨y, -, rfl⟩ := List.mem_map.1 hx
    simp [hpiece, hmark]
  · rw [if_neg hmark, marked, List.filter_eq_nil_iff]
    intro x hx
    obtain ⟨y, -, rfl⟩ := List.mem_map.1 hx
    simp [hpiece, hmark]

theorem marked_singleton {piece : String} {c : Char} (hpiece : piece.toList.head? = some c)
    (mark : Char) : marked mark [piece] = if c = mark then [piece] else [] := by
  have hone : ∀ _ : Unit, piece.toList.head? = some c := fun _ => hpiece
  exact marked_map hone mark [()]

/-- A condition is read back from its piece, behind the last colon the operator. -/
theorem conditionPiece_injective (sign : String) : (conditionPiece sign).Injective := by
  have hname : ∀ op : Operator, ':' ∉ op.name.toList := by
    intro op
    cases op <;> decide
  have hnames : ∀ op op' : Operator, op.name = op'.name → op = op' := by
    intro op op'
    cases op <;> cases op' <;> decide
  rintro ⟨field, op⟩ ⟨field', op'⟩ h
  simp only [conditionPiece, String.append_assoc, String.append_right_inj] at h
  have hlists := congrArg String.toList h
  simp only [String.toList_append] at hlists
  obtain ⟨hfield, hop⟩ := append_cons_inj_of_not_mem (hname op) (hname op') hlists
  rw [String.toList_inj.1 hfield, hnames op op' (String.toList_inj.1 hop)]

/-- The signed pieces of each kind. -/
theorem marked_signedPieces (f : Frame) (mark : Char) :
    marked mark f.signedPieces =
      (if 'k' = mark then f.keyConditions.map (conditionPiece "k") else []) ++
      (if 'f' = mark then f.filterConditions.map (conditionPiece "f") else []) ++
      (if 'r' = mark then f.fragments.map ("r:" ++ ·) else []) ++
      (if 'p' = mark then ["p:" ++ ",".intercalate f.projection] else []) ++
      (if 'o' = mark then ["o:" ++ f.order.name] else []) ++
      (if 's' = mark then ["s:" ++ toString f.segments] else []) := by
  have hsign : ∀ (c : Char) (rest : String),
      (String.ofList [c, ':'] ++ rest).toList.head? = some c := by
    intro c rest
    simp [String.toList_append]
  simp only [signedPieces, marked_append]
  rw [marked_map (c := 'k') (fun _ => by simp [conditionPiece, String.toList_append]),
    marked_map (c := 'f') (fun _ => by simp [conditionPiece, String.toList_append]),
    marked_map (c := 'r') (fun _ => hsign 'r' _), marked_singleton (hsign 'p' _),
    marked_singleton (hsign 'o' _), marked_singleton (hsign 's' _)]

/-- **A plain frame is read back part by part.** -/
theorem eq_of_pieces {f g : Frame} (hf : f.Plain) (hg : g.Plain) (h : f.pieces = g.pieces) :
    f = g := by
  have haccess : ∀ a a' : Access, a.name = a'.name → a = a' := by
    intro a a'
    cases a <;> cases a' <;> decide
  have horder : ∀ o o' : SortOrder, o.name = o'.name → o = o' := by
    intro o o'
    cases o <;> cases o' <;> decide
  simp only [pieces, List.cons.injEq] at h
  obtain ⟨htable, hindex, hname, hsigned⟩ := h
  have hmarked := fun mark => congrArg (marked mark) hsigned
  simp only [marked_signedPieces] at hmarked
  have hkeys : f.keyConditions.map (conditionPiece "k") =
      g.keyConditions.map (conditionPiece "k") := by
    simpa using hmarked 'k'
  have hfilters : f.filterConditions.map (conditionPiece "f") =
      g.filterConditions.map (conditionPiece "f") := by
    simpa using hmarked 'f'
  have hfragments : f.fragments.map ("r:" ++ ·) = g.fragments.map ("r:" ++ ·) := by
    simpa using hmarked 'r'
  have hpaths : ",".intercalate f.projection = ",".intercalate g.projection := by
    simpa using hmarked 'p'
  have horders : f.order.name = g.order.name := by simpa using hmarked 'o'
  have hsegments : toString f.segments = toString g.segments := by simpa using hmarked 's'
  cases f
  cases g
  simp only [Frame.mk.injEq]
  exact ⟨htable, hindex, haccess _ _ hname,
    (conditionPiece_injective "k").list_map hkeys, (conditionPiece_injective "f").list_map hfilters,
    Function.Injective.list_map (fun _ _ => (String.append_right_inj "r:").1) hfragments,
    intercalate_inj_of_ne_empty hf.paths hg.paths hpaths, horder _ _ horders,
    toString_int_inj hsegments⟩

end Frame

/-! ### Cursors -/

/-- **A cursor is accepted under its own frame only**, if the frames are plain and the shapes do
not collide. -/
theorem Read.cursors_keep_plain_frames {r s : Read} (hr : r.frame.Plain) (hs : s.frame.Plain)
    (hcollision : r.fingerprint = s.fingerprint → r.shape = s.shape) :
    (r.fingerprint = s.fingerprint ↔ r.frame = s.frame) ∧
      ∀ key text key', Cursor.encode key r.fingerprint = .ok text →
        Cursor.decode text s.fingerprint = .ok key' → r.frame = s.frame := by
  have hframe : r.fingerprint = s.fingerprint → r.frame = s.frame := by
    intro hfingerprint
    have hshape := hcollision hfingerprint
    rw [Read.shape_eq, Read.shape_eq] at hshape
    exact Frame.eq_of_pieces hr hs
      (intercalate_inj hr.not_mem_pieces hs.not_mem_pieces (List.cons_ne_nil _ _)
        (List.cons_ne_nil _ _) hshape)
  refine ⟨⟨hframe, fun h => ?_⟩, fun key text key' hencode hdecode => ?_⟩
  · rw [Read.fingerprint, Read.fingerprint, Read.shape_eq, Read.shape_eq, h]
  · exact hframe (Cursor.eq_of_decode hencode hdecode).symm

/-- A table of books. -/
def Library.books : TableSchema := { table := "library", partitionKey := "owner" }

/-- A scan of the books of a century for some paths, with fragments in its filter. -/
def Library.scanFor (projection : List String) (fragments : List Fragment) : Read :=
  { plan := books.scanPlan books.baseIndex [⟨"year", .ge, [.number "1900"]⟩]
    fragments, projection }

/-- A cursor of a scan for titles is of no use to a scan for years. -/
theorem library_cursor_keeps_its_frame :
    (Library.scanFor ["title"] []).fingerprint ≠ (Library.scanFor ["year"] []).fingerprint ∧
      ∀ key text key',
        Cursor.encode key (Library.scanFor ["title"] []).fingerprint = .ok text →
          Cursor.decode text (Library.scanFor ["year"] []).fingerprint ≠ .ok key' := by
  have hframe : (Library.scanFor ["title"] []).frame ≠ (Library.scanFor ["year"] []).frame := by
    decide
  obtain ⟨hfingerprint, hcursor⟩ := Read.cursors_keep_plain_frames
    (r := Library.scanFor ["title"] []) (s := Library.scanFor ["year"] [])
    ⟨by decide, by decide, by decide, by decide, by decide, by decide, by decide⟩
    ⟨by decide, by decide, by decide, by decide, by decide, by decide, by decide⟩
    fun h => absurd h (by decide +kernel)
  exact ⟨fun h => hframe (hfingerprint.1 h), fun key text key' hencode hdecode =>
    hframe (hcursor key text key' hencode hdecode)⟩

/-- Reads that differ in their paths, or in the attributes that their fragments are about, may
have the same fingerprint. -/
theorem library_scans_share_a_fingerprint :
    (∃ r s : Read, r.fingerprint = s.fingerprint ∧ r.projection ≠ s.projection) ∧
      ∃ r s : Read, r.fingerprint = s.fingerprint ∧
        r.fragments.map Fragment.names ≠ s.fragments.map Fragment.names := by
  have hshape : (Library.scanFor ["title,year"] []).shape =
      (Library.scanFor ["title", "year"] []).shape := by
    decide +kernel
  refine ⟨⟨_, _, congrArg Fingerprint.of hshape, by decide⟩, ?_⟩
  exact ⟨Library.scanFor [] [⟨"attribute_exists(#a)", [("#a", "title")], []⟩],
    Library.scanFor [] [⟨"attribute_exists(#a)", [("#a", "owner")], []⟩], rfl, by decide⟩

end Keyspace
