import Keyspace.Proofs.Dict.Union
import Keyspace.Proofs.Grammar.Lexemes
import Keyspace.Proofs.Wire.Value
import Keyspace.Wire.Reply
/-!
# Work that the store leaves undone

The store may leave out some of the writes or keys of a batch, and then names them in its reply as
they were sent.  What the reply names is read as the very writes and keys, in their order, each
write as what it is; so if they are sent again, they are sent as the same elements of JSON.

Main definitions:

* `Keyspace.Wire.Names` — an element of JSON names a write;
* `Keyspace.Wire.EchoesWrites`, `Keyspace.Wire.EchoesKeys` — what the replies leave undone.

Main results:

* `Keyspace.Wire.names_body` — **a known write is named by what is sent for it**;
* `Keyspace.Wire.answer_of_echoesWrites`, `Keyspace.Wire.answer_of_echoesKeys` — what is named is
  read;
* `Keyspace.Wire.unprocessed_work_comes_back` — **nothing of it is lost or changed**.
-/

set_option autoImplicit false

namespace Keyspace.Wire

open Grammar (mapM_of_forall₂)

variable {α : Type} {P : Json → α → Prop} {one : Json → List α → Prop} {j : Json} {name : String}
  {as : List α}

/-! ### Replies that leave something undone -/

/-- An element of JSON names a write: its only member tells whether an item is stored or removed,
and holds nothing but the item or the key. -/
inductive Names : Json → Write → Prop
  | put {map : Json} {item : Item} (h : item? map = some item) :
      Names (.object [("PutRequest", .object [("Item", map)])]) (.put item)
  | delete {map : Json} {key : Item} (h : item? map = some key) :
      Names (.object [("DeleteRequest", .object [("Key", map)])]) (.delete key)

/-- A JSON value is an array whose elements stand for some things. -/
def Lists (P : Json → α → Prop) (j : Option Json) (as : List α) : Prop :=
  ∃ xs, j = some (.array xs) ∧ List.Forall₂ P xs as

/-- A part of a reply that tells of the one table of a batch, under whatever name; if it is missing
or tells of no table, there is nothing to tell. -/
inductive Told (one : Json → List α → Prop) : Option Json → List α → Prop
  | missing : Told one none []
  | empty : Told one (some (.object [])) []
  | table {table : String} {j : Json} {as : List α} (h : one j as) :
      Told one (some (.object [(table, j)])) as

/-- A reply to several writes that names some of them as not done. -/
structure EchoesWrites (reply : Json) (writes : List Write) : Prop where
  others : ((resultForm .batchWriteItem).without "UnprocessedItems").fits reply = true
  told : Told (fun j => Lists Names (some j)) (reply.get? "UnprocessedItems") writes

/-- What a reply tells of the keys of a table that it leaves out. -/
structure LeavesKeys (j : Json) (keys : List Item) : Prop where
  others : (Form.keys.without "Keys").fits j = true
  keys : Lists (fun x key => item? x = some key) (j.get? "Keys") keys

/-- A reply to several keys that names some of them as not looked up. -/
structure EchoesKeys (reply : Json) (keys : List Item) : Prop where
  others : ((resultForm .batchGetItem).without "UnprocessedKeys").fits reply = true
  told : Told LeavesKeys (reply.get? "UnprocessedKeys") keys

/-- A message holds some elements as the writes to a table. -/
def SendsWrites (m : Message) (table : String) (elements : List Json) : Prop :=
  m.body.get? "RequestItems" = some (.object [(table, .array elements)])

/-- A message holds some elements as the keys of a table. -/
def SendsKeys (m : Message) (table : String) (elements : List Json) : Prop :=
  ∃ part, m.body.get? "RequestItems" = some (.object [(table, part)]) ∧
    part.get? "Keys" = some (.array elements)

/-! ### Objects -/

/-- A part that is there is found in the object of all parts, if no other part has its name. -/
theorem get?_object {parts : List Part} {x : Json} (hpart : always name x ∈ parts)
    (hunique : ∀ y, always name y ∈ parts → y = x) (hnull : x ≠ .null) :
    (object parts).get? name = some x := by
  have hmem : ∀ y, (name, y) ∈ parts.filterMap id ↔ always name y ∈ parts := fun y => by
    simp [always]
  obtain ⟨y, hy⟩ := Dict.mem_names_iff.1 (Dict.mem_names_ofList.2
    (List.mem_map_of_mem (f := Prod.fst) ((hmem x).2 hpart)))
  obtain rfl := hunique y ((hmem y).1 (Dict.mem_of_get?_ofList hy))
  simp only [object, Json.ofMembers, Json.get?, hy]
  split
  · next h => exact absurd (Option.some.inj h) hnull
  · rfl

/-- An object with one member shows nothing but this member. -/
theorem eq_of_get?_single {n : String} {v x : Json}
    (h : (Json.object [(n, v)]).get? name = some x) : name = n ∧ v = x := by
  by_cases hn : name = n
  · simp only [Json.get?, Dict.get?_cons, hn, if_true] at h
    split at h
    · cases h
    · exact ⟨hn, Option.some.inj h⟩
  · simp [Json.get?, Dict.get?_cons, hn] at h

theorem fits_record_single {fs : List (String × Form)} {n : String} {v : Json}
    (h : ∀ f, (n, f) ∈ fs → f.fits v = true) :
    (Form.record fs).fits (.object [(n, v)]) = true := by
  refine Form.fits_record_iff.2 ⟨⟨_, rfl⟩, fun e he x hx => ?_⟩
  obtain ⟨rfl, rfl⟩ := eq_of_get?_single hx
  exact h e.2 he

/-- The item of a member that is there. -/
theorem itemMember?_single {map : Json} {item : Item} (h : item? map = some item) :
    itemMember? (.object [(name, map)]) name = some (some item) := by
  have hget : (Json.object [(name, map)]).get? name = some map := by
    cases map with
    | null => cases h
    | _ => simp [Json.get?, Dict.get?_cons]
  rw [itemMember?, hget, Option.mapM_some, h]
  rfl

/-! ### Writes that are named -/

/-- **A known write is named by what is sent for it.** -/
theorem names_body {w : Write} (h : w.item.isKnown = true) : Names w.body w := by
  cases w with
  | put item => exact .put (item?_toJson h)
  | delete key => exact .delete (item?_toJson h)

/-- What names a write is read as this write and no other. -/
theorem writes?_of_names {w : Write} (h : Names j w) : writes? j = some [w] := by
  cases h with
  | put h => simp [writes?, Json.get?, Dict.get?_cons, itemMember?_single h]
  | delete h => simp [writes?, Json.get?, Dict.get?_cons, itemMember?_single h]

theorem fits_item_of_eq_some {map : Json} {item : Item} (h : item? map = some item) :
    Form.item.fits map = true := by
  rw [fits_item, h, Option.isSome_some]

/-- What names a write has the form of one. -/
theorem fits_write_of_names {w : Write} (h : Names j w) : Form.write.fits j = true := by
  cases h with
  | put h =>
      refine fits_record_single fun f hf => ?_
      obtain rfl : f = .record [("Item", .item)] := by simpa using hf
      refine fits_record_single fun f hf => ?_
      obtain rfl : f = .item := by simpa using hf
      exact fits_item_of_eq_some h
  | delete h =>
      refine fits_record_single fun f hf => ?_
      obtain rfl : f = .record [("Key", .item)] := by simpa using hf
      refine fits_record_single fun f hf => ?_
      obtain rfl : f = .item := by simpa using hf
      exact fits_item_of_eq_some h

/-! ### Parts of replies -/

/-- What is told of the one table is all that is told. -/
theorem Told.forall₂ {f : Json → List Json} (hone : ∀ j as, one j as → List.Forall₂ P (f j) as)
    (h : Told one (j.get? name) as) :
    List.Forall₂ P ((members j name).flatMap fun m => f m.2) as := by
  rw [members]
  generalize j.get? name = part at h
  cases h with
  | missing => exact .nil
  | empty => exact .nil
  | table h => simpa [Json.members?] using hone _ _ h

theorem Told.fits {f : Form} (hone : ∀ j as, one j as → f.fits j = true)
    (h : Told one (some j) as) : (Form.map f).fits j = true := by
  cases h with
  | empty => rfl
  | table h => simp [Form.fits, hone _ _ h]

/-- An array has the form of a list, if all that stands for such things has the form of one. -/
theorem fits_list_of_forall₂ {f : Form} (hP : ∀ x a, P x a → f.fits x = true) {xs : List Json}
    (h : List.Forall₂ P xs as) : (Form.list f).fits (.array xs) = true := by
  rw [Form.fits]
  induction h with
  | nil => rfl
  | cons hfirst _ ih => rw [List.all_cons, hP _ _ hfirst, ih, Bool.true_and]

/-- All elements of an array have the form that its elements are to have. -/
theorem fits_of_mem_elements? {f : Form} (h : (Form.list f).fits j = true) {y : Json}
    (hy : y ∈ j.elements?.getD []) : f.fits y = true := by
  cases j with
  | array xs =>
      rw [Form.fits] at h
      exact List.all_eq_true.1 h y hy
  | _ => cases hy

/-- All that is gathered has its form. -/
theorem fits_of_mem_gathered {f : Form}
    (h : ∀ x, j.get? name = some x → (Form.map (.list f)).fits x = true) {y : Json}
    (hy : y ∈ gathered j name) : f.fits y = true := by
  obtain ⟨m, hm, hy⟩ := List.mem_flatMap.1 hy
  obtain ⟨ms, hms, hm⟩ : ∃ ms, j.get? name = some (.object ms) ∧ m ∈ ms := by
    rw [members] at hm
    generalize j.get? name = part at hm ⊢
    match part with
    | some (.object ms) => exact ⟨ms, rfl, hm⟩
  have hfits := h _ hms
  rw [Form.fits] at hfits
  exact fits_of_mem_elements? (List.all_eq_true.1 hfits m hm) hy

theorem exists_mapM {β γ : Type} {f : β → Option γ} {xs : List β}
    (h : ∀ x ∈ xs, (f x).isSome = true) : ∃ ys, xs.mapM f = some ys := by
  induction xs with
  | nil => exact ⟨[], rfl⟩
  | cons x xs ih =>
      obtain ⟨y, hy⟩ := Option.isSome_iff_exists.1 (h x List.mem_cons_self)
      obtain ⟨ys, hys⟩ := ih fun z hz => h z (List.mem_cons_of_mem x hz)
      exact ⟨y :: ys, by rw [List.mapM_cons, hy, hys]; rfl⟩

/-! ### Replies -/

/-- A reply of success that can be read is the answer to a request that can be sent. -/
theorem answer_of_response? {r : Request} {status : Nat} {reply : Json} {out : Response}
    (hsent : r.message?.isSome = true) (hstatus : isSuccess status = true)
    (h : response? r.operation reply = some out) : answer r status reply = .ok out := by
  obtain ⟨m, hm⟩ := Option.isSome_iff_exists.1 hsent
  simp [answer, hm, read, hstatus, h]

/-- **The writes that a reply names are those that were left out.** -/
theorem answer_of_echoesWrites {r : BatchWriteRequest} {status : Nat} {reply : Json}
    {ws : List Write} (hsent : (Request.batchWrite r).message?.isSome = true)
    (hstatus : isSuccess status = true) (h : EchoesWrites reply ws) :
    ∃ out, answer (.batchWrite r) status reply = .ok (.batchWrite out) ∧
      out.unprocessed = ws := by
  have hlists : ∀ j ws, Lists Names (some j) ws →
      List.Forall₂ (fun x w => writes? x = some [w]) (j.elements?.getD []) ws := by
    rintro _ ws ⟨xs, ⟨⟩, hxs⟩
    exact hxs.imp fun _ _ => writes?_of_names
  have hread : (gathered reply "UnprocessedItems").mapM writes? = some (ws.map fun w => [w]) :=
    mapM_of_forall₂ (List.forall₂_map_right_iff.2 (h.told.forall₂ hlists))
  have hfits : (resultForm .batchWriteItem).fits reply = true := by
    refine Form.fits_of_without h.others fun f x hf hx => ?_
    obtain rfl : f = .map (.list .write) := by simpa using hf
    refine Told.fits ?_ (hx ▸ h.told)
    rintro _ ws ⟨xs, ⟨⟩, hxs⟩
    exact fits_list_of_forall₂ (fun _ _ => fits_write_of_names) hxs
  refine ⟨⟨ws, charged reply⟩, answer_of_response? hsent hstatus ?_, rfl⟩
  have hflatten : (ws.map fun w => [w]).flatten = ws := by
    rw [← List.flatMap_def, List.flatMap_singleton']
  simp [Request.operation, response?, hfits, batchWrite?, hread, hflatten]

/-- **The keys that a reply names are those that were left out.** -/
theorem answer_of_echoesKeys {r : BatchGetRequest} {status : Nat} {reply : Json}
    {ks : List Item} (hsent : (Request.batchGet r).message?.isSome = true)
    (hstatus : isSuccess status = true) (h : EchoesKeys reply ks) :
    ∃ out, answer (.batchGet r) status reply = .ok (.batchGet out) ∧
      out.unprocessed = ks := by
  have hlists : ∀ j ks, LeavesKeys j ks →
      List.Forall₂ (fun x key => item? x = some key) (elements j "Keys") ks := by
    rintro j ks ⟨-, xs, hget, hxs⟩
    simpa [elements, hget, Json.elements?] using hxs
  have hread : ((members reply "UnprocessedKeys").flatMap fun t => elements t.2 "Keys").mapM item?
      = some ks := mapM_of_forall₂ (h.told.forall₂ hlists)
  have hfits : (resultForm .batchGetItem).fits reply = true := by
    refine Form.fits_of_without h.others fun f x hf hx => ?_
    obtain rfl : f = .map .keys := by simpa using hf
    refine Told.fits ?_ (hx ▸ h.told)
    rintro j ks ⟨hothers, xs, hget, hxs⟩
    refine Form.fits_of_without hothers fun f x hf hx => ?_
    obtain rfl : f = .list .item := by simpa using hf
    obtain rfl : x = .array xs := Option.some.inj (hx.symm.trans hget)
    exact fits_list_of_forall₂ (fun _ _ => fits_item_of_eq_some) hxs
  obtain ⟨items, hitems⟩ : ∃ items, (gathered reply "Responses").mapM item? = some items := by
    refine exists_mapM fun x hx => ?_
    rw [← fits_item]
    exact fits_of_mem_gathered
      (fun part hpart => (Form.fits_record_iff.1 hfits).2 _ List.mem_cons_self part hpart) hx
  refine ⟨⟨items, ks, charged reply⟩, answer_of_response? hsent hstatus ?_, rfl⟩
  simp [Request.operation, response?, hfits, batchGet?, hread, hitems]

/-! ### Messages -/

/-- What goes out for a request that can be sent. -/
theorem body_of_message? {r : Request} {m : Message} (h : r.message? = some m) :
    m.body = r.body := by
  rw [Request.message?] at h
  split at h
  · cases h; rfl
  · cases h

/-- The member that names the work of a batch. -/
theorem get?_requestItems (x : List (String × Json)) :
    (object [always "RequestItems" (.object x), charges]).get? "RequestItems" =
      some (.object x) := by
  refine get?_object List.mem_cons_self (fun y hy => ?_) (by simp)
  simpa [always, charges] using hy

/-- **Writes are sent if they are known.** -/
theorem writes_sent_iff (r : BatchWriteRequest) :
    (Request.batchWrite r).message?.isSome = true ↔ ∀ w ∈ r.writes, w.item.isKnown = true := by
  simp [Request.message?, Request.isSendable, Request.table?, Request.items]

/-- **Keys are sent if they are known.** -/
theorem keys_sent_iff (r : BatchGetRequest) :
    (Request.batchGet r).message?.isSome = true ↔ ∀ key ∈ r.keys, key.isKnown = true := by
  simp [Request.message?, Request.isSendable, Request.table?, Request.items]

theorem sendsWrites {r : BatchWriteRequest} {m : Message}
    (h : (Request.batchWrite r).message? = some m) :
    SendsWrites m r.table (r.writes.map Write.body) := by
  rw [SendsWrites, body_of_message? h]
  exact get?_requestItems _

theorem sendsKeys {r : BatchGetRequest} {m : Message}
    (h : (Request.batchGet r).message? = some m) :
    SendsKeys m r.table (r.keys.map Item.toJson) := by
  rw [SendsKeys, body_of_message? h]
  refine ⟨_, get?_requestItems _, get?_object List.mem_cons_self (fun y hy => ?_) (by simp)⟩
  have hprojection :
      some ("Keys", y) ≠ optional "ProjectionExpression" Json.string r.projection := by
    cases r.projection <;> simp [optional]
  simpa [hprojection, always, nameMap, nonEmpty] using hy

/-! ### Sending again -/

/-- **Work that is left undone comes back as it was sent.**  A batch of writes is sent if no value
in it is unknown.  Its message holds the writes in order, each as one element that names it and
nothing else.  If the store's reply names any of these writes as not done, the answer lists them in
the order of the reply, and sent again they are the same elements.  So it is with the keys of a
batch of reads. -/
theorem unprocessed_work_comes_back :
    (∀ r : BatchWriteRequest,
      ((Request.batchWrite r).message?.isSome = true ↔
        ∀ w ∈ r.writes, w.item.isKnown = true) ∧
      ∀ m, (Request.batchWrite r).message? = some m →
        SendsWrites m r.table (r.writes.map Write.body) ∧
        List.Forall₂ Names (r.writes.map Write.body) r.writes ∧
        ∀ status reply ws, isSuccess status = true → EchoesWrites reply ws → ws ⊆ r.writes →
          ∃ out again, answer (.batchWrite r) status reply = .ok (.batchWrite out) ∧
            out.unprocessed = ws ∧
            (Request.batchWrite { r with writes := out.unprocessed }).message? = some again ∧
            SendsWrites again r.table (ws.map Write.body)) ∧
    ∀ r : BatchGetRequest,
      ((Request.batchGet r).message?.isSome = true ↔ ∀ key ∈ r.keys, key.isKnown = true) ∧
      ∀ m, (Request.batchGet r).message? = some m →
        SendsKeys m r.table (r.keys.map Item.toJson) ∧
        List.Forall₂ (fun x key => item? x = some key) (r.keys.map Item.toJson) r.keys ∧
        ∀ status reply ks, isSuccess status = true → EchoesKeys reply ks → ks ⊆ r.keys →
          ∃ out again, answer (.batchGet r) status reply = .ok (.batchGet out) ∧
            out.unprocessed = ks ∧
            (Request.batchGet { r with keys := out.unprocessed }).message? = some again ∧
            SendsKeys again r.table (ks.map Item.toJson) := by
  refine ⟨fun r => ⟨writes_sent_iff r, fun m hm => ?_⟩, fun r => ⟨keys_sent_iff r, fun m hm => ?_⟩⟩
  · have hsent : (Request.batchWrite r).message?.isSome = true := by rw [hm, Option.isSome_some]
    have hknown := (writes_sent_iff r).1 hsent
    refine ⟨sendsWrites hm, ?_, fun status reply ws hstatus hechoes hfrom => ?_⟩
    · rw [List.forall₂_map_left_iff, List.forall₂_same]
      exact fun w hw => names_body (hknown w hw)
    · obtain ⟨out, hout, rfl⟩ := answer_of_echoesWrites hsent hstatus hechoes
      obtain ⟨again, hagain⟩ := Option.isSome_iff_exists.1
        ((writes_sent_iff { r with writes := out.unprocessed }).2 fun w hw => hknown w (hfrom hw))
      exact ⟨out, again, hout, rfl, hagain, sendsWrites hagain⟩
  · have hsent : (Request.batchGet r).message?.isSome = true := by rw [hm, Option.isSome_some]
    have hknown := (keys_sent_iff r).1 hsent
    refine ⟨sendsKeys hm, ?_, fun status reply ks hstatus hechoes hfrom => ?_⟩
    · rw [List.forall₂_map_left_iff, List.forall₂_same]
      exact fun key hkey => item?_toJson (hknown key hkey)
    · obtain ⟨out, hout, rfl⟩ := answer_of_echoesKeys hsent hstatus hechoes
      obtain ⟨again, hagain⟩ := Option.isSome_iff_exists.1
        ((keys_sent_iff { r with keys := out.unprocessed }).2 fun key hkey =>
          hknown key (hfrom hkey))
      exact ⟨out, again, hout, rfl, hagain, sendsKeys hagain⟩

namespace Library

/-- A book is stored with marks in it, and another one removed. -/
def request : BatchWriteRequest where
  table := "library"
  writes :=
    [.delete [("owner", .text "bob")],
      .put [("marks", .list [.null false, .map [("page", .number "7")]]), ("owner", .text "ann")]]

/-- The book is not stored. -/
def left : List Write := request.writes.drop 1

/-- The reply that says so. -/
def reply : Json :=
  .object [("UnprocessedItems", .object [("library", .array (left.map Write.body))])]

end Library

/-- The book comes back with its marks, and is sent again as it was. -/
theorem library_book_comes_back :
    ∃ out again, answer (.batchWrite Library.request) 200 Library.reply = .ok (.batchWrite out) ∧
      out.unprocessed = Library.left ∧
      (Request.batchWrite { Library.request with writes := out.unprocessed }).message? =
        some again ∧
      SendsWrites again "library" (Library.left.map Write.body) := by
  have hsent : (Request.batchWrite Library.request).message?.isSome = true := by decide +kernel
  obtain ⟨m, hm⟩ := Option.isSome_iff_exists.1 hsent
  have hechoes : EchoesWrites Library.reply Library.left :=
    { others := by decide +kernel
      told := .table ⟨_, rfl, .cons (names_body (by decide +kernel)) .nil⟩ }
  exact ((unprocessed_work_comes_back.1 Library.request).2 m hm).2.2 200 Library.reply Library.left
    rfl hechoes (List.drop_subset 1 _)

end Keyspace.Wire
