import Backlog.Proofs.ReadBack

/-!
# Fields that last

Whatever is written for a field, a later reader finds something there. A value is stored as a
literal, and every stored literal looks like something: a text, an integer or a truth value. So if
the schema of the day does not accept the literal of a field, or does not declare the field any
more, the field is loaded as what it looks like; and since a save writes all fields that it loaded,
it writes this one again. A field may change its kind from one schema to the next and come back
cut, but nothing makes it disappear except a save that says so, by giving `null` for it.

This holds with any number of migrations, also half ones, and with any caches, however old the
types are that clients remember: a save merges what it is given into what it loaded, by whatever
type it goes.

## Main results

* `contains_decodeFields` — every stored field is loaded, by every type;
* `ItemType.contains_mergeFields` — a save removes no field that its payload does not set to `null`;
* `Backend.hasField_stays` — a call removes a field only by removing the item, or by such a save;
* `History.field_lasts` — the fields of items last through all histories, and every load shows them.
-/

namespace Backlog

open Tx WorkItems

-- ---------------------------------------------------------------------------
-- One field
-- ---------------------------------------------------------------------------

/-- Stored fields are loaded under all of their names. -/
theorem contains_decodeFields (type : Option ItemType) (stored : Fields) (name : String) :
    (decodeFields type stored.toPayload).contains name = stored.contains name := by
  unfold SortedMap.contains
  rw [decodeFields_get?, Fields.toPayload, SortedMap.get?_map]
  cases stored.get? name with
  | none => rfl
  | some v => exact decodeField_isSome type name v

-- ---------------------------------------------------------------------------
-- Saves
-- ---------------------------------------------------------------------------

namespace ItemType

variable {t : ItemType} {fields fields' : Fields} {name key : String} {literal : Json}
  {l : List (String × Json)} {payload : Payload}

/-- Putting one literal over fields removes none but its own, and that one only for a `null`. -/
theorem contains_mergeEntry (h : fields.contains name = true)
    (hmerge : t.mergeEntry fields key literal = .ok fields')
    (hnull : key = name → literal.isNull = false) : fields'.contains name = true := by
  unfold mergeEntry at hmerge
  split at hmerge
  · next hisNull =>
    split at hmerge
    · simp at hmerge
    · split at hmerge
      · simp at hmerge
      · obtain rfl := Except.ok.inj hmerge
        have hne : name ≠ key := fun e => absurd (hisNull.symm.trans (hnull e.symm)) (by simp)
        rwa [SortedMap.contains, SortedMap.get?_erase, if_neg hne]
  · split at hmerge
    · obtain rfl := Except.ok.inj hmerge
      exact SortedMap.contains_insert_iff.mpr (.inr h)
    · simp at hmerge

theorem contains_mergeEntries (h : fields.contains name = true)
    (hmerge : t.mergeEntries fields l = .ok fields')
    (hnull : ∀ e ∈ l, e.1 = name → e.2.isNull = false) : fields'.contains name = true := by
  induction l generalizing fields with
  | nil =>
    obtain rfl := Except.ok.inj hmerge
    exact h
  | cons e rest ih =>
    obtain ⟨hhere, hlater⟩ := List.forall_mem_cons.mp hnull
    rw [mergeEntries] at hmerge
    split at hmerge
    · next hentry => exact ih (contains_mergeEntry h hentry hhere) hmerge hlater
    · simp at hmerge

/-- A payload that does not set a field to `null` does not remove it. -/
theorem contains_mergeFields (h : fields.contains name = true)
    (hmerge : t.mergeFields fields payload = .ok fields')
    (hnull : (payload.get? name).any Json.isNull = false) : fields'.contains name = true := by
  unfold mergeFields at hmerge
  split at hmerge
  · simp at hmerge
  · next hentries =>
    split at hmerge
    · obtain rfl := Except.ok.inj hmerge
      refine contains_mergeEntries h hentries ?_
      rintro ⟨key, literal⟩ he rfl
      rwa [SortedMap.mem_entries_iff.mp he] at hnull
    · simp at hmerge

end ItemType

-- ---------------------------------------------------------------------------
-- Rows
-- ---------------------------------------------------------------------------

section HasField

variable {σ : Type} [Store σ]

/-- A row holds an item that has a field. -/
def HasField (s : σ) (row : Int) (name : String) : Prop :=
  ∃ i, Store.item? s row = .ok (some i) ∧ i.fields.contains name = true

/-- Whether a row holds an item that has a field is found by a look at the row. -/
instance (s : σ) (row : Int) (name : String) : Decidable (HasField s row name) :=
  match h : Store.item? s row with
  | .ok (some i) =>
    decidable_of_iff (i.fields.contains name = true)
      ⟨fun hname => ⟨i, h, hname⟩, fun ⟨_, hj, hname⟩ =>
        Option.some.inj (Except.ok.inj (h.symm.trans hj)) ▸ hname⟩
  | .ok none => .isFalse fun ⟨_, hj, _⟩ => nomatch h.symm.trans hj
  | .error _ => .isFalse fun ⟨_, hj, _⟩ => nomatch h.symm.trans hj

theorem HasField.congr {s s' : σ} {row : Int} {name : String} (h : HasField s row name)
    (hrow : Store.item? s' row = Store.item? s row) : HasField s' row name := by
  obtain ⟨i, hi, hname⟩ := h
  exact ⟨i, hrow.trans hi, hname⟩

end HasField

/-- Written tables have a field in a row if the document of the row holds it, whatever type the row
is of. -/
theorem Tables.Written.hasField_iff {t : Tables} (h : t.Written) {row : Int} {name : String} :
    HasField t row name ↔ ∃ r stored, t.items.get? row = some r ∧
      r.fields = .ofTree (Document.ofFields stored) ∧ stored.contains name = true := by
  constructor
  · rintro ⟨i, hi, hname⟩
    obtain ⟨r, hr, hdecode⟩ := row_of_item? hi
    obtain ⟨type, stored, -, hdoc, hloaded⟩ := h.type?_row hr
    obtain rfl := Except.ok.inj (hdecode.symm.trans hloaded)
    exact ⟨r, stored, hr, hdoc, (contains_decodeFields _ _ _).symm.trans hname⟩
  · rintro ⟨r, stored, hr, hdoc, hname⟩
    obtain ⟨type, stored', -, hdoc', hloaded⟩ := h.type?_row hr
    have hsame : stored'.toPayload = stored.toPayload := by
      have hpayload := Document.payload?_ofFields stored
      rw [← hdoc, hdoc', Document.payload?_ofFields] at hpayload
      exact Option.some.inj hpayload
    refine ⟨_, (item?_of_row hr).trans (congrArg (Except.map some) hloaded), ?_⟩
    show (decodeFields (some type) stored'.toPayload).contains name = true
    rw [hsame, contains_decodeFields, hname]

namespace Backend

/-- What is written in the rows of a store can be told under any types. -/
def Written : (b : Backend) → b.State → Prop
  | memory, _ => True
  | tables, t => Tables.Written t

theorem written_new (b : Backend) : b.Written b.new := by
  cases b with
  | memory => trivial
  | tables => exact Tables.written_new

/-- Every call keeps a store written. -/
theorem written_perform {b : Backend} (config : ServiceConfig) (q : Request) (o : Open b.State)
    (h : b.Written o.store) : b.Written ((q.perform config).steps o).2.store := by
  cases b with
  | memory => trivial
  | tables => exact Request.written config q h

variable {b : Backend} {s s' : b.State} {row : Int} {name : String}

/-- The fields that an item is given are in its row. -/
theorem hasField_updateItem {i : WorkItem} {expected : Nat}
    (hw : Store.updateItem s i expected = (.ok true, s')) (hrow : i.id.row? = some row)
    (hwritten : b.Written s') (hname : i.fields.contains name = true) : HasField s' row name := by
  cases b with
  | memory =>
    obtain ⟨hyes, rfl⟩ := Prod.mk.inj hw
    rcases Memory.updateItem_cases s i expected with
      hno | ⟨row', stored, hrow', -, -, -, hitems, -⟩
    · rw [hno] at hyes
      simp at hyes
    · obtain rfl := Option.some.inj (hrow'.symm.trans hrow)
      refine ⟨{ stored with version := i.version, fields := i.fields }, ?_, hname⟩
      refine congrArg Except.ok ?_
      rw [hitems, SortedMap.get?_insert_self]
  | tables =>
    refine (Tables.Written.hasField_iff hwritten).mpr ?_
    rcases Tables.updateItem_cases s i expected with
      ⟨_, hne, hno⟩ | ⟨row', r, hrow', -, -, hyes⟩
    · exact absurd (Prod.mk.inj (hno.symm.trans hw)).1 hne
    · obtain ⟨-, rfl⟩ := Prod.mk.inj (hyes.symm.trans hw)
      obtain rfl := Option.some.inj (hrow'.symm.trans hrow)
      exact ⟨_, i.fields, SortedMap.get?_insert_self _ _ _, rfl, hname⟩

/-- Replacing types, as a whole or half way, takes no field from any item. -/
theorem hasField_replaceTypes {ts : List ItemType} {r : Except StoreFault Unit}
    (hw : Store.replaceTypes s ts = (r, s')) (hbefore : b.Written s) (hafter : b.Written s')
    (h : HasField s row name) : HasField s' row name := by
  cases b with
  | memory =>
    obtain ⟨-, rfl⟩ := Prod.mk.inj hw
    have hitems := Memory.items_replaceTypes s ts
    exact h.congr (congrArg (fun m : SortedMap Int WorkItem => Except.ok (m.get? row)) hitems)
  | tables =>
    obtain ⟨r, stored, hr, hdoc, hname⟩ := (Tables.Written.hasField_iff hbefore).mp h
    refine (Tables.Written.hasField_iff hafter).mpr ⟨r, stored, ?_, hdoc, hname⟩
    have hitems := Tables.items_replaceTypes s ts
    change Tables.replaceTypes s ts = _ at hw
    rw [hw] at hitems
    rw [hitems, hr]

end Backend

-- ---------------------------------------------------------------------------
-- Calls
-- ---------------------------------------------------------------------------

/-- Whether a call removed the item of a row, or saved it with `null` for a field. -/
def Moment.removes {σ : Type} (row : Int) (name : String) (m : Moment σ Request Reply) : Bool :=
  m.answer.isOk &&
    match m.call with
    | .delete id => id.row? == some row
    | .save u => u.id.row? == some row && (u.fields.get? name).any Json.isNull
    | _ => false

namespace Backend

variable {b : Backend} {row : Int} {name : String}

open ItemStore in
/-- A save leaves a field to the item of every row, unless it names the row and sets the field to
`null`. -/
theorem hasField_save {o o' : Open b.State} {u : WorkItemUpdate} {r : Except AccessError WorkItem}
    (hs : (save u).steps o = (r, o')) (hsound : ItemStore.Sound o.store)
    (hwritten : b.Written o'.store) (h : HasField o.store row name)
    (hkept : r.isOk = true → u.id.row? = some row → (u.fields.get? name).any Json.isNull = false) :
    HasField o'.store row name := by
  rcases save_cases hs with
    ⟨_, -, hstore⟩ | ⟨row', stored, t, o₁, fields, s, hrow, hstored, -, -, hmerge, hw, rfl, rfl⟩
  · exact hstore ▸ h
  obtain ⟨row'', _, _, hrow'', -, -, hothers, -⟩ := updateItem_ok hsound hw
  -- the item that was read carries the row it was read from
  obtain rfl := ItemId.eq_of_row? (item?_placed hsound hstored).1 hrow''
  by_cases hsame : row = row''
  · subst hsame
    obtain ⟨i, hi, hname⟩ := h
    obtain rfl : stored = i := Option.some.inj (Except.ok.inj (hstored.symm.trans hi))
    exact hasField_updateItem hw hrow'' hwritten
      (ItemType.contains_mergeFields hname hmerge (hkept rfl hrow))
  · exact h.congr (hothers row hsame)

open ItemStore in
/-- A call that is no save leaves a field to the item of a row, unless it removes that item. -/
theorem hasField_of_writes {s s' : b.State} {q : Request} {r : Except AccessError Reply}
    (hw : Request.Writes s q r s') (hsound : ItemStore.Sound s) (hbefore : b.Written s)
    (hafter : b.Written s') (h : HasField s row name) (hsave : ∀ u, q ≠ .save u)
    (hdelete : ∀ id, q = .delete id → r.isOk = true → id.row? ≠ some row) :
    HasField s' row name := by
  cases hw with
  | failed | read => exact h
  | create hw =>
    obtain ⟨i, hi, hname⟩ := h
    obtain ⟨-, -, hhigh⟩ := item?_placed hsound hi
    obtain ⟨-, -, hothers, -⟩ := insertItem_ok hsound hw
    exact ⟨i, (hothers row (by omega)).trans hi, hname⟩
  | save => exact absurd rfl (hsave _)
  | @delete id row' _ hrow hw =>
    obtain ⟨-, -, hothers, -⟩ := deleteItem_ok hsound hw
    refine h.congr (hothers row ?_)
    rintro rfl
    exact hdelete id rfl rfl hrow
  | publish hw => exact h.congr ((insertType_ok hsound hw).2.2 row)
  | migrate hw | halfMigrated hw => exact hasField_replaceTypes hw hbefore hafter h
  | createIteration _ _ hw => exact h.congr ((insertIteration_ok hsound hw).2.2 row)
  | saveIteration _ _ _ hw => exact h.congr ((updateIteration_ok hsound hw).2.2 row)

/-- **A call removes a field only by removing its item, or by a save that sets it to `null`.** -/
theorem hasField_stays {m : Moment b.State Request Reply} {config : ServiceConfig}
    (hsteps : (m.call.perform config).steps m.before = (m.answer, m.after))
    (horder : b.InOrder m.before.store) (hwritten : b.Written m.before.store)
    (h : HasField m.before.store row name) (hkept : m.removes row name = false) :
    HasField m.after.store row name := by
  have hafter : b.Written m.after.store := by
    have hperform := written_perform config m.call m.before hwritten
    rwa [hsteps] at hperform
  by_cases hsave : ∃ u, m.call = .save u
  · obtain ⟨u, hu⟩ := hsave
    rw [hu] at hsteps
    obtain ⟨v, hv, hanswer⟩ := steps_map_cases hsteps
    refine hasField_save hv horder.items hafter h fun hok hrow => ?_
    have hanswered : m.answer.isOk = true := by
      rw [hanswer]
      cases v with
      | ok i => rfl
      | error e => exact hok
    simpa [Moment.removes, hanswered, hu, hrow] using hkept
  · refine hasField_of_writes (Request.writes config m.call hsteps) horder.items hwritten hafter h
      (fun u hu => hsave ⟨u, hu⟩) fun id hid hok hrow => ?_
    simp [Moment.removes, hok, hid, hrow] at hkept

end Backend

-- ---------------------------------------------------------------------------
-- Loads
-- ---------------------------------------------------------------------------

/-- Loading an item finds it in its row, or the request was withdrawn. -/
theorem WorkItems.load_cases {σ : Type} [Store σ] {o o' : Open σ} {id : ItemId} {row : Int}
    {i : WorkItem} {r : Except AccessError WorkItem}
    (h : (load id : Tx σ WorkItem).steps o = (r, o')) (hrow : id.row? = some row)
    (hi : Store.item? o.store row = .ok (some i)) : r = .ok i ∨ r = .error .cancelled := by
  rcases steps_proceed_bind_cases h with ⟨hr, -⟩ | hrest
  · exact .inr hr
  have hid : (Tx.ofExcept (rowOf id) : Tx σ Int).steps o.looked = (.ok row, o.looked) := by
    rw [steps_ofExcept, rowOf, hrow]
  have hask : (Tx.ask fun s : σ => Store.item? s row).steps o.looked =
      (.ok (some i), o.looked) := steps_ask_ok (by rw [Open.store_looked, hi])
  rw [steps_bind_ok hid, fetch, steps_bind_ok hask] at hrest
  exact .inl (Prod.mk.inj hrest).1.symm

-- ---------------------------------------------------------------------------
-- Histories
-- ---------------------------------------------------------------------------

/-- What calls need of a store to leave fields alone. -/
def Backend.Tells (b : Backend) (s : b.State) : Prop := b.InOrder s ∧ b.Written s

/-- Every call keeps a store telling. -/
theorem Backend.tells_perform {b : Backend} (config : ServiceConfig) (q : Request)
    (o : Open b.State) (h : b.Tells o.store) : b.Tells ((q.perform config).steps o).2.store :=
  ⟨inOrder_perform config q o h.1, written_perform config q o h.2⟩

/-- A field of an item lasts through the calls of a trail, none of which removes it. -/
theorem Trail.hasField_stays {b : Backend} {s s' : b.State} {row : Int} {name : String}
    {ms : List (Moment b.State Request Reply)} (h : Trail s ms s')
    (hsteps : ∀ m ∈ ms, ∃ config, (m.call.perform config).steps m.before = (m.answer, m.after))
    (htells : b.Tells s) (hfield : HasField s row name)
    (hkept : ∀ m ∈ ms, m.removes row name = false) : b.Tells s' ∧ HasField s' row name := by
  refine (h.kept (P := fun s => b.Tells s ∧ HasField s row name) ⟨htells, hfield⟩ ?_).2
  rintro m hm ⟨htells, hfield⟩
  obtain ⟨config, hm'⟩ := hsteps m hm
  have hnext := Backend.tells_perform config m.call m.before htells
  rw [hm'] at hnext
  exact ⟨hnext, Backend.hasField_stays hm' htells.1 htells.2 hfield (hkept m hm)⟩

namespace History

/-- **No field is lost silently.** A field that an item has after some committed call of a history,
and that no later committed call removes, is there in the end, whatever types were migrated in the
meantime; and every load of the item by a later transaction shows it, up to a call of that
transaction which removes it. -/
theorem field_lasts (b : Backend) (vs : List Visit)
    {before later : List (Moment b.State Request Reply)} {m : Moment b.State Request Reply}
    (hcalls : committed b.new vs = before ++ m :: later) {row : Int} {name : String}
    (hfield : HasField m.after.store row name) (hkept : ∀ x ∈ later, x.removes row name = false) :
    HasField (final b.new vs) row name ∧
      ∀ (v : Visit) {earlier rest : List (Moment b.State Request Reply)}
        {load : Moment b.State Request Reply} {id : ItemId},
        v.moments (final b.new vs) = earlier ++ load :: rest →
        (∀ x ∈ earlier, x.removes row name = false) → load.call = .load id → id.row? = some row →
          (∃ i, load.answer = .ok (.item i) ∧ i.fields.contains name = true) ∨
            load.answer = .error .cancelled := by
  have hmade : ∀ x ∈ committed b.new vs, x ∈ calls b.new vs := (committed_sublist b.new vs).subset
  have htells : b.Tells m.after.store := by
    have hreached : ∀ s ∈ reached b.new vs, b.Tells s :=
      forall_reached Backend.tells_perform ⟨b.inOrder_new, b.written_new⟩
    exact hreached _ (List.mem_append_right _ (List.mem_map_of_mem (hmade m (by simp [hcalls]))))
  have htrail := trail_committed b.new vs
  rw [hcalls] at htrail hmade
  obtain ⟨htells', hend⟩ := htrail.split.hasField_stays
    (fun x hx => steps_of_mem_calls (hmade x (by simp [hx]))) htells hfield hkept
  refine ⟨hend, ?_⟩
  intro v earlier rest load id hmoments hearlier hcall hrow
  obtain ⟨s', hvisit, -⟩ := v.trail (final b.new vs)
  have hsteps : ∀ x ∈ earlier ++ load :: rest,
      (x.call.perform v.config).steps x.before = (x.answer, x.after) := by
    intro x hx
    rw [← hmoments] at hx
    exact Visit.steps_of_mem hx
  rw [hmoments] at hvisit
  obtain ⟨-, i, hi, hname⟩ := hvisit.start.hasField_stays
    (fun x hx => ⟨v.config, hsteps x (by simp [hx])⟩) htells' hend hearlier
  have hload := hsteps load (by simp)
  rw [hcall] at hload
  obtain ⟨r, hr, hanswer⟩ := steps_map_cases hload
  rw [hanswer]
  rcases load_cases hr hrow hi with rfl | rfl
  · exact .inl ⟨i, rfl, hname⟩
  · exact .inr rfl

/-- A type with a size, which is a text at first, then a truth value, then is not declared. -/
def parcel (sizes : List FieldDefinition) : ItemType :=
  ⟨"parcel", ⟨"note", .string, false⟩ :: sizes⟩

/-- A parcel is sent with a size, which no later type accepts, and is given another note. -/
def parcels : List Visit :=
  [⟨∅, .default, .new,
    [⟨.publish (parcel [⟨"size", .string, false⟩]), false⟩,
     ⟨.create "parcel" (.ofList [("size", .string "wide")]) ⟨"ann"⟩, false⟩]⟩,
   ⟨∅, .default, .new, [⟨.migrate [parcel [⟨"size", .bool, true⟩]], false⟩]⟩,
   ⟨∅, .default, .new, [⟨.save ⟨⟨"1"⟩, 0, .ofList [("note", .string "a")]⟩, false⟩]⟩,
   ⟨∅, .default, .new, [⟨.migrate [parcel []], false⟩]⟩,
   ⟨∅, .default, .new, [⟨.save ⟨⟨"1"⟩, 1, .ofList [("note", .null)]⟩, false⟩]⟩]

theorem field_lasts_parcels :
    HasField (final Backend.tables.new parcels) 1 "size" ∧
      ¬ HasField (final Backend.tables.new parcels) 1 "note" := by
  refine ⟨?_, by decide +kernel⟩
  have hsent : (committed Backend.tables.new parcels).any
      (fun m => decide (HasField m.after.store 1 "size")) = true := by decide +kernel
  have hkept : (committed Backend.tables.new parcels).all
      (fun m => !m.removes 1 "size") = true := by decide +kernel
  obtain ⟨m, hm, hfield⟩ := List.any_eq_true.mp hsent
  obtain ⟨before, later, hcalls⟩ := List.append_of_mem hm
  refine (field_lasts .tables parcels hcalls (of_decide_eq_true hfield) fun x hx => ?_).1
  have hspared := List.all_eq_true.mp hkept x (by simp [hcalls, hx])
  simpa using hspared

end History

end Backlog
