import Backlog.Proofs.Conforming

/-!
# Payloads laid over each other

A creation converts a payload, and a save merges one into the fields that are there: two pieces of
code, each with its own way to refuse a field that is not declared, to take `null` and to look for
what is required. They are one validator. If payloads are laid over each other, so that a later
literal takes the place of an earlier one of the same field, then saving them one after the other
comes to what a creation would have made of all of them at once: the same ones are accepted, and the
fields are the same.

The idea is that both leave the same mark field by field (`ItemType.Overlaid`), and that marks
compose. A save refuses a `null` for a required field at once, where a creation finds the field
missing in the end. For a store in memory on which nobody migrates types this carries over to the
life of an item: the type that a save looks up is the one that the item was created with.

## Main results

* `ItemType.convertFields_eq_ok_iff`, `ItemType.mergeFields_eq_ok_iff` — the two by their marks;
* `ItemType.mergeFields_iff_convertFields` — merging is converting what is laid over;
* `Service.saved_iff_converts` — which saves of an item are accepted, and what they come to.
-/

namespace Backlog

open Tx WorkItems

/-- A payload with another one laid over it: the literals of the other one count. -/
def Payload.overlaid (p q : Payload) : Payload := p.insertMany q.toList

theorem Payload.get?_overlaid (p q : Payload) (name : String) :
    (p.overlaid q).get? name = (q.get? name).or (p.get? name) :=
  SortedMap.get?_insertMany (SortedMap.nodup_of_sorted q.sorted) name

-- ---------------------------------------------------------------------------
-- Fields
-- ---------------------------------------------------------------------------

namespace ItemType

variable {t : ItemType} {name : String} {literal : Json} {old mid new : Fields}
  {l rest : List (String × Json)}

/-- What a literal makes of a declared field: `null` makes it empty. -/
inductive Takes (t : ItemType) (name : String) : Json → Option FieldValue → Prop
  | null {literal : Json} {d : FieldDefinition} (hnull : literal.isNull = true)
      (hd : t.field? name = some d) : Takes t name literal none
  | value {literal : Json} {v : FieldValue} (hnull : literal.isNull = false)
      (hv : t.convertValue name literal = .ok v) : Takes t name literal (some v)

theorem Takes.unique {found found' : Option FieldValue} (h : t.Takes name literal found)
    (h' : t.Takes name literal found') : found = found' := by
  cases h with
  | null hnull =>
    cases h' with
    | null => rfl
    | value hnot => exact absurd (hnull.symm.trans hnot) (by decide)
  | value hnot hv =>
    cases h' with
    | null hnull => exact absurd (hnull.symm.trans hnot) (by decide)
    | value _ hv' => rw [Except.ok.inj (hv.symm.trans hv')]

/-- The mark of literals on fields: those for which there is one have what it makes of them, and the
others are as they were. -/
structure Overlaid (t : ItemType) (old : Fields) (l : List (String × Json)) (new : Fields) :
    Prop where
  kept : ∀ name, SortedMap.find name l = none → new.get? name = old.get? name
  taken : ∀ name literal, SortedMap.find name l = some literal →
    t.Takes name literal (new.get? name)

theorem overlaid_nil_iff : t.Overlaid old [] new ↔ new = old := by
  constructor
  · intro h
    exact SortedMap.ext_get? fun name => h.kept name rfl
  · rintro rfl
    exact ⟨fun _ _ => rfl, fun _ _ h => nomatch h⟩

/-- The first of literals may leave its mark before the others do. -/
theorem overlaid_cons_iff (hfresh : SortedMap.find name rest = none)
    (hmid : ∀ name', name' ≠ name → mid.get? name' = old.get? name')
    (htakes : t.Takes name literal (mid.get? name)) :
    t.Overlaid old ((name, literal) :: rest) new ↔ t.Overlaid mid rest new := by
  constructor
  · intro h
    constructor
    · intro name' hnone
      by_cases hname : name' = name
      · subst hname
        exact (h.taken name' literal (by rw [SortedMap.find_cons, if_pos rfl])).unique htakes
      · rw [h.kept name' (by rw [SortedMap.find_cons, if_neg hname, hnone]), hmid name' hname]
    · intro name' literal' hsome
      have hname : name' ≠ name := by
        rintro rfl
        rw [hfresh] at hsome
        exact absurd hsome (by simp)
      exact h.taken name' literal' (by rw [SortedMap.find_cons, if_neg hname, hsome])
  · intro h
    constructor
    · intro name' hnone
      rw [SortedMap.find_cons] at hnone
      split at hnone
      · exact absurd hnone (by simp)
      · next hname => rw [h.kept name' hnone, hmid name' hname]
    · intro name' literal' hsome
      rw [SortedMap.find_cons] at hsome
      split at hsome
      · next hname =>
        obtain rfl := Option.some.inj hsome
        subst hname
        rw [h.kept name' hfresh]
        exact htakes
      · exact h.taken name' literal' hsome

/-- Literals that leave a mark begin with one that a field takes. -/
theorem Overlaid.head (h : t.Overlaid old ((name, literal) :: rest) new) :
    ∃ found, t.Takes name literal found :=
  ⟨_, h.taken name literal (by rw [SortedMap.find_cons, if_pos rfl])⟩

/-- Converting literals leaves their mark on fields that have none of their names. -/
theorem convertEntries_eq_ok_iff (hl : l.Pairwise fun a b => compare a.1 b.1 = .lt)
    (hempty : ∀ e ∈ l, old.get? e.1 = none) :
    t.convertEntries old l = .ok new ↔ t.Overlaid old l new := by
  induction l generalizing old with
  | nil => rw [convertEntries, overlaid_nil_iff, Except.ok.injEq, eq_comm]
  | cons e rest ih =>
    obtain ⟨name, literal⟩ := e
    have hfresh := SortedMap.find_eq_none_of_sorted hl
    obtain ⟨hhere, hlater⟩ := List.forall_mem_cons.mp hempty
    obtain ⟨hlow, hrest⟩ := List.pairwise_cons.mp hl
    rw [convertEntries]
    split
    · next hnull =>
      cases hd : t.field? name with
      | none =>
        refine iff_of_false (by simp) fun h => ?_
        obtain ⟨found, htakes⟩ := h.head
        cases htakes with
        | null _ hd' => exact absurd (hd.symm.trans hd') (by simp)
        | value hnot => exact absurd (hnull.symm.trans hnot) (by decide)
      | some d =>
        rw [ih hrest hlater]
        exact (overlaid_cons_iff hfresh (fun _ _ => rfl) (hhere ▸ .null hnull hd)).symm
    · next hnull =>
      have hnull : literal.isNull = false := by simpa using hnull
      cases hv : t.convertValue name literal with
      | error e =>
        refine iff_of_false (by simp) fun h => ?_
        obtain ⟨found, htakes⟩ := h.head
        cases htakes with
        | null hyes => exact absurd (hyes.symm.trans hnull) (by decide)
        | value _ hv' => exact absurd (hv.symm.trans hv') (by simp)
      | ok v =>
        have hstill : ∀ e ∈ rest, (old.insert name v).get? e.1 = none := by
          intro e he
          have hne : e.1 ≠ name := by
            intro heq
            exact SortedMap.compare_self_ne_lt name (heq ▸ hlow e he)
          rw [SortedMap.get?_insert, if_neg hne, hlater e he]
        rw [ih hrest hstill]
        refine (overlaid_cons_iff hfresh (fun name' hname => ?_) ?_).symm
        · rw [SortedMap.get?_insert, if_neg hname]
        · rw [SortedMap.get?_insert_self]
          exact .value hnull hv

/-- Merging a literal leaves its mark, or fails because no field takes it or because it would empty
one that is required. -/
theorem mergeEntry_cases (t : ItemType) (old : Fields) (name : String) (literal : Json) :
    (∃ mid, t.mergeEntry old name literal = .ok mid ∧
      (∀ name', name' ≠ name → mid.get? name' = old.get? name') ∧
      t.Takes name literal (mid.get? name) ∧
      (literal.isNull = true → ∀ d, t.field? name = some d → d.required = false)) ∨
    ∃ e, t.mergeEntry old name literal = .error e ∧ ((∀ found, ¬ t.Takes name literal found) ∨
      literal.isNull = true ∧ ∃ d, t.field? name = some d ∧ d.required = true) := by
  unfold mergeEntry
  cases hnull : literal.isNull with
  | true =>
    rw [if_pos rfl]
    cases hd : t.field? name with
    | none =>
      refine .inr ⟨_, rfl, .inl fun found htakes => ?_⟩
      cases htakes with
      | null _ hd' => exact absurd (hd.symm.trans hd') (by simp)
      | value hnot => exact absurd (hnull.symm.trans hnot) (by decide)
    | some d =>
      cases hrequired : d.required with
      | true => exact .inr ⟨_, if_pos hrequired, .inr ⟨rfl, d, rfl, hrequired⟩⟩
      | false =>
        have hno : ¬ d.required = true := by simp [hrequired]
        refine .inl ⟨old.erase name, if_neg hno, fun name' hname => ?_, ?_, ?_⟩
        · rw [SortedMap.get?_erase, if_neg hname]
        · rw [SortedMap.get?_erase, if_pos rfl]
          exact .null hnull hd
        · rintro - d' hd'
          rwa [← Option.some.inj hd']
  | false =>
    rw [if_neg (by decide)]
    cases hv : t.convertValue name literal with
    | error e =>
      refine .inr ⟨e, rfl, .inl fun found htakes => ?_⟩
      cases htakes with
      | null hyes => exact absurd (hyes.symm.trans hnull) (by decide)
      | value _ hv' => exact absurd (hv.symm.trans hv') (by simp)
    | ok v =>
      refine .inl ⟨old.insert name v, rfl, fun name' hname => ?_, ?_, nofun⟩
      · rw [SortedMap.get?_insert, if_neg hname]
      · rw [SortedMap.get?_insert_self]
        exact .value hnull hv

/-- Merging literals leaves their mark, unless it would empty a required field. -/
theorem mergeEntries_eq_ok_iff (hl : l.Pairwise fun a b => compare a.1 b.1 = .lt) :
    t.mergeEntries old l = .ok new ↔ t.Overlaid old l new ∧
      ∀ e ∈ l, e.2.isNull = true → ∀ d, t.field? e.1 = some d → d.required = false := by
  induction l generalizing old with
  | nil =>
    rw [mergeEntries, overlaid_nil_iff, Except.ok.injEq, eq_comm]
    exact (and_iff_left (by simp)).symm
  | cons e rest ih =>
    obtain ⟨name, literal⟩ := e
    have hfresh := SortedMap.find_eq_none_of_sorted hl
    rw [mergeEntries, List.forall_mem_cons]
    rcases t.mergeEntry_cases old name literal with
      ⟨mid, hentry, hmid, htakes, hspared⟩ | ⟨e, hentry, hbad⟩
    · simp only [hentry, ih (List.pairwise_cons.mp hl).2, overlaid_cons_iff hfresh hmid htakes]
      exact and_congr_right fun _ => (and_iff_right hspared).symm
    · simp only [hentry]
      refine iff_of_false (by simp) ?_
      rintro ⟨hmark, hspared, -⟩
      rcases hbad with hnot | ⟨hnull, d, hd, hrequired⟩
      · obtain ⟨found, htakes⟩ := hmark.head
        exact hnot found htakes
      · exact absurd (hrequired.symm.trans (hspared hnull d hd)) (by decide)

/-- **A creation makes fields of a payload that have its mark and lack nothing required.** -/
theorem convertFields_eq_ok_iff {p : Payload} :
    t.convertFields p = .ok new ↔ t.Overlaid ∅ p.entries new ∧ t.checkRequired new = .ok () := by
  have hentries : ∀ fields, t.convertEntries ∅ p.toList = .ok fields ↔
      t.Overlaid ∅ p.entries fields :=
    fun _ => convertEntries_eq_ok_iff p.sorted fun _ _ => rfl
  unfold convertFields
  rw [← hentries]
  cases t.convertEntries ∅ p.toList with
  | error e => simp
  | ok fields =>
    simp only [Except.ok.injEq]
    cases hrequired : t.checkRequired fields with
    | error e =>
      refine iff_of_false (by simp) ?_
      rintro ⟨rfl, hnone⟩
      exact absurd (hrequired.symm.trans hnone) (by simp)
    | ok u =>
      simp only [Except.ok.injEq]
      exact ⟨fun h => ⟨h, h ▸ hrequired⟩, fun h => h.1⟩

/-- **A save makes of fields what bears the mark of its payload and lacks nothing required.** -/
theorem mergeFields_eq_ok_iff {p : Payload} :
    t.mergeFields old p = .ok new ↔
      t.Overlaid old p.entries new ∧ t.checkRequired new = .ok () := by
  have hentries : ∀ fields, t.mergeEntries old p.toList = .ok fields ↔ _ :=
    fun _ => mergeEntries_eq_ok_iff p.sorted
  -- a field that is there in the end was not emptied
  have hspared : t.Overlaid old p.entries new → t.checkRequired new = .ok () →
      ∀ e ∈ p.entries, e.2.isNull = true → ∀ d, t.field? e.1 = some d → d.required = false := by
    intro hmark hrequired e he hnull d hd
    refine Bool.eq_false_iff.mpr fun hneeded => ?_
    have hname : d.name = e.1 := by simpa using List.find?_some hd
    have hthere := checkRequired_eq_ok_iff.mp hrequired d (List.mem_of_find?_eq_some hd) hneeded
    have htakes := hmark.taken e.1 e.2 (SortedMap.mem_entries_iff.mp he)
    rw [SortedMap.contains, hname,
      htakes.unique (.null hnull hd : t.Takes e.1 e.2 none)] at hthere
    exact absurd hthere (by simp)
  constructor
  · intro h
    unfold mergeFields at h
    split at h
    · exact absurd h (by simp)
    · next fields hfields =>
      split at h
      · next hrequired =>
        obtain rfl := Except.ok.inj h
        exact ⟨((hentries _).mp hfields).1, hrequired⟩
      · exact absurd h (by simp)
  · rintro ⟨hmark, hrequired⟩
    unfold mergeFields
    simp only [(hentries new).mpr ⟨hmark, hspared hmark hrequired⟩, hrequired]

/-- The marks of two payloads are the mark of the one laid over the other. -/
theorem Overlaid.overlaid_iff {p q : Payload} (h : t.Overlaid ∅ p.entries old) :
    t.Overlaid old q.entries new ↔ t.Overlaid ∅ (p.overlaid q).entries new := by
  have hboth : ∀ name, SortedMap.find name (p.overlaid q).entries =
      (SortedMap.find name q.entries).or (SortedMap.find name p.entries) := p.get?_overlaid q
  constructor
  · intro h'
    constructor
    · intro name hnone
      rw [hboth, Option.or_eq_none_iff] at hnone
      rw [h'.kept name hnone.1, h.kept name hnone.2]
    · intro name literal hsome
      rw [hboth] at hsome
      cases hq : SortedMap.find name q.entries with
      | some literal' =>
        rw [hq, Option.some_or] at hsome
        exact h'.taken name literal (hq.trans hsome)
      | none =>
        rw [hq, Option.none_or] at hsome
        rw [h'.kept name hq]
        exact h.taken name literal hsome
  · intro h'
    constructor
    · intro name hq
      cases hp : SortedMap.find name p.entries with
      | none => rw [h'.kept name (by rw [hboth, hq, hp]; rfl), h.kept name hp]
      | some literal =>
        exact (h'.taken name literal (by rw [hboth, hq, hp]; rfl)).unique (h.taken name literal hp)
    · intro name literal hq
      exact h'.taken name literal (by rw [hboth, hq]; rfl)

/-- **Merging a payload into converted fields is converting what they were converted from with the
payload laid over it.** -/
theorem mergeFields_iff_convertFields {p : Payload} (h : t.convertFields p = .ok old)
    (q : Payload) : t.mergeFields old q = .ok new ↔ t.convertFields (p.overlaid q) = .ok new := by
  rw [mergeFields_eq_ok_iff, convertFields_eq_ok_iff,
    (convertFields_eq_ok_iff.mp h).1.overlaid_iff]

end ItemType

-- ---------------------------------------------------------------------------
-- One item
-- ---------------------------------------------------------------------------

/-- What a save that went through put over the item of a row. -/
def Moment.savedInto? {σ : Type} (row : Int) (m : Moment σ Request Reply) : Option Payload :=
  match m.call, m.answer with
  | .save u, .ok _ => if u.id.row? = some row then some u.fields else none
  | _, _ => none

/-- Whether a call removed the item of a row. -/
def Moment.deletes {σ : Type} (row : Int) (m : Moment σ Request Reply) : Bool :=
  match m.call with
  | .delete id => m.answer.isOk && id.row? == some row
  | _ => false

/-- An item of a type in a row, at the version that comes after so many saves. -/
def WorkItem.after (row : Int) (w : ItemType) (saves : Nat) (fields : Fields) : WorkItem :=
  ⟨.ofRow row, w.name, saves % 18446744073709551616, fields⟩

theorem nextVersion_mod (saves : Nat) :
    nextVersion (saves % 18446744073709551616) = (saves + 1) % 18446744073709551616 := by
  unfold nextVersion
  omega

/-- A store holds a type, and in a row an item with what the type makes of a payload. -/
structure Memory.Made (m : Memory) (row : Int) (w : ItemType) (payload : Payload) (saves : Nat) :
    Prop where
  type : m.types.get? w.name = some w
  item : ∃ fields, w.convertFields payload = .ok fields ∧
    m.items.get? row = some (.after row w saves fields)

/-- A type that a store holds is found by a transaction that knows what its store holds. -/
theorem Knowing.steps_type {σ : Type} [Store σ] {o : Open σ} (h : Knowing o) {name : String}
    {w : ItemType} (hw : Store.type? o.store name = .ok (some w)) :
    ∃ o', (type name : Tx σ ItemType).steps o = (.ok w, o') ∧ o'.store = o.store := by
  cases hknown : knownType? o name with
  | some t =>
    obtain rfl := Option.some.inj (Except.ok.inj ((h.type? hknown).symm.trans hw))
    exact ⟨o, steps_type_known hknown, rfl⟩
  | none =>
    rw [steps_type_asked hknown, askType, steps_bind_ok (steps_ask_ok hw)]
    exact ⟨_, rfl, rfl⟩

/-- A save that finds its item at the version it is based on, and the type of the item, was
withdrawn, failed with the merge, or came to what the store makes of its write. -/
theorem WorkItems.save_found {σ : Type} [Store σ] [LawfulTypes σ] {o o' : Open σ}
    (hknowing : Knowing o) {u : WorkItemUpdate} {row : Int} (hrow : u.id.row? = some row)
    {stored : WorkItem} (hitem : Store.item? o.store row = .ok (some stored))
    (hversion : u.version = stored.version) {w : ItemType}
    (htype : Store.type? o.store stored.typeName = .ok (some w)) {r : Except AccessError WorkItem}
    (hsave : (save u).steps o = (r, o')) :
    r = .error .cancelled ∨
      (∃ e, w.mergeFields stored.fields u.fields = .error e ∧ r = .error e) ∨
      ∃ fields, w.mergeFields stored.fields u.fields = .ok fields ∧
        ∀ s, Store.updateItem o.store
          { stored with version := nextVersion stored.version, fields } u.version = (.ok true, s) →
            r = .ok { stored with version := nextVersion stored.version, fields } ∧
              o'.store = s := by
  rw [← o.store_looked] at hitem htype
  have hfetch : (fetch row u.id : Tx σ WorkItem).steps o.looked = (.ok stored, o.looked) := by
    rw [fetch, steps_bind_ok (steps_ask_ok hitem)]
    rfl
  have hlooked : Knowing o.looked := hknowing.of_kept (Sound.proceed o hknowing.staged)
  obtain ⟨o₁, htype, hstore⟩ := hlooked.steps_type htype
  rcases steps_proceed_bind_cases hsave with ⟨hr, -⟩ | hsave
  · exact .inl hr
  rw [rowOf, hrow, steps_bind_ok (steps_ofExcept _ _), steps_bind_ok hfetch, checkVersion,
    if_pos hversion, steps_bind_ok (steps_ofExcept _ _), steps_bind_ok htype] at hsave
  rcases steps_ofExcept_bind_cases hsave with ⟨e, hmerge, hr, -⟩ | ⟨fields, hmerge, hsave⟩
  · exact .inr (.inl ⟨e, hmerge, hr⟩)
  rcases steps_proceed_bind_cases hsave with ⟨hr, -⟩ | hsave
  · exact .inl hr
  refine .inr (.inr ⟨fields, hmerge, fun s hwrite => ?_⟩)
  have hsame : o₁.looked.store = o.store := by rw [Open.store_looked, hstore, Open.store_looked]
  rw [← hsame] at hwrite
  rw [steps_bind_ok (steps_change_ok hwrite)] at hsave
  obtain ⟨hr, rfl⟩ := Prod.mk.inj hsave
  exact ⟨hr.symm, rfl⟩

section Calls

variable {o o' : Open Memory} {row : Int} {w : ItemType} {payload : Payload} {saves : Nat}

/-- An item that was created is what its type makes of the payload and the creator. -/
theorem WorkItems.made_create (hknowing : Knowing o) {name : String} {creator : Identity}
    {i : WorkItem} (hcreate : (create name payload creator).steps o = (.ok i, o'))
    (hw : o.store.types.get? name = some w) (hrow : i.id = .ofRow row) :
    o'.store.Made row w (withCreator w payload creator) 0 := by
  rcases create_cases hcreate with
    ⟨e, he, -⟩ | ⟨t, o₁, fields, j, s, htype, hconvert, hins, hj, rfl⟩
  · exact absurd he (by simp)
  obtain rfl := Except.ok.inj hj
  obtain ⟨rfl, hheld⟩ := hknowing.type_ok htype
  obtain rfl : w = t := Option.some.inj (hw.symm.trans (Except.ok.inj hheld))
  obtain ⟨hi, rfl⟩ := Prod.mk.inj hins
  obtain rfl := Except.ok.inj hi
  obtain rfl : o.store.lastItem + 1 = row := rowText_injective (ItemId.mk.inj hrow)
  exact ⟨hw, fields, hconvert, SortedMap.get?_insert_self _ _ _⟩

/-- An item in its row is changed at its version. -/
theorem Memory.updateItem_found {m : Memory} {item stored : WorkItem} {expected : Nat}
    (hrow : item.id.row? = some row) (hstored : m.items.get? row = some stored)
    (hversion : stored.version = expected) :
    (m.updateItem item expected).1 = true ∧
      (m.updateItem item expected).2.types = m.types ∧
      (m.updateItem item expected).2.items.get? row =
        some { stored with version := item.version, fields := item.fields } := by
  unfold Memory.updateItem
  rw [hrow]
  simp only
  split
  · next hnone => exact absurd (hnone.symm.trans hstored) (by simp)
  · next stored' hstored' =>
    obtain rfl := Option.some.inj (hstored.symm.trans hstored')
    rw [if_pos hversion]
    exact ⟨rfl, rfl, SortedMap.get?_insert_self _ _ _⟩

/-- **A save of an item at its version was withdrawn, or it went through with what the type makes of
everything that was laid over so far, or the type makes nothing of that.** -/
theorem WorkItems.made_save (hknowing : Knowing o) (h : o.store.Made row w payload saves)
    {u : WorkItemUpdate} (hrow : u.id.row? = some row)
    (hversion : u.version = saves % 18446744073709551616) {r : Except AccessError WorkItem}
    (hsave : (save u).steps o = (r, o')) :
    r = .error .cancelled ∨
      (∃ fields, w.convertFields (payload.overlaid u.fields) = .ok fields ∧
        r = .ok (.after row w (saves + 1) fields) ∧
        o'.store.Made row w (payload.overlaid u.fields) (saves + 1)) ∨
      (∃ e, r = .error e) ∧ ∀ fields, w.convertFields (payload.overlaid u.fields) ≠ .ok fields := by
  obtain ⟨fields, hconvert, hitem⟩ := h.item
  rcases save_found hknowing hrow (congrArg Except.ok hitem) hversion (congrArg Except.ok h.type)
    hsave with hr | ⟨e, hmerge, hr⟩ | ⟨merged, hmerge, hwrite⟩
  · exact .inl hr
  · refine .inr (.inr ⟨⟨e, hr⟩, fun merged hmerged => ?_⟩)
    rw [← ItemType.mergeFields_iff_convertFields hconvert] at hmerged
    exact absurd (hmerge.symm.trans hmerged) (by simp)
  · have hmerged := (ItemType.mergeFields_iff_convertFields hconvert _).mp hmerge
    have hid : (WorkItem.after row w (saves + 1) merged).id.row? = some row :=
      rowOf?_rowText_self hrow
    obtain ⟨hyes, htypes, hstored⟩ := Memory.updateItem_found hid hitem hversion.symm
    rw [WorkItem.after, nextVersion_mod] at hwrite
    obtain ⟨hr, hstore⟩ := hwrite _ (Prod.ext (congrArg Except.ok hyes) rfl)
    refine .inr (.inl ⟨merged, hmerged, hr, ?_, merged, hmerged, ?_⟩)
    · rw [hstore]
      exact (congrArg (·.get? w.name) htypes).trans h.type
    · rw [hstore]
      exact hstored

variable {m : Moment Memory Request Reply} {config : ServiceConfig}

/-- A save that went through lays its payload over what the item was made of. -/
theorem Memory.Made.saved (h : m.before.store.Made row w payload saves)
    (hsteps : (m.call.perform config).steps m.before = (m.answer, m.after))
    (hknowing : Knowing m.before) {p : Payload} (hsaved : m.savedInto? row = some p) :
    m.after.store.Made row w (payload.overlaid p) (saves + 1) := by
  obtain ⟨o, q, r, o'⟩ := m
  unfold Moment.savedInto? at hsaved
  split at hsaved
  · next u b hcall hanswer =>
    split at hsaved
    · next hrow =>
      obtain rfl := Option.some.inj hsaved
      simp only at h hsteps hknowing hcall hanswer ⊢
      subst hcall hanswer
      obtain ⟨i, hi, -⟩ := steps_map_ok hsteps
      obtain ⟨fields, -, hitem⟩ := h.item
      rcases save_cases hi with
        ⟨e, he, -⟩ | ⟨row', stored, _, _, _, _, hrow', hstored, hversion, -⟩
      · exact absurd he (by simp)
      obtain rfl := Option.some.inj (hrow.symm.trans hrow')
      obtain rfl := Option.some.inj ((Except.ok.inj hstored).symm.trans hitem)
      rcases made_save hknowing h hrow hversion.symm hi with hr | ⟨_, -, -, hmade⟩ | ⟨⟨_, hr⟩, -⟩
      · exact absurd hr (by simp)
      · exact hmade
      · exact absurd hr (by simp)
    · exact absurd hsaved (by simp)
  · exact absurd hsaved (by simp)

/-- Another call leaves the item and its type, unless it removes the item. -/
theorem Memory.Made.stays (h : m.before.store.Made row w payload saves)
    (hs : Backend.memory.InOrder m.before.store)
    (hw : Request.Writes m.before.store m.call m.answer m.after.store) (hplain : m.call.IsPlain)
    (hnamed : rowOf? (rowText row) = some row) (hkept : m.deletes row = false)
    (hother : m.savedInto? row = none) : m.after.store.Made row w payload saves := by
  obtain ⟨fields, hconvert, hitem⟩ := h.item
  refine ⟨Option.some.inj ?_, fields, hconvert, ?_⟩
  · exact congrArg some (Except.ok.inj (hw.grows hplain w.name w (congrArg Except.ok h.type)))
  · have hspare : Backend.memory.sparesItem (.after row w saves fields) m = true := by
      have hid : (WorkItem.after row w saves fields).id.row? = some row := hnamed
      unfold Backend.sparesItem
      unfold Moment.savedInto? at hother
      unfold Moment.deletes at hkept
      rw [hid]
      split
      · next u hcall =>
        rw [hcall] at hother
        cases hanswer : m.answer with
        | error e => rfl
        | ok b =>
          rw [hanswer] at hother
          have hne : u.id.row? ≠ some row := fun hrow => by simp [hrow] at hother
          simp [hne]
      · next id hcall =>
        rw [hcall] at hkept
        cases hanswer : m.answer.isOk with
        | false => rfl
        | true => simpa [hanswer] using hkept
      · rfl
      · rfl
    exact Except.ok.inj (Backend.item?_stays (b := .memory) hw hs.items (congrArg Except.ok hitem)
      hspare)

end Calls

-- ---------------------------------------------------------------------------
-- The calls of a run
-- ---------------------------------------------------------------------------

/-- A call that migrates no types, of a transaction that knows of types what its store holds. -/
structure Moment.Informed {σ : Type} [Store σ] (m : Moment σ Request Reply) : Prop where
  plain : m.call.IsPlain
  knowing : Knowing m.before
  steps : ∃ config, (m.call.perform config).steps m.before = (m.answer, m.after)

/-- An item comes to what its type makes of all that was saved into it, laid over what it was made
of. -/
theorem Trail.made {s s' : Memory} {ms : List (Moment Memory Request Reply)} (h : Trail s ms s')
    (hs : Backend.memory.InOrder s) (hcalls : ∀ m ∈ ms, m.Informed) {row : Int}
    (hnamed : rowOf? (rowText row) = some row) (hkept : ∀ m ∈ ms, m.deletes row = false)
    {w : ItemType} {payload : Payload} {saves : Nat} (hmade : s.Made row w payload saves) :
    s'.Made row w ((ms.filterMap (Moment.savedInto? row)).foldl Payload.overlaid payload)
      (saves + (ms.filterMap (Moment.savedInto? row)).length) := by
  induction h generalizing payload saves with
  | nil s => exact hmade
  | @cons s s' m ms hfrom hw _ ih =>
    subst hfrom
    obtain ⟨hinformed, hinformed'⟩ := List.forall_mem_cons.mp hcalls
    obtain ⟨hhere, hlater⟩ := List.forall_mem_cons.mp hkept
    have hrest := @ih (hs.writes hw) hinformed' hlater
    cases hsaved : m.savedInto? row with
    | none =>
      rw [List.filterMap_cons_none hsaved]
      exact hrest (hmade.stays hs hw hinformed.plain hnamed hhere hsaved)
    | some p =>
      obtain ⟨config, hsteps⟩ := hinformed.steps
      rw [List.filterMap_cons_some hsaved, List.foldl_cons, List.length_cons, Nat.add_comm _ 1,
        ← Nat.add_assoc]
      exact hrest (hmade.saved hsteps hinformed.knowing hsaved)

namespace Service

section Course

variable {σ : Type} [Store σ]

/-- Turns, as visits of clients that remember what the cache remembers. -/
def visits : Service σ → List Turn → List Visit
  | _, [] => []
  | s, t :: rest => s.visit t :: visits (s.turn t).service rest

/-- The calls of the turns that were committed, and those of the turn that follows. -/
def course (s : Service σ) (turns : List Turn) (t : Turn) : List (Moment σ Request Reply) :=
  History.committed s.store (s.visits turns) ++ ((s.after turns).turned t).calls t

theorem final_visits (s : Service σ) (turns : List Turn) :
    History.final s.store (s.visits turns) = (s.after turns).store := by
  induction turns generalizing s with
  | nil => rfl
  | cons t rest ih =>
    rw [visits, History.final, after_visit]
    exact ih (s.turn t).service

/-- The calls of a course follow each other. -/
theorem trail_course [LawfulStore σ] (s : Service σ) (turns : List Turn) (t : Turn) :
    ∃ s', Trail s.store (s.course turns t) s' := by
  have hcommitted := History.trail_committed s.store (s.visits turns)
  obtain ⟨s', htrail, -⟩ := ((s.after turns).visit t).trail (s.after turns).store
  rw [moments_visit] at htrail
  rw [final_visits] at hcommitted
  exact ⟨s', hcommitted.append htrail⟩

end Course

variable {b : Backend} {s : Service b.State}

/-- The calls of a turn are informed if what is remembered of types is true. -/
theorem informed_turn (h : s.cache.Reflects s.store) {t : Turn}
    (hplain : ∀ a ∈ t.calls, a.request.IsPlain) : ∀ m ∈ (s.turned t).calls t, m.Informed := by
  intro m hm
  obtain ⟨⟨a, ha, hcall⟩, hsteps⟩ := mem_calls hm
  obtain ⟨hknowing, -⟩ := knowing_turn h fun a ha => Attempt.isWhole_of_isPlain (hplain a ha)
  exact ⟨hcall ▸ hplain a ha, hknowing m hm, _, hsteps⟩

/-- The calls of a course are informed if what is remembered of types is true at the start. -/
theorem informed_course (h : s.cache.Reflects s.store) {turns : List Turn} {t : Turn}
    (hplain : ∀ u ∈ turns ++ [t], ∀ a ∈ u.calls, a.request.IsPlain) :
    ∀ m ∈ s.course turns t, m.Informed := by
  induction turns generalizing s with
  | nil => exact informed_turn h (hplain t List.mem_cons_self)
  | cons u rest ih =>
    obtain ⟨hhere, hlater⟩ := List.forall_mem_cons.mp hplain
    obtain ⟨-, hnext⟩ := knowing_turn h fun a ha => Attempt.isWhole_of_isPlain (hhere a ha)
    have hrest := ih hnext hlater
    rw [course, visits, History.committed, moments_visit, after_visit, List.append_assoc,
      List.forall_mem_append]
    refine ⟨fun m hm => ?_, hrest⟩
    split at hm
    · exact informed_turn h hhere m hm
    · exact absurd hm (by simp)

/-- **Creating and saving are one validator.** In every run of a store in memory that migrates no
types, take an item as it was created and a later save of it at its version, and what calls saved
into it in between. If the save is not withdrawn, it goes through exactly if the type makes fields
of everything that was sent, laid over each other in order; the item then has these fields and no
others, and its version tells how often it was saved. -/
theorem saved_iff_converts (config : ServiceConfig) (turns : List Turn) (t : Turn)
    (hplain : ∀ u ∈ turns ++ [t], ∀ a ∈ u.calls, a.request.IsPlain)
    {before between later : List (Moment Memory Request Reply)}
    {created saving : Moment Memory Request Reply}
    (hcourse : (onStore Memory.new config).course turns t =
      before ++ created :: (between ++ saving :: later))
    {name : String} {payload : Payload} {creator : Identity} {i : WorkItem} {w : ItemType}
    (hcreate : created.call = .create name payload creator)
    (hcreated : created.answer = .ok (.item i))
    (hw : created.before.store.types.get? name = some w)
    {row : Int} (hrow : i.id = .ofRow row) (hkept : ∀ m ∈ between, m.deletes row = false)
    {ps : List Payload} (hps : between.filterMap (Moment.savedInto? row) = ps)
    {u : WorkItemUpdate} (hsave : saving.call = .save u) (hu : u.id.row? = some row) :
    (∃ fields, saving.before.store.items.get? row = some (.after row w ps.length fields)) ∧
      (u.version = ps.length % 18446744073709551616 → saving.answer ≠ .error .cancelled →
        (saving.answer.isOk = true ↔ ∃ fields,
          w.convertFields
            ((ps ++ [u.fields]).foldl Payload.overlaid (withCreator w payload creator)) =
              .ok fields) ∧
        ∀ fields, w.convertFields
          ((ps ++ [u.fields]).foldl Payload.overlaid (withCreator w payload creator)) = .ok fields →
            saving.answer = .ok (.item (.after row w (ps.length + 1) fields)) ∧
            saving.after.store.items.get? row = some (.after row w (ps.length + 1) fields)) := by
  have hinformed : ∀ m ∈ (onStore Memory.new config).course turns t, m.Informed :=
    informed_course (b := .memory) (.of_types_eq_empty rfl) hplain
  obtain ⟨s', htrail⟩ := (onStore Memory.new config).trail_course turns t
  rw [hcourse] at hinformed htrail
  obtain ⟨hcreating, hrest⟩ :=
    List.forall_mem_cons.mp (List.forall_mem_append.mp hinformed).2
  obtain ⟨hbetween, hlast⟩ := List.forall_mem_append.mp hrest
  have hinformed' := hlast saving List.mem_cons_self
  obtain ⟨config', hsteps⟩ := hcreating.steps
  obtain ⟨config'', hsteps'⟩ := hinformed'.steps
  -- the item as it was created
  rw [hcreate, hcreated] at hsteps
  obtain ⟨i', hi, hreply⟩ := steps_map_ok hsteps
  obtain rfl := Reply.item.inj hreply
  have horder : Backend.memory.InOrder created.after.store :=
    (Trail.inOrder (b := .memory) htrail.start Backend.memory.inOrder_new).writes
      (Request.writes _ _ hsteps)
  have hmade := (htrail.split.start).made horder hbetween (rowOf?_rowText_self hu) hkept
    (WorkItems.made_create hcreating.knowing hi hw hrow)
  rw [hps, Nat.zero_add] at hmade
  refine ⟨hmade.item.imp fun fields h => h.2, fun hversion hstands => ?_⟩
  -- the save
  rw [hsave] at hsteps'
  obtain ⟨r, hr, hanswer⟩ := steps_map_cases hsteps'
  rw [List.foldl_append, List.foldl_cons, List.foldl_nil]
  rcases made_save hinformed'.knowing hmade hu hversion hr with
    rfl | ⟨fields, hconvert, rfl, hafter⟩ | ⟨⟨e, rfl⟩, hno⟩
  · exact absurd hanswer hstands
  · refine ⟨iff_of_true (by rw [hanswer]; rfl) ⟨fields, hconvert⟩, fun fields' hconvert' => ?_⟩
    obtain rfl := Except.ok.inj (hconvert.symm.trans hconvert')
    obtain ⟨fields', hagain, hitem⟩ := hafter.item
    obtain rfl := Except.ok.inj (hconvert.symm.trans hagain)
    exact ⟨hanswer, hitem⟩
  · have hrefused : saving.answer.isOk ≠ true := by
      rw [hanswer]
      exact Bool.false_ne_true
    exact ⟨iff_of_false hrefused fun ⟨fields, h⟩ => hno fields h,
      fun fields h => absurd h (hno fields)⟩

/-- A type of items that keep their creator. -/
def ticket : ItemType :=
  ⟨"ticket", [⟨"title", .string, true⟩, ⟨"points", .integer, false⟩,
    ⟨SystemField.creator, .identifier, true⟩]⟩

/-- What one client creates, and what the others save: the points are taken away, a change is given
up, and the points are set again. -/
def ticketPayload : Payload :=
  .ofList [("title", .string "a"), ("points", .string "3"), (SystemField.creator, .string "eve")]

def ticketTurns : List Turn :=
  [⟨false, .new, [⟨.publish ticket, false⟩, ⟨.create "ticket" ticketPayload ⟨"ann"⟩, false⟩]⟩,
   ⟨true, .new, [⟨.save ⟨⟨"1"⟩, 0, .ofList [("points", .null)]⟩, false⟩]⟩,
   ⟨false, .new,
    [⟨.save ⟨⟨"1"⟩, 1, .ofList [("title", .string "b")]⟩, false⟩, ⟨.refuse .cancelled, false⟩]⟩]

def lastSave : WorkItemUpdate := ⟨⟨"1"⟩, 1, .ofList [("points", .string " 5 ")]⟩

/-- The ticket has the points that were set last, the title and the creator that it was created
with, and was saved twice. -/
theorem saved_iff_converts_ticket :
    ∃ saving ∈ (onStore Memory.new .default).course ticketTurns
        ⟨false, .new, [⟨.save lastSave, false⟩]⟩,
      saving.call = .save lastSave ∧
        saving.answer = .ok (.item ⟨⟨"1"⟩, "ticket", 2, .ofList [("title", .string "a"),
          ("points", .integer 5), (SystemField.creator, .identifier "ann")]⟩) := by
  have hplain : ∀ u ∈ ticketTurns ++ [⟨false, .new, [⟨.save lastSave, false⟩]⟩],
      ∀ a ∈ u.calls, a.request.IsPlain := by
    simp [ticketTurns, Request.IsPlain]
  have hcourse : ((onStore Memory.new .default).course ticketTurns
      ⟨false, .new, [⟨.save lastSave, false⟩]⟩).map (fun m =>
        (m.call, m.writtenItem?.map WorkItem.id, m.before.store.types.get? "ticket")) =
      [(.publish ticket, none, none)] ++
        (.create "ticket" ticketPayload ⟨"ann"⟩, some (.ofRow 1), some ticket) ::
          ([(.save ⟨⟨"1"⟩, 0, .ofList [("points", .null)]⟩, some (.ofRow 1), some ticket)] ++
            (.save lastSave, some (.ofRow 1), some ticket) :: []) := by decide +kernel
  have hconvert : ticket.convertFields (([SortedMap.ofList [("points", Json.null)]] ++
      [lastSave.fields]).foldl Payload.overlaid (withCreator ticket ticketPayload ⟨"ann"⟩)) =
      .ok (.ofList [("title", .string "a"), ("points", .integer 5),
        (SystemField.creator, .identifier "ann")]) := eq_ok_of_toOption (by decide +kernel)
  obtain ⟨before, rest, hcourse, -, hrest⟩ := List.map_eq_append_iff.mp hcourse
  obtain ⟨created, rest, rfl, hcreated, hrest⟩ := List.map_eq_cons_iff.mp hrest
  obtain ⟨between, rest, rfl, hbetween, hrest⟩ := List.map_eq_append_iff.mp hrest
  obtain ⟨saving, later, rfl, hsaving, -⟩ := List.map_eq_cons_iff.mp hrest
  obtain ⟨removing, none', rfl, hremoving, hnil⟩ := List.map_eq_cons_iff.mp hbetween
  obtain rfl := List.map_eq_nil_iff.mp hnil
  simp only [Prod.mk.injEq, Option.map_eq_some_iff] at hcreated hsaving hremoving
  obtain ⟨hcreate, ⟨i, hi, hid⟩, htype⟩ := hcreated
  obtain ⟨hremove, ⟨j, hj, -⟩, -⟩ := hremoving
  obtain ⟨hsave, ⟨k, hk, -⟩, -⟩ := hsaving
  have hanswered := (Moment.writtenItem?_eq_some hk).2
  have hps : [removing].filterMap (Moment.savedInto? 1) = [.ofList [("points", .null)]] := by
    have hsaved : removing.savedInto? 1 = some (.ofList [("points", .null)]) := by
      rw [Moment.savedInto?, hremove, (Moment.writtenItem?_eq_some hj).2]
      exact if_pos (by decide +kernel)
    rw [List.filterMap_cons_some hsaved, List.filterMap_nil]
  have hkept : ∀ m ∈ [removing], m.deletes 1 = false := by
    rw [List.forall_mem_singleton, Moment.deletes, hremove]
  obtain ⟨-, hlast⟩ := saved_iff_converts .default ticketTurns _ hplain hcourse hcreate
    (Moment.writtenItem?_eq_some hi).2 htype hid hkept hps hsave (by decide +kernel)
  obtain ⟨-, hfields⟩ := hlast rfl (by simp [hanswered])
  refine ⟨saving, by simp [hcourse], hsave, ?_⟩
  exact (hfields _ hconvert).1

end Service

end Backlog
