import Backlog.Proofs.Settled
import Backlog.Proofs.Transparency

/-!
# Lists after migrations

Transactions come one after another to tables that were new once, and any of them may migrate types,
also half way. Whatever they do, types stay written as they are declared, and every row holds the
document of some fields for a type that is there. So in every state that a run gets to it can be
told from the rows whether lists are right: they show what is loaded if the rows are settled, and a
migration that leaves rows unsettled leaves filters with wrong answers until the items are saved
again.

## Main results

* `Request.written` — every call keeps tables written, a migration too;
* `Tables.Built.isSettled_replaceTypes` — a migration leaves rows settled if kinds keep their form;
* `Service.agrees_iff_settled` — filters and clauses agree if and only if rows are settled, and then
  lists show what is loaded;
* `Service.not_listsLoaded_numbering` — a text that is declared to be a number is not found by it.
-/

namespace Backlog

-- ---------------------------------------------------------------------------
-- Every call
-- ---------------------------------------------------------------------------

open Tx WorkItems

namespace Tables.Written

variable {t t' : Tables}

theorem congr (h : t.Written) (htypes : t'.types = t.types) (hitems : t'.items = t.items) :
    t'.Written where
  types := h.types.congr htypes
  rows row r hr := by
    rw [htypes]
    exact h.rows row r (hitems ▸ hr)

/-- Fields that are put into a row for a type that is there are written in it. -/
theorem insertRow (h : t.Written) (row last : Int) {r : ItemRow}
    (hknown : t.types.contains r.typeName = true) {stored : Fields}
    (hdoc : r.fields = .ofTree (Document.ofFields stored)) :
    { t with items := t.items.insert row r, lastItem := last }.Written where
  types := h.types
  rows := SortedMap.forall_get?_insert h.rows ⟨hknown, stored, hdoc⟩

/-- A type that is put in, whether it is new or not, is there, and the others stay. -/
theorem insertType (h : t.Written) {type : ItemType} (hdistinct : type.IsDistinct) :
    { t with types := t.types.insert type.name (definitionsOf type) }.Written where
  types := h.types.insert hdistinct
  rows row r hr := by
    obtain ⟨hknown, hstored⟩ := h.rows row r hr
    exact ⟨SortedMap.contains_insert_iff.mpr (.inr hknown), hstored⟩

/-- Replacing types keeps rows written, also where it stops half way. -/
theorem replaceTypes (h : t.Written) {ts : List ItemType} (hts : ∀ type ∈ ts, type.IsDistinct) :
    (t.replaceTypes ts).2.Written := by
  induction ts generalizing t with
  | nil => exact h
  | cons type rest ih =>
    unfold Tables.replaceTypes
    split
    · exact ih (h.insertType (hts type List.mem_cons_self)) fun type' htype' =>
        hts type' (List.mem_cons_of_mem type htype')
    · exact h

end Tables.Written

theorem ItemType.isDistinct_of_checkSchemas {ts : List ItemType} (h : checkSchemas ts = .ok ()) :
    ∀ type ∈ ts, type.IsDistinct := by
  induction ts with
  | nil => simp
  | cons type rest ih =>
    unfold checkSchemas at h
    split at h
    · next hcheck =>
      exact List.forall_mem_cons.mpr ⟨isDistinct_of_checkSchema hcheck, ih h⟩
    · simp at h

/-- A migration leaves the store as it was, or what came of replacing types that were checked. -/
theorem WorkItems.store_of_migrate {σ : Type} [Store σ] {o o' : Open σ} {ts : List ItemType}
    {r : Except AccessError Unit} (h : (migrate ts : Tx σ Unit).steps o = (r, o')) :
    o'.store = o.store ∨
      checkSchemas ts = .ok () ∧ o'.store = (Store.replaceTypes o.store ts).2 := by
  rcases steps_proceed_bind_cases h with ⟨-, rfl⟩ | hcheck
  · exact .inl o.store_looked
  rcases steps_ofExcept_bind_cases hcheck with ⟨_, -, -, rfl⟩ | ⟨_, hc, hwrite⟩
  · exact .inl o.store_looked
  refine .inr ⟨hc, ?_⟩
  rcases steps_change_bind_cases hwrite with ⟨fault, s, hw, -, rfl⟩ | ⟨_, s, hw, hend⟩
  · rw [Open.store_looked] at hw
    rw [hw]
  · rw [Open.store_looked] at hw
    rw [hw, ← (Prod.mk.inj hend).2]

/-- What a call that migrates no types makes of written tables is written, if a type that it
publishes was checked. -/
theorem Request.Writes.written {t t' : Tables} {q : Request} {r : Except AccessError Reply}
    (hw : Request.Writes t q r t') (h : t.Written) (hmigrate : ∀ ts, q ≠ .migrate ts)
    (hpublish : ∀ type, q = .publish type → r.isOk = true → type.IsDistinct) : t'.Written := by
  cases hw with
  | failed | read => exact h
  | migrate | halfMigrated => exact absurd rfl (hmigrate _)
  | @create _ _ _ typeName fields _ _ hw =>
    rcases t.insertItem_cases typeName initialVersion fields with ⟨_, hno⟩ | ⟨-, hknown, hyes⟩
    · exact absurd (Prod.mk.inj (hno.symm.trans hw)).1 (by simp)
    · obtain ⟨-, rfl⟩ := Prod.mk.inj (hyes.symm.trans hw)
      exact h.insertRow _ _ hknown rfl
  | @save u row stored fields _ _ _ _ hw =>
    rcases t.updateItem_cases _ _ with ⟨_, hne, hno⟩ | ⟨row', r', -, hr', -, hyes⟩
    · exact absurd (Prod.mk.inj (hno.symm.trans hw)).1 hne
    · obtain ⟨-, rfl⟩ := Prod.mk.inj (hyes.symm.trans hw)
      exact h.insertRow row' t.lastItem (h.rows row' r' hr').1 rfl
  | @delete id row s' hrow hw =>
    obtain ⟨-, rfl⟩ := Prod.mk.inj hw
    unfold Tables.deleteItem
    split
    · exact ⟨h.types, SortedMap.forall_get?_erase h.rows⟩
    · exact h
  | @publish type s' hw =>
    obtain ⟨hyes, rfl⟩ := Prod.mk.inj hw
    have hyes : (t.insertType type).1 = true := Except.ok.inj hyes
    show (t.insertType type).2.Written
    unfold Tables.insertType at hyes ⊢
    split at hyes
    · simp at hyes
    · next hnew =>
      rw [if_neg hnew]
      exact h.insertType (hpublish type rfl rfl)
  | createIteration _ _ hw =>
    rcases t.insertIteration_cases _ with ⟨_, hno⟩ | hyes
    · exact absurd (Prod.mk.inj (hno.symm.trans hw)).1 (by simp)
    · obtain ⟨-, rfl⟩ := Prod.mk.inj (hyes.symm.trans hw)
      exact h.congr rfl rfl
  | saveIteration _ _ _ hw =>
    rcases t.updateIteration_cases _ with ⟨_, hne, hno⟩ | ⟨_, _, -, -, hyes⟩
    · exact absurd (Prod.mk.inj (hno.symm.trans hw)).1 hne
    · obtain ⟨-, rfl⟩ := Prod.mk.inj (hyes.symm.trans hw)
      exact h.congr rfl rfl

/-- **Every call keeps tables written**, a migration too. -/
theorem Request.written (config : ServiceConfig) (q : Request) {o : Open Tables}
    (h : o.store.Written) : ((perform config q : Tx Tables Reply).steps o).2.store.Written := by
  have hs := (Prod.eta ((perform config q : Tx Tables Reply).steps o)).symm
  by_cases hmigrate : ∃ ts, q = .migrate ts
  · obtain ⟨ts, rfl⟩ := hmigrate
    have hstore : ∀ {r o'}, (WorkItems.migrate ts : Tx Tables Unit).steps o = (r, o') →
        o'.store.Written := by
      intro r o' hv
      rcases store_of_migrate hv with hstore | ⟨hchecked, hstore⟩
      · exact hstore ▸ h
      · rw [hstore]
        exact h.replaceTypes (ItemType.isDistinct_of_checkSchemas hchecked)
    rcases steps_bind_cases hs with ⟨e, he, -⟩ | ⟨_, o₁, he, hend⟩
    · exact hstore he
    · rw [← (Prod.mk.inj hend).2]
      exact hstore he
  · refine (Request.writes config q hs).written h (fun ts e => hmigrate ⟨ts, e⟩) ?_
    rintro type rfl hok
    exact Request.isDistinct_of_publish config hs hok

-- ---------------------------------------------------------------------------
-- Runs
-- ---------------------------------------------------------------------------

section Runs

variable {σ : Type} [Store σ] {P : σ → Prop} {config : ServiceConfig}

/-- What every call keeps holds of the stores that the calls of a script find, and at its end. -/
theorem Script.forall_moments (as : List (Attempt Request)) (o : Open σ)
    (hstep : ∀ (q : Request) (o : Open σ), P o.store → P ((q.perform config).steps o).2.store)
    (h : P o.store) :
    (∀ x ∈ moments (Request.perform config) as o, P x.before.store) ∧
      P (run (Request.perform config) as o).state.store := by
  induction as, o using Script.induction (Request.perform config : Request → Tx σ Reply) with
  | nil o => exact ⟨by simp [moments], h⟩
  | ok a rest o b o' hs ih =>
    have hnext := hstep a.request o h
    rw [hs] at hnext
    obtain ⟨hrest, hend⟩ := ih hnext
    rw [moments_cons_ok hs, run_cons_ok hs]
    exact ⟨List.forall_mem_cons.mpr ⟨h, hrest⟩, hend⟩
  | tried a rest o e o' hs ht ih =>
    have hnext := hstep a.request o h
    rw [hs] at hnext
    obtain ⟨hrest, hend⟩ := ih hnext
    rw [moments_cons_tried hs ht, run_cons_tried hs ht]
    exact ⟨List.forall_mem_cons.mpr ⟨h, hrest⟩, hend⟩
  | stopped a rest o e o' hs ht =>
    have hnext := hstep a.request o h
    rw [hs] at hnext
    rw [moments_cons_error hs ht, run_cons_error hs ht]
    exact ⟨List.forall_mem_singleton.mpr h, hnext⟩

namespace Service

/-- What every call keeps holds of the stores that the calls of a transaction find, and of the one
that the transaction leaves. -/
theorem forall_calls {s : Service σ}
    (hstep : ∀ (q : Request) (o : Open σ), P o.store → P ((q.perform s.config).steps o).2.store)
    (h : P s.store) (turn : Turn) :
    (∀ x ∈ s.calls turn, P x.before.store) ∧
      P (s.script turn.request (Request.perform s.config) turn.calls).service.store := by
  unfold calls script begin
  cases turn.request.check with
  | error e => exact ⟨by simp, h⟩
  | ok _ =>
    obtain ⟨hmoments, hend⟩ := Script.forall_moments turn.calls
      ⟨s.store, turn.request, s.cache, .none, none⟩ hstep h
    refine ⟨hmoments, ?_⟩
    simp only
    unfold finish
    split
    · exact h
    · exact hend

/-- What every call keeps holds of the stores that the calls of a run find. -/
theorem forall_moments {s : Service σ} {turns : List Turn}
    (hstep : ∀ (q : Request) (o : Open σ), P o.store → P ((q.perform s.config).steps o).2.store)
    (h : P s.store) : ∀ x ∈ s.moments turns, P x.before.store := by
  induction turns generalizing s with
  | nil => simp [moments]
  | cons turn rest ih =>
    rw [moments]
    generalize hs' : (if turn.discards = true then { s with cache := ∅ } else s) = s'
    have hsame : s'.store = s.store ∧ s'.config = s.config := by
      rw [← hs']
      split
      · exact ⟨rfl, rfl⟩
      · exact ⟨rfl, rfl⟩
    rw [← hsame.1] at h
    rw [← hsame.2] at hstep
    obtain ⟨hhere, hend⟩ := forall_calls hstep h turn
    refine List.forall_mem_append.mpr ⟨hhere, ih ?_ hend⟩
    rw [config_script]
    exact hstep

end Service

end Runs

-- ---------------------------------------------------------------------------
-- Migrations that leave rows settled
-- ---------------------------------------------------------------------------

/-- Whether the kinds of all fields of a type keep their form when another type takes its place. -/
def ItemType.keepsForm (type type' : ItemType) : Bool :=
  type.fields.all fun d => d.kind.keepsForm (type'.kind? d.name)

theorem FieldKind.keepsForm_self (kind : FieldKind) : kind.keepsForm (some kind) = true := by
  cases kind <;> rfl

theorem ItemType.IsDistinct.keepsForm_self {type : ItemType} (h : type.IsDistinct) :
    type.keepsForm type = true := by
  refine List.all_eq_true.mpr fun d hd => ?_
  rw [kind?, h.field?_of_mem hd]
  exact d.kind.keepsForm_self

namespace Tables

variable {t t' : Tables} {ts : List ItemType}

/-- A type that is there after a replacement was replaced, or it was there before. -/
theorem type?_replaceTypes {name : String} {type : ItemType}
    (h : (t.replaceTypes ts).2.type? name = .ok (some type)) :
    type ∈ ts ∧ type.name = name ∨ t.type? name = .ok (some type) := by
  induction ts generalizing t with
  | nil => exact .inr h
  | cons type' rest ih =>
    rw [replaceTypes] at h
    split at h
    · rcases ih h with ⟨hmem, hname⟩ | hheld
      · exact .inl ⟨List.mem_cons_of_mem _ hmem, hname⟩
      · by_cases hname : name = type'.name
        · rw [hname, type?_insert_self] at hheld
          obtain rfl := Option.some.inj (Except.ok.inj hheld)
          exact .inl ⟨List.mem_cons_self, hname.symm⟩
        · exact .inr ((type?_congr (by rw [SortedMap.get?_insert, if_neg hname])).symm.trans hheld)
    · exact .inr h

/-- Rows that keep to their types are written. -/
theorem Typed.written (h : t.Typed) : t.Written where
  types := h.types
  rows row r hr := by
    obtain ⟨type, fields, htype, -, hdoc⟩ := h.rows row r hr
    refine ⟨?_, fields, hdoc⟩
    rw [SortedMap.contains, (h.type?_held htype).1]
    rfl

/-- **Rows are settled where the kinds of all fields keep their form.** -/
theorem Typed.isSettled_of_keepsForm (h : t.Typed) (hplain : t.isPlain = true)
    (hwritten : t'.Written) (hitems : t'.items = t.items)
    (hkeeps : ∀ name type type', t.type? name = .ok (some type) →
      t'.type? name = .ok (some type') → type.keepsForm type' = true) : t'.isSettled = true := by
  refine List.all_eq_true.mpr fun e he => ?_
  have hr := SortedMap.mem_entries_iff.mp (show (e.1, e.2) ∈ t'.items.entries from he)
  obtain ⟨type, fields, htype, -, hdoc, hfields⟩ := h.plainRow hplain (hitems ▸ hr)
  obtain ⟨type', stored, htype', hdoc', hdecode⟩ := hwritten.type?_row hr
  have hsame : stored.toPayload = fields.toPayload := by
    rw [hdoc] at hdoc'
    have hpayload := congrArg Document.payload? hdoc'
    rw [Document.payload?_ofFields, Document.payload?_ofFields] at hpayload
    exact (Option.some.inj hpayload).symm
  simp only [hdecode, hdoc, Document.payload?_ofFields, hsame, decide_eq_true_eq, Option.some.injEq]
  refine Classical.byContradiction fun hne => ?_
  obtain ⟨name, w, v, hw, hload, hchanged⟩ := ItemType.exists_changed hne
  obtain ⟨d, hd, hvalue⟩ := hfields name w hw
  have hname : d.name = name := by
    unfold ItemType.field? at hd
    simpa using List.find?_some hd
  have hkind := List.all_eq_true.mp (hkeeps _ _ _ htype htype') d (List.mem_of_find?_eq_some hd)
  rw [decodeField_eq, ← hname] at hload
  exact hchanged (hvalue.toJson_of_loaded hkind hload)

/-- **A migration leaves what was built settled, if the kinds of all fields keep their form** in the
types that it puts in their place. -/
theorem Built.isSettled_replaceTypes (h : t.Built) (hplain : t.isPlain = true)
    (hts : checkSchemas ts = .ok ())
    (hkeeps : ∀ type ∈ ts, ∀ old, t.type? type.name = .ok (some old) → old.keepsForm type = true) :
    (t.replaceTypes ts).2.isSettled = true := by
  have htyped := h.typed
  refine htyped.isSettled_of_keepsForm hplain ?_ (items_replaceTypes t ts) ?_
  · exact htyped.written.replaceTypes (ItemType.isDistinct_of_checkSchemas hts)
  · intro name old new hold hnew
    rcases type?_replaceTypes hnew with ⟨hmem, rfl⟩ | hheld
    · exact hkeeps new hmem old hold
    · obtain rfl := Option.some.inj (Except.ok.inj (hold.symm.trans hheld))
      exact (htyped.type?_held hold).2.2.keepsForm_self

end Tables

-- ---------------------------------------------------------------------------
-- Lists
-- ---------------------------------------------------------------------------

/-- New tables are written. -/
theorem Tables.written_new : Tables.new.Written where
  types := declared_new
  rows _ _ h := nomatch h

theorem Tables.Declared.types_ok {t : Tables} (h : t.Declared) :
    ∃ ts, decodeTypes t.types.toList = .ok ts := by
  have hentries : ∀ e ∈ t.types.toList, ∃ type, decodeType e.1 e.2 = .ok type := by
    intro e he
    obtain ⟨type, hname, hdoc, -⟩ := h e.1 e.2 (SortedMap.mem_entries_iff.mp he)
    exact ⟨type, by rw [hdoc, ← hname, decodeType_definitionsOf]⟩
  generalize t.types.toList = l at hentries
  induction l with
  | nil => exact ⟨[], rfl⟩
  | cons e rest ih =>
    obtain ⟨type, htype⟩ := hentries e List.mem_cons_self
    obtain ⟨ts, hts⟩ := ih fun x hx => hentries x (List.mem_cons_of_mem e hx)
    refine ⟨type :: ts, ?_⟩
    rw [decodeTypes]
    simp only [htype, hts]
    rfl

/-- Whatever text a list is asked for with, a transaction on the tables lists the items that, as
they are loaded, the filter of the text holds for: if the types that are there take the text for a
filter that is exact and within the limits of an engine. -/
def Tables.ListsLoaded (paging : PagingConfig) (t : Tables) : Prop :=
  ∃ ts, Store.types t = .ok ts ∧ ∀ text f, Filter.read (Catalog.ofTypes ts) text = .ok f →
    f.isExact = true → Clause.fits f 2 = true → ∀ o : Open Tables, o.store = t → Stands o →
      (∀ offset limit, (list paging text offset limit : Tx Tables ItemPage).steps o =
        (listFiltered f (.normalize paging offset limit) : Tx Tables ItemPage).steps o) ∧
      ∃ found, Lists o f found

/-- Settled tables list what they load. -/
theorem Tables.Written.lists {t : Tables} (h : t.Written) (htold : t.isTold = true)
    (hsettled : t.isSettled = true) (paging : PagingConfig) : t.ListsLoaded paging := by
  obtain ⟨ts, hts⟩ := h.types.types_ok
  refine ⟨ts, hts, fun text f hread hf hfits o ho hstands => ?_⟩
  subst ho
  have hready : Clause.isPreparable f 2 = true := by
    rw [Clause.isPreparable, Filter.isGrouped_of_read hread, hfits]
    rfl
  obtain ⟨items, hsees⟩ := h.sees htold hsettled hf
  exact ⟨steps_list hstands hts hread paging, _, hsees.lists hstands hready⟩

namespace Service

/-- **Lists agree with what is loaded as long as rows are settled**, and with all filters only then:
wherever a run of transactions on new tables has got to, migrations included, the clauses of all
filters select what the filters hold for if and only if every item is stored in the form in which it
is loaded, and then all lists show what is loaded, if what the tables hold is told as it is. -/
theorem agrees_iff_settled (config : ServiceConfig) (turns : List Turn)
    {x : Moment Tables Request Reply} (hx : x ∈ (onStore Tables.new config).moments turns)
    (htold : x.before.store.isTold = true) :
    (x.before.store.isSettled = true ↔
        ∀ f : Filter, f.isExact = true → x.before.store.Selects f) ∧
      (x.before.store.isSettled = true → x.before.store.ListsLoaded config.paging) := by
  have hwritten : x.before.store.Written :=
    forall_moments (P := Tables.Written) (fun q o ho => Request.written _ q ho)
      Tables.written_new x hx
  exact ⟨hwritten.selects_iff htold, fun hsettled =>
    hwritten.lists htold hsettled config.paging⟩

/-- A type of cards with a size of some kind, and a note of some kind. -/
def card (size note : FieldKind) (others : List FieldDefinition) : ItemType :=
  ⟨"card", [⟨"size", size, false⟩, ⟨"note", note, false⟩] ++ others⟩

/-- Two cards are made. Then their sizes become texts and their notes identifiers, and one field is
dropped, which changes nothing in how they are stored. Then sizes become identifiers too, and these
are stored as texts; that is settled when the cards are saved. After each of these changes cards are
listed. -/
def recasting : List Turn :=
  let fields (size : Int) (note : String) : Payload :=
    .ofList [("size", .int size), ("note", .string note), ("open", .bool true)]
  let search : Request := .list "\x7b\"size\":\"+7\",\"open\":true\x7d" none none
  [⟨false, .new,
    [⟨.publish (card .integer .string [⟨"open", .bool, false⟩]), false⟩,
     ⟨.create "card" (fields 7 "x7") ⟨"ann"⟩, false⟩,
     ⟨.create "card" (fields 8 "x8") ⟨"ann"⟩, false⟩]⟩,
   ⟨false, .new, [⟨.migrate [card .string .identifier []], false⟩, ⟨search, false⟩]⟩,
   ⟨true, .new, [⟨.migrate [card .identifier .identifier []], false⟩, ⟨search, false⟩]⟩,
   ⟨false, .new,
    [⟨.save ⟨⟨"1"⟩, 0, ∅⟩, false⟩, ⟨.save ⟨⟨"2"⟩, 0, ∅⟩, false⟩, ⟨search, false⟩]⟩]

/-- Where a list is answered: whether what the tables hold is told as it is, whether they are
settled, and which items the answer shows. -/
def listing? (x : Moment Tables Request Reply) : Option (Bool × Bool × List ItemId) :=
  match x.answer with
  | .ok (.page page) =>
    some (x.before.store.isTold, x.before.store.isSettled, page.items.map WorkItem.id)
  | _ => none

/-- The size of the first card is told as a text at first, which is the number, and as an identifier
in the end, which is not what the size is written as. In between the list is wrong. -/
theorem agrees_recasting :
    ((onStore Tables.new .default).moments recasting).filterMap listing? =
        [(true, true, [⟨"1"⟩]), (true, false, [⟨"1"⟩]), (true, true, [])] ∧
      ∃ x ∈ (onStore Tables.new .default).moments recasting,
        x.before.store.isTold = true ∧ listing? x = some (true, true, [⟨"1"⟩]) ∧
          (∀ f : Filter, f.isExact = true → x.before.store.Selects f) ∧
          x.before.store.ListsLoaded ServiceConfig.default.paging := by
  have hlistings : ((onStore Tables.new .default).moments recasting).filterMap listing? =
      [(true, true, [⟨"1"⟩]), (true, false, [⟨"1"⟩]), (true, true, [])] := by decide +kernel
  have hfirst : some (true, true, [(⟨"1"⟩ : ItemId)]) ∈
      ((onStore Tables.new .default).moments recasting).map listing? := by decide +kernel
  obtain ⟨x, hx, hlisting⟩ := List.mem_map.mp hfirst
  have hstore : x.before.store.isTold = true ∧ x.before.store.isSettled = true := by
    unfold listing? at hlisting
    split at hlisting
    · simp only [Option.some.injEq, Prod.mk.injEq] at hlisting
      exact ⟨hlisting.1, hlisting.2.1⟩
    · simp at hlisting
  obtain ⟨hiff, hlists⟩ := agrees_iff_settled .default recasting hx hstore.1
  exact ⟨hlistings, x, hx, hstore.1, hlisting, hiff.mp hstore.2, hlists hstore.2⟩

/-- A record with a text that reads as a number is made, and then the text is declared to be the
number. The record is loaded and looked for by the number. -/
def numbering : List Turn :=
  let type (kind : FieldKind) : ItemType := ⟨"t", [⟨"f", kind, false⟩]⟩
  [⟨false, .new,
    [⟨.publish (type .string), false⟩,
     ⟨.create "t" (.ofList [("f", .string "7")]) ⟨"ann"⟩, false⟩]⟩,
   ⟨false, .new, [⟨.migrate [type .integer], false⟩]⟩,
   ⟨false, .new, [⟨.load ⟨"1"⟩, false⟩]⟩,
   ⟨false, .new, [⟨.list "\x7b\"f\":7\x7d" none none, false⟩]⟩]

/-- The items with the number seven. -/
def sevens : Filter := .equals "f" (.integer 7)

/-- A transaction on tables that nobody withdraws, of a process that remembers nothing. -/
def openOn (t : Tables) : Open Tables :=
  { store := t, request := .new, cache := ∅, effects := .none }

/-- Whether the types that are there take a text for a filter. -/
def readsAs (t : Tables) (text : String) (f : Filter) : Bool :=
  match Tables.decodeTypes t.types.toList with
  | .ok ts => (Filter.read (Catalog.ofTypes ts) text).toOption == some f
  | .error _ => false

/-- Whether the first page for a filter is empty, though the item of an id is loaded as one that the
filter holds for. -/
def misses (t : Tables) (f : Filter) (id : ItemId) : Bool :=
  match ((listFiltered f ⟨0, 20⟩ : Tx Tables ItemPage).steps (openOn t)).1,
    ((load id : Tx Tables WorkItem).steps (openOn t)).1 with
  | .ok page, .ok i => page.items.isEmpty && f.holdsFor i
  | _, _ => false

theorem misses_eq_false {t : Tables} {f : Filter} {found : List WorkItem}
    (h : Lists (openOn t) f found) (id : ItemId) : misses t f id = false := by
  unfold misses
  rw [h.page ⟨0, 20⟩]
  match hload : (load id : Tx Tables WorkItem).steps (openOn t) with
  | (.error e, o') => rfl
  | (.ok i, o') =>
    cases found with
    | nil =>
      have hno : f.holdsFor i ≠ true := fun hyes =>
        absurd ((h.loaded id i o' hload).mpr hyes) List.not_mem_nil
      simp [hno]
    | cons j rest => rfl

/-- **The record is not found by the number** that it is loaded with. -/
theorem not_listsLoaded_numbering :
    ∃ x ∈ (onStore Tables.new .default).moments numbering,
      x.before.store.isTold = true ∧ readsAs x.before.store "\x7b\"f\":7\x7d" sevens = true ∧
        misses x.before.store sevens ⟨"1"⟩ = true ∧
        ¬ x.before.store.ListsLoaded ServiceConfig.default.paging := by
  have hany : ((onStore Tables.new .default).moments numbering).any (fun x =>
      x.before.store.isTold && (readsAs x.before.store "\x7b\"f\":7\x7d" sevens &&
        misses x.before.store sevens ⟨"1"⟩)) = true := by decide +kernel
  obtain ⟨x, hx, hfacts⟩ := List.any_eq_true.mp hany
  rw [Bool.and_eq_true, Bool.and_eq_true] at hfacts
  obtain ⟨htold, hread, hmissed⟩ := hfacts
  refine ⟨x, hx, htold, hread, hmissed, ?_⟩
  rintro ⟨ts, hts, hlists⟩
  have hts : Tables.decodeTypes x.before.store.types.toList = .ok ts := hts
  have hfilter : Filter.read (Catalog.ofTypes ts) "\x7b\"f\":7\x7d" = .ok sevens := by
    unfold readsAs at hread
    simp only [hts, beq_iff_eq] at hread
    cases hf : Filter.read (Catalog.ofTypes ts) "\x7b\"f\":7\x7d" with
    | error fault => simp [hf, Except.toOption] at hread
    | ok f => simpa [hf, Except.toOption] using hread
  obtain ⟨-, found, hfound⟩ := hlists _ _ hfilter (by decide +kernel) (by decide +kernel)
    (openOn x.before.store) rfl ⟨rfl, rfl⟩
  rw [misses_eq_false hfound] at hmissed
  exact absurd hmissed (by decide)

end Service

end Backlog
