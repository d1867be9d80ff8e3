import Backlog.Proofs.ReadBack

/-!
# Items that conform to their types

What a client sends for a field is converted to the kind that the type of the item declares, a
creation and a save both end with a look for required fields that are missing, and a type is taken
in only if its schema is right. On a store in memory nothing is decoded again, so what was checked
once stays true: every item that the store holds conforms to its type.

The two checks are different code, but both let a field through in one way only, and both look at
the fields that come out, not at those that went in. The type they go by is the type of the store
as long as nobody migrates types, because what a transaction knows of types its store holds. So
every call that migrates no types keeps a store conforming, and the runs of a service do, whatever
becomes of their transactions.

## Main results

* `ItemType.validate_eq_ok_iff` — which schemas pass their check;
* `ItemType.Conforms.convertFields`, `ItemType.Conforms.mergeFields` — what comes of a creation and
  of a save conforms to the type;
* `Request.conforming` — a call that migrates no types keeps a store conforming;
* `Service.conforming_reached` — the items of all states of a run conform to their types.
-/

namespace Backlog

open Tx WorkItems

-- ---------------------------------------------------------------------------
-- Schemas
-- ---------------------------------------------------------------------------

namespace ItemType

/-- A schema with a name and with fields that have names, no two of them the same one. -/
structure IsValid (t : ItemType) : Prop where
  named : Text.blank t.name = false
  inhabited : t.fields ≠ []
  fieldsNamed : ∀ d ∈ t.fields, Text.blank d.name = false
  distinct : t.IsDistinct

/-- Declarations pass their check if their names are not blank and all of them are new. -/
theorem validateFields_eq_ok_iff {ds : List FieldDefinition} {seen : List String} :
    validateFields seen ds = .ok () ↔
      (∀ d ∈ ds, Text.blank d.name = false) ∧ (∀ d ∈ ds, d.name ∉ seen) ∧
        ds.Pairwise fun d d' => d.name ≠ d'.name := by
  constructor
  · intro h
    obtain ⟨hpairs, hnew⟩ := pairwise_of_validateFields h
    refine ⟨?_, hnew, hpairs⟩
    induction ds generalizing seen with
    | nil => simp
    | cons d rest ih =>
      rw [validateFields] at h
      split at h
      · simp at h
      · next hblank =>
        split at h
        · simp at h
        · obtain ⟨hpairs, hnew⟩ := pairwise_of_validateFields h
          exact List.forall_mem_cons.mpr ⟨by simpa using hblank, ih h hpairs hnew⟩
  · rintro ⟨hnamed, hnew, hpairs⟩
    induction ds generalizing seen with
    | nil => rfl
    | cons d rest ih =>
      obtain ⟨hhead, hrest⟩ := List.pairwise_cons.mp hpairs
      have hblank : ¬ Text.blank d.name = true := by simp [hnamed d List.mem_cons_self]
      rw [validateFields, if_neg hblank, if_neg (hnew d List.mem_cons_self)]
      refine ih (fun d' hd' => hnamed d' (List.mem_cons_of_mem d hd')) (fun d' hd' => ?_) hrest
      rw [List.mem_cons, not_or]
      exact ⟨(hhead d' hd').symm, hnew d' (List.mem_cons_of_mem d hd')⟩

/-- **A schema passes its check exactly if it is valid.** -/
theorem validate_eq_ok_iff {t : ItemType} : t.validate = .ok () ↔ t.IsValid := by
  unfold validate
  by_cases hname : Text.blank t.name = true
  · rw [if_pos hname]
    exact iff_of_false (by simp) fun h => absurd (h.named.symm.trans hname) (by simp)
  by_cases hempty : t.fields = []
  · rw [if_neg hname, if_pos (by simp [hempty])]
    exact iff_of_false (by simp) fun h => h.inhabited hempty
  rw [if_neg hname, if_neg (by simp [hempty]), validateFields_eq_ok_iff]
  constructor
  · rintro ⟨hnamed, -, hpairs⟩
    exact ⟨by simpa using hname, hempty, hnamed, hpairs⟩
  · intro h
    exact ⟨h.fieldsNamed, by simp, h.distinct⟩

theorem checkSchema_eq_ok_iff {t : ItemType} : checkSchema t = .ok () ↔ t.IsValid := by
  rw [← validate_eq_ok_iff]
  unfold checkSchema
  cases t.validate with
  | ok u => simp
  | error fault => simp

/-- The types that every store knows are valid. -/
theorem isValid_of_mem_system {t : ItemType} (h : t ∈ system) : t.IsValid := by
  obtain ⟨name, hname, rfl⟩ := List.mem_map.mp h
  have hnamed : ∀ name ∈ [SystemType.userStory, SystemType.bug, SystemType.feature],
      Text.blank name = false := by decide
  have hfields : ∀ d ∈ systemFields, Text.blank d.name = false := by decide
  have hdistinct : systemFields.Pairwise fun d d' => d.name ≠ d'.name := by decide
  exact ⟨hnamed name hname, List.cons_ne_nil _ _, hfields, hdistinct⟩

end ItemType

-- ---------------------------------------------------------------------------
-- Fields
-- ---------------------------------------------------------------------------

/-- A value of exactly this kind; an identifier is not empty and holds nothing blank. -/
def FieldValue.IsOf (kind : FieldKind) (v : FieldValue) : Prop :=
  v.kind = kind ∧ ∀ s, v = .identifier s → s ≠ "" ∧ ∀ c ∈ s.toList, Text.isBlank c = false

/-- What a literal converts to is of the kind that was asked for. -/
theorem FieldValue.isOf_of_ofJson {kind : FieldKind} {literal : Json} {v : FieldValue}
    (h : ofJson kind literal = .ok v) : v.IsOf kind := by
  refine ⟨ofJson_kind h, ?_⟩
  rintro s rfl
  have hfits := fits_of_ofJson h
  cases hfits with
  | identifier hs =>
    rw [isIdentifier, Bool.and_eq_true, decide_eq_true_eq, Bool.not_eq_true',
      List.any_eq_false] at hs
    refine ⟨fun hempty => hs.1 (by rw [hempty]; rfl), fun c hc => ?_⟩
    simpa using hs.2 c hc

namespace ItemType

/-- Fields that are declared, each of exactly its kind, and none that is required is missing. -/
structure Conforms (t : ItemType) (fields : Fields) : Prop where
  declared : ∀ name v, fields.get? name = some v →
    ∃ d ∈ t.fields, d.name = name ∧ v.IsOf d.kind
  required : ∀ d ∈ t.fields, d.required = true → fields.contains d.name = true

namespace Conforms

variable {t : ItemType} {fields fields' : Fields} {payload : Payload}

/-- What a literal for a field converts to is declared and of its kind. -/
theorem of_convertValue {name : String} {literal : Json} {v : FieldValue}
    (h : t.convertValue name literal = .ok v) : ∃ d ∈ t.fields, d.name = name ∧ v.IsOf d.kind := by
  obtain ⟨d, hd, hconvert⟩ := convertValue_eq_ok_iff.mp h
  refine ⟨d, List.mem_of_find?_eq_some hd, ?_, FieldValue.isOf_of_ofJson hconvert⟩
  simpa using List.find?_some hd

/-- The fields of a new item conform to its type. -/
theorem convertFields (h : t.convertFields payload = .ok fields) : t.Conforms fields where
  declared := forall_convertFields (fun _ _ _ hv => of_convertValue hv) h
  required := by
    unfold ItemType.convertFields at h
    split at h
    · simp at h
    · split at h
      · next hrequired =>
        obtain rfl := Except.ok.inj h
        exact checkRequired_eq_ok_iff.mp hrequired
      · simp at h

/-- Fields that conform to a type still do when a payload is put over them. -/
theorem mergeFields (hfields : t.Conforms fields) (h : t.mergeFields fields payload = .ok fields') :
    t.Conforms fields' where
  declared := forall_mergeFields (fun _ _ _ hv => of_convertValue hv) hfields.declared h
  required := by
    unfold ItemType.mergeFields at h
    split at h
    · simp at h
    · split at h
      · next hrequired =>
        obtain rfl := Except.ok.inj h
        exact checkRequired_eq_ok_iff.mp hrequired
      · simp at h

end Conforms

end ItemType

-- ---------------------------------------------------------------------------
-- Stores
-- ---------------------------------------------------------------------------

namespace Memory

/-- The types of a store are valid, and every item is of one of them and conforms to it. -/
structure Conforming (m : Memory) : Prop where
  types : ∀ name t, m.types.get? name = some t → t.IsValid
  items : ∀ row i, m.items.get? row = some i →
    ∃ t, m.types.get? i.typeName = some t ∧ t.Conforms i.fields

namespace Conforming

variable {m m' : Memory} {t : ItemType}

theorem congr (h : m.Conforming) (htypes : m'.types = m.types) (hitems : m'.items = m.items) :
    m'.Conforming where
  types := by
    rw [htypes]
    exact h.types
  items := by
    rw [htypes, hitems]
    exact h.items

/-- Taking in an item whose fields conform to a type of the store. -/
theorem insertItem (h : m.Conforming) (ht : m.types.get? t.name = some t) (version : Nat)
    {fields : Fields} (hfields : t.Conforms fields) :
    (m.insertItem t.name version fields).2.Conforming where
  types := h.types
  items := SortedMap.forall_get?_insert h.items ⟨t, ht, hfields⟩

/-- Putting fields into the place of others that conform to the type of the item. -/
theorem updateItem (h : m.Conforming) {i : WorkItem} {expected : Nat}
    (hi : ∀ row stored, i.id.row? = some row → m.items.get? row = some stored →
      ∃ t, m.types.get? stored.typeName = some t ∧ t.Conforms i.fields) :
    (m.updateItem i expected).2.Conforming := by
  rcases m.updateItem_cases i expected with
    hno | ⟨row, stored, hrow, hstored, -, -, hitems, -, htypes, -⟩
  · rw [hno]
    exact h
  · constructor
    · rw [htypes]
      exact h.types
    · rw [htypes, hitems]
      exact SortedMap.forall_get?_insert h.items (hi row stored hrow hstored)

theorem deleteItem (h : m.Conforming) (row : Int) : (m.deleteItem row).2.Conforming := by
  unfold Memory.deleteItem
  split
  · exact ⟨h.types, SortedMap.forall_get?_erase h.items⟩
  · exact h

theorem updateIteration (h : m.Conforming) (i : Iteration) :
    (m.updateIteration i).2.Conforming := by
  unfold Memory.updateIteration
  split
  · exact h
  · split
    · exact h
    · exact h.congr rfl rfl

/-- Taking in a valid type of a new name. -/
theorem insertType (h : m.Conforming) (ht : t.IsValid) : (m.insertType t).2.Conforming := by
  unfold Memory.insertType
  split
  · exact h
  · next hnew =>
    refine ⟨SortedMap.forall_get?_insert h.types ht, fun row i hi => ?_⟩
    obtain ⟨held, hheld, hconforms⟩ := h.items row i hi
    refine ⟨held, ?_, hconforms⟩
    -- no item is of the new type yet
    have hne : i.typeName ≠ t.name := by
      intro e
      rw [e] at hheld
      simp [SortedMap.contains, hheld] at hnew
    show (m.types.insert t.name t).get? i.typeName = some held
    rw [SortedMap.get?_insert, if_neg hne, hheld]

end Conforming

/-- What holds of the types of a store and of those that replace some of them holds of what comes
of it. -/
theorem forall_replaceTypes {ts : List ItemType} {P : ItemType → Prop} {m : Memory}
    (hts : ∀ t ∈ ts, P t) (h : ∀ name t, m.types.get? name = some t → P t) :
    ∀ name t, (m.replaceTypes ts).types.get? name = some t → P t := by
  induction ts generalizing m with
  | nil => exact h
  | cons t rest ih =>
    refine ih (m := m.keepType t) (fun t' ht' => hts t' (List.mem_cons_of_mem t ht')) ?_
    exact SortedMap.forall_get?_insert h (hts t List.mem_cons_self)

/-- A new store has the system types, and no items. -/
theorem conforming_new : new.Conforming where
  types := forall_replaceTypes (fun _ => ItemType.isValid_of_mem_system) (by simp [empty])
  items := by
    intro row i hi
    rw [new, items_replaceTypes] at hi
    simp [empty] at hi

end Memory

-- ---------------------------------------------------------------------------
-- Calls
-- ---------------------------------------------------------------------------

section Calls

variable {o o' : Open Memory} {q : Request} {r : Except AccessError Reply}

theorem WorkItems.conforming_create (hknowing : Knowing o) (h : o.store.Conforming) {name : String}
    {payload : Payload} {creator : Identity} {r : Except AccessError WorkItem}
    (hs : (create name payload creator : Tx Memory WorkItem).steps o = (r, o')) :
    o'.store.Conforming := by
  rcases create_cases hs with ⟨_, -, hstore⟩ | ⟨t, o₁, fields, i, s, ht, hf, hw, -, rfl⟩
  · exact hstore ▸ h
  · obtain ⟨hname, hheld⟩ := hknowing.type_ok ht
    obtain ⟨-, rfl⟩ := Prod.mk.inj hw
    refine h.insertItem ?_ initialVersion (.convertFields hf)
    rw [hname]
    exact Except.ok.inj hheld

theorem WorkItems.conforming_save (hknowing : Knowing o) (h : o.store.Conforming)
    {u : WorkItemUpdate} {r : Except AccessError WorkItem}
    (hs : (save u : Tx Memory WorkItem).steps o = (r, o')) : o'.store.Conforming := by
  rcases save_cases hs with
    ⟨_, -, hstore⟩ | ⟨row, stored, t, o₁, fields, s, -, hstored, -, ht, hf, hw, -, rfl⟩
  · exact hstore ▸ h
  · have hheld : o.store.types.get? stored.typeName = some t :=
      Except.ok.inj (hknowing.type_ok ht).2
    have hstored : o.store.items.get? row = some stored := Except.ok.inj hstored
    obtain ⟨t', ht', hconforms⟩ := h.items row stored hstored
    obtain rfl : t' = t := Option.some.inj (ht'.symm.trans hheld)
    obtain ⟨-, rfl⟩ := Prod.mk.inj hw
    refine h.updateItem fun row' stored' hrow' hstored' => ?_
    -- the row that the id names is the row that the item was read from
    obtain rfl := ItemId.eq_of_row? (o.store.itemsNumbered row stored hstored) hrow'
    obtain rfl : stored = stored' := Option.some.inj (hstored.symm.trans hstored')
    exact ⟨t', hheld, hconforms.mergeFields hf⟩

theorem WorkItems.conforming_publish (h : o.store.Conforming) {t : ItemType}
    {r : Except AccessError ItemType}
    (hs : (publish t : Tx Memory ItemType).steps o = (r, o')) : o'.store.Conforming := by
  rcases publish_cases hs with ⟨_, -, hstore⟩ | ⟨s, hcheck, hw, -, rfl⟩
  · exact hstore ▸ h
  · obtain ⟨-, rfl⟩ := Prod.mk.inj hw
    exact h.insertType (ItemType.checkSchema_eq_ok_iff.mp hcheck)

/-- What a call makes of a store that conforms does so too, if the call writes no fields and no
types. -/
theorem Request.Writes.conforming {m m' : Memory} (hw : Request.Writes m q r m')
    (h : m.Conforming) (hcreate : ∀ name payload creator, q ≠ .create name payload creator)
    (hsave : ∀ u, q ≠ .save u) (hpublish : ∀ t, q ≠ .publish t)
    (hmigrate : ∀ ts, q ≠ .migrate ts) : m'.Conforming := by
  cases hw with
  | failed | read => exact h
  | create => exact absurd rfl (hcreate _ _ _)
  | save => exact absurd rfl (hsave _)
  | publish => exact absurd rfl (hpublish _)
  | migrate | halfMigrated => exact absurd rfl (hmigrate _)
  | @delete id row s' hrow hw =>
    obtain ⟨-, rfl⟩ := Prod.mk.inj hw
    exact h.deleteItem row
  | createIteration _ _ hw =>
    obtain ⟨-, rfl⟩ := Prod.mk.inj hw
    exact h.congr rfl rfl
  | saveIteration _ _ _ hw =>
    obtain ⟨-, rfl⟩ := Prod.mk.inj hw
    exact h.updateIteration _

/-- **A call that migrates no types keeps a store conforming.** -/
theorem Request.conforming (config : ServiceConfig) (hq : q.IsPlain) (hknowing : Knowing o)
    (h : o.store.Conforming) :
    ((perform config q : Tx Memory Reply).steps o).2.store.Conforming := by
  have hs := (Prod.eta ((perform config q : Tx Memory Reply).steps o)).symm
  by_cases hcreate : ∃ name payload creator, q = .create name payload creator
  · obtain ⟨name, payload, creator, rfl⟩ := hcreate
    obtain ⟨v, hv, -⟩ := steps_map_cases hs
    exact conforming_create hknowing h hv
  by_cases hsave : ∃ u, q = .save u
  · obtain ⟨u, rfl⟩ := hsave
    obtain ⟨v, hv, -⟩ := steps_map_cases hs
    exact conforming_save hknowing h hv
  by_cases hpublish : ∃ t, q = .publish t
  · obtain ⟨t, rfl⟩ := hpublish
    obtain ⟨v, hv, -⟩ := steps_map_cases hs
    exact conforming_publish h hv
  exact (Request.writes config q hs).conforming h
    (fun name payload creator e => hcreate ⟨name, payload, creator, e⟩)
    (fun u e => hsave ⟨u, e⟩) (fun t e => hpublish ⟨t, e⟩) hq

end Calls

-- ---------------------------------------------------------------------------
-- Runs
-- ---------------------------------------------------------------------------

/-- A script goes on after a call that is no migration. -/
theorem Attempt.isWhole_of_isPlain {b : Backend} {a : Attempt Request} (h : a.request.IsPlain) :
    a.isWhole b = true := by
  unfold isWhole
  split
  · next ts hts => exact absurd hts (h ts)
  · rfl

namespace Service

variable {σ : Type} [Store σ]

/-- The states that a run passes through: those between its turns, and those that a call leaves to
the next one, whatever becomes of the turn. -/
def reached : Service σ → List Turn → List σ
  | s, [] => [s.store]
  | s, t :: rest =>
    s.store :: ((s.turned t).calls t).map (fun m => m.after.store) ++
      reached (s.turn t).service rest

/-- A run passes through the state that it leaves. -/
theorem store_after_mem_reached (s : Service σ) (turns : List Turn) :
    (s.after turns).store ∈ s.reached turns := by
  induction turns generalizing s with
  | nil => exact List.mem_singleton_self s.store
  | cons t rest ih => exact List.mem_append_right _ (ih (s.turn t).service)

/-- A turn, as a visit of a client that remembers what the cache remembers. -/
def visit (s : Service σ) (t : Turn) : Visit := ⟨(s.turned t).cache, s.config, t.request, t.calls⟩

theorem moments_visit (s : Service σ) (t : Turn) :
    (s.visit t).moments s.store = (s.turned t).calls t := by
  unfold visit turned
  split <;> rfl

theorem after_visit (s : Service σ) (t : Turn) :
    (s.visit t).after s.store = (s.turn t).service.store := by
  unfold visit turn turned
  split <;> rfl

/-- Every call of a turn was asked for, and went from its transaction to the next one. -/
theorem mem_calls {s : Service σ} {t : Turn} {m : Moment σ Request Reply} (h : m ∈ s.calls t) :
    (∃ a ∈ t.calls, a.request = m.call) ∧
      (m.call.perform s.config).steps m.before = (m.answer, m.after) := by
  unfold calls at h
  split at h
  · simp at h
  · exact Script.mem_moments h

/-- What every call of a turn keeps holds after each of them, and of what the turn leaves. -/
theorem kept_turn [LawfulStore σ] {P : σ → Prop} {s : Service σ} {t : Turn} (h : P s.store)
    (hstep : ∀ m ∈ (s.turned t).calls t, P m.before.store → P m.after.store) :
    (∀ m ∈ (s.turned t).calls t, P m.after.store) ∧ P (s.turn t).service.store := by
  rw [← moments_visit] at hstep ⊢
  rw [← after_visit]
  obtain ⟨hmoments, hend⟩ := Visit.kept h hstep
  exact ⟨fun m hm => (hmoments m hm).2, hend⟩

/-- The items of a service that starts on a conforming store, with a cache that says of types what
the store says, conform to their types throughout. -/
theorem conforming_of_reflects {s : Service Memory} {turns : List Turn}
    (hplain : ∀ t ∈ turns, ∀ a ∈ t.calls, a.request.IsPlain)
    (hcache : s.cache.Reflects s.store) (h : s.store.Conforming) :
    ∀ m ∈ s.reached turns, m.Conforming := by
  induction turns generalizing s with
  | nil =>
    rw [reached, List.forall_mem_singleton]
    exact h
  | cons t rest ih =>
    obtain ⟨hhere, hlater⟩ := List.forall_mem_cons.mp hplain
    obtain ⟨hknowing, hnext⟩ := knowing_turn (b := .memory) hcache fun a ha =>
      Attempt.isWhole_of_isPlain (hhere a ha)
    have hstep : ∀ m ∈ (s.turned t).calls t, m.before.store.Conforming →
        m.after.store.Conforming := by
      intro m hm hbefore
      obtain ⟨⟨a, ha, hcall⟩, hsteps⟩ := mem_calls hm
      have hafter :=
        Request.conforming (s.turned t).config (hcall ▸ hhere a ha) (hknowing m hm) hbefore
      rwa [hsteps] at hafter
    obtain ⟨hcalls, hend⟩ := kept_turn h hstep
    rw [reached, List.cons_append, List.forall_mem_cons, List.forall_mem_append,
      List.forall_mem_map]
    exact ⟨h, hcalls, ih hlater hnext hend⟩

/-- **The items of a store in memory conform to their types in every state of every run that
migrates no types**, whatever types are published, whatever is created, saved and tried, and
whether transactions are committed or not. -/
theorem conforming_reached (config : ServiceConfig) (turns : List Turn)
    (hplain : ∀ t ∈ turns, ∀ a ∈ t.calls, a.request.IsPlain) :
    ∀ m ∈ (onStore Memory.new config).reached turns, m.Conforming :=
  conforming_of_reflects hplain (.of_types_eq_empty rfl) Memory.conforming_new

/-- A type is published and an item of it is created and saved; what another transaction makes of
the item is discarded. -/
def memos : List Turn :=
  [⟨false, .new,
    [⟨.publish memo, false⟩, ⟨.create "memo" (.ofList [("text", .string "a")]) ⟨"ada"⟩, false⟩]⟩,
   ⟨false, .new, [⟨.save ⟨⟨"1"⟩, 0, .ofList [("text", .string "b")]⟩, false⟩]⟩,
   ⟨true, .new,
    [⟨.save ⟨⟨"1"⟩, 1, .ofList [("text", .string "c")]⟩, false⟩, ⟨.delete ⟨"2"⟩, false⟩]⟩]

theorem conforming_reached_memos :
    (∀ t ∈ memos, ∀ a ∈ t.calls, a.request.IsPlain) ∧
      ∃ i t, (((onStore Memory.new .default).after memos).store).items.get? 1 = some i ∧
        i.fields.get? "text" = some (.string "b") ∧
        ((onStore Memory.new .default).after memos).store.types.get? i.typeName = some t ∧
        t.Conforms i.fields := by
  have hplain : ∀ t ∈ memos, ∀ a ∈ t.calls, a.request.IsPlain := by
    simp [memos, Request.IsPlain]
  have hconforming := conforming_reached .default memos hplain _ (store_after_mem_reached _ memos)
  have hitem : ((onStore Memory.new .default).after memos).store.items.get? 1 =
      some ⟨⟨"1"⟩, "memo", 1, .ofList [("text", .string "b")]⟩ := by decide +kernel
  obtain ⟨t, ht, hconforms⟩ := hconforming.items 1 _ hitem
  exact ⟨hplain, _, t, hitem, rfl, ht, hconforms⟩

end Service

end Backlog
