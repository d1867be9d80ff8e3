import Backlog.Proofs.Overlays
import Backlog.Proofs.PlannedFilters

/-!
# Fields and their declarations

A field comes into an item by its type: the type declares it, under a name that is not blank, and
its kind decides what may stand in it. Nobody can take a declaration back without migrating types,
so it stays true of whatever is loaded. In memory the item holds a value of the kind. Tables hold
the stored form of one, and there the form of an instant in a year with a sign is taken for the text
that it is. The catalog of the day knows a declared field by its kind, or by no kind when types
disagree.

The states of a run of a service are states of a history, whose clients remember what the cache of
the service remembers in their turn. What is known of all histories, whatever clients remember,
holds of runs for that reason; what depends on the cache being right is carried from turn to turn.

## Main results

* `History.typesValid_reached` — every type that a store holds passed the check of its schema;
* `Service.mem_reached_visits` — the states of a run are states of a history;
* `Service.typed_of_agrees` — the rows of tables keep to their types throughout a run;
* `Service.declared_reached` — every field of every item is declared, and holds what fits its kind.
-/

namespace Backlog

open Tx WorkItems

-- ---------------------------------------------------------------------------
-- Types that passed their check
-- ---------------------------------------------------------------------------

/-- Every type that a store holds is valid. -/
def TypesValid {σ : Type} [Store σ] (s : σ) : Prop :=
  ∀ name t, Store.type? s name = .ok (some t) → t.IsValid

namespace TypesValid

variable {σ : Type} [Store σ] {s s' : σ}

theorem of_type?_eq (h : TypesValid s) (heq : ∀ name, Store.type? s' name = Store.type? s name) :
    TypesValid s' :=
  fun name t ht => h name t ((heq name).symm.trans ht)

/-- Taking in a valid type. -/
theorem insertType [LawfulTypes σ] (h : TypesValid s) {t : ItemType} (ht : t.IsValid)
    (hw : Store.insertType s t = (.ok true, s')) : TypesValid s' := by
  intro name held hheld
  by_cases hname : name = t.name
  · subst hname
    have hself := LawfulTypes.type?_inserted hw
    rw [hheld] at hself
    rw [Option.some.inj (Except.ok.inj hself)]
    exact ht
  · rw [LawfulStore.type?_insertType hw hname] at hheld
    exact h name held hheld

end TypesValid

/-- What a call makes of a store with valid types has valid types, if the call migrates none and one
that it publishes was checked. -/
theorem Request.Writes.typesValid {σ : Type} [Store σ] [LawfulTypes σ] {s s' : σ} {q : Request}
    {r : Except AccessError Reply} (hw : Request.Writes s q r s') (h : TypesValid s)
    (hq : q.IsPlain) (hpublish : ∀ t, q = .publish t → r.isOk = true → t.IsValid) :
    TypesValid s' := by
  cases hw with
  | failed | read => exact h
  | migrate | halfMigrated => exact absurd rfl (hq _)
  | publish hw => exact h.insertType (hpublish _ rfl rfl) hw
  | create hw => exact h.of_type?_eq fun _ => LawfulStore.type?_insertItem hw
  | save _ _ _ hw => exact h.of_type?_eq fun _ => LawfulStore.type?_updateItem hw
  | delete _ hw => exact h.of_type?_eq fun _ => LawfulStore.type?_deleteItem hw
  | createIteration _ _ hw => exact h.of_type?_eq fun _ => LawfulStore.type?_insertIteration hw
  | saveIteration _ _ _ hw => exact h.of_type?_eq fun _ => LawfulStore.type?_updateIteration hw

/-- A call that migrates no types takes in valid types only. -/
theorem Request.typesValid {σ : Type} [Store σ] [LawfulTypes σ] (config : ServiceConfig)
    {q : Request} (hq : q.IsPlain) {o o' : Open σ} {r : Except AccessError Reply}
    (hs : (perform config q : Tx σ Reply).steps o = (r, o')) (h : TypesValid o.store) :
    TypesValid o'.store := by
  refine (Request.writes config q hs).typesValid h hq ?_
  rintro t rfl hok
  obtain ⟨v, hv, hr⟩ := steps_map_cases hs
  rcases publish_cases hv with ⟨e, rfl, -⟩ | ⟨_, hcheck, -⟩
  · rw [hr] at hok
    simp [Except.map, Except.isOk, Except.toBool] at hok
  · exact ItemType.checkSchema_eq_ok_iff.mp hcheck

/-- The types that new stores hold are the system types. -/
theorem Backend.typesValid_new (b : Backend) : TypesValid b.new := by
  cases b with
  | memory => exact fun name t ht => Memory.conforming_new.types name t (Except.ok.inj ht)
  | tables =>
    intro name t ht
    have hsystem : ∀ name doc, Tables.new.types.get? name = some doc →
        ∃ t ∈ ItemType.system, doc = Tables.definitionsOf t ∧ t.name = name :=
      Tables.forall_get?_seed (fun _ _ h => nomatch h) fun t ht => ⟨t, ht, rfl, rfl⟩
    obtain ⟨hdoc, -, -⟩ := Tables.declared_new.type?_held ht
    obtain ⟨t', ht', heq, rfl⟩ := hsystem name _ hdoc
    have hheld : Tables.new.type? t'.name = .ok (some t') := by
      unfold Tables.type?
      rw [hdoc, heq]
      simp only [Tables.decodeType_definitionsOf]
      rfl
    obtain rfl := Option.some.inj (Except.ok.inj (hheld.symm.trans ht))
    exact ItemType.isValid_of_mem_system ht'

/-- **Every type that a store holds is valid**, in all states of histories without migrations. -/
theorem History.typesValid_reached (b : Backend) {vs : List Visit} (hplain : ∀ v ∈ vs, v.IsPlain) :
    ∀ s ∈ reached b.new vs, TypesValid s := by
  refine (kept_calls (fun m hm hbefore => ?_) b.typesValid_new).1
  obtain ⟨v, hv, a, ha, hcall⟩ := call_mem hm
  obtain ⟨config, hsteps⟩ := steps_of_mem_calls hm
  exact Request.typesValid config (hcall ▸ hplain v hv a ha) hsteps hbefore

-- ---------------------------------------------------------------------------
-- Runs and histories
-- ---------------------------------------------------------------------------

/-- A cache that remembers no types agrees with all tables. -/
theorem TypeCache.agrees_of_types_eq_empty {c : TypeCache} (hc : c.types = ∅) (t : Tables) :
    c.Agrees t := by
  intro name type hcached
  unfold TypeCache.get? at hcached
  rw [hc] at hcached
  exact nomatch hcached

namespace Service

section Visits

variable {σ : Type} [Store σ]

/-- The states of a run are states of the history of its visits. -/
theorem mem_reached_visits (s : Service σ) (turns : List Turn) :
    ∀ m ∈ s.reached turns, m ∈ History.reached s.store (s.visits turns) := by
  induction turns generalizing s with
  | nil =>
    rw [reached, List.forall_mem_singleton]
    exact List.mem_append_left _ (List.mem_singleton_self s.store)
  | cons t rest ih =>
    have hrest := ih (s.turn t).service
    unfold History.reached at hrest ⊢
    rw [reached, List.cons_append, List.forall_mem_cons, List.forall_mem_append,
      List.forall_mem_map, visits, History.states, History.calls, moments_visit, after_visit]
    refine ⟨List.mem_cons_self, fun m hm => ?_, fun m hm => ?_⟩
    · refine List.mem_append_right _ ?_
      rw [List.map_append]
      exact List.mem_append_left _ (List.mem_map_of_mem hm)
    · rw [List.map_append]
      rcases List.mem_append.mp (hrest m hm) with hstate | hcall
      · exact List.mem_append_left _ (List.mem_cons_of_mem _ hstate)
      · exact List.mem_append_right _ (List.mem_append_right _ hcall)

/-- Visits of turns without migrations are plain. -/
theorem isPlain_visits {s : Service σ} {turns : List Turn}
    (hplain : ∀ t ∈ turns, ∀ a ∈ t.calls, a.request.IsPlain) : ∀ v ∈ s.visits turns, v.IsPlain := by
  induction turns generalizing s with
  | nil => exact fun _ h => nomatch h
  | cons t rest ih =>
    obtain ⟨hhere, hlater⟩ := List.forall_mem_cons.mp hplain
    exact List.forall_mem_cons.mpr ⟨hhere, ih hlater⟩

end Visits

/-- A turn is what comes of its visit. -/
theorem transcript_visit {σ : Type} [Store σ] (s : Service σ) (t : Turn) :
    (s.visit t).transcript s.store = s.turn t := by
  unfold visit turn turned
  split <;> rfl

/-- **The rows of tables keep to their types throughout a run** that migrates none, if they do at
the start and the cache says of types what the tables say. -/
theorem typed_of_agrees {s : Service Tables} {turns : List Turn}
    (hplain : ∀ t ∈ turns, ∀ a ∈ t.calls, a.request.IsPlain) (hcache : s.cache.Agrees s.store)
    (h : s.store.Typed) : ∀ m ∈ s.reached turns, m.Typed := by
  induction turns generalizing s with
  | nil =>
    rw [reached, List.forall_mem_singleton]
    exact h
  | cons t rest ih =>
    obtain ⟨hhere, hlater⟩ := List.forall_mem_cons.mp hplain
    have hagrees : (s.visit t).cache.Agrees s.store := by
      show (s.turned t).cache.Agrees s.store
      unfold turned
      split
      · exact TypeCache.agrees_of_types_eq_empty rfl _
      · exact hcache
    obtain ⟨htyped, -, hnext⟩ := Visit.sound_after (v := s.visit t) h hagrees hhere
    rw [transcript_visit, after_visit] at hnext
    rw [after_visit] at htyped
    rw [reached, List.cons_append, List.forall_mem_cons, List.forall_mem_append,
      List.forall_mem_map]
    refine ⟨h, fun m hm => ?_, ih hlater hnext htyped⟩
    rw [← moments_visit] at hm
    exact Visit.typed_moments h hagrees hhere hm

end Service

-- ---------------------------------------------------------------------------
-- Declared fields
-- ---------------------------------------------------------------------------

/-- The type that a store holds for an item declares a field with a kind. -/
def DeclaresAs {σ : Type} [Store σ] (s : σ) (i : WorkItem) (name : String) (kind : FieldKind) :
    Prop :=
  ∃ t d, Store.type? s i.typeName = .ok (some t) ∧ d ∈ t.fields ∧ d.name = name ∧ d.kind = kind

/-- A declared field has a name that is not blank. -/
theorem DeclaresAs.not_blank {σ : Type} [Store σ] {s : σ} {i : WorkItem} {name : String}
    {kind : FieldKind} (h : DeclaresAs s i name kind) (hvalid : TypesValid s) :
    Text.blank name = false := by
  obtain ⟨t, d, ht, hd, rfl, -⟩ := h
  exact (hvalid _ t ht).fieldsNamed d hd

/-- The catalog knows a declared field by its kind, or by none. -/
theorem DeclaresAs.kind?_cases {b : Backend} {s : b.State} {i : WorkItem} {name : String}
    {kind : FieldKind} (h : DeclaresAs s i name kind) {ts : List ItemType}
    (hts : Store.types s = .ok ts) :
    (Catalog.ofTypes ts).kind? name = none ∨ (Catalog.ofTypes ts).kind? name = some kind := by
  obtain ⟨t, d, ht, hd, rfl, rfl⟩ := h
  exact Catalog.kind?_of_mem (Backend.mem_types hts ht) hd

/-- What is of a kind fits the kind. -/
theorem FieldValue.IsOf.fits {kind : FieldKind} {v : FieldValue} (h : v.IsOf kind) :
    Fits kind v := by
  obtain ⟨rfl, hidentifier⟩ := h
  cases v with
  | string s => exact .string s
  | integer n => exact .integer n
  | bool b => exact .bool b
  | timestamp t => exact .timestamp t
  | identifier s =>
    obtain ⟨hempty, hblank⟩ := hidentifier s rfl
    refine .identifier ?_
    rw [isIdentifier, Bool.and_eq_true, decide_eq_true_eq, Bool.not_eq_true', List.any_eq_false]
    exact ⟨fun hnil => hempty (String.toList_eq_nil_iff.mp hnil), fun c hc => by simp [hblank c hc]⟩

/-- The fields of items of a conforming store are declared, and hold what fits their kinds. -/
theorem Memory.Conforming.declares {m : Memory} (h : m.Conforming) {row : Int} {i : WorkItem}
    (hi : m.items.get? row = some i) {name : String} {v : FieldValue}
    (hv : i.fields.get? name = some v) :
    ∃ kind, DeclaresAs m i name kind ∧ FieldValue.Fits kind v := by
  obtain ⟨t, ht, hconforms⟩ := h.items row i hi
  obtain ⟨d, hd, hname, hof⟩ := hconforms.declared name v hv
  exact ⟨d.kind, ⟨t, d, congrArg Except.ok ht, hd, hname, rfl⟩, hof.fits⟩

/-- The fields of items of typed tables are declared, and hold what fits their kinds. -/
theorem Tables.Typed.declares {t : Tables} (h : t.Typed) {row : Int} {i : WorkItem}
    (hi : t.item? row = .ok (some i)) {name : String} {v : FieldValue}
    (hv : i.fields.get? name = some v) :
    ∃ kind, DeclaresAs t i name kind ∧ FieldValue.Fits kind v := by
  obtain ⟨r, hr, hitem⟩ := row_of_item? hi
  obtain ⟨type, fields, htype, hdecode, hholds, -⟩ := h.decodeItem_ok hr
  obtain rfl := Except.ok.inj (hitem.symm.trans hdecode)
  obtain ⟨d, hd, hfits⟩ := hholds name v hv
  have hname : d.name = name := by simpa using List.find?_some hd
  exact ⟨d.kind, ⟨type, d, htype, List.mem_of_find?_eq_some hd, hname, rfl⟩, hfits⟩

namespace Backend

/-- The items of a store keep to the types that it holds. -/
def IsTyped : (b : Backend) → b.State → Prop
  | memory, m => Memory.Conforming m
  | tables, t => Tables.Typed t

/-- The fields of the items of such a store are declared, and hold what fits their kinds. -/
theorem IsTyped.declares {b : Backend} {s : b.State} (h : b.IsTyped s) {row : Int}
    {i : WorkItem} (hi : Store.item? s row = .ok (some i)) {name : String} {v : FieldValue}
    (hv : i.fields.get? name = some v) :
    ∃ kind, DeclaresAs s i name kind ∧ FieldValue.Fits kind v := by
  cases b with
  | memory => exact Memory.Conforming.declares h (Except.ok.inj hi) hv
  | tables => exact Tables.Typed.declares h hi hv

end Backend

namespace Service

variable {b : Backend} {config : ServiceConfig} {turns : List Turn} {s : b.State}

/-- The items of a store keep to its types in all states of runs without migrations. -/
theorem isTyped_reached (hplain : ∀ t ∈ turns, ∀ a ∈ t.calls, a.request.IsPlain)
    (hs : s ∈ (onStore b.new config).reached turns) : b.IsTyped s := by
  cases b with
  | memory =>
    exact conforming_of_reflects hplain (.of_types_eq_empty rfl) Memory.conforming_new s hs
  | tables =>
    have hcache : (onStore Tables.new config).cache.Agrees Tables.new :=
      TypeCache.agrees_of_types_eq_empty rfl _
    exact typed_of_agrees hplain hcache Tables.typed_new s hs

/-- **Every field of every item is declared, and holds what fits its kind**, in all states of runs
without migrations. -/
theorem declared_reached (hplain : ∀ t ∈ turns, ∀ a ∈ t.calls, a.request.IsPlain)
    (hs : s ∈ (onStore b.new config).reached turns) {row : Int} {i : WorkItem}
    (hi : Store.item? s row = .ok (some i)) {name : String} {v : FieldValue}
    (hv : i.fields.get? name = some v) :
    Text.blank name = false ∧ ∃ kind, DeclaresAs s i name kind ∧ FieldValue.Fits kind v := by
  obtain ⟨kind, hdeclared, hfits⟩ := (isTyped_reached hplain hs).declares hi hv
  have hvalid :=
    History.typesValid_reached b (isPlain_visits hplain) s (mem_reached_visits _ _ s hs)
  exact ⟨hdeclared.not_blank hvalid, kind, hdeclared, hfits⟩

end Service

end Backlog
