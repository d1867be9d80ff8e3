import Backlog.Proofs.Renderings
import Backlog.Proofs.Transparency

/-!
# Stores that can be exchanged

The same transactions, one after another, are run by a service on a store in memory and by a service
on tables. Next to each other the two stay in step: the tables are a rendering of the store in
memory after every call, whether the call succeeds, fails or finds its request withdrawn, and they
are one again after every transaction, whether it is committed or not. So all calls are answered
alike.

Bodies are compared step by step. Two bodies `Agree` on a pair of stores when they give the same
answer and leave a rendering, wherever they are run on these stores for the same request; there is a
rule for each kind of step, and each operation is read off its text with them. Types are looked up
in the store here, because a service does not notice its cache.

What has to be known of the calls is what makes a record come back from its row as it was: texts
without the character zero, instants that are plain, names in filters without escapes, and filters
within the limits of an engine. It is asked of the calls that are made, where they are made, since
what a literal is taken for is decided by the type that is there at that moment.

## Main results

* `Request.agree` — a call does the same on both;
* `Service.interchangeable` — the two services answer every run in the same way.
-/

namespace Backlog

open Tx WorkItems

variable {α β : Type} {n : Nat} {m m' : Memory} {t t' : Tables} {o : Open Memory} {p : Open Tables}

-- ---------------------------------------------------------------------------
-- Bodies in step
-- ---------------------------------------------------------------------------

/-- A transaction on tables that render the store in memory of another one, for the same request. -/
structure Paired (n : Nat) (o : Open Memory) (p : Open Tables) : Prop where
  store : Rendering n o.store p.store
  request : p.request = o.request
  notice : p.notice = o.notice

theorem Paired.looked (h : Paired n o p) : Paired n o.looked p.looked := by
  obtain ⟨hrequest, hnotice⟩ := looked_congr h.request h.notice
  refine ⟨?_, hrequest, hnotice⟩
  rw [o.store_looked, p.store_looked]
  exact h.store

/-- On a pair of stores, and for the same request, two bodies give the same answer and leave a
rendering. -/
def Agree (n : Nat) (m : Memory) (t : Tables) (x : Tx Memory α) (y : Tx Tables α) : Prop :=
  ∀ o p, Paired n o p → o.store = m → p.store = t →
    (y.steps p).1 = (x.steps o).1 ∧ Paired n (x.steps o).2 (y.steps p).2

namespace Agree

variable {x : Tx Memory α} {y : Tx Tables α} {f : α → Tx Memory β} {g : α → Tx Tables β}

theorem pure (a : α) : Agree n m t (Pure.pure a) (Pure.pure a) := fun _ _ h _ _ => ⟨rfl, h⟩

theorem throw (e : AccessError) :
    Agree n m t (MonadExcept.throw e : Tx Memory α) (MonadExcept.throw e) :=
  fun _ _ h _ _ => ⟨rfl, h⟩

theorem proceed {f : Unit → Tx Memory β} {g : Unit → Tx Tables β} (h : Agree n m t (f ()) (g ())) :
    Agree n m t (Tx.proceed >>= f) (Tx.proceed >>= g) := by
  intro o p hpaired hm ht
  have hlooked := hpaired.looked
  cases hcheck : o.looked.request.check with
  | error e =>
    have ho : (Tx.proceed : Tx Memory Unit).steps o = (.error e, o.looked) := by
      rw [steps_proceed, hcheck]
    have hp : (Tx.proceed : Tx Tables Unit).steps p = (.error e, p.looked) := by
      rw [steps_proceed, hlooked.request, hcheck]
    rw [steps_bind_error ho, steps_bind_error hp]
    exact ⟨rfl, hlooked⟩
  | ok _ =>
    have ho : (Tx.proceed : Tx Memory Unit).steps o = (.ok (), o.looked) := by
      rw [steps_proceed, hcheck]
    have hp : (Tx.proceed : Tx Tables Unit).steps p = (.ok (), p.looked) := by
      rw [steps_proceed, hlooked.request, hcheck]
    rw [steps_bind_ok ho, steps_bind_ok hp]
    exact h o.looked p.looked hlooked (o.store_looked.trans hm) (p.store_looked.trans ht)

theorem ofExcept {r : Except AccessError α} (h : ∀ a, r = .ok a → Agree n m t (f a) (g a)) :
    Agree n m t (Tx.ofExcept r >>= f) (Tx.ofExcept r >>= g) := by
  intro o p hpaired hm ht
  cases r with
  | error e =>
    rw [steps_bind_error (steps_ofExcept _ o), steps_bind_error (steps_ofExcept _ p)]
    exact ⟨rfl, hpaired⟩
  | ok a =>
    rw [steps_bind_ok (steps_ofExcept _ o), steps_bind_ok (steps_ofExcept _ p)]
    exact h a rfl o p hpaired hm ht

theorem ask {q : Memory → Except StoreFault α} {q' : Tables → Except StoreFault α} {a : α}
    (hq : q m = .ok a) (hq' : q' t = .ok a) (h : Agree n m t (f a) (g a)) :
    Agree n m t (Tx.ask q >>= f) (Tx.ask q' >>= g) := by
  intro o p hpaired hm ht
  have ho : (Tx.ask q).steps o = (.ok a, o) := steps_ask_ok (hm ▸ hq)
  have hp : (Tx.ask q').steps p = (.ok a, p) := steps_ask_ok (ht ▸ hq')
  rw [steps_bind_ok ho, steps_bind_ok hp]
  exact h o p hpaired hm ht

theorem change {w : Memory → Except StoreFault α × Memory}
    {w' : Tables → Except StoreFault α × Tables}
    {a : α} (hw : w m = (.ok a, m')) (hw' : w' t = (.ok a, t')) (hnext : Rendering n m' t')
    (h : Agree n m' t' (f a) (g a)) : Agree n m t (Tx.change w >>= f) (Tx.change w' >>= g) := by
  intro o p hpaired hm ht
  have ho : (Tx.change w).steps o = (.ok a, { o with store := m' }) := steps_change_ok (hm ▸ hw)
  have hp : (Tx.change w').steps p = (.ok a, { p with store := t' }) := steps_change_ok (ht ▸ hw')
  rw [steps_bind_ok ho, steps_bind_ok hp]
  exact h _ _ ⟨hnext, hpaired.request, hpaired.notice⟩ rfl rfl

theorem effects (e : CacheEffects → CacheEffects) {f : Unit → Tx Memory β}
    {g : Unit → Tx Tables β} (h : Agree n m t (f ()) (g ())) :
    Agree n m t ((Tx.update fun o => { o with effects := e o.effects }) >>= f)
      ((Tx.update fun o => { o with effects := e o.effects }) >>= g) :=
  fun o p hpaired hm ht => h { o with effects := e o.effects } { p with effects := e p.effects }
    ⟨hpaired.store, hpaired.request, hpaired.notice⟩ hm ht

/-- The last step of a body is one that is followed by nothing. -/
theorem last (h : Agree n m t (x >>= Pure.pure) (y >>= Pure.pure)) : Agree n m t x y := by
  rwa [bind_pure, bind_pure] at h

theorem map {k : α → β} (h : Agree n m t x y) :
    Agree n m t (do return k (← x)) (do return k (← y)) := by
  intro o p hpaired hm ht
  obtain ⟨hanswer, hnext⟩ := h o p hpaired hm ht
  exact steps_bind_both hanswer hnext fun a o₁ p₁ _ hpaired₁ => ⟨rfl, hpaired₁⟩

theorem askType (hr : Rendering n m t) {name : String} {f : ItemType → Tx Memory β}
    {g : ItemType → Tx Tables β}
    (h : ∀ type, m.types.get? name = some type → Agree n m t (f type) (g type)) :
    Agree n m t (WorkItems.askType name >>= f) (WorkItems.askType name >>= g) := by
  unfold WorkItems.askType
  rw [bind_assoc, bind_assoc]
  refine .ask (a := m.types.get? name) rfl (hr.type?_eq name) ?_
  cases htype : m.types.get? name with
  | none => exact .throw _
  | some type =>
    unfold stage
    simp only [bind_assoc, pure_bind]
    exact .effects (fun e => e.stage type) (h type htype)

theorem fetch (hr : Rendering n m t) {row : Int} {id : ItemId} {f : WorkItem → Tx Memory β}
    {g : WorkItem → Tx Tables β} (h : ∀ i, m.items.get? row = some i → Agree n m t (f i) (g i)) :
    Agree n m t (WorkItems.fetch row id >>= f) (WorkItems.fetch row id >>= g) := by
  unfold WorkItems.fetch
  rw [bind_assoc, bind_assoc]
  refine .ask (a := m.items.get? row) rfl (hr.item?_eq row) ?_
  cases hi : m.items.get? row with
  | none => exact .throw _
  | some i =>
    simp only [pure_bind]
    exact h i hi

end Agree

-- ---------------------------------------------------------------------------
-- Operations
-- ---------------------------------------------------------------------------

namespace WorkItems

theorem agree_create (hr : Rendering n m t) {name : String} {payload : Payload} {creator : Identity}
    (hplain : ∀ type, m.types.get? name = some type →
      type.takesPlain (withCreator type payload creator) = true) :
    Agree n m t (createBy askType name payload creator)
      (createBy askType name payload creator) := by
  refine .proceed (.askType hr fun type htype => .ofExcept fun fields hfields => ?_)
  have hheld : m.types.get? type.name = some type := by rwa [m.named name type htype]
  obtain ⟨t', hw, hnext⟩ := hr.insertItem hheld (.convertFields (hplain type htype) hfields)
  exact .last (.change rfl hw hnext (.pure _))

theorem agree_load (hr : Rendering n m t) (id : ItemId) : Agree n m t (load id) (load id) :=
  .proceed (.ofExcept fun _ _ => .last (.fetch hr fun i _ => .pure i))

theorem agree_save (hr : Rendering n m t) (hbound : n + 1 ≤ Tables.greatestVersion)
    {u : WorkItemUpdate}
    (hplain : ∀ row i type, u.id.row? = some row → m.items.get? row = some i →
      m.types.get? i.typeName = some type → type.takesPlain u.fields = true) :
    Agree (n + 1) m t (saveBy askType u) (saveBy askType u) := by
  have hr' := hr.mono (Nat.le_succ n)
  refine .proceed (.ofExcept fun row hid => .fetch hr' fun i hi => .ofExcept fun _ hcheck =>
    .askType hr' fun type htype => .ofExcept fun fields hfields => .proceed ?_)
  have hrow := rowOf_eq_ok hid
  have hversion := version_of_check hcheck
  obtain ⟨hlow, type', htype', hheld⟩ := hr.held row i hi
  obtain rfl : type' = type := Option.some.inj (htype'.symm.trans htype)
  have hplaced : i.id.row? = some row := by
    rw [m.itemsNumbered row i hi]
    exact rowOf?_rowText (rowOf?_pos hrow) (rowOf?_lt hrow)
  have hnextVersion : nextVersion i.version ≤ n + 1 := by
    have hword : Tables.greatestVersion < 18446744073709551615 := by decide
    rw [nextVersion_of_lt (by omega)]
    omega
  obtain ⟨m', t', hw, hw', hnext⟩ := hr'.updateItem hi hplaced hnextVersion hbound htype
    (hheld.mergeFields (hplain row i _ hrow hi htype) hfields)
  rw [← hversion]
  refine .change (Prod.ext (congrArg Except.ok (Prod.mk.inj hw).1) (Prod.mk.inj hw).2) hw' hnext ?_
  exact .pure _

theorem agree_delete (hr : Rendering n m t) (id : ItemId) :
    Agree n m t (delete id) (delete id) := by
  refine .proceed (.ofExcept fun row _ => ?_)
  obtain ⟨hanswer, hnext⟩ := hr.deleteItem row
  refine .change rfl (Prod.ext (congrArg Except.ok hanswer) rfl) hnext ?_
  cases (m.deleteItem row).1 with
  | true => exact .pure _
  | false => exact .throw _

theorem agree_list (hr : Rendering n m t) {text : String}
    (hexact : ∀ f, Filter.read (Catalog.ofTypes m.types.values) text = .ok f →
      f.isExact = true ∧ Clause.fits f 2 = true)
    (paging : PagingConfig) (offset : Option String) (limit : Option Int64) :
    Agree n m t (list paging text offset limit) (list paging text offset limit) := by
  refine .proceed (.ask (a := m.types.values) rfl hr.types_eq (.ofExcept fun f hf => .proceed ?_))
  have hread : Filter.read (Catalog.ofTypes m.types.values) text = .ok f := by
    unfold readFilter at hf
    split at hf
    · next g hg => rw [hg, Except.ok.inj hf]
    · simp at hf
  obtain ⟨hleaves, hfits⟩ := hexact f hread
  have hready : Clause.isPreparable f 2 = true := by
    rw [Clause.isPreparable, Filter.isGrouped_of_read hread, hfits]
    rfl
  exact .ask rfl (hr.countItems_eq hleaves hready)
    (.ask rfl (hr.fetchItems_eq hleaves hready _ _) (.pure _))

theorem agree_types (hr : Rendering n m t) : Agree n m t types types :=
  .proceed (.ask (a := m.types.values) rfl hr.types_eq (.effects (fun e => e.stageAll _) (.pure _)))

theorem agree_publish (hr : Rendering n m t) {type : ItemType}
    (hbroken : Text.isUnbroken type.name = true) (hnames : type.hasPlainNames = true) :
    Agree n m t (publish type) (publish type) := by
  refine .proceed (.ofExcept fun _ hcheck => ?_)
  have hname := Tables.isName_of_not_blank (ItemType.not_blank_of_checkSchema hcheck) hbroken
  obtain ⟨hanswer, hnext⟩ :=
    hr.insertType hname (ItemType.isDistinct_of_checkSchema hcheck) hnames
  refine .change rfl (Prod.ext (congrArg Except.ok hanswer) rfl) hnext ?_
  cases (m.insertType type).1 with
  | true => exact .effects (fun e => e.stage type) (.pure type)
  | false => exact .throw _

end WorkItems

-- ---------------------------------------------------------------------------
-- Calls
-- ---------------------------------------------------------------------------

namespace Request

/-- Whether a call is about items and types and migrates none, or is about the request itself. -/
def isOfItems : Request → Bool
  | .create .. | .load _ | .save _ | .delete _ | .list .. | .type _ | .types | .publish _ => true
  | .withdraw | .withdrawAfter _ | .clearCache | .refuse _ => true
  | _ => false

/-- Whether what a call brings is plain as the types are that it finds: what its literals convert
to, the names that it publishes, and what its filter is read as, which lies within the limits of an
engine. -/
def isExactOn (m : Memory) : Request → Bool
  | .create name payload creator =>
    match m.types.get? name with
    | some held => held.takesPlain (WorkItems.withCreator held payload creator)
    | none => true
  | .save u =>
    match (u.id.row?.bind m.items.get?).bind fun i => m.types.get? i.typeName with
    | some held => held.takesPlain u.fields
    | none => true
  | .list text _ _ =>
    match Filter.read (Catalog.ofTypes m.types.values) text with
    | .ok f => f.isExact && Clause.fits f 2
    | .error _ => true
  | .publish new => Text.isUnbroken new.name && new.hasPlainNames
  | _ => true

theorem ne_cached {q : Request} (hq : q.isOfItems = true) (name : String) : q ≠ .cached name := by
  rintro rfl
  simp [isOfItems] at hq

theorem ne_migrate {q : Request} (hq : q.isOfItems = true) (ts : List ItemType) :
    q ≠ .migrate ts := by
  rintro rfl
  simp [isOfItems] at hq

/-- **A call does the same on both**, if types are looked up in the store. -/
theorem agree (config : ServiceConfig) (hr : Rendering n m t)
    (hbound : n + 1 ≤ Tables.greatestVersion) {q : Request} (hq : q.isOfItems = true)
    (hexact : q.isExactOn m = true) :
    Agree (n + 1) m t (performBy askType config q) (performBy askType config q) := by
  have hr' := hr.mono (Nat.le_succ n)
  cases q with
  | create name payload creator =>
    refine .map (WorkItems.agree_create hr' fun type htype => ?_)
    simpa only [isExactOn, htype] using hexact
  | load id => exact .map (WorkItems.agree_load hr' id)
  | save u =>
    refine .map (WorkItems.agree_save hr hbound fun row i type hrow hi htype => ?_)
    simpa only [isExactOn, hrow, hi, htype, Option.bind_some] using hexact
  | delete id => exact .map (WorkItems.agree_delete hr' id)
  | list text offset limit =>
    refine .map (WorkItems.agree_list hr' (fun f hf => ?_) config.paging offset limit)
    simpa only [isExactOn, hf, Bool.and_eq_true] using hexact
  | type name => exact .map (.last (.askType hr' fun type _ => .pure type))
  | types => exact .map (WorkItems.agree_types hr')
  | publish type =>
    obtain ⟨hbroken, hnames⟩ := Bool.and_eq_true_iff.mp hexact
    exact .map (WorkItems.agree_publish hr' hbroken hnames)
  | withdraw =>
    exact fun o p h _ _ => ⟨rfl, h.store, congrArg Cancellation.cancel h.request, h.notice⟩
  | withdrawAfter looks =>
    refine fun o p h _ _ => ⟨rfl, h.store, h.request, ?_⟩
    show (p.withdrawnAfter looks).notice = (o.withdrawnAfter looks).notice
    rw [Open.withdrawnAfter, Open.withdrawnAfter, h.notice]
  | clearCache => exact fun o p h _ _ => ⟨rfl, h.store, h.request, h.notice⟩
  | refuse e => exact .throw e
  | _ => simp [isOfItems] at hq

/-- A call does the same on both, and leaves the two transactions in step. -/
theorem paired (config : ServiceConfig) {q : Request} (h : Paired n o p) (ho : Knowing o)
    (hp : Knowing p) (hbound : n + 1 ≤ Tables.greatestVersion) (hq : q.isOfItems = true)
    (hexact : q.isExactOn o.store = true) :
    ((perform config q).steps p).1 = ((perform config q).steps o).1 ∧
      Paired (n + 1) ((perform config q).steps o).2 ((perform config q).steps p).2 := by
  have hsame : Paired (n + 1) o p := ⟨h.store.mono (Nat.le_succ n), h.request, h.notice⟩
  obtain ⟨hanswer, hnext⟩ := agree config h.store hbound hq hexact o p hsame rfl rfl
  -- neither service notices its cache
  obtain ⟨hmemory, hsameMemory⟩ := tracks config (ne_cached hq) o o ⟨rfl, rfl, rfl⟩ ho
  obtain ⟨htables, hsameTables⟩ := tracks config (ne_cached hq) p p ⟨rfl, rfl, rfl⟩ hp
  refine ⟨htables.symm.trans (hanswer.trans hmemory), ?_, ?_, ?_⟩
  · rw [← hsameMemory.store, ← hsameTables.store]
    exact hnext.store
  · rw [← hsameMemory.request, ← hsameTables.request]
    exact hnext.request
  · rw [← hsameMemory.notice, ← hsameTables.notice]
    exact hnext.notice

end Request

-- ---------------------------------------------------------------------------
-- Scripts
-- ---------------------------------------------------------------------------

/-- **Two scripts in step answer alike** and stay in step. -/
theorem Script.paired (config : ServiceConfig) {as : List (Attempt Request)} (h : Paired n o p)
    (ho : Knowing o) (hp : Knowing p) (hbound : n + as.length ≤ Tables.greatestVersion)
    (hcalls : ∀ a ∈ as, a.request.isOfItems = true)
    (hexact : ∀ x ∈ moments (Request.perform config) as o, x.call.isExactOn x.before.store = true) :
    (run (Request.perform config) as p).answers = (run (Request.perform config) as o).answers ∧
      (run (Request.perform config) as p).result = (run (Request.perform config) as o).result ∧
      Paired (n + as.length) (run (Request.perform config) as o).state
        (run (Request.perform config) as p).state := by
  have hmigrate : ∀ {a : Attempt Request}, a ∈ as → ∀ {σ : Type} [Store σ], ∀ ts,
      a.request = .migrate ts → ReplacedWhole σ ts := fun ha _ _ ts hts =>
    absurd hts (Request.ne_migrate (hcalls _ ha) ts)
  induction as, o using Script.induction (Request.perform config : Request → Tx Memory Reply)
    generalizing n p with
  | nil o => exact ⟨rfl, rfl, h⟩
  | ok a rest o b o' hs ih =>
    rw [moments_cons_ok hs, List.forall_mem_cons] at hexact
    have hq := hcalls a List.mem_cons_self
    rw [List.length_cons] at hbound
    obtain ⟨hanswer, hnext⟩ := Request.paired config h ho hp (by omega) hq hexact.1
    rcases hp' : (Request.perform config a.request).steps p with ⟨r, p'⟩
    rw [hs, hp'] at hanswer hnext
    obtain rfl : r = .ok b := hanswer
    have hko := Request.kept config ho.staged hs (.inl rfl)
    have hkp := Request.kept config hp.staged hp' (.inl rfl)
    obtain ⟨hanswers, hresult, hend⟩ := ih hnext (ho.of_kept hko) (hp.of_kept hkp) (by omega)
      (fun a' ha' => hcalls a' (List.mem_cons_of_mem a ha')) hexact.2
      fun ha' => hmigrate (List.mem_cons_of_mem a ha')
    rw [run_cons_ok hs, run_cons_ok hp', List.length_cons, Nat.add_comm rest.length,
      ← Nat.add_assoc]
    exact ⟨congrArg (List.cons (Except.ok b)) hanswers, hresult, hend⟩
  | tried a rest o e o' hs ht ih =>
    rw [moments_cons_tried hs ht, List.forall_mem_cons] at hexact
    have ha : a ∈ a :: rest := List.mem_cons_self
    rw [List.length_cons] at hbound
    obtain ⟨hanswer, hnext⟩ :=
      Request.paired config h ho hp (by omega) (hcalls a ha) hexact.1
    rcases hp' : (Request.perform config a.request).steps p with ⟨r, p'⟩
    rw [hs, hp'] at hanswer hnext
    obtain rfl : r = .error e := hanswer
    have hko := Request.kept config ho.staged hs (.inr (hmigrate ha))
    have hkp := Request.kept config hp.staged hp' (.inr (hmigrate ha))
    obtain ⟨hanswers, hresult, hend⟩ := ih hnext (ho.of_kept hko) (hp.of_kept hkp) (by omega)
      (fun a' ha' => hcalls a' (List.mem_cons_of_mem a ha')) hexact.2
      fun ha' => hmigrate (List.mem_cons_of_mem a ha')
    rw [run_cons_tried hs ht, run_cons_tried hp' ht, List.length_cons, Nat.add_comm rest.length,
      ← Nat.add_assoc]
    exact ⟨congrArg (List.cons (Except.error e)) hanswers, hresult, hend⟩
  | stopped a rest o e o' hs ht =>
    rw [moments_cons_error hs ht, List.forall_mem_singleton] at hexact
    rw [List.length_cons] at hbound
    obtain ⟨hanswer, hnext⟩ :=
      Request.paired config h ho hp (by omega) (hcalls a List.mem_cons_self) hexact
    rcases hp' : (Request.perform config a.request).steps p with ⟨r, p'⟩
    rw [hs, hp'] at hanswer hnext
    obtain rfl : r = .error e := hanswer
    rw [run_cons_error hs ht, run_cons_error hp' ht]
    refine ⟨rfl, rfl, hnext.store.mono ?_, hnext.request, hnext.notice⟩
    rw [List.length_cons]
    omega

-- ---------------------------------------------------------------------------
-- Transactions
-- ---------------------------------------------------------------------------

namespace Transcript

/-- What a client is answered in a transaction, and how the transaction ends. -/
def answered {σ β : Type} (t : Transcript σ β) :
    List (Except AccessError β) × Except AccessError Unit :=
  (t.answers, t.result)

end Transcript

namespace Service

/-- A service on a store in memory, and one on tables that render it, each with a cache that
reflects its store. -/
structure InStep (n : Nat) (s : Service Memory) (p : Service Tables) : Prop where
  store : Rendering n s.store p.store
  config : p.config = s.config
  memory : s.cache.Reflects s.store
  tables : p.cache.Reflects p.store

variable {s : Service Memory} {p : Service Tables} {turn : Turn}

/-- A transaction is answered alike by both, and leaves them in step. -/
theorem InStep.script (h : InStep n s p) (hbound : n + turn.calls.length ≤ Tables.greatestVersion)
    (hcalls : ∀ a ∈ turn.calls, a.request.isOfItems = true)
    (hexact : ∀ x ∈ s.calls turn, x.call.isExactOn x.before.store = true) :
    (p.script turn.request (Request.perform p.config) turn.calls).answered =
        (s.script turn.request (Request.perform s.config) turn.calls).answered ∧
      InStep (n + turn.calls.length)
        (s.script turn.request (Request.perform s.config) turn.calls).service
        (p.script turn.request (Request.perform p.config) turn.calls).service := by
  have hcached : ∀ a ∈ turn.calls, ∀ name, a.request ≠ .cached name := fun a ha =>
    Request.ne_cached (hcalls a ha)
  have hmemory := (told_script (p := s) turn.request rfl rfl h.memory hcached
    fun a ha _ ts hts => absurd hts (Request.ne_migrate (hcalls a ha) ts)).2
  have htables := (told_script (p := p) turn.request rfl rfl h.tables hcached
    fun a ha _ ts hts => absurd hts (Request.ne_migrate (hcalls a ha) ts)).2
  suffices hboth : (p.script turn.request (Request.perform p.config) turn.calls).answered =
      (s.script turn.request (Request.perform s.config) turn.calls).answered ∧
      Rendering (n + turn.calls.length)
        (s.script turn.request (Request.perform s.config) turn.calls).service.store
        (p.script turn.request (Request.perform p.config) turn.calls).service.store from
    ⟨hboth.1, hboth.2, by rw [config_script, config_script, h.config], hmemory, htables⟩
  have hkept : Rendering (n + turn.calls.length) s.store p.store :=
    h.store.mono (Nat.le_add_right n _)
  unfold Service.calls at hexact
  unfold Service.script begin at *
  cases hcheck : turn.request.check with
  | error e => exact ⟨rfl, hkept⟩
  | ok _ =>
    simp only [hcheck, h.config] at hexact ⊢
    generalize ho : (⟨s.store, turn.request, s.cache, .none, none⟩ : Open Memory) = o at hexact ⊢
    generalize hp : (⟨p.store, turn.request, p.cache, .none, none⟩ : Open Tables) = q
    have hpaired : Paired n o q := by
      rw [← ho, ← hp]
      exact ⟨h.store, rfl, rfl⟩
    have hknown : Knowing o ∧ Knowing q := by
      rw [← ho, ← hp]
      exact ⟨⟨.of_staged_eq_empty rfl, fun _ => h.memory⟩, .of_staged_eq_empty rfl,
        fun _ => h.tables⟩
    obtain ⟨hanswers, hresult, hend⟩ :=
      Script.paired s.config hpaired hknown.1 hknown.2 hbound hcalls hexact
    generalize Script.run (Request.perform s.config) turn.calls o = r at *
    generalize Script.run (Request.perform s.config) turn.calls q = r' at *
    have houtcome : outcome r'.result r'.state = outcome r.result r.state := by
      unfold outcome
      rw [hresult, hend.looked.request]
    unfold finish
    rw [houtcome]
    cases outcome r.result r.state with
    | error e => exact ⟨by simp [Transcript.answered, hanswers], hkept⟩
    | ok _ => exact ⟨by simp [Transcript.answered, hanswers], hend.store⟩

-- ---------------------------------------------------------------------------
-- Runs
-- ---------------------------------------------------------------------------

/-- The number of calls that a run may make. -/
def attemptCount : List Turn → Nat
  | [] => 0
  | turn :: rest => turn.calls.length + attemptCount rest

theorem InStep.session {turns : List Turn} (h : InStep n s p)
    (hcalls : ∀ turn ∈ turns, ∀ a ∈ turn.calls, a.request.isOfItems = true)
    (hexact : ∀ x ∈ s.moments turns, x.call.isExactOn x.before.store = true)
    (hbound : n + attemptCount turns ≤ Tables.greatestVersion) :
    (p.session (Request.perform p.config) turns).map Transcript.answered =
      (s.session (Request.perform s.config) turns).map Transcript.answered := by
  induction turns generalizing n s p with
  | nil =>
    rw [Service.session, Service.session]
    rfl
  | cons turn rest ih =>
    have hbound' : n + turn.calls.length + attemptCount rest ≤ Tables.greatestVersion := by
      rw [attemptCount] at hbound
      omega
    rw [Service.session, Service.session, List.map_cons, List.map_cons]
    rw [moments] at hexact
    -- discarding leaves a cache that says nothing
    generalize hs' : (if turn.discards = true then { s with cache := ∅ } else s) = s' at hexact ⊢
    generalize hp' : (if turn.discards = true then { p with cache := ∅ } else p) = p'
    have h' : InStep n s' p' := by
      rw [← hs', ← hp']
      split
      · exact ⟨h.store, h.config, .of_types_eq_empty rfl, .of_types_eq_empty rfl⟩
      · exact h
    have hconfig : s'.config = s.config ∧ p'.config = p.config := by
      rw [← hs', ← hp']
      split
      · exact ⟨rfl, rfl⟩
      · exact ⟨rfl, rfl⟩
    obtain ⟨hhere, hlater⟩ := List.forall_mem_append.mp hexact
    obtain ⟨hanswered, hnext⟩ := h'.script (by omega) (hcalls turn List.mem_cons_self) hhere
    have hrest := ih hnext (fun t ht => hcalls t (List.mem_cons_of_mem turn ht)) hlater hbound'
    rw [config_script, config_script] at hrest
    rw [← hconfig.1, ← hconfig.2]
    exact congr (congrArg List.cons hanswered) hrest

/-- **The two stores can be exchanged**: every run of transactions over items and types, wherever
its transactions are committed, fail or are withdrawn, is answered alike by a new service on a store
in memory and by one on tables, if no type is migrated, what the calls bring is plain, and there are
not more calls than a row can count versions. -/
theorem interchangeable (config : ServiceConfig) (turns : List Turn)
    (hcalls : ∀ turn ∈ turns, ∀ a ∈ turn.calls, a.request.isOfItems = true)
    (hexact : ∀ x ∈ (onStore Memory.new config).moments turns,
      x.call.isExactOn x.before.store = true)
    (hbound : attemptCount turns ≤ Tables.greatestVersion) :
    ((onStore Tables.new config).session (Request.perform config) turns).map Transcript.answered =
      ((onStore Memory.new config).session (Request.perform config) turns).map
        Transcript.answered := by
  have hstart : InStep 0 (onStore Memory.new config) (onStore Tables.new config) :=
    ⟨rendering_new, rfl, .of_types_eq_empty rfl, .of_types_eq_empty rfl⟩
  exact hstart.session hcalls hexact (by omega)

/-- A planner publishes a type of tasks and makes two of them; it changes one of them after a save
that was based on a version that is gone; it makes a third one and takes everything back; its
request is withdrawn before a deletion; and another process, which remembers nothing, lists tasks by
an instant that is told in another zone and by a number that is told as a text. -/
def planning : List Turn :=
  let task : ItemType :=
    ⟨"task",
      [⟨"due", .timestamp, false⟩, ⟨"owner", .identifier, false⟩, ⟨"points", .integer, true⟩]⟩
  let fields (due : Json) (points : Int) : Payload :=
    .ofList [("due", due), ("owner", .int 12), ("points", .int points)]
  [⟨false, .new,
    [⟨.publish task, false⟩,
     ⟨.create "task" (fields (.string "2024-01-01T00:00:00Z") 3) ⟨"ann"⟩, false⟩,
     ⟨.create "task" (fields (.int 1704067200000000) 5) ⟨"ann"⟩, false⟩]⟩,
   ⟨false, .new,
    [⟨.save ⟨⟨"2"⟩, 7, .ofList [("points", .int 4)]⟩, true⟩,
     ⟨.save ⟨⟨"+2"⟩, 0, .ofList [("points", .string " 3 "), ("owner", .null)]⟩, false⟩]⟩,
   ⟨false, .new,
    [⟨.create "task" (fields .null 3) ⟨"ann"⟩, false⟩, ⟨.refuse .cancelled, false⟩]⟩,
   ⟨false, .new, [⟨.withdraw, false⟩, ⟨.delete ⟨"1"⟩, false⟩]⟩,
   ⟨true, .new,
    [⟨.list "\x7b\"due\":\"2024-01-01T01:00:00+01:00\",\"points\":\"3\"\x7d" none (some 1), false⟩,
     ⟨.create "task" (fields .null 3) ⟨"ann"⟩, false⟩]⟩]

/-- How many items the filters of a transaction were said to hold for, and the ids of the items that
its calls were answered with. -/
def seen (told : List (Except AccessError Reply) × Except AccessError Unit) :
    List UInt64 × List ItemId × Bool :=
  (told.1.filterMap fun answer => match answer with
    | .ok (.page page) => some page.total
    | _ => none,
   told.1.filterMap fun answer => match answer with
    | .ok (.item i) => some i.id
    | _ => none,
   told.2.isOk)

/-- Both stores find both tasks, and give the row that was taken back to the next one. -/
theorem interchangeable_planning :
    (∀ turn ∈ planning, ∀ a ∈ turn.calls, a.request.isOfItems = true) ∧
      (∀ x ∈ (onStore Memory.new .default).moments planning,
        x.call.isExactOn x.before.store = true) ∧
      attemptCount planning ≤ Tables.greatestVersion ∧
      (((onStore Tables.new .default).session (Request.perform .default) planning).map
          fun t => seen t.answered) =
        [([], [⟨"1"⟩, ⟨"2"⟩], true), ([], [⟨"2"⟩], true), ([], [⟨"3"⟩], false), ([], [], false),
          ([2], [⟨"3"⟩], true)] ∧
      ((onStore Tables.new .default).session (Request.perform .default) planning).map
          Transcript.answered =
        ((onStore Memory.new .default).session (Request.perform .default) planning).map
          Transcript.answered := by
  have hcalls : ∀ turn ∈ planning, ∀ a ∈ turn.calls, a.request.isOfItems = true := by
    decide +kernel
  have hexact : ∀ x ∈ (onStore Memory.new .default).moments planning,
      x.call.isExactOn x.before.store = true := by
    decide +kernel
  have hbound : attemptCount planning ≤ Tables.greatestVersion := by decide +kernel
  exact ⟨hcalls, hexact, hbound, by decide +kernel,
    interchangeable .default planning hcalls hexact hbound⟩

end Service

end Backlog
