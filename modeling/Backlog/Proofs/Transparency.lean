import Backlog.Proofs.History
import Backlog.Proofs.Uncached

/-!
# A cache that nobody notices

Transactions come one after another, and between any two of them what the cache remembers may be
discarded, as it is when another process goes on with the store. Next to this run stands one that
has no use for the cache: it asks the store for a type whenever it needs one. Call for call the two
give the same answers, end their transactions in the same way and leave the same stores.

The two open transactions work on the same store, and the first one never knows of a type what its
store does not hold; between transactions the cache reflects the committed store. Both are kept by
every call and by the end of every transaction, as long as no script goes on after half a migration.

## Main results

* `Script.tracks` — the calls of one transaction are answered alike;
* `Service.transparent` — so are all calls of a run, wherever the cache is discarded;
* `Service.not_transparent_halfUpgrade` — but not after half a migration.
-/

namespace Backlog

open Tx WorkItems

variable {σ : Type} [Store σ]

-- ---------------------------------------------------------------------------
-- Scripts
-- ---------------------------------------------------------------------------

/-- What a script leaves in the cache is a part of what was there. -/
theorem Script.get?_cache_run [LawfulStore σ] {config : ServiceConfig}
    {as : List (Attempt Request)} {o : Open σ} {name : String} {t : ItemType}
    (h : (run (Request.perform config) as o).state.cache.get? name = some t) :
    o.cache.get? name = some t := by
  have hstep : ∀ (q : Request) (o : Open σ),
      ((q.perform config).steps o).2.cache.get? name = some t → o.cache.get? name = some t := by
    intro q o hq
    rcases Request.cache_cases config q o with hc | hc
    · rwa [hc] at hq
    · rw [hc] at hq
      exact absurd hq (by simp [TypeCache.get?, TypeCache.clear])
  induction as, o using Script.induction (Request.perform config : Request → Tx σ Reply) with
  | nil o => exact h
  | ok a rest o b o' hs ih =>
    rw [run_cons_ok hs] at h
    exact hstep a.request o (by rw [hs]; exact ih h)
  | tried a rest o e o' hs ht ih =>
    rw [run_cons_tried hs ht] at h
    exact hstep a.request o (by rw [hs]; exact ih h)
  | stopped a rest o e o' hs ht =>
    rw [run_cons_error hs ht] at h
    exact hstep a.request o (by rw [hs]; exact h)

/-- **The calls of one transaction are answered as if every type were asked of the store**, and as
long as the transaction goes on it knows of types what its store holds. -/
theorem Script.tracks [LawfulTypes σ] (config : ServiceConfig) {as : List (Attempt Request)}
    {o p : Open σ} (hsame : SameStore o p) (hknowing : Knowing o)
    (hcached : ∀ a ∈ as, ∀ name, a.request ≠ .cached name)
    (hwhole : ∀ a ∈ as, a.tried = true → ∀ ts, a.request = .migrate ts → ReplacedWhole σ ts) :
    (run (Request.performBy askType config) as p).answers =
        (run (Request.perform config) as o).answers ∧
      (run (Request.performBy askType config) as p).result =
        (run (Request.perform config) as o).result ∧
      SameStore (run (Request.perform config) as o).state
        (run (Request.performBy askType config) as p).state ∧
      ((run (Request.perform config) as o).result = .ok () →
        Knowing (run (Request.perform config) as o).state) := by
  induction as, o using Script.induction (Request.perform config : Request → Tx σ Reply)
    generalizing p with
  | nil o => exact ⟨rfl, rfl, hsame, fun _ => hknowing⟩
  | ok a rest o b o' hs ih =>
    obtain ⟨hanswer, hnext⟩ :=
      Request.tracks config (hcached a List.mem_cons_self) o p hsame hknowing
    have hkept := Request.kept config hknowing.staged hs (.inl rfl)
    rcases hp : (Request.performBy askType config a.request).steps p with ⟨r, p'⟩
    rw [hs, hp] at hanswer hnext
    obtain rfl : r = .ok b := hanswer
    obtain ⟨hanswers, hresult, hend, hlast⟩ := ih hnext (hknowing.of_kept hkept)
      (fun a' ha' => hcached a' (List.mem_cons_of_mem a ha'))
      fun a' ha' => hwhole a' (List.mem_cons_of_mem a ha')
    rw [run_cons_ok hs, run_cons_ok hp]
    exact ⟨congrArg (List.cons (Except.ok b)) hanswers, hresult, hend, hlast⟩
  | tried a rest o e o' hs ht ih =>
    obtain ⟨hanswer, hnext⟩ :=
      Request.tracks config (hcached a List.mem_cons_self) o p hsame hknowing
    have hkept :=
      Request.kept config hknowing.staged hs (.inr (hwhole a List.mem_cons_self ht))
    rcases hp : (Request.performBy askType config a.request).steps p with ⟨r, p'⟩
    rw [hs, hp] at hanswer hnext
    obtain rfl : r = .error e := hanswer
    obtain ⟨hanswers, hresult, hend, hlast⟩ := ih hnext (hknowing.of_kept hkept)
      (fun a' ha' => hcached a' (List.mem_cons_of_mem a ha'))
      fun a' ha' => hwhole a' (List.mem_cons_of_mem a ha')
    rw [run_cons_tried hs ht, run_cons_tried hp ht]
    exact ⟨congrArg (List.cons (Except.error e)) hanswers, hresult, hend, hlast⟩
  | stopped a rest o e o' hs ht =>
    obtain ⟨hanswer, hnext⟩ :=
      Request.tracks config (hcached a List.mem_cons_self) o p hsame hknowing
    rcases hp : (Request.performBy askType config a.request).steps p with ⟨r, p'⟩
    rw [hs, hp] at hanswer hnext
    obtain rfl : r = .error e := hanswer
    rw [run_cons_error hs ht, run_cons_error hp ht]
    exact ⟨rfl, rfl, hnext, fun h => absurd h (by simp)⟩

-- ---------------------------------------------------------------------------
-- Transactions
-- ---------------------------------------------------------------------------

namespace Transcript

/-- What a client is told of a transaction, and the store that the next one finds. -/
def told {β : Type} (t : Transcript σ β) :
    List (Except AccessError β) × Except AccessError Unit × σ :=
  (t.answers, t.result, t.service.store)

end Transcript

namespace Service

variable [LawfulTypes σ] {s p : Service σ} {calls : List (Attempt Request)}

/-- A transaction is told as if every type were asked of the store, and leaves a cache that reflects
the store. -/
theorem told_script (request : Cancellation) (hstore : p.store = s.store)
    (hconfig : p.config = s.config)
    (hcache : s.cache.Reflects s.store)
    (hcached : ∀ a ∈ calls, ∀ name, a.request ≠ .cached name)
    (hwhole : ∀ a ∈ calls, a.tried = true → ∀ ts, a.request = .migrate ts → ReplacedWhole σ ts) :
    (p.script request (Request.performBy askType p.config) calls).told =
        (s.script request (Request.perform s.config) calls).told ∧
      (s.script request (Request.perform s.config) calls).service.cache.Reflects
        (s.script request (Request.perform s.config) calls).service.store := by
  unfold script begin
  cases request.check with
  | error e => exact ⟨by simp [Transcript.told, hstore], hcache⟩
  | ok _ =>
    simp only [hstore, hconfig]
    generalize ho : (⟨s.store, request, s.cache, .none, none⟩ : Open σ) = o
    generalize hp : (⟨s.store, request, p.cache, .none, none⟩ : Open σ) = q
    have hsame : SameStore o q := by
      rw [← ho, ← hp]
      exact ⟨rfl, rfl, rfl⟩
    have hknowing : Knowing o := by
      rw [← ho]
      exact ⟨.of_staged_eq_empty rfl, fun _ => hcache⟩
    obtain ⟨hanswers, hresult, hend, hlast⟩ :=
      Script.tracks s.config hsame hknowing hcached hwhole
    have hleft : (Script.run (Request.perform s.config) calls o).state.cache.Reflects s.store := by
      intro name t ht
      have hbefore := Script.get?_cache_run ht
      rw [← ho] at hbefore
      exact hcache name t hbefore
    generalize Script.run (Request.perform s.config) calls o = r at *
    generalize Script.run (Request.performBy askType s.config) calls q = r' at *
    have houtcome : outcome r'.result r'.state = outcome r.result r.state := by
      unfold outcome
      rw [hresult, hend.looked.request]
    unfold finish
    rw [houtcome]
    cases hout : outcome r.result r.state with
    | error e => exact ⟨by simp [Transcript.told, hanswers, hstore], hleft⟩
    | ok u =>
      have hok : r.result = .ok () := by
        unfold outcome at hout
        split at hout
        · simp at hout
        · next h => exact h
      have hknown := hlast hok
      exact ⟨by simp [Transcript.told, hanswers, hend.store],
        hknown.staged.settle hknown.cache s.cache.generation⟩

end Service

-- ---------------------------------------------------------------------------
-- Runs
-- ---------------------------------------------------------------------------

/-- A transaction of a run, and whether what the cache remembers is discarded before it. -/
structure Turn where
  discards : Bool
  request : Cancellation
  calls : List (Attempt Request)

namespace Turn

/-- The transaction, for a process that goes on as it is. -/
def kept (t : Turn) : Turn := { t with discards := false }

/-- Whether no call asks for the cache itself, and none is an attempt at half a migration. -/
def isPlain (b : Backend) (t : Turn) : Bool :=
  t.calls.all fun a => (match a.request with | .cached _ => false | _ => true) && a.isWhole b

theorem ne_cached {b : Backend} {t : Turn} (h : t.isPlain b = true) :
    ∀ a ∈ t.calls, ∀ name, a.request ≠ .cached name := by
  intro a ha name hname
  have hall := List.all_eq_true.mp h a ha
  simp [hname] at hall

theorem replacedWhole {b : Backend} {t : Turn} (h : t.isPlain b = true) :
    ∀ a ∈ t.calls, a.tried = true → ∀ ts, a.request = .migrate ts →
      ReplacedWhole b.State ts := by
  intro a ha ht ts hts
  exact Attempt.replacedWhole (Bool.and_eq_true_iff.mp (List.all_eq_true.mp h a ha)).2 ht hts

end Turn

namespace Service

/-- The transcripts of transactions that come one after another. -/
def session (perform : Request → Tx σ Reply) : Service σ → List Turn → List (Transcript σ Reply)
  | _, [] => []
  | s, t :: rest =>
    let s := if t.discards then { s with cache := ∅ } else s
    let r := s.script t.request perform t.calls
    r :: session perform r.service rest

/-- The calls of a transaction. -/
def calls (s : Service σ) (t : Turn) : List (Moment σ Request Reply) :=
  match s.begin t.request with
  | .error _ => []
  | .ok o => Script.moments (Request.perform s.config) t.calls o

/-- The calls of transactions that come one after another. -/
def moments : Service σ → List Turn → List (Moment σ Request Reply)
  | _, [] => []
  | s, t :: rest =>
    let s := if t.discards then { s with cache := ∅ } else s
    s.calls t ++ moments (s.script t.request (Request.perform s.config) t.calls).service rest

omit [Store σ] in
/-- A transaction does not touch the settings. -/
theorem config_script (s : Service σ) (request : Cancellation) (perform : Request → Tx σ Reply)
    (calls : List (Attempt Request)) :
    (s.script request perform calls).service.config = s.config := by
  unfold script finish
  cases s.begin request with
  | error e => rfl
  | ok o =>
    simp only
    split <;> rfl

/-- A run is told as one in which every type is asked of the store, wherever the cache is discarded
in either of them. -/
theorem told_session {b : Backend} (config : ServiceConfig) {s p : Service b.State}
    {turns turns' : List Turn} (hs : s.config = config) (hp : p.config = config)
    (hstore : p.store = s.store) (hcache : s.cache.Reflects s.store)
    (hplain : ∀ t ∈ turns, t.isPlain b = true)
    (hturns : turns'.map Turn.kept = turns.map Turn.kept) :
    (p.session (Request.performBy askType config) turns').map Transcript.told =
      (s.session (Request.perform config) turns).map Transcript.told := by
  induction turns generalizing s p turns' with
  | nil => rw [List.map_eq_nil_iff.mp hturns, session, session]
  | cons t rest ih =>
    obtain ⟨t', rest', rfl, hkept, hrest⟩ := List.map_eq_cons_iff.mp hturns
    obtain ⟨-, hrequest, hcalls⟩ := Turn.mk.inj hkept
    have hplain' := hplain t List.mem_cons_self
    rw [session, session, List.map_cons, List.map_cons, hrequest, hcalls]
    -- discarding leaves a cache that says nothing
    generalize hs' : (if t.discards = true then { s with cache := ∅ } else s) = s'
    generalize hp' : (if t'.discards = true then { p with cache := ∅ } else p) = p'
    have hs₁ : s'.store = s.store ∧ s'.config = config ∧ s'.cache.Reflects s'.store := by
      rw [← hs']
      split
      · exact ⟨rfl, hs, .of_types_eq_empty rfl⟩
      · exact ⟨rfl, hs, hcache⟩
    have hp₁ : p'.store = p.store ∧ p'.config = config := by
      rw [← hp']
      split
      · exact ⟨rfl, hp⟩
      · exact ⟨rfl, hp⟩
    obtain ⟨htold, hreflects⟩ := told_script (s := s') (p := p') t.request
      (hp₁.1.trans (hstore.trans hs₁.1.symm)) (hp₁.2.trans hs₁.2.1.symm) hs₁.2.2
      (Turn.ne_cached hplain') (Turn.replacedWhole hplain')
    rw [hp₁.2, hs₁.2.1] at htold
    rw [hs₁.2.1] at hreflects
    refine congr (congrArg List.cons htold) (ih ?_ ?_ ?_ hreflects
      (fun t' ht' => hplain t' (List.mem_cons_of_mem t ht')) hrest)
    · rw [config_script, hs₁.2.1]
    · rw [config_script, hp₁.2]
    · exact congrArg (fun told => told.2.2) htold

/-- **Nobody notices the cache**, on a store of either kind: the answers of all calls, the outcomes
of all transactions and the stores they leave are those of a service that asks the store for every
type, and they stay the same wherever else the cache is discarded. -/
theorem transparent (b : Backend) (s : b.State) (config : ServiceConfig) (turns : List Turn)
    (hplain : ∀ t ∈ turns, t.isPlain b = true) :
    ((onStore s config).session (Request.perform config) turns).map Transcript.told =
        ((onStore s config).session (Request.performBy askType config) turns).map
          Transcript.told ∧
      ∀ turns' : List Turn, turns'.map Turn.kept = turns.map Turn.kept →
        ((onStore s config).session (Request.perform config) turns').map Transcript.told =
          ((onStore s config).session (Request.perform config) turns).map Transcript.told := by
  have hcache : (onStore s config).cache.Reflects (onStore s config).store :=
    .of_types_eq_empty rfl
  refine ⟨(told_session config rfl rfl rfl hcache hplain rfl).symm, fun turns' hturns => ?_⟩
  have hplain' : ∀ t ∈ turns', t.isPlain b = true := by
    intro t ht
    obtain ⟨t', ht', hkept⟩ := List.mem_map.mp (hturns ▸ List.mem_map_of_mem ht)
    have hcalls : t'.calls = t.calls := (Turn.mk.inj hkept).2.2
    have hall := hplain t' ht'
    unfold Turn.isPlain at hall ⊢
    rwa [← hcalls]
  have hother := told_session config rfl rfl rfl hcache hplain' rfl
  exact hother.symm.trans (told_session config rfl rfl rfl hcache hplain hturns)

/-- The type of features with nothing but a summary. -/
def shortFeature : ItemType := ⟨SystemType.feature, [⟨"summary", .string, true⟩]⟩

/-- A type that is not a system type. -/
def memo : ItemType := ⟨"memo", [⟨"text", .string, true⟩]⟩

/-- The type of features is read, replaced and read again, once by another process; a type is
published and read in a transaction that is rolled back, and published and read again. -/
def upgrade : List Turn :=
  [⟨false, .new, [⟨.type SystemType.feature, false⟩]⟩,
   ⟨false, .new, [⟨.type SystemType.feature, false⟩, ⟨.migrate [shortFeature], true⟩,
      ⟨.type SystemType.feature, false⟩]⟩,
   ⟨true, .new, [⟨.type SystemType.feature, false⟩, ⟨.publish memo, false⟩,
      ⟨.type memo.name, false⟩, ⟨.refuse .cancelled, false⟩]⟩,
   ⟨false, .new, [⟨.type memo.name, true⟩, ⟨.publish memo, false⟩, ⟨.type memo.name, false⟩]⟩]

/-- How many fields the types of a run have that calls were answered with. -/
def widths (told : List (List (Except AccessError Reply) × Except AccessError Unit × σ)) :
    List (List Nat) :=
  told.map fun t => t.1.filterMap fun answer =>
    match answer with
    | .ok (.type t) => some t.fields.length
    | _ => none

/-- The new type is told as soon as it is there, and the one that was rolled back is not. -/
theorem transparent_upgrade :
    (∀ t ∈ upgrade, t.isPlain .tables = true) ∧
      widths (((onStore Backend.tables.new .default).session (Request.perform .default)
        upgrade).map Transcript.told) = [[7], [7, 1], [1, 1, 1], [1, 1]] ∧
      ((onStore Backend.tables.new .default).session (Request.perform .default)
          upgrade).map Transcript.told =
        ((onStore Backend.tables.new .default).session (Request.performBy askType .default)
          upgrade).map Transcript.told := by
  have hplain : ∀ t ∈ upgrade, t.isPlain .tables = true := by decide +kernel
  exact ⟨hplain, by decide +kernel,
    (transparent .tables Backend.tables.new .default upgrade hplain).1⟩

/-- A type is read, replaced by half of a migration that fails and is gone on after, and read
again, perhaps by another process. -/
def halfUpgrade (discards : Bool) : List Turn :=
  [⟨false, .new, [⟨.type SystemType.feature, false⟩]⟩,
   ⟨false, .new, [⟨.migrate [shortFeature, { shortFeature with name := "\x00" }], true⟩]⟩,
   ⟨discards, .new, [⟨.type SystemType.feature, false⟩]⟩]

/-- After half a migration the cache is noticed, and so is it that the cache was discarded. -/
theorem not_transparent_halfUpgrade :
    ((onStore Backend.tables.new .default).session (Request.perform .default)
          (halfUpgrade false)).map Transcript.told ≠
        ((onStore Backend.tables.new .default).session (Request.performBy askType .default)
          (halfUpgrade false)).map Transcript.told ∧
      ((onStore Backend.tables.new .default).session (Request.perform .default)
          (halfUpgrade true)).map Transcript.told ≠
        ((onStore Backend.tables.new .default).session (Request.perform .default)
          (halfUpgrade false)).map Transcript.told := by
  constructor
  · exact fun h => absurd (congrArg widths h) (by decide +kernel)
  · exact fun h => absurd (congrArg widths h) (by decide +kernel)

end Service

end Backlog
