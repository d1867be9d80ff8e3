import Backlog.Proofs.Atomic
import Backlog.Proofs.History
import Backlog.Proofs.TypedRows

/-!
# Tables that transactions built

Clients come to new tables one transaction after another. Each client remembers the types of its own
earlier transactions and nothing else, and none of them migrates types. Whatever they do, what they
remember stays true, because a type that is held stays as it is; and so every transaction begins
coherent, and all tables are typed: those that a transaction leaves, and those that it works on
between two of its calls.

## Main results

* `Tables.Reached.sound` — tables that were reached are typed, and what clients remember is true;
* `Tables.Built.typed` — tables are typed also while a transaction is under way.
-/

namespace Backlog

open Tx

-- ---------------------------------------------------------------------------
-- Types stay
-- ---------------------------------------------------------------------------

/-- Types that are held are held still. -/
def Tables.KeepsTypes (t t' : Tables) : Prop :=
  ∀ name type, t.type? name = .ok (some type) → t'.type? name = .ok (some type)

namespace Tables.KeepsTypes

variable {t t' t'' : Tables}

theorem refl (t : Tables) : t.KeepsTypes t := fun _ _ h => h

theorem trans (h : t.KeepsTypes t') (h' : t'.KeepsTypes t'') : t.KeepsTypes t'' :=
  fun name type ht => h' name type (h name type ht)

theorem of_eq (h : ∀ name, t'.type? name = t.type? name) : t.KeepsTypes t' :=
  fun name _ ht => (h name).trans ht

theorem agrees (h : t.KeepsTypes t') {c : TypeCache} (hc : c.Agrees t) : c.Agrees t' :=
  fun name type hcached => h name type (hc name type hcached)

/-- A call that migrates no types keeps the types that are held. -/
theorem of_writes {q : Request} {r : Except AccessError Reply} (hq : q.IsPlain)
    (hw : Request.Writes t q r t') : t.KeepsTypes t' := by
  cases hw with
  | failed | read => exact refl t
  | create hw => exact of_eq fun _ => LawfulStore.type?_insertItem hw
  | save _ _ _ hw => exact of_eq fun _ => LawfulStore.type?_updateItem hw
  | delete _ hw => exact of_eq fun _ => LawfulStore.type?_deleteItem hw
  | @publish type s' hw =>
    obtain ⟨hyes, rfl⟩ := Prod.mk.inj hw
    exact (type?_insertType (Prod.ext (Except.ok.inj hyes) rfl)).2
  | migrate | halfMigrated => exact absurd rfl (hq _)
  | createIteration _ _ hw => exact of_eq fun _ => LawfulStore.type?_insertIteration hw
  | saveIteration _ _ _ hw => exact of_eq fun _ => LawfulStore.type?_updateIteration hw

end Tables.KeepsTypes

-- ---------------------------------------------------------------------------
-- One transaction
-- ---------------------------------------------------------------------------

/-- An open transaction that goes well: it is coherent, its tables are typed, and they hold the
types that were held when it began. -/
structure Healthy (t : Tables) (c : TypeCache) (o : Open Tables) : Prop where
  coherent : Coherent o
  typed : o.store.Typed
  types : t.KeepsTypes o.store
  /-- The shared cache remembers no more than it did. -/
  cache : ∀ name type, o.cache.get? name = some type → c.get? name = some type

namespace Healthy

variable {t : Tables} {c : TypeCache} {o : Open Tables}

/-- A call that migrates no types keeps a transaction healthy. -/
theorem step (h : Healthy t c o) (config : ServiceConfig) {q : Request} (hq : q.IsPlain) :
    Healthy t c ((Request.perform config q : Tx Tables Reply).steps o).2 where
  coherent := Request.coherent config hq o h.coherent
  typed := Request.typed config hq h.coherent h.typed
  types := h.types.trans (.of_writes hq (Request.writes config q (Prod.eta _).symm))
  cache := by
    by_cases hclear : q = .clearCache
    · subst hclear
      intro name type hcached
      change (none : Option ItemType) = some type at hcached
      exact nomatch hcached
    · rw [Request.cache_perform config hclear o]
      exact h.cache

/-- Healthy transactions stay so through a script, at every call and at the end. -/
theorem script (config : ServiceConfig) {as : List (Attempt Request)} {o : Open Tables}
    (h : Healthy t c o) (hplain : ∀ a ∈ as, a.request.IsPlain) :
    (∀ m ∈ Script.moments (Request.perform config) as o, Healthy t c m.after) ∧
      Healthy t c (Script.run (Request.perform config) as o).state := by
  induction as, o using Script.induction (Request.perform config : Request → Tx Tables Reply) with
  | nil o => exact ⟨by simp [Script.moments], h⟩
  | ok a rest o b o' hs ih =>
    have hnext := h.step config (hplain a List.mem_cons_self)
    rw [hs] at hnext
    obtain ⟨hmoments, hend⟩ := ih hnext fun b hb => hplain b (List.mem_cons_of_mem a hb)
    rw [Script.moments_cons_ok hs, Script.run_cons_ok hs, List.forall_mem_cons]
    exact ⟨⟨hnext, hmoments⟩, hend⟩
  | tried a rest o e o' hs ht ih =>
    have hnext := h.step config (hplain a List.mem_cons_self)
    rw [hs] at hnext
    obtain ⟨hmoments, hend⟩ := ih hnext fun b hb => hplain b (List.mem_cons_of_mem a hb)
    rw [Script.moments_cons_tried hs ht, Script.run_cons_tried hs ht, List.forall_mem_cons]
    exact ⟨⟨hnext, hmoments⟩, hend⟩
  | stopped a rest o e o' hs ht =>
    have hnext := h.step config (hplain a List.mem_cons_self)
    rw [hs] at hnext
    rw [Script.moments_cons_error hs ht, Script.run_cons_error hs ht]
    exact ⟨List.forall_mem_singleton.mpr hnext, hnext⟩

/-- What a healthy transaction leaves in the shared cache is true. -/
theorem settle (h : Healthy t c o) (generation : Nat) :
    (o.effects.settle generation o.cache).Agrees o.store := by
  intro name type hcached
  rw [CacheEffects.settle, h.coherent.migrated] at hcached
  by_cases hgeneration : o.cache.generation = generation
  · rw [if_neg (by simp), ← hgeneration, TypeCache.get?_fill] at hcached
    cases hfound : o.effects.staged.values.reverse.find? fun t => t.name = name with
    | none =>
      rw [hfound, Option.none_or] at hcached
      exact h.coherent.cache name type hcached
    | some type' =>
      rw [hfound, Option.some_or] at hcached
      obtain rfl := Option.some.inj hcached
      have hname : type'.name = name := by simpa using List.find?_some hfound
      obtain ⟨⟨key, _⟩, he, rfl⟩ :=
        List.mem_map.mp (List.mem_reverse.mp (List.mem_of_find?_eq_some hfound))
      have hheld := h.coherent.staged key _ (SortedMap.mem_entries_iff.mp he)
      rw [← hname, Tables.name_of_type? hheld]
      exact hheld
  · rw [if_neg (by simp), TypeCache.fill_stale hgeneration] at hcached
    exact h.coherent.cache name type hcached

end Healthy

namespace Visit

variable {v : Visit} {t : Tables}

/-- A transaction that begins with what is true begins healthy. -/
theorem healthy_begin (htyped : t.Typed) (hcache : v.cache.Agrees t) {o : Open Tables}
    (hb : (v.service t).begin v.request = .ok o) : Healthy t v.cache o := by
  obtain rfl := begin_ok hb
  exact ⟨⟨hcache, fun _ _ h => (nomatch h), rfl⟩, htyped, .refl t, fun _ _ h => h⟩

/-- A transaction without migrations works on typed tables. -/
theorem typed_moments (htyped : t.Typed) (hcache : v.cache.Agrees t) (hplain : v.IsPlain)
    {m : Moment Tables Request Reply} (hm : m ∈ v.moments t) : m.after.store.Typed := by
  unfold moments at hm
  split at hm
  · simp at hm
  · next o hb =>
    exact (((healthy_begin htyped hcache hb).script v.config hplain).1 m hm).typed

/-- A transaction without migrations leaves typed tables with the types that were held, and a cache
that remembers what is true. -/
theorem sound_after (htyped : t.Typed) (hcache : v.cache.Agrees t) (hplain : v.IsPlain) :
    (v.after t).Typed ∧ t.KeepsTypes (v.after t) ∧
      (v.transcript t).service.cache.Agrees (v.after t) := by
  unfold after transcript Service.script
  cases hb : (v.service t).begin v.request with
  | error e => exact ⟨htyped, .refl t, hcache⟩
  | ok o =>
    have hend := ((healthy_begin htyped hcache hb).script v.config hplain).2
    simp only
    generalize Script.run (Request.perform v.config) v.calls o = r at hend ⊢
    unfold Service.finish
    split
    · -- the tables stay, and the cache remembers no more than before
      exact ⟨htyped, .refl t, fun name type hcached =>
        hcache name type (hend.cache name type hcached)⟩
    · exact ⟨hend.typed, hend.types, hend.settle _⟩

end Visit

-- ---------------------------------------------------------------------------
-- All transactions
-- ---------------------------------------------------------------------------

namespace Tables

/-- Tables that transactions without migrations made of new ones, and what each of the clients
remembers. -/
inductive Reached : Tables → (Nat → TypeCache) → Prop
  | new : Reached .new fun _ => ∅
  | visit {t : Tables} {caches : Nat → TypeCache} (h : Reached t caches) (client : Nat) (v : Visit)
      (hcache : v.cache = caches client) (hplain : v.IsPlain) :
      Reached (v.after t) fun c =>
        if c = client then (v.transcript t).service.cache else caches c

/-- Tables that were reached are typed, and what clients remember is true. -/
theorem Reached.sound {t : Tables} {caches : Nat → TypeCache} (h : t.Reached caches) :
    t.Typed ∧ ∀ client, (caches client).Agrees t := by
  induction h with
  | new => exact ⟨typed_new, fun _ _ _ h => nomatch h⟩
  | @visit t caches _ client v hcache hplain ih =>
    obtain ⟨htyped, hagrees⟩ := ih
    obtain ⟨htyped', hkeeps, hleft⟩ :=
      Visit.sound_after htyped (hcache ▸ hagrees client) hplain
    refine ⟨htyped', fun c => ?_⟩
    by_cases hc : c = client
    · simp only [hc, if_true]
      exact hleft
    · simp only [hc, if_false]
      exact hkeeps.agrees (hagrees c)

/-- Tables that calls without migrations built: those that transactions leave, and those that a
transaction works on after one of its calls. -/
inductive Built : Tables → Prop
  | left {t : Tables} {caches : Nat → TypeCache} (h : t.Reached caches) : t.Built
  | underWay {t : Tables} {caches : Nat → TypeCache} (h : t.Reached caches) {client : Nat}
      {v : Visit} (hcache : v.cache = caches client) (hplain : v.IsPlain)
      {m : Moment Tables Request Reply} (hm : m ∈ v.moments t) : m.after.store.Built

/-- **Tables are typed, also while a transaction is under way.** -/
theorem Built.typed {t : Tables} (h : t.Built) : t.Typed := by
  cases h with
  | left h => exact h.sound.1
  | underWay h hcache hplain hm =>
    obtain ⟨htyped, hagrees⟩ := h.sound
    exact Visit.typed_moments htyped (hcache ▸ hagrees _) hplain hm

end Tables

end Backlog
