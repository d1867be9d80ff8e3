import Backlog.Proofs.Coherence
import Backlog.Proofs.Provider

/-!
# Types that a store holds

What a cache remembers of types is worth something only as far as the store agrees. Here is what a
store promises about its types: a type that is taken in is held from then on, no type is taken in
under a name that is taken, and the types that are listed are the types that are held. A cache, or
the effects that a transaction will have on one, `Reflects` a store when whatever it says of a type
the store says too; a store that `Grows` into another keeps every type that it holds, and with that
everything that reflects it.

Replacing types is the one operation that can stop half way. It does so at a name that no row may
have, so a list of types whose names the store takes is replaced as a whole, and nothing is replaced
if the first name is none of these.

## Main results

* `LawfulTypes Memory`, `LawfulTypes Tables` and `LawfulTypes b.State` for either backend `b`;
* `CacheEffects.Reflects.settle` — a cache that is filled with what the store holds reflects it;
* `Backend.replaceTypes_ok` — types whose names a store takes are replaced as a whole.
-/

namespace Backlog

-- ---------------------------------------------------------------------------
-- What a store promises
-- ---------------------------------------------------------------------------

/-- What a store promises about the types that it holds. -/
class LawfulTypes (σ : Type) [Store σ] : Prop extends LawfulStore σ where
  type?_inserted : ∀ {s s' : σ} {t}, Store.insertType s t = (.ok true, s') →
    Store.type? s' t.name = .ok (some t)
  not_held_of_insertType : ∀ {s s' : σ} {t t'}, Store.insertType s t = (.ok true, s') →
    Store.type? s t.name ≠ .ok (some t')
  type?_of_mem_types : ∀ {s : σ} {ts t}, Store.types s = .ok ts → t ∈ ts →
    Store.type? s t.name = .ok (some t)

/-- Every type that a store holds is held by another one. -/
def Grows {σ : Type} [Store σ] (s s' : σ) : Prop :=
  ∀ name t, Store.type? s name = .ok (some t) → Store.type? s' name = .ok (some t)

namespace Grows

variable {σ : Type} [Store σ] {s s' s'' : σ}

theorem refl (s : σ) : Grows s s := fun _ _ h => h

theorem trans (h : Grows s s') (h' : Grows s' s'') : Grows s s'' :=
  fun name t ht => h' name t (h name t ht)

theorem of_type?_eq (h : ∀ name, Store.type? s' name = Store.type? s name) : Grows s s' :=
  fun name _ ht => (h name).trans ht

theorem insertType [LawfulTypes σ] {t : ItemType} (h : Store.insertType s t = (.ok true, s')) :
    Grows s s' := by
  intro name t' ht
  by_cases hname : name = t.name
  · rw [hname] at ht
    exact absurd ht (LawfulTypes.not_held_of_insertType h)
  · exact (LawfulStore.type?_insertType h hname).trans ht

end Grows

-- ---------------------------------------------------------------------------
-- What a cache says
-- ---------------------------------------------------------------------------

section Reflects

variable {σ : Type} [Store σ] {s s' : σ}

/-- Whatever a cache remembers of types, a store holds. -/
def TypeCache.Reflects (c : TypeCache) (s : σ) : Prop :=
  ∀ name t, c.get? name = some t → Store.type? s name = .ok (some t)

/-- Whatever a transaction has staged, a store holds. -/
def CacheEffects.Reflects (e : CacheEffects) (s : σ) : Prop :=
  ∀ name t, e.staged.get? name = some t → Store.type? s name = .ok (some t)

namespace TypeCache.Reflects

variable {c : TypeCache}

theorem mono (h : c.Reflects s) (hgrows : Grows s s') : c.Reflects s' :=
  fun name t ht => hgrows name t (h name t ht)

theorem of_types_eq_empty (hc : c.types = ∅) : c.Reflects s := by
  intro name t ht
  unfold TypeCache.get? at ht
  rw [hc] at ht
  simp at ht

end TypeCache.Reflects

namespace CacheEffects.Reflects

variable {e : CacheEffects}

theorem of_staged_eq_empty (he : e.staged = ∅) : e.Reflects s := by
  intro name t ht
  rw [he] at ht
  simp at ht

theorem mono (h : e.Reflects s) (hgrows : Grows s s') : e.Reflects s' :=
  fun name t ht => hgrows name t (h name t ht)

theorem stage {t : ItemType} (h : e.Reflects s) (ht : Store.type? s t.name = .ok (some t)) :
    (e.stage t).Reflects s := by
  intro name t' hstaged
  rw [CacheEffects.stage, SortedMap.get?_insert] at hstaged
  split at hstaged
  · next hname => rw [hname, ← Option.some.inj hstaged]; exact ht
  · exact h name t' hstaged

theorem stageAll {ts : List ItemType} (h : e.Reflects s)
    (hts : ∀ t ∈ ts, Store.type? s t.name = .ok (some t)) : (e.stageAll ts).Reflects s := by
  induction ts generalizing e with
  | nil => exact h
  | cons t rest ih =>
    have hstaged := h.stage (hts t List.mem_cons_self)
    exact ih hstaged fun t' ht' => hts t' (List.mem_cons_of_mem t ht')

/-- Types are staged under their own names, so looking for a type with a name among those that are
staged finds what is staged under that name. -/
theorem find?_staged [LawfulStore σ] (h : e.Reflects s) (name : String) :
    (e.staged.values.reverse.find? fun t => t.name = name) = e.staged.get? name := by
  have hname : ∀ key t, e.staged.get? key = some t → t.name = key :=
    fun key t ht => LawfulStore.name_type? (h key t ht)
  cases hsearch : e.staged.values.reverse.find? fun t => t.name = name with
  | some t =>
    obtain ⟨⟨key, t'⟩, hmem, rfl⟩ :=
      List.mem_map.mp (List.mem_reverse.mp (List.mem_of_find?_eq_some hsearch))
    have hheld := SortedMap.mem_entries_iff.mp hmem
    have hnamed : t'.name = name := by simpa using List.find?_some hsearch
    rw [← hnamed, hname key t' hheld]
    exact hheld.symm
  | none =>
    refine (Option.eq_none_iff_forall_ne_some.mpr fun t ht => ?_).symm
    have hmem : t ∈ e.staged.values.reverse :=
      List.mem_reverse.mpr (List.mem_map.mpr ⟨(name, t), SortedMap.mem_entries_iff.mpr ht, rfl⟩)
    exact absurd (hname name t ht) (by simpa using List.find?_eq_none.mp hsearch t hmem)

/-- A cache that is filled with what the store holds reflects it. -/
theorem fill [LawfulStore σ] {c : TypeCache} (h : e.Reflects s) (hc : c.Reflects s)
    (generation : Nat) : (c.fill generation e.staged.values).2.Reflects s := by
  by_cases hg : c.generation = generation
  · subst hg
    intro name t ht
    rw [TypeCache.get?_fill, h.find?_staged] at ht
    cases hstaged : e.staged.get? name with
    | none =>
      rw [hstaged, Option.none_or] at ht
      exact hc name t ht
    | some t' =>
      rw [hstaged, Option.some_or, Option.some.injEq] at ht
      rw [← ht]
      exact h name t' hstaged
  · rw [TypeCache.fill_stale hg]
    exact hc

/-- The effects of a committed transaction leave a cache that reflects the store, if its
transaction staged what the store holds and, unless it migrated types, the cache did so before. -/
theorem settle [LawfulStore σ] {c : TypeCache} (h : e.Reflects s)
    (hc : e.migrated = false → c.Reflects s) (generation : Nat) :
    (e.settle generation c).Reflects s := by
  unfold CacheEffects.settle
  cases hm : e.migrated with
  | true => exact .of_types_eq_empty rfl
  | false => exact h.fill (hc hm) generation

end CacheEffects.Reflects

end Reflects

-- ---------------------------------------------------------------------------
-- The two kinds of store
-- ---------------------------------------------------------------------------

instance : LawfulTypes Memory where
  type?_inserted := by
    intro m m' t h
    obtain ⟨hyes, rfl⟩ := Prod.mk.inj h
    show Except.ok ((m.insertType t).2.types.get? t.name) = _
    unfold Memory.insertType at hyes ⊢
    split at hyes
    · simp at hyes
    · next hnew => rw [if_neg hnew, Memory.keepType, SortedMap.get?_insert_self]
  not_held_of_insertType := by
    intro m m' t t' h hheld
    obtain ⟨hyes, -⟩ := Prod.mk.inj h
    have hget : m.types.get? t.name = some t' := Except.ok.inj hheld
    have hc : m.types.contains t.name = true := by simp [SortedMap.contains, hget]
    unfold Memory.insertType at hyes
    rw [if_pos hc] at hyes
    simp at hyes
  type?_of_mem_types := by
    intro m ts t h ht
    obtain rfl := Except.ok.inj h
    obtain ⟨⟨key, t'⟩, he, rfl⟩ := List.mem_map.mp ht
    have hget := SortedMap.mem_entries_iff.mp he
    show Except.ok (m.types.get? t'.name) = _
    rw [m.named key t' hget, hget]

instance : LawfulTypes Tables where
  type?_inserted := by
    intro t t' type h
    obtain ⟨hyes, rfl⟩ := Prod.mk.inj h
    exact (Tables.type?_insertType (Prod.ext (Except.ok.inj hyes) rfl)).1
  not_held_of_insertType := by
    intro t t' type type' h hheld
    obtain ⟨hyes, -⟩ := Prod.mk.inj h
    have hc : t.types.contains type.name = true := by
      change t.type? type.name = .ok (some type') at hheld
      unfold Tables.type? at hheld
      cases hget : t.types.get? type.name with
      | none => simp [hget] at hheld
      | some doc => simp [SortedMap.contains, hget]
    unfold Tables.insertType at hyes
    simp [hc] at hyes
  type?_of_mem_types := by
    intro t ts type h htype
    exact Tables.type?_of_mem_decodeTypes h type htype

/-- Tables replace types as a whole if rows may have all of their names. -/
theorem Tables.replaceTypes_ok {ts : List ItemType} (h : ∀ type ∈ ts, isName type.name = true)
    (t : Tables) : ∃ t', t.replaceTypes ts = (.ok (), t') := by
  induction ts generalizing t with
  | nil => exact ⟨t, rfl⟩
  | cons type rest ih =>
    rw [replaceTypes, if_pos (h type List.mem_cons_self)]
    exact ih (fun type' htype' => h type' (List.mem_cons_of_mem type htype')) _

/-- Tables replace nothing if no row may have the first name. -/
theorem Tables.replaceTypes_refused {type : ItemType} (h : isName type.name = false)
    (rest : List ItemType) (t : Tables) : (t.replaceTypes (type :: rest)).2 = t := by
  rw [replaceTypes, if_neg (Bool.eq_false_iff.mp h)]

namespace Backend

instance : (b : Backend) → LawfulTypes b.State
  | memory => inferInstanceAs (LawfulTypes Memory)
  | tables => inferInstanceAs (LawfulTypes Tables)

/-- Whether a type of a name can be put into the stores of a kind. -/
def takes : Backend → String → Bool
  | memory, _ => true
  | tables, name => Tables.isName name

/-- Types whose names a store takes are replaced as a whole. -/
theorem replaceTypes_ok {b : Backend} {ts : List ItemType} (h : ∀ t ∈ ts, b.takes t.name = true)
    (s : b.State) : ∃ s', Store.replaceTypes s ts = (.ok (), s') := by
  cases b with
  | memory => exact ⟨Memory.replaceTypes s ts, rfl⟩
  | tables => exact Tables.replaceTypes_ok h s

/-- A store that does not take the name of the first type replaces nothing. -/
theorem replaceTypes_refused {b : Backend} {ts : List ItemType}
    (h : (ts.head?.any fun t => !b.takes t.name) = true) (s : b.State) :
    (Store.replaceTypes s ts).2 = s := by
  cases ts with
  | nil => exact nomatch h
  | cons t rest =>
    have hname : b.takes t.name = false := by simpa using h
    cases b with
    | memory => exact nomatch hname
    | tables => exact Tables.replaceTypes_refused hname rest s

end Backend

end Backlog
