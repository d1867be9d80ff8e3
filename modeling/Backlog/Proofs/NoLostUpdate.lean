import Backlog.Proofs.History
import Backlog.Proofs.ItemRows

/-!
# No lost update

However the transactions of clients follow each other, and whether they commit, fail or are
withdrawn, a version of an item stands for one content. An item begins at version zero, and every
save that succeeds found the version it was based on and raised it by one; so of all committed saves
that are based on one version of an item at most one succeeded, and no client overwrites what it
has not seen. An id that was given away in a committed transaction is not given away again, also
not after its item is gone, so a client cannot mistake one item for another either.

One relation carries this over a whole history: a store is `Later` than another one when no row was
handed out twice and every item that both hold has moved on to a greater version or is still the
same. One call leads to a later store (`ItemStep.later`), the relation is transitive, and the
committed calls of a history are a trail from state to state. Withdrawn and failed transactions take
no part: they leave the state as it was, with the rows they had handed out.

## Main results

* `ItemStep.later` — a call leads to a later store;
* `Trail.orderly` — along a trail every store is later than those before it;
* `History.noLostUpdate` — what this means for the histories of a new store of either kind.
-/

namespace Backlog

open ItemStore

section Relations

variable {σ : Type} [Store σ] [ItemStore σ] {s s' s'' : σ} {n k : Nat}

-- ---------------------------------------------------------------------------
-- One call
-- ---------------------------------------------------------------------------

/-- A sound store whose rows and versions do not exceed a bound. -/
structure Within (n : Nat) (s : σ) : Prop where
  sound : Sound s
  last : lastItem s ≤ n
  versions : ∀ row i, Store.item? s row = .ok (some i) → i.version ≤ n

theorem Within.mono (h : Within n s) (hnk : n ≤ k) : Within k s where
  sound := h.sound
  last := by have := h.last; omega
  versions row i hi := Nat.le_trans (h.versions row i hi) hnk

/-- A store that comes after another one: rows that were empty stay empty, and an item that both
hold has moved on to a greater version or is still the same. -/
structure Later (s s' : σ) : Prop where
  last : lastItem s ≤ lastItem s'
  gone : ∀ row, row ≤ lastItem s → Store.item? s row = .ok none → Store.item? s' row = .ok none
  grown : ∀ row i j, Store.item? s row = .ok (some i) → Store.item? s' row = .ok (some j) →
    i.version ≤ j.version ∧ (i.version = j.version → i = j)

theorem Later.refl (s : σ) : Later s s where
  last := Int.le_refl _
  gone _ _ h := h
  grown row i j hi hj := by
    obtain rfl := Option.some.inj (Except.ok.inj (hi.symm.trans hj))
    exact ⟨Nat.le_refl _, fun _ => rfl⟩

theorem Later.trans (hs : Sound s) (hs' : Sound s') (h : Later s s') (h' : Later s' s'') :
    Later s s'' where
  last := Int.le_trans h.last h'.last
  gone row hrow hnone :=
    h'.gone row (Int.le_trans hrow h.last) (h.gone row hrow hnone)
  grown row i k hi hk := by
    obtain ⟨-, -, hhigh⟩ := item?_placed hs hi
    obtain ⟨found, hfound⟩ := item?_readable hs' row
    cases found with
    | none =>
      -- a row that is empty in between stays empty
      have := h'.gone row (Int.le_trans hhigh h.last) hfound
      rw [hk] at this
      exact absurd (Except.ok.inj this) (by simp)
    | some j =>
      obtain ⟨hij, hij'⟩ := h.grown row i j hi hfound
      obtain ⟨hjk, hjk'⟩ := h'.grown row j k hfound hk
      refine ⟨Nat.le_trans hij hjk, fun e => ?_⟩
      rw [hij' (by omega), hjk' (by omega)]

variable {q : Request} {r : Except AccessError Reply}

/-- Stores that agree in their rows are later than each other. -/
theorem Later.of_sameRows (hlast : lastItem s' = lastItem s) (hrows : SameRows s s') :
    Later s s' where
  last := by omega
  gone row _ h := (hrows row).trans h
  grown row i j hi hj := by
    rw [hrows row, hi] at hj
    obtain rfl := Option.some.inj (Except.ok.inj hj)
    exact ⟨Nat.le_refl _, fun _ => rfl⟩

/-- **A call leads to a later store.** -/
theorem ItemStep.later (h : ItemStep s s' q r) (hs : Within n s) (hn : n < 9223372036854775808) :
    Later s s' := by
  -- rows that the call did not touch hold what they held
  have hsame : ∀ {row i j}, Store.item? s' row = Store.item? s row →
      Store.item? s row = .ok (some i) → Store.item? s' row = .ok (some j) →
      i.version ≤ j.version ∧ (i.version = j.version → i = j) := by
    intro row i j hrow hi hj
    rw [hrow, hi] at hj
    obtain rfl := Option.some.inj (Except.ok.inj hj)
    exact ⟨Nat.le_refl _, fun _ => rfl⟩
  cases h with
  | kept hlast hrows _ => exact .of_sameRows hlast hrows
  | created hlast hrows hnew _ _ =>
    refine ⟨by omega, fun row hrow h => ?_, fun row i j hi hj => ?_⟩
    · rw [hrows row (by omega)]
      exact h
    · have := (item?_placed hs.sound hi).2.2
      exact hsame (hrows row (by omega)) hi hj
  | @saved u row old new fields hlast hrows hrow hold _ hnew _ hversion =>
    have hbound := hs.versions row old hold
    have hnext : new.version = old.version + 1 := by
      rw [hversion]
      exact nextVersion_of_lt (by omega)
    refine ⟨by omega, fun row' _ h => ?_, fun row' i j hi hj => ?_⟩
    · by_cases e : row' = row
      · rw [e, hold] at h
        exact absurd (Except.ok.inj h) (by simp)
      · rw [hrows row' e]
        exact h
    · by_cases e : row' = row
      · subst e
        obtain rfl := Option.some.inj (Except.ok.inj (hold.symm.trans hi))
        obtain rfl := Option.some.inj (Except.ok.inj (hnew.symm.trans hj))
        exact ⟨by omega, fun he => by omega⟩
      · exact hsame (hrows row' e) hi hj
  | @deleted id row old hlast hrows hrow hold hgone =>
    refine ⟨by omega, fun row' _ h => ?_, fun row' i j hi hj => ?_⟩
    · by_cases e : row' = row
      · rw [e]
        exact hgone
      · rw [hrows row' e]
        exact h
    · by_cases e : row' = row
      · rw [e, hgone] at hj
        exact absurd (Except.ok.inj hj) (by simp)
      · exact hsame (hrows row' e) hi hj

/-- A call raises rows and versions by one at most. -/
theorem ItemStep.within (h : ItemStep s s' q r) (hs : Within n s) (hs' : Sound s')
    (hn : n < 9223372036854775808) : Within (n + 1) s' := by
  have hlast := hs.last
  cases h with
  | kept hlast' hrows _ =>
    refine ⟨hs', by omega, fun row i hi => ?_⟩
    rw [hrows row] at hi
    exact Nat.le_succ_of_le (hs.versions row i hi)
  | @created _ _ _ _ _ j hlast' hrows hnew _ hversion =>
    refine ⟨hs', by omega, fun row i hi => ?_⟩
    by_cases e : row = lastItem s + 1
    · subst e
      obtain rfl := Option.some.inj (Except.ok.inj (hnew.symm.trans hi))
      rw [hversion]
      exact Nat.zero_le _
    · rw [hrows row e] at hi
      exact Nat.le_succ_of_le (hs.versions row i hi)
  | @saved u row old new fields hlast' hrows hrow hold _ hnew _ hversion =>
    have hbound := hs.versions row old hold
    refine ⟨hs', by omega, fun row' i hi => ?_⟩
    by_cases e : row' = row
    · subst e
      obtain rfl := Option.some.inj (Except.ok.inj (hnew.symm.trans hi))
      rw [hversion, nextVersion_of_lt (by omega)]
      omega
    · rw [hrows row' e] at hi
      exact Nat.le_succ_of_le (hs.versions row' i hi)
  | @deleted id row old hlast' hrows _ _ hgone =>
    refine ⟨hs', by omega, fun row' i hi => ?_⟩
    by_cases e : row' = row
    · rw [e, hgone] at hi
      exact absurd (Except.ok.inj hi) (by simp)
    · rw [hrows row' e] at hi
      exact Nat.le_succ_of_le (hs.versions row' i hi)

omit [ItemStore σ] in
theorem not_ok_and_none {i : WorkItem} {row : Int} (h : Store.item? s row = .ok (some i))
    (h' : Store.item? s row = .ok none) : False := by
  rw [h] at h'
  exact absurd (Except.ok.inj h') (by simp)

/-- A creation that succeeds put its item where nothing stood, at version zero. -/
theorem ItemStep.of_create {name : String} {payload : Payload} {creator : Identity} {i : WorkItem}
    (h : ItemStep s s' (.create name payload creator) (.ok (.item i))) (hs : Sound s) :
    i.version = 0 ∧ ∃ row j, i.id = .ofRow row ∧ Store.item? s row = .ok none ∧
      Store.item? s' row = .ok (some j) ∧ j.typeName = i.typeName ∧ j.version = 0 := by
  cases h with
  | kept _ _ hquiet => exact absurd (hquiet rfl) (by simp [Request.isItemWrite])
  | @created _ _ _ _ _ j _ _ hj htype hversion =>
    refine ⟨rfl, _, j, rfl, ?_, hj, htype, hversion⟩
    -- what is handed out next is not held
    obtain ⟨found, hfound⟩ := item?_readable hs (lastItem s + 1)
    cases found with
    | none => exact hfound
    | some k =>
      have := (item?_placed hs hfound).2.2
      omega

/-- A save that succeeds found the version it is based on and raised it by one. -/
theorem ItemStep.of_save {u : WorkItemUpdate} (h : ItemStep s s' (.save u) r)
    (hok : r.isOk = true) (hs : Within n s) (hn : n < 9223372036854775808) :
    ∃ row old new fields, u.id.row? = some row ∧ Store.item? s row = .ok (some old) ∧
      old.version = u.version ∧ Store.item? s' row = .ok (some new) ∧
      new.typeName = old.typeName ∧ new.version = u.version + 1 ∧
      r = .ok (.item { old with version := u.version + 1, fields }) := by
  cases h with
  | kept _ _ hquiet => exact absurd (hquiet hok) (by simp [Request.isItemWrite])
  | @saved _ row old new fields _ _ hrow hold hexpected hfound htype hversion =>
    have hbound := hs.versions row old hold
    have hnext : nextVersion old.version = u.version + 1 := by
      rw [← hexpected]
      exact nextVersion_of_lt (by omega)
    rw [hnext] at hversion
    exact ⟨row, old, new, fields, hrow, hold, hexpected, hfound, htype, hversion, by rw [hnext]⟩

/-- An item changes by a successful save only, and goes by a deletion only. -/
theorem ItemStep.untouched (h : ItemStep s s' q r) (hs : Sound s) {row : Int} {i : WorkItem}
    (hi : Store.item? s row = .ok (some i)) :
    Store.item? s' row = .ok (some i) ∨
      (∃ u, q = .save u ∧ u.id.row? = some row ∧ r.isOk = true) ∨
      ∃ id, q = .delete id ∧ id.row? = some row ∧ Store.item? s' row = .ok none := by
  cases h with
  | kept _ hrows _ => exact .inl ((hrows row).trans hi)
  | created _ hrows _ _ _ =>
    have := (item?_placed hs hi).2.2
    exact .inl ((hrows row (by omega)).trans hi)
  | @saved u row' _ _ _ _ hrows hrow _ _ _ _ _ =>
    by_cases e : row = row'
    · exact .inr (.inl ⟨u, rfl, e ▸ hrow, rfl⟩)
    · exact .inl ((hrows row e).trans hi)
  | @deleted id row' _ _ hrows hrow _ hgone =>
    by_cases e : row = row'
    · exact .inr (.inr ⟨id, rfl, e ▸ hrow, e ▸ hgone⟩)
    · exact .inl ((hrows row e).trans hi)

-- ---------------------------------------------------------------------------
-- Trails
-- ---------------------------------------------------------------------------

/-- What a trail within a bound comes to: every call found a store that is later than the first one
and made one step, and what a call found is later than what any call before it left. -/
structure Orderly (n : Nat) (s : σ) (ms : List (Moment σ Request Reply)) (s' : σ) : Prop where
  ends : Within n s'
  later : Later s s'
  each : ∀ m ∈ ms, Within n m.before.store ∧ Within n m.after.store ∧
    Later s m.before.store ∧ ItemStep m.before.store m.after.store m.call m.answer
  pairs : ms.Pairwise fun m m' => Later m.after.store m'.before.store

/-- **Along a trail every store is later than those before it.** -/
theorem Trail.orderly {ms : List (Moment σ Request Reply)} (h : Trail s ms s')
    (hplain : ∀ m ∈ ms, m.call.IsPlain) (hs : Within n s)
    (hn : n + ms.length < 9223372036854775808) :
    Orderly (n + ms.length) s ms s' := by
  induction h generalizing n with
  | nil s => exact ⟨hs, .refl s, by simp, .nil⟩
  | @cons s s' m ms hfrom hw _ ih =>
    subst hfrom
    rw [List.length_cons] at hn ⊢
    have hlast := hs.last
    obtain ⟨hsound, hstep⟩ :=
      Request.itemStep hw (hplain m List.mem_cons_self) hs.sound (by omega)
    have hafter : Within (n + 1) m.after.store := hstep.within hs hsound (by omega)
    have hlater := hstep.later hs (by omega)
    obtain ⟨hend, hlater', heach, hpairs⟩ :=
      ih (fun m' hm' => hplain m' (List.mem_cons_of_mem m hm')) hafter (by omega)
    have hsum : n + 1 + ms.length = n + (ms.length + 1) := by omega
    rw [hsum] at hend heach
    refine ⟨hend, hlater.trans hs.sound hsound hlater', ?_, ?_⟩
    · intro m' hm'
      rcases List.mem_cons.mp hm' with rfl | hm'
      · exact ⟨hs.mono (by omega), hafter.mono (by omega), .refl _, hstep⟩
      · obtain ⟨hb, ha, hl, hi⟩ := heach m' hm'
        exact ⟨hb, ha, hlater.trans hs.sound hsound hl, hi⟩
    · exact List.pairwise_cons.mpr ⟨fun m' hm' => (heach m' hm').2.2.1, hpairs⟩

theorem Orderly.mono {ms : List (Moment σ Request Reply)} (h : Orderly n s ms s') (hnk : n ≤ k) :
    Orderly k s ms s' where
  ends := h.ends.mono hnk
  later := h.later
  each m hm := by
    obtain ⟨hb, ha, hl, hi⟩ := h.each m hm
    exact ⟨hb.mono hnk, ha.mono hnk, hl, hi⟩
  pairs := h.pairs

-- ---------------------------------------------------------------------------
-- Ids
-- ---------------------------------------------------------------------------

/-- The id that a call gave to a new item. -/
def givenId? (m : Moment σ Request Reply) : Option ItemId :=
  match m.call, m.answer with
  | .create .., .ok (.item i) => some i.id
  | _, _ => none

theorem ItemId.ofRow_injective {a b : Int} (h : ItemId.ofRow a = ItemId.ofRow b) : a = b :=
  rowText_injective (ItemId.mk.inj h)

/-- A call that gave an id away handed out the next row. -/
theorem row_of_givenId? {m : Moment σ Request Reply} {id : ItemId}
    (hstep : ItemStep m.before.store m.after.store m.call m.answer) (hid : givenId? m = some id) :
    id = .ofRow (lastItem m.before.store + 1) ∧
      lastItem m.after.store = lastItem m.before.store + 1 := by
  obtain ⟨before, call, answer, after⟩ := m
  change ItemStep before.store after.store call answer at hstep
  cases hstep with
  | kept hlast hrows hquiet =>
    unfold givenId? at hid
    split at hid
    · next hc hr =>
      subst hc hr
      exact absurd (hquiet rfl) (by simp [Request.isItemWrite])
    · simp at hid
  | created hlast _ _ _ _ =>
    obtain rfl := Option.some.inj hid
    exact ⟨rfl, hlast⟩
  | saved => simp [givenId?] at hid
  | deleted => simp [givenId?] at hid

/-- No id is given away twice along a trail. -/
theorem Orderly.nodup_givenIds {ms : List (Moment σ Request Reply)} (h : Orderly n s ms s') :
    (ms.filterMap givenId?).Nodup := by
  rw [List.Nodup, List.pairwise_filterMap]
  refine h.pairs.imp_of_mem fun {m m'} hm hm' hlater id hid id' hid' => ?_
  obtain ⟨rfl, hnext⟩ := row_of_givenId? (h.each m hm).2.2.2 hid
  obtain ⟨rfl, -⟩ := row_of_givenId? (h.each m' hm').2.2.2 hid'
  intro e
  have := ItemId.ofRow_injective e
  have := hlater.last
  omega

/-- A row that is held at the end of a trail was held at its beginning, or given away on it. -/
theorem Trail.given {ms : List (Moment σ Request Reply)} (h : Trail s ms s')
    (hsteps : ∀ m ∈ ms, ItemStep m.before.store m.after.store m.call m.answer) {row : Int}
    {i : WorkItem} (hi : Store.item? s' row = .ok (some i)) :
    (∃ j, Store.item? s row = .ok (some j)) ∨ ItemId.ofRow row ∈ ms.filterMap givenId? := by
  induction h with
  | nil s => exact .inl ⟨i, hi⟩
  | @cons s s' m ms hfrom hw _ ih =>
    subst hfrom
    have hstep := hsteps m List.mem_cons_self
    rw [List.filterMap_cons]
    rcases ih (fun m' hm' => hsteps m' (List.mem_cons_of_mem m hm')) hi with ⟨j, hj⟩ | hmem
    · obtain ⟨before, call, answer, after⟩ := m
      change ItemStep before.store after.store call answer at hstep
      cases hstep with
      | kept hlast hrows _ => exact .inl ⟨j, (hrows row).symm.trans hj⟩
      | created hlast hrows _ _ _ =>
        by_cases e : row = lastItem before.store + 1
        · exact .inr (by simp [givenId?, e])
        · exact .inl ⟨j, (hrows row e).symm.trans hj⟩
      | @saved u row' old new fields hlast hrows _ hold _ _ _ _ =>
        by_cases e : row = row'
        · exact .inl ⟨old, e ▸ hold⟩
        · exact .inl ⟨j, (hrows row e).symm.trans hj⟩
      | @deleted id row' old hlast hrows _ hold _ =>
        by_cases e : row = row'
        · exact .inl ⟨old, e ▸ hold⟩
        · exact .inl ⟨j, (hrows row e).symm.trans hj⟩
    · refine .inr ?_
      split
      · exact hmem
      · exact List.mem_cons_of_mem _ hmem

-- ---------------------------------------------------------------------------
-- Histories
-- ---------------------------------------------------------------------------

variable [LawfulStore σ]

/-- The calls of a transaction, and what it leaves, in order. -/
theorem Visit.orderly {v : Visit} (hplain : v.IsPlain) (hs : Within n s)
    (hn : n + v.calls.length < 9223372036854775808) :
    (∃ s', Orderly (n + v.calls.length) s (v.moments s) s') ∧
      Within (n + v.calls.length) (v.after s) ∧ Later s (v.after s) := by
  obtain ⟨s', htrail, hcommit⟩ := v.trail s
  have hlen := v.length_moments_le s
  have hcalls : ∀ m ∈ v.moments s, m.call.IsPlain := by
    intro m hm
    obtain ⟨a, ha, hr⟩ := Visit.call_mem hm
    exact hr ▸ hplain a ha
  have hord := (htrail.orderly hcalls hs (by omega)).mono
    (k := n + v.calls.length) (by omega)
  refine ⟨⟨s', hord⟩, ?_⟩
  cases hc : v.commits s with
  | true =>
    rw [hcommit hc]
    exact ⟨hord.ends, hord.later⟩
  | false =>
    rw [Visit.after_eq_of_not_commits hc]
    exact ⟨hs.mono (by omega), .refl s⟩

namespace History

variable {vs : List Visit}

/-- Every call of a history was made within the bound, and made one step. -/
theorem step_of_mem_calls (hplain : ∀ v ∈ vs, v.IsPlain) (hs : Within n s)
    (hn : n + size vs < 9223372036854775808) {m : Moment σ Request Reply} (hm : m ∈ calls s vs) :
    Within (n + size vs) m.before.store ∧
      ItemStep m.before.store m.after.store m.call m.answer := by
  induction vs generalizing s n with
  | nil => simp [calls] at hm
  | cons v vs ih =>
    rw [size] at hn ⊢
    obtain ⟨⟨s', hord⟩, hafter, -⟩ :=
      Visit.orderly (hplain v List.mem_cons_self) hs (by omega)
    rcases List.mem_append.mp hm with hm | hm
    · obtain ⟨hb, -, -, hi⟩ := hord.each m hm
      exact ⟨hb.mono (by omega), hi⟩
    · obtain ⟨hb, hi⟩ :=
        ih (fun v' hv' => hplain v' (List.mem_cons_of_mem v hv')) hafter (by omega) hm
      exact ⟨hb.mono (by omega), hi⟩

/-- The states of a history lie within the bound and are later than the first one. -/
theorem later_of_mem_states (hplain : ∀ v ∈ vs, v.IsPlain) (hs : Within n s)
    (hn : n + size vs < 9223372036854775808) {x : σ} (hx : x ∈ states s vs) :
    Within (n + size vs) x ∧ Later s x := by
  induction vs generalizing s n with
  | nil =>
    obtain rfl := List.mem_singleton.mp hx
    exact ⟨hs.mono (by omega), .refl _⟩
  | cons v vs ih =>
    rw [size] at hn ⊢
    obtain ⟨-, hafter, hlater⟩ := Visit.orderly (hplain v List.mem_cons_self) hs (by omega)
    rcases List.mem_cons.mp hx with rfl | hx
    · exact ⟨hs.mono (by omega), .refl _⟩
    · obtain ⟨hw, hl⟩ :=
        ih (fun v' hv' => hplain v' (List.mem_cons_of_mem v hv')) hafter (by omega) hx
      exact ⟨hw.mono (by omega), hlater.trans hs.sound hafter.sound hl⟩

theorem pairwise_states (hplain : ∀ v ∈ vs, v.IsPlain) (hs : Within n s)
    (hn : n + size vs < 9223372036854775808) : (states s vs).Pairwise Later := by
  induction vs generalizing s n with
  | nil => exact List.pairwise_singleton _ _
  | cons v vs ih =>
    have hlater : ∀ x ∈ states s (v :: vs), Later s x :=
      fun x hx => (later_of_mem_states hplain hs hn hx).2
    rw [size] at hn
    obtain ⟨-, hafter, -⟩ := Visit.orderly (hplain v List.mem_cons_self) hs (by omega)
    refine List.pairwise_cons.mpr ⟨fun x hx => hlater x (List.mem_cons_of_mem s hx), ?_⟩
    exact ih (fun v' hv' => hplain v' (List.mem_cons_of_mem v hv')) hafter (by omega)

/-- The committed calls of a history, in order. -/
theorem orderly_committed (hplain : ∀ v ∈ vs, v.IsPlain) (hs : Within n s)
    (hn : n + size vs < 9223372036854775808) :
    Orderly (n + size vs) s (committed s vs) (final s vs) := by
  have hlen : (committed s vs).length ≤ size vs :=
    Nat.le_trans (committed_sublist s vs).length_le (length_calls_le s vs)
  refine ((trail_committed s vs).orderly (fun m hm => ?_) hs (by omega)).mono (by omega)
  obtain ⟨v, hv, a, ha, hr⟩ := call_mem ((committed_sublist s vs).subset hm)
  exact hr ▸ hplain v hv a ha

/-- A row that a state of a history holds was held by the first state, or given away by a committed
call. -/
theorem given_of_mem_states (hplain : ∀ v ∈ vs, v.IsPlain)
    (hs : Within n s) (hn : n + size vs < 9223372036854775808) {x : σ} (hx : x ∈ states s vs)
    {row : Int} {i : WorkItem} (hi : Store.item? x row = .ok (some i)) :
    (∃ j, Store.item? s row = .ok (some j)) ∨
      ItemId.ofRow row ∈ (committed s vs).filterMap givenId? := by
  induction vs generalizing s n with
  | nil =>
    obtain rfl := List.mem_singleton.mp hx
    exact .inl ⟨i, hi⟩
  | cons v vs ih =>
    rw [size] at hn
    obtain ⟨⟨s', hord⟩, hafter, -⟩ :=
      Visit.orderly (hplain v List.mem_cons_self) hs (by omega)
    rcases List.mem_cons.mp hx with rfl | hx
    · exact .inl ⟨i, hi⟩
    rw [committed, List.filterMap_append, List.mem_append]
    rcases ih (fun v' hv' => hplain v' (List.mem_cons_of_mem v hv')) hafter (by omega) hx with
      ⟨j, hj⟩ | hmem
    · cases hc : v.commits s with
      | true =>
        obtain ⟨s'', htrail, hcommit⟩ := v.trail s
        rw [hcommit hc] at hj
        rcases htrail.given (fun m hm => (hord.each m hm).2.2.2) hj with hheld | hmem
        · exact .inl hheld
        · exact .inr (.inl hmem)
      | false =>
        rw [Visit.after_eq_of_not_commits hc] at hj
        exact .inl ⟨j, hj⟩
    · exact .inr (.inr hmem)

end History

end Relations

-- ---------------------------------------------------------------------------
-- Histories of a new store
-- ---------------------------------------------------------------------------

theorem Memory.item?_new (row : Int) : Store.item? Memory.new row = .ok none := rfl

theorem Memory.sound_new : Memory.new.Sound where
  last := Int.le_refl 0
  placed row i h := by
    have h : (none : Option WorkItem) = some i := h
    simp at h

theorem Tables.sound_new : Tables.new.Sound where
  last := Int.le_refl 0
  types := forall_get?_seed (fun _ _ h => by simp at h) fun type _ =>
    ⟨type.fields, Document.definitions?_ofDefinitions type.fields⟩
  rows row r h := by
    have h : (none : Option ItemRow) = some r := h
    simp at h

/-- A new store is sound and holds no item. -/
theorem within_new (b : Backend) :
    Within 0 b.new ∧ ∀ row, Store.item? b.new row = .ok none := by
  have hempty : ∀ row, Store.item? b.new row = .ok none := by
    cases b with
    | memory => exact Memory.item?_new
    | tables => exact fun _ => rfl
  refine ⟨⟨?_, ?_, fun row i h => absurd (h.symm.trans (hempty row)) (by simp)⟩, hempty⟩
  · cases b with
    | memory => exact Memory.sound_new
    | tables => exact Tables.sound_new
  · cases b <;> exact Int.le_refl 0

/-- What it means that a history of a new store loses no update. -/
structure NoLostUpdate (b : Backend) (vs : List Visit) : Prop where
  /-- Every committed state can be read. -/
  readable : ∀ s ∈ History.states b.new vs, ∀ row, ∃ found, Store.item? s row = .ok found
  /-- A new item stands at version zero where nothing stood. -/
  created : ∀ m ∈ History.calls b.new vs, ∀ name payload creator i,
    m.call = .create name payload creator → m.answer = .ok (.item i) →
      i.version = 0 ∧ ∃ row j, i.id = .ofRow row ∧ Store.item? m.before.store row = .ok none ∧
        Store.item? m.after.store row = .ok (some j) ∧ j.typeName = i.typeName ∧ j.version = 0
  /-- A save that succeeds found the version it is based on and raised it by one. -/
  saved : ∀ m ∈ History.calls b.new vs, ∀ u i, m.call = .save u → m.answer = .ok (.item i) →
    i.version = u.version + 1 ∧ ∃ row old new, u.id.row? = some row ∧
      Store.item? m.before.store row = .ok (some old) ∧ old.version = u.version ∧
      Store.item? m.after.store row = .ok (some new) ∧ new.typeName = old.typeName ∧
      new.version = u.version + 1
  /-- An item changes by a successful save only, and goes by a deletion only. -/
  untouched : ∀ m ∈ History.calls b.new vs, ∀ row i,
    Store.item? m.before.store row = .ok (some i) →
      Store.item? m.after.store row = .ok (some i) ∨
      (∃ u, m.call = .save u ∧ u.id.row? = some row ∧ m.answer.isOk = true) ∨
      ∃ id, m.call = .delete id ∧ id.row? = some row ∧ Store.item? m.after.store row = .ok none
  /-- Of the committed saves of one item that are based on one version at most one succeeds. -/
  oneWinner : (History.committed b.new vs).Pairwise fun m m' => ∀ u u', m.call = .save u →
    m'.call = .save u' → m.answer.isOk = true → m'.answer.isOk = true →
      u.id.row? = u'.id.row? → u.version ≠ u'.version
  /-- No id is given away twice by committed calls. -/
  ids : ((History.committed b.new vs).filterMap givenId?).Nodup
  /-- A committed item has the id of its row, and a committed call gave it. -/
  given : ∀ s ∈ History.states b.new vs, ∀ row i, Store.item? s row = .ok (some i) →
    i.id = .ofRow row ∧ i.id ∈ (History.committed b.new vs).filterMap givenId?
  /-- A version of an item stands for one content. -/
  pinned : (History.states b.new vs).Pairwise fun s s' => ∀ row i j,
    Store.item? s row = .ok (some i) → Store.item? s' row = .ok (some j) →
      i.version = j.version → i.typeName = j.typeName ∧ i.fields = j.fields

/-- **No history of a new store loses an update**: whatever clients do in whatever order, short of
migrating types, as long as the counters fit their words. -/
theorem History.noLostUpdate (b : Backend) (vs : List Visit)
    (hplain : ∀ v ∈ vs, v.IsPlain) (hshort : History.size vs < 9223372036854775808) :
    NoLostUpdate b vs := by
  obtain ⟨hnew, hempty⟩ := within_new b
  have hn : 0 + size vs < 9223372036854775808 := by omega
  have hcommitted := orderly_committed hplain hnew hn
  refine ⟨?_, ?_, ?_, ?_, ?_, hcommitted.nodup_givenIds, ?_, ?_⟩
  · intro s hs row
    exact item?_readable (later_of_mem_states hplain hnew hn hs).1.sound row
  · intro m hm name payload creator i hcall hanswer
    obtain ⟨hw, hstep⟩ := step_of_mem_calls hplain hnew hn hm
    rw [hcall, hanswer] at hstep
    exact hstep.of_create hw.sound
  · intro m hm u i hcall hanswer
    obtain ⟨hw, hstep⟩ := step_of_mem_calls hplain hnew hn hm
    rw [hcall, hanswer] at hstep
    obtain ⟨row, old, new, fields, hrow, hold, hv, hfound, htype, hversion, hi⟩ :=
      hstep.of_save rfl hw hn
    obtain rfl := Reply.item.inj (Except.ok.inj hi)
    exact ⟨rfl, row, old, new, hrow, hold, hv, hfound, htype, hversion⟩
  · intro m hm row i hi
    obtain ⟨hw, hstep⟩ := step_of_mem_calls hplain hnew hn hm
    exact hstep.untouched hw.sound hi
  · refine hcommitted.pairs.imp_of_mem fun {m m'} hm hm' hlater u u' hu hu' hok hok' hid hv => ?_
    obtain ⟨hw, -, -, hstep⟩ := hcommitted.each m hm
    obtain ⟨hw', -, -, hstep'⟩ := hcommitted.each m' hm'
    rw [hu] at hstep
    rw [hu'] at hstep'
    obtain ⟨row, -, new, -, hrow, -, -, hnew, -, hversion, -⟩ := hstep.of_save hok hw hn
    obtain ⟨row', old, -, -, hrow', hold, hexpected, -⟩ := hstep'.of_save hok' hw' hn
    -- the second save found a version that the first one had left behind
    obtain rfl : row = row' := Option.some.inj (hrow.symm.trans (hid.trans hrow'))
    have := (hlater.grown row new old hnew hold).1
    omega
  · intro s hs row i hi
    have hid := (item?_placed (later_of_mem_states hplain hnew hn hs).1.sound hi).1
    refine ⟨hid, ?_⟩
    rcases given_of_mem_states hplain hnew hn hs hi with ⟨j, hj⟩ | hmem
    · exact (not_ok_and_none hj (hempty row)).elim
    · rw [hid]
      exact hmem
  · refine (pairwise_states hplain hnew hn).imp fun {s s'} hlater row i j hi hj hv => ?_
    obtain rfl := (hlater.grown row i j hi hj).2 hv
    exact ⟨rfl, rfl⟩

/-- Two clients that save one new item, both from its first version. -/
def History.twoWriters : List Visit :=
  let bug : Payload :=
    .ofList [(SystemField.title, .string "crash"), (SystemField.state, .string StateName.new)]
  let close : WorkItemUpdate :=
    ⟨⟨"1"⟩, initialVersion, .ofList [(SystemField.state, .string StateName.closed)]⟩
  [⟨∅, .default, .new, [⟨.create SystemType.bug bug ⟨"ann"⟩, false⟩]⟩,
   ⟨∅, .default, .new, [⟨.save close, true⟩]⟩, ⟨∅, .default, .new, [⟨.save close, true⟩]⟩]

/-- Of two clients that save one new item the second one fails. -/
theorem History.noLostUpdate_twoWriters :
    (∀ v ∈ twoWriters, v.IsPlain) ∧ size twoWriters < 9223372036854775808 ∧
      ((committed Backend.tables.new twoWriters).map fun m => m.answer.isOk) =
        [true, true, false] ∧
      NoLostUpdate .tables twoWriters := by
  have hplain : ∀ v ∈ twoWriters, v.IsPlain := by
    simp [twoWriters, Visit.IsPlain, Request.IsPlain]
  have hshort : size twoWriters < 9223372036854775808 := by decide
  exact ⟨hplain, hshort, by decide +kernel, noLostUpdate .tables twoWriters hplain hshort⟩

end Backlog
