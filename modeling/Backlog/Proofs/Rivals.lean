import Backlog.Proofs.Frames
import Backlog.Proofs.Unnoticed

/-!
# Saves against a rival

A save looks at the version of an item before it writes, and the store looks again when it writes.
The second look is there for a rival who comes in between. A save is taken apart where it writes: up
to there it does not notice the rival, and then the rival has been faster. What the rival writes is
what some client could have asked for, so the store stays in order.

How an engine answers an update depends on the id and the versions alone, and whether it can answer
at all does not depend on what it holds. That is all the proof needs to know of the two kinds of
stores.

## Main results

* `Contested.updateItem_lost` — no update gets past a rival;
* `WorkItems.beaten_save` — no save does, and one that would have gone through is told the version
  that won, or that the item is gone;
* `Service.contestedScript_lost` — a script that saves an item is not committed, unless it goes on
  after the save has failed.
-/

namespace Backlog

open Tx WorkItems

variable {σ : Type} [Store σ] {rival : Rival}

-- ---------------------------------------------------------------------------
-- Updates
-- ---------------------------------------------------------------------------

/-- What is answered to an update in memory depends on the id alone. -/
theorem Memory.updateItem_congr {item item' : WorkItem} (hid : item'.id = item.id) (m : Memory)
    (expected : Nat) : (m.updateItem item' expected).1 = (m.updateItem item expected).1 := by
  unfold updateItem
  rw [hid]
  split
  · rfl
  · split
    · rfl
    · split <;> rfl

namespace Tables

/-- What is answered to an update in tables depends on the id and the versions alone. -/
theorem updateItem_congr {item item' : WorkItem} (hid : item'.id = item.id)
    (hversion : item'.version = item.version) (t : Tables) (expected : Nat) :
    (t.updateItem item' expected).1 = (t.updateItem item expected).1 := by
  unfold updateItem
  rw [hid, hversion]
  split
  · rfl
  · split
    · rfl
    · split
      · rfl
      · split
        · rfl
        · split <;> rfl

/-- Tables answer an update or not by its versions, which they check before they look at a row. -/
theorem updateItem_answered {t : Tables} {item : WorkItem} {expected : Nat} {r : Bool}
    (h : (t.updateItem item expected).1 = .ok r) (t' : Tables) :
    ∃ r', (t'.updateItem item expected).1 = .ok r' := by
  unfold updateItem at h ⊢
  cases hrow : item.id.row? with
  | none => exact ⟨false, rfl⟩
  | some row =>
    simp only [hrow] at h ⊢
    by_cases hnew : greatestVersion < item.version
    · simp [hnew] at h
    · by_cases hold : greatestVersion < expected
      · simp [hnew, hold] at h
      · rw [if_neg hnew, if_neg hold]
        split
        · exact ⟨_, rfl⟩
        · split <;> exact ⟨_, rfl⟩

end Tables

namespace Backend

variable {b : Backend} {s : b.State}

/-- What is answered to an update depends on the id and the versions alone. -/
theorem updateItem_congr {item item' : WorkItem} (hid : item'.id = item.id)
    (hversion : item'.version = item.version) (s : b.State) (expected : Nat) :
    (Store.updateItem s item' expected).1 = (Store.updateItem s item expected).1 := by
  cases b with
  | memory => exact congrArg Except.ok (Memory.updateItem_congr hid s expected)
  | tables => exact Tables.updateItem_congr hid hversion s expected

/-- Whether an update is answered at all does not depend on what the store holds. -/
theorem updateItem_answered {item : WorkItem} {expected : Nat} {r : Bool}
    (h : (Store.updateItem s item expected).1 = .ok r) (s' : b.State) :
    ∃ r', (Store.updateItem s' item expected).1 = .ok r' := by
  cases b with
  | memory => exact ⟨_, rfl⟩
  | tables => exact Tables.updateItem_answered h s'

/-- An item that is there can be removed. -/
theorem deleteItem_held {row : Int} {i : WorkItem} (h : Store.item? s row = .ok (some i)) :
    (Store.deleteItem s row).1 = .ok true := by
  cases b with
  | memory =>
    have hc : (Memory.items s).contains row = true :=
      Option.isSome_iff_exists.mpr ⟨i, Except.ok.inj h⟩
    exact congrArg (fun e : Bool × Memory => Except.ok e.1) (if_pos hc)
  | tables =>
    obtain ⟨r, hr, -⟩ := Tables.row_of_item? h
    have hc : (Tables.items s).contains row = true := Option.isSome_iff_exists.mpr ⟨r, hr⟩
    exact congrArg (fun e : Bool × Tables => Except.ok e.1) (if_pos hc)

end Backend

/-- The next version is another one, also where the count of versions begins again. -/
theorem nextVersion_ne (version : Nat) : nextVersion version ≠ version := by
  unfold nextVersion
  omega

/-- An update that expects a version which is not there any more is refused. -/
theorem updateItem_late [ItemStore σ] [LawfulStore σ] {s : σ} (hs : ItemStore.Sound s)
    {item : WorkItem} {row : Int} {expected : Nat} (hrow : item.id.row? = some row)
    (hgone : ∀ i, Store.item? s row = .ok (some i) → i.version ≠ expected) :
    ∃ r, Store.updateItem s item expected = (r, s) ∧ r ≠ .ok true := by
  match hw : Store.updateItem s item expected with
  | (r, s') =>
    have hr : r ≠ .ok true := by
      rintro rfl
      obtain ⟨row', old, _, hrow', -, -, -, hold, hversion, -⟩ := ItemStore.updateItem_ok hs hw
      obtain rfl := Option.some.inj (hrow.symm.trans hrow')
      exact hgone old hold hversion
    obtain rfl := LawfulStore.updateItem_refused hw hr
    exact ⟨r, rfl, hr⟩

-- ---------------------------------------------------------------------------
-- What a rival does to an update
-- ---------------------------------------------------------------------------

/-- What a rival leaves in the row of an item that it got hold of. -/
def Rival.Leaves (rival : Rival) (stored : WorkItem) (s : σ) (row : Int) : Prop :=
  if rival = .delete then Store.item? s row = .ok none
  else ∃ i, Store.item? s row = .ok (some i) ∧ i.version = nextVersion stored.version

theorem Rival.Leaves.gone {stored : WorkItem} {s : σ} {row : Int}
    (h : rival.Leaves stored s row) :
    ∀ i, Store.item? s row = .ok (some i) → i.version ≠ stored.version := by
  intro i hi
  unfold Leaves at h
  split at h
  · rw [h] at hi
    exact absurd hi (by simp)
  · obtain ⟨j, hj, hversion⟩ := h
    obtain rfl := Option.some.inj (Except.ok.inj (hi.symm.trans hj))
    rw [hversion]
    exact nextVersion_ne _

namespace Contested

/-- The update comes after what the rival did. -/
theorem updateItem_interfered {c : Contested σ} {item : WorkItem} {expected : Nat} {s : σ}
    (h : c.interfere item expected = (.ok (), s)) :
    Store.updateItem c item expected = c.returning (Store.updateItem s item expected) := by
  simp only [Store.updateItem, h]

theorem updateItem_fault {c : Contested σ} {item : WorkItem} {expected : Nat} {s : σ}
    {fault : StoreFault} (h : c.interfere item expected = (.error fault, s)) :
    Store.updateItem c item expected = (.error fault, { c with store := s }) := by
  simp only [Store.updateItem, h]

variable {b : Backend} {s : b.State} {row : Int} {stored next : WorkItem}

/-- A rival of an update got hold of the item, or neither of the two can be made. What it writes is
what a client may ask for. -/
theorem interfere_cases (hs : b.InOrder s) (hrow : stored.id.row? = some row)
    (hstored : Store.item? s row = .ok (some stored)) (hid : next.id = stored.id)
    (hversion : next.version = nextVersion stored.version) :
    (∃ s', interfere ⟨s, rival⟩ next stored.version = (.ok (), s') ∧ b.InOrder s' ∧
      rival.Leaves stored s' row) ∨
    (interfere ⟨s, rival⟩ next stored.version = (.ok (), s) ∧
      (Store.updateItem s next stored.version).1 = .ok false) ∨
    ∃ fault, interfere ⟨s, rival⟩ next stored.version = (.error fault, s) ∧
      (Store.updateItem s next stored.version).1 = .error fault := by
  have hnext : next.id.row? = some row := by rw [hid, hrow]
  by_cases hrival : rival = .delete
  · have hdelete : interfere ⟨s, rival⟩ next stored.version =
        ((Store.deleteItem s row).1.map fun _ => (), (Store.deleteItem s row).2) := by
      unfold interfere
      simp only [hnext, hstored, hrival, if_true]
    have hw : Store.deleteItem s row = (.ok true, (Store.deleteItem s row).2) :=
      Prod.ext (Backend.deleteItem_held hstored) rfl
    refine .inl ⟨_, hdelete.trans (by rw [hw]; rfl), hs.writes (.delete hrow hw), ?_⟩
    obtain ⟨-, -, -, -, hnone⟩ := ItemStore.deleteItem_ok hs.items hw
    exact (if_pos hrival).mpr hnone
  · have hbump : interfere ⟨s, rival⟩ next stored.version =
        ((Store.updateItem s { stored with version := nextVersion stored.version }
            stored.version).1.map fun _ => (),
          (Store.updateItem s { stored with version := nextVersion stored.version }
            stored.version).2) := by
      unfold interfere
      simp only [hnext, hstored, if_neg hrival]
    -- the rival asks for what is asked of it, but for the fields
    have hanswer : (Store.updateItem s next stored.version).1 = (Store.updateItem s
        { stored with version := nextVersion stored.version } stored.version).1 := by
      refine Backend.updateItem_congr ?_ ?_ s stored.version
      · exact hid
      · exact hversion
    rw [hbump, hanswer]
    match hw : Store.updateItem s { stored with version := nextVersion stored.version }
        stored.version with
    | (.ok true, s') =>
      refine .inl ⟨s', rfl, hs.writes (.save (u := ⟨stored.id, _, ∅⟩) hrow hstored rfl hw), ?_⟩
      obtain ⟨row', _, new, hrow', -, -, -, -, -, hnew, -, hv⟩ :=
        ItemStore.updateItem_ok hs.items hw
      obtain rfl := Option.some.inj (hrow.symm.trans hrow')
      exact (if_neg hrival).mpr ⟨new, hnew, hv⟩
    | (.ok false, s') =>
      obtain rfl := LawfulStore.updateItem_refused hw (by simp)
      exact .inr (.inl ⟨rfl, rfl⟩)
    | (.error fault, s') =>
      obtain rfl := LawfulStore.updateItem_refused hw (by simp)
      exact .inr (.inr ⟨fault, rfl, rfl⟩)

/-- **No update gets past a rival.** One that would have gone through is refused, and then the row
holds what the rival left. -/
theorem updateItem_lost (rival : Rival) (hs : b.InOrder s) (hrow : stored.id.row? = some row)
    (hstored : Store.item? s row = .ok (some stored)) (hid : next.id = stored.id)
    (hversion : next.version = nextVersion stored.version) :
    ∃ r s', Store.updateItem (⟨s, rival⟩ : Contested b.State) next stored.version =
        (r, ⟨s', rival⟩) ∧ b.InOrder s' ∧ r ≠ .ok true ∧
      ((Store.updateItem s next stored.version).1 = .ok true →
        r = .ok false ∧ rival.Leaves stored s' row) := by
  have hnext : next.id.row? = some row := by rw [hid, hrow]
  rcases interfere_cases hs hrow hstored hid hversion with
    ⟨s', hinterfere, hs', hleaves⟩ | ⟨hinterfere, hanswer⟩ | ⟨fault, hinterfere, hanswer⟩
  · obtain ⟨r, hw, hr⟩ := updateItem_late hs'.items hnext hleaves.gone
    have hupdate := updateItem_interfered hinterfere
    rw [hw] at hupdate
    refine ⟨r, s', hupdate, hs', hr, fun hok => ⟨?_, hleaves⟩⟩
    obtain ⟨r', hr'⟩ := Backend.updateItem_answered hok s'
    rw [hw] at hr'
    subst hr'
    cases r' with
    | true => exact absurd rfl hr
    | false => rfl
  · have hw : Store.updateItem s next stored.version = (.ok false, s) :=
      Prod.ext hanswer (LawfulStore.updateItem_refused (Prod.ext hanswer rfl) (by simp))
    have hupdate := updateItem_interfered hinterfere
    rw [hw] at hupdate
    refine ⟨_, s, hupdate, hs, by simp, fun hok => ?_⟩
    exact absurd (hanswer.symm.trans hok) (by simp)
  · refine ⟨_, s, updateItem_fault hinterfere, hs, by simp, fun hok => ?_⟩
    exact absurd (hanswer.symm.trans hok) (by simp)

end Contested

-- ---------------------------------------------------------------------------
-- Saves
-- ---------------------------------------------------------------------------

namespace WorkItems

/-- A save up to where it writes: the row, and what is to be put there. -/
def readied (u : WorkItemUpdate) : Tx σ (Int × WorkItem) := do
  Tx.proceed
  let row ← Tx.ofExcept (rowOf u.id)
  let stored ← fetch row u.id
  Tx.ofExcept (checkVersion stored u.version)
  let t ← type stored.typeName
  let fields ← Tx.ofExcept (t.mergeFields stored.fields u.fields)
  Tx.proceed
  return (row, { stored with version := nextVersion stored.version, fields })

/-- A save that was refused: the item is looked up once more, to tell what is there now. -/
def refused (u : WorkItemUpdate) (row : Int) : Tx σ WorkItem := do
  let actual ← fetch row u.id
  throw (.versionConflict u.id.text u.version actual.version)

/-- A save from where it writes. -/
def written (u : WorkItemUpdate) (row : Int) (next : WorkItem) : Tx σ WorkItem := do
  if ← Tx.change fun s => Store.updateItem s next u.version then return next
  else refused u row

theorem save_eq (u : WorkItemUpdate) :
    (save u : Tx σ WorkItem) = (do
      let e ← readied u
      written u e.1 e.2) := by
  simp only [save, readied, written, refused, bind_assoc, pure_bind]

theorem quiet_readied [LawfulStore σ] (u : WorkItemUpdate) :
    Quiet (readied u : Tx σ (Int × WorkItem)) :=
  .bind .proceed fun _ => .bind (.ofExcept _) fun row => .bind (quiet_fetch row u.id) fun _ =>
    .bind (.ofExcept _) fun _ => .bind (quiet_type _) fun _ => .bind (.ofExcept _) fun _ =>
      .bind .proceed fun _ => .pure _

theorem unnoticed_readied (u : WorkItemUpdate) :
    Unnoticed rival (readied u : Tx σ (Int × WorkItem)) (readied u) :=
  .bind .proceed fun _ => .bind (.ofExcept _) fun row => .bind (unnoticed_fetch row u.id) fun _ =>
    .bind (.ofExcept _) fun _ => .bind (unnoticed_type _) fun _ => .bind (.ofExcept _) fun _ =>
      .bind .proceed fun _ => .pure _

/-- A save that gets to where it writes has found the item at the version it is based on. -/
theorem readied_ok [LawfulStore σ] {o o' : Open σ} {u : WorkItemUpdate} {row : Int}
    {next : WorkItem} (h : (readied u : Tx σ (Int × WorkItem)).steps o = (.ok (row, next), o')) :
    u.id.row? = some row ∧ ∃ stored fields, Store.item? o.store row = .ok (some stored) ∧
      stored.version = u.version ∧
      next = { stored with version := nextVersion stored.version, fields } := by
  rcases steps_proceed_bind_cases h with ⟨hr, -⟩ | hrow
  · exact absurd hr (by simp)
  rcases steps_ofExcept_bind_cases hrow with ⟨_, -, hr, -⟩ | ⟨row', hid, hfetch⟩
  · exact absurd hr (by simp)
  rcases steps_bind_cases hfetch with ⟨_, -, hr⟩ | ⟨stored, o₁, hf, hcheck⟩
  · exact absurd hr (by simp)
  obtain ⟨rfl, ⟨_, he⟩ | ⟨item, hi, hstored⟩⟩ := fetch_cases hf
  · exact absurd he (by simp)
  obtain rfl := Except.ok.inj hi
  rcases steps_ofExcept_bind_cases hcheck with ⟨_, -, hr, -⟩ | ⟨_, hv, htype⟩
  · exact absurd hr (by simp)
  rcases steps_bind_cases htype with ⟨_, -, hr⟩ | ⟨t, o₂, -, hmerge⟩
  · exact absurd hr (by simp)
  rcases steps_ofExcept_bind_cases hmerge with ⟨_, -, hr, -⟩ | ⟨fields, -, hlast⟩
  · exact absurd hr (by simp)
  rcases steps_proceed_bind_cases hlast with ⟨hr, -⟩ | hend
  · exact absurd hr (by simp)
  obtain ⟨hanswer, -⟩ := Prod.mk.inj hend
  obtain ⟨rfl, rfl⟩ := Prod.mk.inj (Except.ok.inj hanswer)
  exact ⟨rowOf_eq_ok hid, stored, fields, by rwa [Open.store_looked] at hstored,
    version_of_check hv, rfl⟩

/-- What a save is told that lost against a rival: which version won, or that the item is gone. -/
def lost (rival : Rival) (u : WorkItemUpdate) (won : Nat) : AccessError :=
  if rival = .delete then missing u.id else .versionConflict u.id.text u.version won

variable {b : Backend} {o : Open b.State} {u : WorkItemUpdate} {row : Int}

/-- How a save ends against a rival that would have ended as told without one. -/
structure Beaten (rival : Rival) (u : WorkItemUpdate) (alone : Except AccessError WorkItem)
    (facing : Except AccessError WorkItem × Open (Contested b.State)) : Prop where
  fails : ∃ e, facing.1 = .error e
  told : ∀ i, alone = .ok i → facing.1 = .error (lost rival u i.version)
  inOrder : ∃ s, facing.2.store = ⟨s, rival⟩ ∧ b.InOrder s

/-- A save that was refused is told what the rival left. -/
theorem steps_refused {stored : WorkItem} {c : Open (Contested b.State)}
    (h : rival.Leaves stored c.store.store row) :
    ((refused u row : Tx (Contested b.State) WorkItem).steps c).1 =
      .error (lost rival u (nextVersion stored.version)) := by
  unfold Rival.Leaves at h
  unfold lost refused
  split at h
  · next hrival =>
    have hfetch : (fetch row u.id : Tx (Contested b.State) WorkItem).steps c =
        (.error (missing u.id), c) := by
      rw [fetch, steps_bind_ok (steps_ask_ok h)]
      rfl
    rw [if_pos hrival, steps_bind_error hfetch]
  · next hrival =>
    obtain ⟨actual, hactual, hversion⟩ := h
    have hfetch : (fetch row u.id : Tx (Contested b.State) WorkItem).steps c = (.ok actual, c) := by
      rw [fetch, steps_bind_ok (steps_ask_ok hactual)]
      rfl
    rw [if_neg hrival, steps_bind_ok hfetch, hversion]
    rfl

/-- A save that was let through up to where it writes loses there. -/
theorem beaten_written (rival : Rival) (hs : b.InOrder o.store) {stored next : WorkItem}
    (hrow : u.id.row? = some row) (hstored : Store.item? o.store row = .ok (some stored))
    (hbased : stored.version = u.version) (hid : next.id = stored.id)
    (hversion : next.version = nextVersion stored.version) :
    Beaten rival u ((written u row next : Tx b.State WorkItem).steps o).1
      ((written u row next).steps (o.facing rival)) := by
  have hplace : stored.id.row? = some row := by
    rw [(ItemStore.item?_placed hs.items hstored).1]
    exact rowOf?_rowText_self hrow
  obtain ⟨r, s, hw, hinOrder, hr, hlost⟩ :=
    Contested.updateItem_lost rival hs hplace hstored hid hversion
  rw [hbased] at hw hlost
  -- what goes through alone has written, so the rival was in time
  have htold : ∀ i, ((written u row next : Tx b.State WorkItem).steps o).1 = .ok i →
      i = next ∧ r = .ok false ∧ rival.Leaves stored s row := by
    intro i hi
    rcases steps_change_bind_cases (Prod.ext hi rfl) with
      ⟨_, _, -, hfail, -⟩ | ⟨wrote, s', hw', hrest⟩
    · exact nomatch hfail
    cases wrote with
    | true =>
      refine ⟨?_, hlost (congrArg Prod.fst hw')⟩
      exact (Except.ok.inj (Prod.mk.inj hrest).1).symm
    | false =>
      rcases steps_bind_cases hrest with ⟨_, -, hfail⟩ | ⟨_, _, -, hfail⟩
      · exact nomatch hfail
      · exact nomatch (Prod.mk.inj hfail).1
  cases r with
  | error fault =>
    have hsteps : (written u row next).steps (o.facing rival) =
        (.error (.internal fault), { o.facing rival with store := ⟨s, rival⟩ }) :=
      steps_bind_error (steps_change_error hw)
    rw [hsteps]
    exact ⟨⟨_, rfl⟩, fun i hi => absurd (htold i hi).2.1 (by simp), s, rfl, hinOrder⟩
  | ok wrote =>
    obtain rfl : wrote = false := Bool.eq_false_iff.mpr fun h => hr (congrArg Except.ok h)
    have hsteps : (written u row next).steps (o.facing rival) =
        (refused u row).steps { o.facing rival with store := ⟨s, rival⟩ } := by
      rw [written, steps_bind_ok (steps_change_ok hw)]
      rfl
    rw [hsteps]
    refine ⟨?_, fun i hi => ?_, s, ?_, hinOrder⟩
    · rcases steps_bind_cases (Prod.eta _).symm with ⟨e, -, he⟩ | ⟨_, _, -, hend⟩
      · exact ⟨e, he⟩
      · exact ⟨_, (Prod.mk.inj hend).1.symm⟩
    · obtain ⟨rfl, -, hleaves⟩ := htold i hi
      rw [hversion]
      exact steps_refused hleaves
    · exact (((quiet_fetch row u.id).bind fun _ => .throw _).stays _).store

/-- **No save gets past a rival.** One that would have gone through is told the version that won, or
that the item is gone; and the store stays in order. -/
theorem beaten_save (rival : Rival) (hs : b.InOrder o.store) (u : WorkItemUpdate) :
    Beaten rival u ((save u : Tx b.State WorkItem).steps o).1
      ((save u).steps (o.facing rival)) := by
  obtain ⟨hanswer, hnext⟩ := unnoticed_readied u o
  have hstore := ((quiet_readied u).stays o).store
  rw [save_eq, save_eq]
  match hready : (readied u : Tx b.State (Int × WorkItem)).steps o,
      hfacing : (readied u : Tx (Contested b.State) (Int × WorkItem)).steps (o.facing rival) with
  | (.error e, o₁), (r, c₁) =>
    rw [hready, hfacing] at hanswer hnext
    rw [hready] at hstore
    obtain rfl : r = .error e := hanswer
    obtain rfl : c₁ = o₁.facing rival := hnext
    rw [steps_bind_error hready, steps_bind_error hfacing]
    refine ⟨⟨e, rfl⟩, fun i hi => (nomatch hi), o₁.store, rfl, ?_⟩
    exact hstore ▸ hs
  | (.ok (row, next), o₁), (r, c₁) =>
    rw [hready, hfacing] at hanswer hnext
    rw [hready] at hstore
    obtain rfl : r = .ok (row, next) := hanswer
    obtain rfl : c₁ = o₁.facing rival := hnext
    rw [steps_bind_ok hready, steps_bind_ok hfacing]
    obtain ⟨hrow, stored, fields, hstored, hbased, rfl⟩ := readied_ok hready
    rw [← hstore] at hstored
    exact beaten_written rival (hstore ▸ hs) hrow hstored hbased rfl rfl

end WorkItems

/-- A rival that makes iterations vanish leaves nothing to save, and nothing is written. -/
theorem Iterations.save_vanished {c c' : Open (Contested σ)} {i : Iteration}
    {r : Except AccessError Iteration} (hrival : c.store.rival = .vanish)
    (h : (save i : Tx (Contested σ) Iteration).steps c = (r, c')) :
    (∃ e, r = .error e) ∧ c'.store = c.store := by
  rcases (quiet_load i.id).bind_cases h with ⟨e, hr, hs⟩ | ⟨stored, c₁, -, hs, hcheck⟩
  · exact ⟨⟨e, hr⟩, hs⟩
  rcases steps_ofExcept_bind_cases hcheck with ⟨e, -, hr, rfl⟩ | ⟨_, -, hstart⟩
  · exact ⟨⟨e, hr⟩, hs⟩
  generalize ({ i with id := stored.id, space := stored.space, parent := stored.parent } :
    Iteration) = next at hstart
  -- whether or not it starts, the iteration is then written into a row that is gone
  have hend : ∀ c₂ : Open (Contested σ), c₂.store = c.store → (do
      Tx.proceed
      if ← Tx.change fun s => Store.updateIteration s next then return next
      else throw (missing next.id) : Tx (Contested σ) Iteration).steps c₂ = (r, c') →
      (∃ e, r = .error e) ∧ c'.store = c.store := by
    intro c₂ hs₂ hwrite
    rcases steps_proceed_bind_cases hwrite with ⟨hr, rfl⟩ | hwrite
    · exact ⟨⟨_, hr⟩, by rw [Open.store_looked, hs₂]⟩
    have hgone : Store.updateIteration c₂.looked.store next = (.ok false, c.store) := by
      rw [Open.store_looked, hs₂]
      exact if_pos hrival
    rw [steps_bind_ok (steps_change_ok hgone)] at hwrite
    obtain ⟨rfl, rfl⟩ := Prod.mk.inj hwrite
    exact ⟨⟨_, rfl⟩, rfl⟩
  split at hstart
  · rcases (quiet_canStart next).bind_cases hstart with ⟨e, hr, hs'⟩ | ⟨_, c₂, -, hs', hrest⟩
    · exact ⟨⟨e, hr⟩, hs'.trans hs⟩
    · exact hend c₂ (hs'.trans hs) hrest
  · exact hend c₁ hs hstart

-- ---------------------------------------------------------------------------
-- Scripts
-- ---------------------------------------------------------------------------

omit [Store σ] in
/-- A transaction on a store with a rival is one that faces the rival. -/
theorem Open.exists_facing {c : Open (Contested σ)} {s : σ} (h : c.store = ⟨s, rival⟩) :
    ∃ o : Open σ, c = o.facing rival ∧ o.store = s := by
  obtain ⟨store, request, cache, effects, notice⟩ := c
  obtain rfl : store = ⟨s, rival⟩ := h
  exact ⟨⟨s, request, cache, effects, notice⟩, rfl, rfl⟩

section Scripts

variable {b : Backend} {o : Open b.State} (config : ServiceConfig)

namespace Request

/-- Who saves what the rival may have got hold of fails, and the store stays in order. -/
theorem facing_raced {q : Request} (hq : q.isRaced rival = true) (hs : b.InOrder o.store) :
    ∃ e, ((q.perform config).steps (o.facing rival)).1 = .error e ∧
      ∃ s, ((q.perform config).steps (o.facing rival)).2.store = ⟨s, rival⟩ ∧ b.InOrder s := by
  match hsteps : (q.perform config).steps (o.facing rival) with
  | (r, c) =>
    cases q with
    | save u =>
      obtain ⟨v, hv, rfl⟩ := steps_map_cases hsteps
      obtain ⟨⟨e, he⟩, -, hinOrder⟩ := WorkItems.beaten_save rival hs u
      rw [hv] at he hinOrder
      obtain rfl : v = .error e := he
      exact ⟨e, rfl, hinOrder⟩
    | saveIteration i =>
      obtain ⟨v, hv, rfl⟩ := steps_map_cases hsteps
      have hvanish : (o.facing rival).store.rival = .vanish := beq_iff_eq.mp hq
      obtain ⟨⟨e, rfl⟩, hstore⟩ := Iterations.save_vanished hvanish hv
      exact ⟨e, rfl, o.store, hstore, hs⟩
    | _ => exact nomatch hq

/-- Whatever is called for, the rival stays and the store stays in order. -/
theorem facing_inOrder (rival : Rival) (q : Request) (hs : b.InOrder o.store) :
    ∃ o' : Open b.State, ((q.perform config).steps (o.facing rival)).2 = o'.facing rival ∧
      b.InOrder o'.store := by
  cases hq : q.isRaced rival with
  | true =>
    obtain ⟨_, -, s, hstore, hinOrder⟩ := facing_raced config hq hs
    obtain ⟨o', ho', rfl⟩ := Open.exists_facing hstore
    exact ⟨o', ho', hinOrder⟩
  | false => exact ⟨_, (unnoticed config hq o).2, Backend.inOrder_perform config q o hs⟩

end Request

/-- A script that saves what the rival may have got hold of fails, unless it goes on after that. -/
theorem Script.run_facing_lost {as : List (Attempt Request)} (hs : b.InOrder o.store)
    (h : ∃ a ∈ as, a.request.isRaced rival = true ∧ a.tried = false) :
    ∃ e, (run (Request.perform config) as (o.facing rival)).result = .error e := by
  induction as generalizing o with
  | nil =>
    obtain ⟨_, ha, -⟩ := h
    exact absurd ha (by simp)
  | cons a rest ih =>
    obtain ⟨o', hnext, hs'⟩ := Request.facing_inOrder config rival a.request hs
    match hsteps : (a.request.perform config).steps (o.facing rival) with
    | (.error e, c) =>
      rw [hsteps] at hnext
      obtain rfl : c = o'.facing rival := hnext
      cases htried : a.tried with
      | false => exact ⟨e, congrArg Run.result (run_cons_error hsteps htried rest)⟩
      | true =>
        rw [run_cons_tried hsteps htried]
        obtain ⟨a', ha', hraced, htried'⟩ := h
        rcases List.mem_cons.mp ha' with rfl | hrest
        · exact absurd (htried.symm.trans htried') (by simp)
        · exact ih hs' ⟨a', hrest, hraced, htried'⟩
    | (.ok reply, c) =>
      rw [hsteps] at hnext
      obtain rfl : c = o'.facing rival := hnext
      rw [run_cons_ok hsteps]
      obtain ⟨a', ha', hraced, htried'⟩ := h
      rcases List.mem_cons.mp ha' with rfl | hrest
      · -- a save does not get past the rival
        obtain ⟨e, he, -⟩ := Request.facing_raced config hraced hs
        rw [hsteps] at he
        exact absurd he (by simp)
      · exact ih hs' ⟨a', hrest, hraced, htried'⟩

end Scripts

namespace Service

/-- **Nobody commits over a rival.** A script that saves an item fails and leaves nothing in the
store, unless it goes on after the save has failed. -/
theorem contestedScript_lost {b : Backend} {s : Service b.State} (hs : b.InOrder s.store)
    (request : Cancellation) {attempts : List (Attempt Request)}
    (h : ∃ a ∈ attempts, a.request.isRaced rival = true ∧ a.tried = false) :
    let facing := (s.contestedScript request rival attempts).1
    (∃ e, facing.result = .error e) ∧ facing.service.store = s.store := by
  unfold contestedScript begin
  cases request.check with
  | error e => exact ⟨⟨e, rfl⟩, rfl⟩
  | ok _ =>
    have hlost : ∃ e, (Script.run (Request.perform s.config) attempts
        (⟨⟨s.store, rival⟩, request, s.cache, .none, none⟩ : Open (Contested b.State))).result =
          .error e :=
      Script.run_facing_lost s.config (o := ⟨s.store, request, s.cache, .none, none⟩) hs h
    obtain ⟨e, he⟩ := hlost
    simp only [he]
    exact ⟨⟨e, rfl⟩, rfl⟩

/-- The rival takes the version that the save is for, and the save is told so. -/
example : ((onStore Memory.new .default).contestedScript .new .bump
    [⟨.create SystemType.bug (.ofList [(SystemField.title, .string "t"),
        (SystemField.state, .string "new")]) ⟨"ann"⟩, false⟩,
      ⟨.save ⟨⟨"1"⟩, 0, .ofList [(SystemField.state, .string "open")]⟩, false⟩]).1.result =
    .error (.versionConflict "1" 0 1) := by
  rfl

end Service

end Backlog
