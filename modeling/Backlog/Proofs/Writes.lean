import Backlog.Proofs.Alike

/-!
# What a call writes

A call of a client does at most one thing to the store, and it does it last: everything that can go
wrong is found out before, or is what the store answers to the write itself. So a call that fails
leaves the store as it was, a call that asks for nothing but an answer does so too, and for each of
the others there is exactly one write that can have gone through, on conditions that held in the
store the call found.

The operations are taken apart one by one (`create_cases`, `save_cases`, …), each with what it had
checked by the time it wrote; `Request.writes` puts them together. The one failure that may leave
something behind is that of a migration whose types the engine refuses half way.

## Main results

* `Request.writes` — every call failed without a trace, only read, or made the write it asks for.
-/

namespace Backlog

-- ---------------------------------------------------------------------------
-- Items and types
-- ---------------------------------------------------------------------------

namespace WorkItems

open Tx

variable {σ : Type} [Store σ] {o o' : Open σ}

theorem rowOf_eq_ok {id : ItemId} {row : Int} (h : rowOf id = .ok row) : id.row? = some row := by
  unfold rowOf at h
  split at h
  · next row' hrow => rw [hrow, Except.ok.inj h]
  · simp at h

theorem version_of_check {stored : WorkItem} {expected : Nat}
    (h : checkVersion stored expected = .ok ()) : stored.version = expected := by
  unfold checkVersion at h
  split at h
  · next he => exact he.symm
  · simp at h

/-- The item of a row is answered from the row, and the transaction stays as it is. -/
theorem fetch_cases {row : Int} {id : ItemId} {r : Except AccessError WorkItem}
    (h : (fetch row id : Tx σ WorkItem).steps o = (r, o')) :
    o' = o ∧ ((∃ e, r = .error e) ∨
      ∃ item, r = .ok item ∧ Store.item? o.store row = .ok (some item)) := by
  rcases steps_ask_bind_cases h with ⟨fault, -, hr, ho⟩ | ⟨found, hask, hrest⟩
  · exact ⟨ho, .inl ⟨_, hr⟩⟩
  · cases found with
    | some item =>
      obtain ⟨hr, ho⟩ := Prod.mk.inj hrest
      exact ⟨ho.symm, .inr ⟨item, hr.symm, hask⟩⟩
    | none =>
      obtain ⟨hr, ho⟩ := Prod.mk.inj hrest
      exact ⟨ho.symm, .inl ⟨_, hr.symm⟩⟩

/-- A creation failed without a trace, or inserted the converted fields at the initial version. -/
theorem create_cases [LawfulStore σ] {name : String} {payload : Payload} {creator : Identity}
    {r : Except AccessError WorkItem}
    (h : (create name payload creator : Tx σ WorkItem).steps o = (r, o')) :
    (∃ e, r = .error e ∧ o'.store = o.store) ∨
      ∃ t o₁ fields i s, (type name : Tx σ ItemType).steps o.looked = (.ok t, o₁) ∧
        t.convertFields (withCreator t payload creator) = .ok fields ∧
        Store.insertItem o.store t.name initialVersion fields = (.ok i, s) ∧
        r = .ok i ∧ o' = { o₁ with store := s } := by
  rcases steps_proceed_bind_cases h with ⟨hr, rfl⟩ | htype
  · exact .inl ⟨_, hr, o.store_looked⟩
  rcases (quiet_type name).bind_cases htype with ⟨e, hr, hs⟩ | ⟨t, o₁, ht, hs, hfields⟩
  · exact .inl ⟨e, hr, hs.trans o.store_looked⟩
  rw [Open.store_looked] at hs
  rcases steps_ofExcept_bind_cases hfields with ⟨e, -, hr, rfl⟩ | ⟨fields, hf, hwrite⟩
  · exact .inl ⟨e, hr, hs⟩
  obtain ⟨s, rfl, ⟨i, hw, rfl⟩ | ⟨fault, hw, rfl⟩⟩ := steps_change_cases hwrite
  · rw [hs] at hw
    exact .inr ⟨t, o₁, fields, i, s, ht, hf, hw, rfl, rfl⟩
  · rw [hs] at hw
    exact .inl ⟨_, rfl, LawfulStore.insertItem_failed hw⟩

/-- A save failed without a trace, or found the item of the row at the version it is based on and
put the next version with the merged fields into its place. -/
theorem save_cases [LawfulStore σ] {u : WorkItemUpdate} {r : Except AccessError WorkItem}
    (h : (save u : Tx σ WorkItem).steps o = (r, o')) :
    (∃ e, r = .error e ∧ o'.store = o.store) ∨
      ∃ row stored t o₁ fields s, u.id.row? = some row ∧
        Store.item? o.store row = .ok (some stored) ∧ stored.version = u.version ∧
        (type stored.typeName : Tx σ ItemType).steps o.looked = (.ok t, o₁) ∧
        t.mergeFields stored.fields u.fields = .ok fields ∧
        Store.updateItem o.store
          { stored with version := nextVersion stored.version, fields } u.version = (.ok true, s) ∧
        r = .ok { stored with version := nextVersion stored.version, fields } ∧
        o' = { o₁.looked with store := s } := by
  rcases steps_proceed_bind_cases h with ⟨hr, rfl⟩ | hrow
  · exact .inl ⟨_, hr, o.store_looked⟩
  rcases steps_ofExcept_bind_cases hrow with ⟨e, -, hr, rfl⟩ | ⟨row, hid, hfetch⟩
  · exact .inl ⟨e, hr, o.store_looked⟩
  rcases steps_bind_cases hfetch with ⟨e, hf, hr⟩ | ⟨stored, o₁, hf, hcheck⟩
  · exact .inl ⟨e, hr, by rw [(fetch_cases hf).1, o.store_looked]⟩
  obtain ⟨rfl, ⟨e, he⟩ | ⟨item, hi, hstored⟩⟩ := fetch_cases hf
  · exact absurd he (by simp)
  obtain rfl := Except.ok.inj hi
  rw [Open.store_looked] at hstored
  rcases steps_ofExcept_bind_cases hcheck with ⟨e, -, hr, rfl⟩ | ⟨_, hv, htype⟩
  · exact .inl ⟨e, hr, o.store_looked⟩
  rcases (quiet_type stored.typeName).bind_cases htype with ⟨e, hr, hs⟩ | ⟨t, o₁, ht, hs, hmerge⟩
  · exact .inl ⟨e, hr, hs.trans o.store_looked⟩
  rw [Open.store_looked] at hs
  rcases steps_ofExcept_bind_cases hmerge with ⟨e, -, hr, rfl⟩ | ⟨fields, hm, hlast⟩
  · exact .inl ⟨e, hr, hs⟩
  -- the last look at the request comes after everything was checked
  rcases steps_proceed_bind_cases hlast with ⟨hr, rfl⟩ | hwrite
  · exact .inl ⟨_, hr, by rw [Open.store_looked, hs]⟩
  rcases steps_change_bind_cases hwrite with ⟨fault, s, hw, hr, rfl⟩ | ⟨b, s, hw, hrest⟩
  · rw [Open.store_looked, hs] at hw
    exact .inl ⟨_, hr, LawfulStore.updateItem_refused hw (by simp)⟩
  rw [Open.store_looked, hs] at hw
  cases b with
  | true =>
    obtain ⟨hr, rfl⟩ := Prod.mk.inj hrest
    exact .inr ⟨row, stored, t, o₁, fields, s, rowOf_eq_ok hid, hstored, version_of_check hv, ht,
      hm, hw, hr.symm, rfl⟩
  | false =>
    -- someone else was faster: nothing was written, and the rest only reads
    have hs' : s = o.store := LawfulStore.updateItem_refused hw (by simp)
    rcases (quiet_fetch row u.id).bind_cases hrest with ⟨e, hr, hs''⟩ | ⟨actual, o₂, -, hs'', hend⟩
    · exact .inl ⟨e, hr, hs''.trans hs'⟩
    · obtain ⟨hr, rfl⟩ := Prod.mk.inj hend
      exact .inl ⟨_, hr.symm, hs''.trans hs'⟩

/-- A deletion failed without a trace, or removed the row. -/
theorem delete_cases [LawfulStore σ] {id : ItemId} {r : Except AccessError Unit}
    (h : (delete id : Tx σ Unit).steps o = (r, o')) :
    (∃ e, r = .error e ∧ o'.store = o.store) ∨
      ∃ row s, id.row? = some row ∧ Store.deleteItem o.store row = (.ok true, s) ∧
        r = .ok () ∧ o' = { o.looked with store := s } := by
  rcases steps_proceed_bind_cases h with ⟨hr, rfl⟩ | hrow
  · exact .inl ⟨_, hr, o.store_looked⟩
  rcases steps_ofExcept_bind_cases hrow with ⟨e, -, hr, rfl⟩ | ⟨row, hid, hwrite⟩
  · exact .inl ⟨e, hr, o.store_looked⟩
  rcases steps_change_bind_cases hwrite with ⟨fault, s, hw, hr, rfl⟩ | ⟨b, s, hw, hrest⟩
  · rw [Open.store_looked] at hw
    exact .inl ⟨_, hr, LawfulStore.deleteItem_refused hw (by simp)⟩
  rw [Open.store_looked] at hw
  obtain ⟨hr, rfl⟩ := Prod.mk.inj hrest
  cases b with
  | true => exact .inr ⟨row, s, rowOf_eq_ok hid, hw, hr.symm, rfl⟩
  | false => exact .inl ⟨_, hr.symm, LawfulStore.deleteItem_refused hw (by simp)⟩

/-- Publishing failed without a trace, or took in a type whose schema is right. -/
theorem publish_cases [LawfulStore σ] {t : ItemType} {r : Except AccessError ItemType}
    (h : (publish t : Tx σ ItemType).steps o = (r, o')) :
    (∃ e, r = .error e ∧ o'.store = o.store) ∨
      ∃ s, checkSchema t = .ok () ∧ Store.insertType o.store t = (.ok true, s) ∧ r = .ok t ∧
        o' = { o.looked with store := s, effects := o.effects.stage t } := by
  rcases steps_proceed_bind_cases h with ⟨hr, rfl⟩ | hcheck
  · exact .inl ⟨_, hr, o.store_looked⟩
  rcases steps_ofExcept_bind_cases hcheck with ⟨e, -, hr, rfl⟩ | ⟨_, hc, hwrite⟩
  · exact .inl ⟨e, hr, o.store_looked⟩
  rcases steps_change_bind_cases hwrite with ⟨fault, s, hw, hr, rfl⟩ | ⟨b, s, hw, hrest⟩
  · rw [Open.store_looked] at hw
    exact .inl ⟨_, hr, LawfulStore.insertType_refused hw (by simp)⟩
  rw [Open.store_looked] at hw
  cases b with
  | true =>
    obtain ⟨hr, rfl⟩ := Prod.mk.inj hrest
    refine .inr ⟨s, hc, hw, hr.symm, ?_⟩
    simp
  | false =>
    obtain ⟨hr, rfl⟩ := Prod.mk.inj hrest
    exact .inl ⟨_, hr.symm, LawfulStore.insertType_refused hw (by simp)⟩

/-- Listing the types leaves the store as it was. -/
theorem store_of_types {r : Except AccessError (List ItemType)}
    (h : (types : Tx σ (List ItemType)).steps o = (r, o')) : o'.store = o.store := by
  rcases steps_proceed_bind_cases h with ⟨-, rfl⟩ | hask
  · exact o.store_looked
  rcases steps_ask_bind_cases hask with ⟨_, -, -, rfl⟩ | ⟨ts, -, hrest⟩
  · exact o.store_looked
  · obtain ⟨-, rfl⟩ := Prod.mk.inj hrest
    exact o.store_looked

/-- A migration failed without a trace, or the store gave up half way, or it replaced the types. -/
theorem migrate_cases {ts : List ItemType} {r : Except AccessError Unit}
    (h : (migrate ts : Tx σ Unit).steps o = (r, o')) :
    (∃ e, r = .error e ∧ o'.store = o.store) ∨
      (∃ fault s, Store.replaceTypes o.store ts = (.error fault, s) ∧
        r = .error (.internal fault) ∧ o' = { o.looked with store := s }) ∨
      ∃ s, checkSchemas ts = .ok () ∧ Store.replaceTypes o.store ts = (.ok (), s) ∧ r = .ok () ∧
        o' = { o.looked with store := s, effects := o.effects.migrate } := by
  rcases steps_proceed_bind_cases h with ⟨hr, rfl⟩ | hcheck
  · exact .inl ⟨_, hr, o.store_looked⟩
  rcases steps_ofExcept_bind_cases hcheck with ⟨e, -, hr, rfl⟩ | ⟨_, hc, hwrite⟩
  · exact .inl ⟨e, hr, o.store_looked⟩
  rcases steps_change_bind_cases hwrite with ⟨fault, s, hw, hr, rfl⟩ | ⟨_, s, hw, hrest⟩
  · rw [Open.store_looked] at hw
    exact .inr (.inl ⟨fault, s, hw, hr, rfl⟩)
  rw [Open.store_looked] at hw
  obtain ⟨hr, rfl⟩ := Prod.mk.inj hrest
  refine .inr (.inr ⟨s, hc, hw, hr.symm, ?_⟩)
  simp

end WorkItems

-- ---------------------------------------------------------------------------
-- Iterations
-- ---------------------------------------------------------------------------

namespace Iterations

open Tx

variable {σ : Type} [Store σ] {o o' : Open σ}

theorem rowOf_eq_ok {id : IterationId} {row : Int} (h : rowOf id = .ok row) :
    id.row? = some row := by
  unfold rowOf at h
  split at h
  · next row' hrow => rw [hrow, Except.ok.inj h]
  · simp at h

/-- An iteration that stands alone in its space, as far as the store can tell: of the others there
none is started. -/
def MayStart (s : σ) (i : Iteration) : Prop :=
  ∃ others, Store.iterations s i.space = .ok others ∧ checkStart i others = .ok ()

theorem load_ok {id : IterationId} {i : Iteration}
    (h : (load id : Tx σ Iteration).steps o = (.ok i, o')) :
    ∃ row, id.row? = some row ∧ Store.iteration? o.store row = .ok (some i) := by
  rcases steps_proceed_bind_cases h with ⟨hr, -⟩ | hrow
  · exact absurd hr (by simp)
  rcases steps_ofExcept_bind_cases hrow with ⟨e, -, hr, -⟩ | ⟨row, hid, hask⟩
  · exact absurd hr (by simp)
  rcases steps_ask_bind_cases hask with ⟨fault, -, hr, -⟩ | ⟨found, hfound, hrest⟩
  · exact absurd hr (by simp)
  rw [Open.store_looked] at hfound
  cases found with
  | some j =>
    obtain rfl := Except.ok.inj (Prod.mk.inj hrest).1
    exact ⟨row, rowOf_eq_ok hid, hfound⟩
  | none => exact absurd (Prod.mk.inj hrest).1 (by simp)

theorem canStart_ok {i : Iteration} (h : (canStart i : Tx σ Unit).steps o = (.ok (), o')) :
    MayStart o.store i := by
  rcases steps_proceed_bind_cases h with ⟨hr, -⟩ | hask
  · exact absurd hr (by simp)
  rcases steps_ask_bind_cases hask with ⟨fault, -, hr, -⟩ | ⟨others, hothers, hcheck⟩
  · exact absurd hr (by simp)
  rw [Open.store_looked] at hothers
  exact ⟨others, hothers, (Prod.mk.inj hcheck).1⟩

/-- The space where an iteration belongs: its own, or that of the iteration that it is a part of. -/
def Fits (s : σ) (i : Iteration) (space : String) : Prop :=
  match i.parent with
  | none => space = i.space
  | some id => ∃ row whole, id.row? = some row ∧ Store.iteration? s row = .ok (some whole) ∧
      space = whole.space

/-- The iteration that another one is to be a part of is there, with its space. -/
theorem Fits.of_parent {s : σ} {i : Iteration} {space : String} (h : Fits s i space)
    {id : IterationId} (hparent : i.parent = some id) :
    ∃ row whole, id.row? = some row ∧ Store.iteration? s row = .ok (some whole) ∧
      space = whole.space := by
  unfold Fits at h
  rwa [hparent] at h

theorem validate_of_check {i : Iteration} (h : check i = .ok ()) : i.validate = .ok () := by
  unfold check at h
  split at h
  · next hvalid => exact hvalid
  · simp at h

/-- Placing an iteration changes its space at most, to the one where it belongs. -/
theorem placed_ok {i j : Iteration} (h : (placed i : Tx σ Iteration).steps o = (.ok j, o')) :
    j = { i with space := j.space } ∧ Fits o.store i j.space := by
  unfold placed at h
  unfold Fits
  cases hp : i.parent with
  | none =>
    simp only [hp] at h
    obtain rfl : i = j := Except.ok.inj (Prod.mk.inj h).1
    exact ⟨by rw [← hp], rfl⟩
  | some id =>
    simp only [hp] at h
    rcases steps_bind_cases h with ⟨e, -, hr⟩ | ⟨whole, o₁, hload, hrest⟩
    · exact absurd hr (by simp)
    · obtain rfl := Except.ok.inj (Prod.mk.inj hrest).1
      obtain ⟨row, hrow, hwhole⟩ := load_ok hload
      exact ⟨rfl, row, whole, hrow, hwhole, rfl⟩

/-- A creation failed without a trace, or inserted the iteration in the space where it belongs,
having seen that nothing is wrong with it there and that it may start if it is to. -/
theorem create_cases [LawfulStore σ] {i : Iteration} {r : Except AccessError Iteration}
    (h : (create i : Tx σ Iteration).steps o = (r, o')) :
    (∃ e, r = .error e ∧ o'.store = o.store) ∨
      ∃ space k, Fits o.store i space ∧ Iteration.validate { i with space } = .ok () ∧
        (i.state = .start → MayStart o.store { i with space }) ∧
        Store.insertIteration o.store { i with space } = (.ok k, o'.store) ∧ r = .ok k := by
  rcases steps_proceed_bind_cases h with ⟨hr, rfl⟩ | hplaced
  · exact .inl ⟨_, hr, o.store_looked⟩
  rcases (quiet_placed i).bind_cases hplaced with ⟨e, hr, hs⟩ | ⟨j, o₁, hj, hs, hcheck⟩
  · exact .inl ⟨e, hr, hs.trans o.store_looked⟩
  rw [Open.store_looked] at hs
  obtain ⟨hplace, hfits⟩ := placed_ok hj
  rw [Open.store_looked] at hfits
  rcases steps_ofExcept_bind_cases hcheck with ⟨e, -, hr, rfl⟩ | ⟨_, hvalid, hrest⟩
  · exact .inl ⟨e, hr, hs⟩
  have hvalid := validate_of_check hvalid
  rw [hplace] at hvalid
  -- however the write is reached, it is the last thing that is done
  have hwrite : ∀ {o₂ : Open σ}, o₂.store = o.store → (i.state = .start → MayStart o.store j) →
      (change fun s => Store.insertIteration s j).steps o₂ = (r, o') →
      (∃ e, r = .error e ∧ o'.store = o.store) ∨
        ∃ space k, Fits o.store i space ∧ Iteration.validate { i with space } = .ok () ∧
          (i.state = .start → MayStart o.store { i with space }) ∧
          Store.insertIteration o.store { i with space } = (.ok k, o'.store) ∧ r = .ok k := by
    intro o₂ hs₂ hstart hw
    obtain ⟨s, rfl, ⟨k, hins, rfl⟩ | ⟨fault, hins, rfl⟩⟩ := steps_change_cases hw
    · rw [hs₂, hplace] at hins
      rw [hplace] at hstart
      exact .inr ⟨j.space, k, hfits, hvalid, hstart, hins, rfl⟩
    · rw [hs₂] at hins
      exact .inl ⟨_, rfl, LawfulStore.insertIteration_failed hins⟩
  have hstate : j.state = i.state := by rw [hplace]
  by_cases hstart : j.state = .start
  · simp only [hstart, if_true] at hrest
    rcases (quiet_canStart j).bind_cases hrest with ⟨e, hr, hs₂⟩ | ⟨_, o₂, hcan, hs₂, hw⟩
    · exact .inl ⟨e, hr, hs₂.trans hs⟩
    · exact hwrite (hs₂.trans hs) (fun _ => hs ▸ canStart_ok hcan) hw
  · simp only [hstart, if_false] at hrest
    exact hwrite hs (fun hi => absurd (hstate.trans hi) hstart) hrest

/-- A save failed without a trace, or changed the iteration of the row in its place, having seen
that nothing is wrong with it there and that it may start if it was not started yet and is to be. -/
theorem save_cases [LawfulStore σ] {i : Iteration} {r : Except AccessError Iteration}
    (h : (save i : Tx σ Iteration).steps o = (r, o')) :
    (∃ e, r = .error e ∧ o'.store = o.store) ∨
      ∃ row stored, i.id.row? = some row ∧ Store.iteration? o.store row = .ok (some stored) ∧
        Iteration.validate
          { i with id := stored.id, space := stored.space, parent := stored.parent } = .ok () ∧
        (i.state = .start → stored.state ≠ .start → MayStart o.store
          { i with id := stored.id, space := stored.space, parent := stored.parent }) ∧
        Store.updateIteration o.store
          { i with id := stored.id, space := stored.space, parent := stored.parent } =
            (.ok true, o'.store) ∧
        r = .ok { i with id := stored.id, space := stored.space, parent := stored.parent } := by
  rcases (quiet_load i.id).bind_cases h with hfail | ⟨stored, o₁, hload, hs, hcheck⟩
  · exact .inl hfail
  obtain ⟨row, hrow, hstored⟩ := load_ok hload
  rcases steps_ofExcept_bind_cases hcheck with ⟨e, -, hr, rfl⟩ | ⟨_, hvalid, hrest⟩
  · exact .inl ⟨e, hr, hs⟩
  have hvalid := validate_of_check hvalid
  generalize hnext : ({ i with id := stored.id, space := stored.space, parent := stored.parent } :
    Iteration) = next at hrest hvalid ⊢
  have hstate : next.state = i.state := by rw [← hnext]
  have hwrite : ∀ {o₂ : Open σ}, o₂.store = o.store →
      (i.state = .start → stored.state ≠ .start → MayStart o.store next) →
      (do
        proceed
        if ← change fun s => Store.updateIteration s next then return next
        else throw (missing next.id) : Tx σ Iteration).steps o₂ = (r, o') →
      (∃ e, r = .error e ∧ o'.store = o.store) ∨
        ∃ row stored, i.id.row? = some row ∧ Store.iteration? o.store row = .ok (some stored) ∧
          Iteration.validate
            { i with id := stored.id, space := stored.space, parent := stored.parent } = .ok () ∧
          (i.state = .start → stored.state ≠ .start → MayStart o.store
            { i with id := stored.id, space := stored.space, parent := stored.parent }) ∧
          Store.updateIteration o.store
            { i with id := stored.id, space := stored.space, parent := stored.parent } =
              (.ok true, o'.store) ∧
          r = .ok { i with id := stored.id, space := stored.space, parent := stored.parent } := by
    intro o₂ hs₂ hstart hw
    rcases steps_proceed_bind_cases hw with ⟨hr, rfl⟩ | hchange
    · exact .inl ⟨_, hr, by rw [Open.store_looked, hs₂]⟩
    rcases steps_change_bind_cases hchange with ⟨fault, s, hup, hr, rfl⟩ | ⟨b, s, hup, hend⟩
    · rw [Open.store_looked, hs₂] at hup
      exact .inl ⟨_, hr, LawfulStore.updateIteration_refused hup (by simp)⟩
    rw [Open.store_looked, hs₂] at hup
    obtain ⟨hr, rfl⟩ := Prod.mk.inj hend
    cases b with
    | true =>
      refine .inr ⟨row, stored, hrow, hstored, ?_⟩
      rw [hnext]
      exact ⟨hvalid, hstart, hup, hr.symm⟩
    | false => exact .inl ⟨_, hr.symm, LawfulStore.updateIteration_refused hup (by simp)⟩
  by_cases hstart : next.state = .start ∧ stored.state ≠ .start
  · simp only [hstart, ne_eq, not_false_eq_true, and_self, if_true] at hrest
    rcases (quiet_canStart next).bind_cases hrest with ⟨e, hr, hs₂⟩ | ⟨_, o₂, hcan, hs₂, hw⟩
    · exact .inl ⟨e, hr, hs₂.trans hs⟩
    · exact hwrite (hs₂.trans hs) (fun _ _ => hs ▸ canStart_ok hcan) hw
  · simp only [hstart, if_false] at hrest
    exact hwrite hs (fun hi hne => absurd ⟨hstate.trans hi, hne⟩ hstart) hrest

end Iterations

-- ---------------------------------------------------------------------------
-- Every call
-- ---------------------------------------------------------------------------

namespace Request

open Tx

variable {σ : Type} [Store σ]

/-- The new iteration that a call asks for. -/
def newIteration? : Request → Option Iteration
  | .createIteration i => some i
  | .createChild parent name startAt endAt =>
    some { Iteration.partOf parent name with startAt, endAt }
  | _ => none

/-- Whether a call asks for a change of the store. -/
def isWrite : Request → Bool
  | .create .. | .save _ | .delete _ | .publish _ | .migrate _ | .createIteration _
  | .createChild .. | .saveIteration _ => true
  | _ => false

/-- What a call made of the store it found, told from its answer. -/
inductive Writes (s : σ) : Request → Except AccessError Reply → σ → Prop
  /-- A failure leaves no trace. -/
  | failed (r : Request) (e : AccessError) : Writes s r (.error e) s
  | read {r : Request} (b : Reply) (hread : r.isWrite = false) : Writes s r (.ok b) s
  | create {name payload creator typeName fields i s'}
      (hw : Store.insertItem s typeName initialVersion fields = (.ok i, s')) :
      Writes s (.create name payload creator) (.ok (.item i)) s'
  | save {u row stored fields s'} (hrow : u.id.row? = some row)
      (hstored : Store.item? s row = .ok (some stored)) (hversion : stored.version = u.version)
      (hw : Store.updateItem s { stored with version := nextVersion stored.version, fields }
        u.version = (.ok true, s')) :
      Writes s (.save u)
        (.ok (.item { stored with version := nextVersion stored.version, fields })) s'
  | delete {id row s'} (hrow : id.row? = some row)
      (hw : Store.deleteItem s row = (.ok true, s')) : Writes s (.delete id) (.ok .done) s'
  | publish {t s'} (hw : Store.insertType s t = (.ok true, s')) :
      Writes s (.publish t) (.ok (.type t)) s'
  | migrate {ts s'} (hw : Store.replaceTypes s ts = (.ok (), s')) :
      Writes s (.migrate ts) (.ok .done) s'
  /-- The store gave up on the types half way. -/
  | halfMigrated {ts fault s'} (hw : Store.replaceTypes s ts = (.error fault, s')) :
      Writes s (.migrate ts) (.error (.internal fault)) s'
  | createIteration {r i space k s'} (hnew : newIteration? r = some i)
      (hstart : i.state = .start → Iterations.MayStart s { i with space })
      (hw : Store.insertIteration s { i with space } = (.ok k, s')) :
      Writes s r (.ok (.iteration k)) s'
  | saveIteration {i row stored s'} (hrow : i.id.row? = some row)
      (hstored : Store.iteration? s row = .ok (some stored))
      (hstart : i.state = .start → stored.state ≠ .start → Iterations.MayStart s
        { i with id := stored.id, space := stored.space, parent := stored.parent })
      (hw : Store.updateIteration s
        { i with id := stored.id, space := stored.space, parent := stored.parent } =
          (.ok true, s')) :
      Writes s (.saveIteration i) (.ok (.iteration
        { i with id := stored.id, space := stored.space, parent := stored.parent })) s'

/-- A call that failed left the store as it was, unless it was a migration that gave up half way. -/
theorem Writes.store_of_error {s s' : σ} {q : Request} {e : AccessError}
    (h : Writes s q (.error e) s') (hwhole : ∀ ts fault, q = .migrate ts → e ≠ .internal fault) :
    s' = s := by
  cases h with
  | failed q e => rfl
  | halfMigrated hw => exact absurd rfl (hwhole _ _ rfl)

variable {o o' : Open σ} {r : Except AccessError Reply}

/-- A call whose work is quiet left the store as it was. -/
theorem writes_of_quiet {α : Type} {q : Request} {x : Tx σ α} {g : α → Reply} (hx : Quiet x)
    (hq : q.isWrite = false) (h : (do return g (← x) : Tx σ Reply).steps o = (r, o')) :
    Writes o.store q r o'.store := by
  obtain ⟨v, hv, rfl⟩ := steps_map_cases h
  have hs := (hx.stays o).store
  rw [hv] at hs
  rw [hs]
  cases v with
  | ok a => exact .read (g a) hq
  | error e => exact .failed q e

/-- **Every call failed without a trace, only read, or made the write it asks for.** -/
theorem writes [LawfulStore σ] (config : ServiceConfig) (q : Request)
    (h : (perform config q : Tx σ Reply).steps o = (r, o')) : Writes o.store q r o'.store := by
  cases q with
  | create name payload creator =>
    unfold perform at h
    obtain ⟨v, hv, rfl⟩ := steps_map_cases h
    rcases WorkItems.create_cases hv with
      ⟨e, rfl, hs⟩ | ⟨t, o₁, fields, i, s, -, -, hw, rfl, rfl⟩
    · rw [hs]
      exact .failed _ e
    · exact .create hw
  | save u =>
    unfold perform at h
    obtain ⟨v, hv, rfl⟩ := steps_map_cases h
    rcases WorkItems.save_cases hv with
      ⟨e, rfl, hs⟩ | ⟨row, stored, t, o₁, fields, s, hrow, hstored, hversion, -, -, hw, rfl, rfl⟩
    · rw [hs]
      exact .failed _ e
    · exact .save hrow hstored hversion hw
  | delete id =>
    unfold perform at h
    rcases steps_bind_cases h with ⟨e, he, rfl⟩ | ⟨_, o₁, he, hend⟩
    · rcases WorkItems.delete_cases he with ⟨-, -, hs⟩ | ⟨_, _, -, -, hr, -⟩
      · rw [hs]
        exact .failed _ e
      · exact absurd hr (by simp)
    · obtain ⟨rfl, rfl⟩ := Prod.mk.inj hend
      rcases WorkItems.delete_cases he with ⟨_, hr, -⟩ | ⟨row, s, hrow, hw, -, rfl⟩
      · exact absurd hr (by simp)
      · exact .delete hrow hw
  | publish t =>
    unfold perform at h
    obtain ⟨v, hv, rfl⟩ := steps_map_cases h
    rcases WorkItems.publish_cases hv with ⟨e, rfl, hs⟩ | ⟨s, -, hw, rfl, rfl⟩
    · rw [hs]
      exact .failed _ e
    · exact .publish hw
  | migrate ts =>
    unfold perform at h
    rcases steps_bind_cases h with ⟨e, he, rfl⟩ | ⟨_, o₁, he, hend⟩
    · rcases WorkItems.migrate_cases he with ⟨-, -, hs⟩ | ⟨fault, s, hw, hr, rfl⟩ | ⟨_, -, -, hr, -⟩
      · rw [hs]
        exact .failed _ e
      · rw [Except.error.inj hr]
        exact .halfMigrated hw
      · exact absurd hr (by simp)
    · obtain ⟨rfl, rfl⟩ := Prod.mk.inj hend
      rcases WorkItems.migrate_cases he with ⟨_, hr, -⟩ | ⟨_, _, -, hr, -⟩ | ⟨s, -, hw, -, rfl⟩
      · exact absurd hr (by simp)
      · exact absurd hr (by simp)
      · exact .migrate hw
  | createIteration i =>
    unfold perform at h
    obtain ⟨v, hv, rfl⟩ := steps_map_cases h
    rcases Iterations.create_cases hv with ⟨e, rfl, hs⟩ | ⟨space, k, -, -, hstart, hw, rfl⟩
    · rw [hs]
      exact .failed _ e
    · exact .createIteration rfl hstart hw
  | createChild parent name startAt endAt =>
    unfold perform at h
    obtain ⟨v, hv, rfl⟩ := steps_map_cases h
    rcases Iterations.create_cases hv with ⟨e, rfl, hs⟩ | ⟨space, k, -, -, hstart, hw, rfl⟩
    · rw [hs]
      exact .failed _ e
    · exact .createIteration rfl hstart hw
  | saveIteration i =>
    unfold perform at h
    obtain ⟨v, hv, rfl⟩ := steps_map_cases h
    rcases Iterations.save_cases hv with
      ⟨e, rfl, hs⟩ | ⟨row, stored, hrow, hstored, -, hstart, hw, rfl⟩
    · rw [hs]
      exact .failed _ e
    · exact .saveIteration hrow hstored hstart hw
  | load id => exact writes_of_quiet (WorkItems.quiet_load id) rfl h
  | list filter offset limit => exact writes_of_quiet (WorkItems.quiet_list _ _ _ _) rfl h
  | listFiltered filter page => exact writes_of_quiet (WorkItems.quiet_listFiltered _ _) rfl h
  | type name => exact writes_of_quiet (WorkItems.quiet_type name) rfl h
  | types =>
    obtain ⟨v, hv, rfl⟩ := steps_map_cases h
    rw [WorkItems.store_of_types hv]
    cases v with
    | ok ts => exact .read (.types ts) rfl
    | error e => exact .failed _ e
  | loadIteration id => exact writes_of_quiet (Iterations.quiet_load id) rfl h
  | listIterations space => exact writes_of_quiet (Iterations.quiet_list space) rfl h
  | canStart i =>
    exact writes_of_quiet (x := Iterations.canStart i) (g := fun _ => .done)
      (Iterations.quiet_canStart i) rfl h
  | counts space => exact writes_of_quiet (Iterations.quiet_counts space) rfl h
  | views space => exact writes_of_quiet (Iterations.quiet_views _ _) rfl h
  | withdraw | withdrawAfter looks | clearCache | cached name =>
    obtain ⟨rfl, rfl⟩ := Prod.mk.inj h
    exact .read _ rfl
  | refuse e =>
    obtain ⟨rfl, rfl⟩ := Prod.mk.inj h
    exact .failed _ e

end Request

end Backlog
