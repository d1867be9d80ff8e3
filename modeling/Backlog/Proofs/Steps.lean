import Backlog.Request

/-!
# Steps of a transaction, one at a time

A body is a chain of steps, and a step that fails ends the chain. What happened in a chain can
therefore be told from what happened in its parts: either the first step failed and nothing else
was done, or it answered and the rest went on from the transaction that it left.

The names of types are resolved in an order of their own: what the transaction staged, what the
shared cache remembers, what the store says. `WorkItems.resolve` is that order, and looking a type
up answers just what it says.

## Main results

* `Tx.steps_bind_cases` — a chain failed at its first step, or went on after it;
* `Tx.steps_bind_both` — two chains do the same, step by step;
* `WorkItems.type_cases` — looking a type up answers what the transaction says of the name.
-/

namespace Backlog

/-- An outcome that leaves a result is that result. -/
theorem eq_ok_of_toOption {ε α : Type} {r : Except ε α} {a : α} (h : r.toOption = some a) :
    r = .ok a := by
  cases r with
  | error e => exact nomatch h
  | ok b => rw [Option.some.inj h]

namespace Tx

variable {σ α β : Type} {x : Tx σ α} {f : α → Tx σ β} {o o' : Open σ}

-- ---------------------------------------------------------------------------
-- Chains
-- ---------------------------------------------------------------------------

theorem steps_pure (a : α) (o : Open σ) : (pure a : Tx σ α).steps o = (.ok a, o) := rfl

theorem steps_bind_ok {a : α} (h : x.steps o = (.ok a, o')) :
    (x >>= f).steps o = (f a).steps o' := by
  unfold steps at h ⊢
  show ExceptT.bindCont f (x o).1 (x o).2 = f a o'
  rw [h]
  rfl

theorem steps_bind_error {e : AccessError} (h : x.steps o = (.error e, o')) :
    (x >>= f).steps o = (.error e, o') := by
  unfold steps at h ⊢
  show ExceptT.bindCont f (x o).1 (x o).2 = _
  rw [h]
  rfl

/-- A chain failed at its first step, or went on after it. -/
theorem steps_bind_cases {r : Except AccessError β} (h : (x >>= f).steps o = (r, o')) :
    (∃ e, x.steps o = (.error e, o') ∧ r = .error e) ∨
      ∃ a o₁, x.steps o = (.ok a, o₁) ∧ (f a).steps o₁ = (r, o') := by
  match hx : x.steps o with
  | (.ok a, o₁) =>
    rw [steps_bind_ok hx] at h
    exact .inr ⟨a, o₁, rfl, h⟩
  | (.error e, o₁) =>
    rw [steps_bind_error hx] at h
    obtain ⟨rfl, rfl⟩ := Prod.mk.inj h
    exact .inl ⟨e, rfl, rfl⟩

/-- Telling the answer in another way changes nothing but the answer. -/
theorem steps_map_cases {g : α → β} {r : Except AccessError β}
    (h : (do return g (← x) : Tx σ β).steps o = (r, o')) :
    ∃ v, x.steps o = (v, o') ∧ r = v.map g := by
  rcases steps_bind_cases h with ⟨e, hx, rfl⟩ | ⟨a, o₁, hx, hend⟩
  · exact ⟨.error e, hx, rfl⟩
  · obtain ⟨rfl, rfl⟩ := Prod.mk.inj hend
    exact ⟨.ok a, hx, rfl⟩

-- ---------------------------------------------------------------------------
-- The single steps
-- ---------------------------------------------------------------------------

theorem steps_ofExcept (r : Except AccessError α) (o : Open σ) :
    (ofExcept r : Tx σ α).steps o = (r, o) := rfl

theorem steps_look (g : Open σ → α) (o : Open σ) : (look g).steps o = (.ok (g o), o) := rfl

theorem steps_proceed (o : Open σ) :
    (proceed : Tx σ Unit).steps o = (o.looked.request.check, o.looked) := rfl

theorem steps_ask_ok {g : σ → Except StoreFault α} {a : α} (h : g o.store = .ok a) :
    (ask g).steps o = (.ok a, o) := by
  unfold steps ask
  rw [h]

theorem steps_ask_error {g : σ → Except StoreFault α} {fault : StoreFault}
    (h : g o.store = .error fault) : (ask g).steps o = (.error (.internal fault), o) := by
  unfold steps ask
  rw [h]

theorem steps_change_ok {g : σ → Except StoreFault α × σ} {a : α} {s : σ}
    (h : g o.store = (.ok a, s)) : (change g).steps o = (.ok a, { o with store := s }) := by
  unfold steps change
  rw [h]

theorem steps_change_error {g : σ → Except StoreFault α × σ} {fault : StoreFault} {s : σ}
    (h : g o.store = (.error fault, s)) :
    (change g).steps o = (.error (.internal fault), { o with store := s }) := by
  unfold steps change
  rw [h]

/-- A question answered what the store says, or failed with the fault of the store. -/
theorem steps_ask_cases {g : σ → Except StoreFault α} {r : Except AccessError α}
    (h : (ask g).steps o = (r, o')) :
    o' = o ∧ ((∃ a, g o.store = .ok a ∧ r = .ok a) ∨
      ∃ fault, g o.store = .error fault ∧ r = .error (.internal fault)) := by
  match hg : g o.store with
  | .ok a =>
    rw [steps_ask_ok hg] at h
    obtain ⟨rfl, rfl⟩ := Prod.mk.inj h
    exact ⟨rfl, .inl ⟨a, rfl, rfl⟩⟩
  | .error fault =>
    rw [steps_ask_error hg] at h
    obtain ⟨rfl, rfl⟩ := Prod.mk.inj h
    exact ⟨rfl, .inr ⟨fault, rfl, rfl⟩⟩

/-- A write answered what the store says, or failed with the fault of the store. -/
theorem steps_change_cases {g : σ → Except StoreFault α × σ} {r : Except AccessError α}
    (h : (change g).steps o = (r, o')) :
    ∃ s, o' = { o with store := s } ∧ ((∃ a, g o.store = (.ok a, s) ∧ r = .ok a) ∨
      ∃ fault, g o.store = (.error fault, s) ∧ r = .error (.internal fault)) := by
  match hg : g o.store with
  | (.ok a, s) =>
    rw [steps_change_ok hg] at h
    obtain ⟨rfl, rfl⟩ := Prod.mk.inj h
    exact ⟨s, rfl, .inl ⟨a, rfl, rfl⟩⟩
  | (.error fault, s) =>
    rw [steps_change_error hg] at h
    obtain ⟨rfl, rfl⟩ := Prod.mk.inj h
    exact ⟨s, rfl, .inr ⟨fault, rfl, rfl⟩⟩

/-- A chain that begins with a look at the request was stopped there, or went on after it. -/
theorem steps_proceed_bind_cases {y : Unit → Tx σ β} {r : Except AccessError β}
    (h : (proceed >>= y).steps o = (r, o')) :
    (r = .error .cancelled ∧ o' = o.looked) ∨ (y ()).steps o.looked = (r, o') := by
  rcases steps_bind_cases h with ⟨e, hp, hr⟩ | ⟨_, o₁, hp, hrest⟩
  · obtain ⟨hcheck, rfl⟩ := Prod.mk.inj hp
    refine .inl ⟨?_, rfl⟩
    unfold Cancellation.check at hcheck
    split at hcheck
    · rw [hr, ← Except.error.inj hcheck]
    · simp at hcheck
  · obtain ⟨-, rfl⟩ := Prod.mk.inj hp
    exact .inr hrest

/-- A chain that begins with a check failed there, or went on after it. -/
theorem steps_ofExcept_bind_cases {v : Except AccessError α} {r : Except AccessError β}
    (h : (ofExcept v >>= f).steps o = (r, o')) :
    (∃ e, v = .error e ∧ r = .error e ∧ o' = o) ∨ ∃ a, v = .ok a ∧ (f a).steps o = (r, o') := by
  rcases steps_bind_cases h with ⟨e, hv, hr⟩ | ⟨a, o₁, hv, hrest⟩
  · obtain ⟨rfl, rfl⟩ := Prod.mk.inj hv
    exact .inl ⟨e, rfl, hr, rfl⟩
  · obtain ⟨rfl, rfl⟩ := Prod.mk.inj hv
    exact .inr ⟨a, rfl, hrest⟩

/-- A chain that begins with a question failed with the store, or went on with its answer. -/
theorem steps_ask_bind_cases {g : σ → Except StoreFault α} {r : Except AccessError β}
    (h : (ask g >>= f).steps o = (r, o')) :
    (∃ fault, g o.store = .error fault ∧ r = .error (.internal fault) ∧ o' = o) ∨
      ∃ a, g o.store = .ok a ∧ (f a).steps o = (r, o') := by
  rcases steps_bind_cases h with ⟨e, hg, hr⟩ | ⟨a, o₁, hg, hrest⟩
  · obtain ⟨rfl, ⟨_, -, ha⟩ | ⟨fault, hg, he⟩⟩ := steps_ask_cases hg
    · exact absurd ha (by simp)
    · rw [Except.error.inj he] at hr
      exact .inl ⟨fault, hg, hr, rfl⟩
  · obtain ⟨rfl, ⟨b, hg, hb⟩ | ⟨_, -, he⟩⟩ := steps_ask_cases hg
    · rw [Except.ok.inj hb] at hrest
      exact .inr ⟨b, hg, hrest⟩
    · exact absurd he (by simp)

/-- A chain that begins with a write failed with the store, or went on with its answer. -/
theorem steps_change_bind_cases {g : σ → Except StoreFault α × σ} {r : Except AccessError β}
    (h : (change g >>= f).steps o = (r, o')) :
    (∃ fault s, g o.store = (.error fault, s) ∧ r = .error (.internal fault) ∧
      o' = { o with store := s }) ∨
      ∃ a s, g o.store = (.ok a, s) ∧ (f a).steps { o with store := s } = (r, o') := by
  rcases steps_bind_cases h with ⟨e, hg, hr⟩ | ⟨a, o₁, hg, hrest⟩
  · obtain ⟨s, rfl, ⟨_, -, ha⟩ | ⟨fault, hg, he⟩⟩ := steps_change_cases hg
    · exact absurd ha (by simp)
    · rw [Except.error.inj he] at hr
      exact .inl ⟨fault, s, hg, hr, rfl⟩
  · obtain ⟨s, rfl, ⟨b, hg, hb⟩ | ⟨_, -, he⟩⟩ := steps_change_cases hg
    · rw [Except.ok.inj hb] at hrest
      exact .inr ⟨b, s, hg, hrest⟩
    · exact absurd he (by simp)

-- ---------------------------------------------------------------------------
-- Two transactions
-- ---------------------------------------------------------------------------

/-- Two transactions for one request find the same when they look at it next. -/
theorem looked_congr {τ : Type} {p : Open τ} (hrequest : p.request = o.request)
    (hnotice : p.notice = o.notice) :
    p.looked.request = o.looked.request ∧ p.looked.notice = o.looked.notice := by
  unfold Open.looked
  rw [hnotice]
  split
  · exact ⟨hrequest, hnotice⟩
  · exact ⟨by rw [hrequest], rfl⟩
  · exact ⟨hrequest, rfl⟩

/-- Two chains give the same answer and leave their transactions in a relation if their first steps
do so, and if what follows does so after every answer that both first steps gave. -/
theorem steps_bind_both {τ : Type} {y : Tx τ α} {g : α → Tx τ β} {p : Open τ}
    {R : Open σ → Open τ → Prop} (hanswer : (y.steps p).1 = (x.steps o).1)
    (hnext : R (x.steps o).2 (y.steps p).2)
    (hrest : ∀ a o₁ p₁, x.steps o = (.ok a, o₁) → R o₁ p₁ →
      ((g a).steps p₁).1 = ((f a).steps o₁).1 ∧ R ((f a).steps o₁).2 ((g a).steps p₁).2) :
    ((y >>= g).steps p).1 = ((x >>= f).steps o).1 ∧
      R ((x >>= f).steps o).2 ((y >>= g).steps p).2 := by
  match hxo : x.steps o, hyp : y.steps p with
  | (.ok a, o₁), (.ok b, p₁) =>
    rw [hxo, hyp] at hanswer hnext
    obtain rfl := Except.ok.inj hanswer
    rw [steps_bind_ok hxo, steps_bind_ok hyp]
    exact hrest b o₁ p₁ hxo hnext
  | (.error e, o₁), (.error e', p₁) =>
    rw [hxo, hyp] at hanswer hnext
    rw [steps_bind_error hxo, steps_bind_error hyp]
    exact ⟨congrArg Except.error (Except.error.inj hanswer), hnext⟩
  | (.ok a, _), (.error e, _) =>
    rw [hxo, hyp] at hanswer
    exact nomatch hanswer
  | (.error e, _), (.ok a, _) =>
    rw [hxo, hyp] at hanswer
    exact nomatch hanswer

end Tx

-- ---------------------------------------------------------------------------
-- Names of types
-- ---------------------------------------------------------------------------

namespace WorkItems

open Tx

variable {σ : Type} [Store σ]

/-- What a transaction says of a name: the type it knows, or else what the store says. -/
def resolve (o : Open σ) (name : String) : Except StoreFault (Option ItemType) :=
  match knownType? o name with
  | some t => .ok (some t)
  | none => Store.type? o.store name

theorem steps_type_known {o : Open σ} {name : String} {t : ItemType}
    (h : knownType? o name = some t) : (type name : Tx σ ItemType).steps o = (.ok t, o) := by
  unfold type
  rw [steps_bind_ok (steps_look _ o)]
  simp only [h, steps_pure]

/-- Ask the store for a type, and remember it. -/
def askType (name : String) : Tx σ ItemType := do
  match ← Tx.ask fun s => Store.type? s name with
  | some t => stage t
  | none => throw (.badParameter "type" ("unknown work item type '" ++ name ++ "'"))

theorem steps_type_asked {o : Open σ} {name : String} (h : knownType? o name = none) :
    (type name : Tx σ ItemType).steps o = (askType name).steps o := by
  unfold type
  rw [steps_bind_ok (steps_look _ o)]
  simp only [h]
  rfl

/-- Looking a type up answers what the transaction says of the name. A type that is not known yet is
staged as the store has it. -/
theorem type_cases {o o' : Open σ} {name : String} {r : Except AccessError ItemType}
    (h : (type name : Tx σ ItemType).steps o = (r, o')) :
    (∃ t, r = .ok t ∧ resolve o name = .ok (some t) ∧
      (o' = o ∨ knownType? o name = none ∧ Store.type? o.store name = .ok (some t) ∧
        o' = { o with effects := o.effects.stage t })) ∨
      (∃ e, r = .error e) ∧ o' = o := by
  match hknown : knownType? o name with
  | some t =>
    rw [steps_type_known hknown] at h
    obtain ⟨rfl, rfl⟩ := Prod.mk.inj h
    exact .inl ⟨t, rfl, by rw [resolve, hknown], .inl rfl⟩
  | none =>
    rw [steps_type_asked hknown] at h
    rcases steps_ask_bind_cases h with ⟨fault, -, hr, ho⟩ | ⟨found, hfound, hrest⟩
    · exact .inr ⟨⟨_, hr⟩, ho⟩
    · cases found with
      | some t =>
        obtain ⟨rfl, rfl⟩ := Prod.mk.inj hrest
        exact .inl ⟨t, rfl, by rw [resolve, hknown]; exact hfound, .inr ⟨rfl, hfound, rfl⟩⟩
      | none =>
        obtain ⟨rfl, rfl⟩ := Prod.mk.inj hrest
        exact .inr ⟨⟨_, rfl⟩, rfl⟩

end WorkItems

end Backlog
