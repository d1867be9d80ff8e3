import Backlog.Catalog

/-!
# What the catalog of field kinds says

The catalog is built by one pass over the declarations. An entry is unseen, has one kind, or is in
conflict, and one more declaration takes the join of the entry with its own kind: an unseen entry
takes the kind, an entry of that kind stays, and everything else is in conflict from then on. So the
pass ends in a kind exactly when there was something to see and all of it was of that kind. That
says nothing about order or about repetitions, and nothing that is seen later ends a conflict.

## Main results

* `Catalog.noted_eq_some_iff` — what one more declaration leaves;
* `Catalog.foldl_noted_eq_some_iff` — what a pass over declarations leaves;
* `Catalog.kinds_exact` — the kind of a field is the one that all its declarations have, whatever
  their order.
-/

namespace Backlog

namespace Catalog

-- ---------------------------------------------------------------------------
-- One pass over declarations
-- ---------------------------------------------------------------------------

/-- An entry has a kind after a declaration when the declaration has it, and the entry was unseen or
had that kind before. -/
theorem noted_eq_some_iff {known : Option (Option FieldKind)} {kind kind' : FieldKind} :
    noted known kind' = some kind ↔
      kind' = kind ∧ (known = none ∨ known = some (some kind)) := by
  unfold noted
  split
  · simp
  · next k =>
    split
    · next hsame => simp [hsame, eq_comm]
    · next hother =>
      constructor
      · intro h
        exact absurd h (by simp)
      · rintro ⟨rfl, h | h⟩
        · simp at h
        · exact absurd (Option.some.inj h) hother

/-- An entry has a kind after a pass over declarations of its field when all of them have it, and
the entry had it before, or was unseen and was seen in the pass. -/
theorem foldl_noted_eq_some_iff {ds : List FieldDefinition} {known : Option (Option FieldKind)}
    {kind : FieldKind} :
    ds.foldl (fun known d => some (noted known d.kind)) known = some (some kind) ↔
      (known = some (some kind) ∨ known = none ∧ ∃ d, d ∈ ds) ∧ ∀ d ∈ ds, d.kind = kind := by
  induction ds generalizing known with
  | nil => simp
  | cons d ds ih =>
    rw [List.foldl_cons, ih, Option.some.injEq, noted_eq_some_iff]
    constructor
    · rintro ⟨⟨hd, hknown⟩ | ⟨hnone, -⟩, hds⟩
      · exact ⟨hknown.symm.imp_right fun h => ⟨h, d, List.mem_cons_self⟩,
          List.forall_mem_cons.mpr ⟨hd, hds⟩⟩
      · exact absurd hnone (by simp)
    · rintro ⟨hknown, hall⟩
      obtain ⟨hd, hds⟩ := List.forall_mem_cons.mp hall
      exact ⟨.inl ⟨hd, (hknown.imp_right And.left).symm⟩, hds⟩

-- ---------------------------------------------------------------------------
-- The catalog of types
-- ---------------------------------------------------------------------------

/-- One of the types declares a field so. -/
def Declares (ts : List ItemType) (d : FieldDefinition) : Prop := ∃ t ∈ ts, d ∈ t.fields

theorem Declares.append_left {ts : List ItemType} {d : FieldDefinition} (h : Declares ts d)
    (us : List ItemType) : Declares (ts ++ us) d :=
  have ⟨t, ht, hd⟩ := h
  ⟨t, List.mem_append_left us ht, hd⟩

/-- A field has a kind exactly when it is declared, and all its declarations have that kind. -/
theorem kind?_ofTypes_eq_some_iff {ts : List ItemType} {name : String} {kind : FieldKind} :
    (ofTypes ts).kind? name = some kind ↔
      (∃ d, Declares ts d ∧ d.name = name) ∧
        ∀ d, Declares ts d → d.name = name → d.kind = kind := by
  have hmem : ∀ d, d ∈ (ts.flatMap ItemType.fields).filter (fun d => d.name = name) ↔
      Declares ts d ∧ d.name = name := by
    simp [Declares]
  have hunseen : empty.kinds.get? name = none := rfl
  rw [kind?, Option.join_eq_some_iff, ofTypes, get?_declareAll, foldl_noted_eq_some_iff, hunseen]
  simp [hmem]

/-- What types declare decides the kinds of all fields. -/
theorem kind?_ofTypes_congr {ts us : List ItemType} (h : ∀ d, Declares us d ↔ Declares ts d)
    (name : String) : (ofTypes us).kind? name = (ofTypes ts).kind? name :=
  Option.ext fun kind => by simp only [kind?_ofTypes_eq_some_iff, h]

/-- A field that is declared with two kinds has none. -/
theorem kind?_ofTypes_eq_none {ts : List ItemType} {d e : FieldDefinition} (hd : Declares ts d)
    (he : Declares ts e) (hname : d.name = e.name) (hkind : d.kind ≠ e.kind) :
    (ofTypes ts).kind? e.name = none := by
  refine Option.eq_none_iff_forall_ne_some.mpr fun kind hkind? => hkind ?_
  obtain ⟨-, hall⟩ := kind?_ofTypes_eq_some_iff.mp hkind?
  exact (hall d hd hname).trans (hall e he rfl).symm

/-- **The catalog is exact and free of order**: a field has a kind exactly when some type declares
it and every declaration of it, in all the types, has that kind; types with the same declarations,
in any order and any number of times, give every field the same kind; and a field that is declared
with two kinds has none, whatever types follow. -/
theorem kinds_exact (ts : List ItemType) (name : String) :
    (∀ kind, (ofTypes ts).kind? name = some kind ↔
      (∃ d, Declares ts d ∧ d.name = name) ∧
        ∀ d, Declares ts d → d.name = name → d.kind = kind) ∧
    (∀ us, (∀ d, Declares us d ↔ Declares ts d) →
      (ofTypes us).kind? name = (ofTypes ts).kind? name) ∧
    ∀ d e, Declares ts d → Declares ts e → d.name = name → e.name = name → d.kind ≠ e.kind →
      ∀ us, (ofTypes (ts ++ us)).kind? name = none := by
  refine ⟨fun _ => kind?_ofTypes_eq_some_iff, fun us hus => kind?_ofTypes_congr hus name, ?_⟩
  rintro d e hd he hname rfl hkind us
  exact kind?_ofTypes_eq_none (hd.append_left us) (he.append_left us) hname hkind

/-- One type counts points as numbers, another one as a text. Their owners agree, in both orders and
with a type twice; the points have no kind, also when a third type counts them as the first does. -/
theorem kinds_exact_points :
    let points : ItemType :=
      ⟨"a", [⟨"points", .integer, false⟩, ⟨"owner", .identifier, false⟩]⟩
    let texts : ItemType := ⟨"b", [⟨"points", .string, false⟩, ⟨"owner", .identifier, false⟩]⟩
    (ofTypes [points, texts]).kind? "owner" = some .identifier ∧
      (ofTypes [texts, points, texts]).kind? "owner" = (ofTypes [points, texts]).kind? "owner" ∧
      (ofTypes ([points, texts] ++ [points])).kind? "points" = none := by
  intro points texts
  obtain ⟨-, hsame, -⟩ := kinds_exact [points, texts] "owner"
  obtain ⟨-, -, hlost⟩ := kinds_exact [points, texts] "points"
  refine ⟨by decide, hsame [texts, points, texts] fun d => ?_, ?_⟩
  · simpa [Declares, or_comm] using Or.inr
  · exact hlost ⟨"points", .integer, false⟩ ⟨"points", .string, false⟩ ⟨points, .head _, .head _⟩
      ⟨texts, .tail _ (.head _), .head _⟩ rfl rfl (by decide) [points]

end Catalog

end Backlog
