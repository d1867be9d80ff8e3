import Backlog.Store.Tables

/-!
# Documents that a store wrote itself

Rows keep declarations and fields as documents. A document that was written from declarations reads
back as the same declarations, and one that was written from fields has the stored literals of these
fields as its payload. Nothing is lost on the way, so what a row of the store's own holds can be
told from what was put in.

## Main results

* `Document.definitions?_ofDefinitions` — declarations read back as they were;
* `Document.payload?_ofFields` — fields read back as their stored literals;
* `Tables.forall_get?_seed` — what holds of types that are there and of those that are added.
-/

namespace Backlog

open Json (Tree Literal)

namespace Document

theorem text?_ofText (s : String) : (ofText s).text? = some s := text?_ofChars s

/-- A declaration reads back as it was. -/
theorem ofTree?_ofDefinition (d : FieldDefinition) :
    FieldDefinition.ofTree? (ofDefinition d) = some d := by
  have hnamed : Tree.named? [(Literal.ofChars "name".toList, ofText d.name),
      (Literal.ofChars "kind".toList, ofText d.kind.name),
      (Literal.ofChars "required".toList, Tree.bool d.required)] =
      some [("name", ofText d.name), ("kind", ofText d.kind.name),
        ("required", .bool d.required)] := by
    simp only [Tree.named?, text?_ofChars]
  have hkind : FieldKind.ofTree? (ofText d.kind.name) = some d.kind :=
    FieldKind.ofTree?_string _ _ (text?_ofChars d.kind.name)
  rw [ofDefinition, FieldDefinition.ofTree?, hnamed, Option.bind_some]
  show FieldDefinition.ofParts? (ofText d.name) (ofText d.kind.name) (some (.bool d.required)) = _
  simp only [FieldDefinition.ofParts?, text?_ofText, hkind, Tree.bool?, Option.map_some]

theorem ofTrees?_map_ofDefinition (ds : List FieldDefinition) :
    FieldDefinition.ofTrees? (ds.map ofDefinition) = some ds := by
  induction ds with
  | nil => rfl
  | cons d rest ih => rw [List.map_cons, FieldDefinition.ofTrees?, ofTree?_ofDefinition, ih]

/-- Declarations read back as they were. -/
theorem definitions?_ofDefinitions (ds : List FieldDefinition) :
    definitions? (.ofTree (ofDefinitions ds)) = some ds := by
  show FieldDefinition.ofTrees? (ds.map ofDefinition) = some ds
  exact ofTrees?_map_ofDefinition ds

theorem depth_ofValue (v : FieldValue) : (ofValue v).depth = 0 := by
  cases v <;> simp only [ofValue, ofText, Tree.depth]

theorem depthMembers_ofFields (l : List (String × FieldValue)) :
    Tree.depthMembers (l.map fun e => (Literal.ofChars e.1.toList, ofValue e.2)) = 0 := by
  induction l with
  | nil => rfl
  | cons e l ih => rw [List.map_cons, Tree.depthMembers, ih, depth_ofValue, Nat.max_self]

theorem depth_ofFields (fields : Fields) : (ofFields fields).depth = 1 := by
  rw [ofFields, Tree.depth, depthMembers_ofFields]

end Document

namespace SortedMap

variable {κ α : Type} [Ord κ] [Std.TransOrd κ] [Std.LawfulEqOrd κ]

omit [Std.LawfulEqOrd κ] in
/-- A key that lies above all others is put at the end. -/
theorem place_last {k : κ} {a : α} {l : List (κ × α)} (h : ∀ e ∈ l, compare e.1 k = .lt) :
    place k a l = l ++ [(k, a)] := by
  induction l with
  | nil => rfl
  | cons e rest ih =>
    have hgt : compare k e.1 = .gt :=
      Std.OrientedCmp.gt_iff_lt.mpr (h e List.mem_cons_self)
    rw [place, hgt, ih fun e' he => h e' (List.mem_cons_of_mem e he)]
    rfl

theorem entries_insertMany_of_sorted {l : List (κ × α)} {m : SortedMap κ α}
    (h : (m.entries ++ l).Pairwise (fun a b => compare a.1 b.1 = .lt)) :
    (m.insertMany l).entries = m.entries ++ l := by
  induction l generalizing m with
  | nil => simp [insertMany]
  | cons e rest ih =>
    have hlast : (m.insert e.1 e.2).entries = m.entries ++ [e] :=
      place_last fun x hx => (List.pairwise_append.mp h).2.2 x hx e List.mem_cons_self
    have hstep := ih (m := m.insert e.1 e.2) (by rw [hlast, List.append_assoc]; exact h)
    rw [hlast, List.append_assoc] at hstep
    exact hstep

/-- The entries of a map make that map again. -/
theorem ofList_entries (m : SortedMap κ α) : ofList m.entries = m :=
  ext_entries (entries_insertMany_of_sorted (m := empty) (by simpa [empty] using m.sorted))

end SortedMap

namespace Document

/-- Fields read back as their stored literals. -/
theorem payload?_ofFields (fields : Fields) :
    payload? (.ofTree (ofFields fields)) = some fields.toPayload := by
  have hdepth : (StoredDocument.ofTree (ofFields fields)).tree.depth ≤ Json.greatestDepth := by
    show (ofFields fields).depth ≤ 127
    rw [depth_ofFields]
    omega
  have hvalue : (StoredDocument.ofTree (ofFields fields)).tree.value? =
      some (.object fields.toPayload.entries) := by
    show (ofFields fields).value? = _
    rw [value?_ofFields, SortedMap.ofList_entries]
    rfl
  rw [payload?, if_pos ⟨rfl, hdepth⟩, hvalue]
  show some (SortedMap.ofList fields.toPayload.entries) = _
  rw [SortedMap.ofList_entries]

end Document

namespace Tables

/-- The row of a type that was written by the store decodes as that type. -/
theorem decodeType_definitionsOf (t : ItemType) : decodeType t.name (definitionsOf t) = .ok t := by
  rw [decodeType, definitionsOf, Document.definitions?_ofDefinitions]

/-- What holds of the types that were there and of those that are added holds of all of them. -/
theorem forall_get?_seed {P : String → StoredDocument → Prop} {ts : List ItemType}
    {types : SortedMap String StoredDocument}
    (h : ∀ name doc, types.get? name = some doc → P name doc)
    (hts : ∀ type ∈ ts, P type.name (definitionsOf type)) :
    ∀ name doc, (seed types ts).get? name = some doc → P name doc := by
  induction ts generalizing types with
  | nil => exact h
  | cons type rest ih =>
    have hrest : ∀ t ∈ rest, P t.name (definitionsOf t) := fun t ht =>
      hts t (List.mem_cons_of_mem type ht)
    rw [seed, List.foldl_cons]
    split
    · exact ih h hrest
    · exact ih (SortedMap.forall_get?_insert h (hts type List.mem_cons_self)) hrest

end Tables

end Backlog
