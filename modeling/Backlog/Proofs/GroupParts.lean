import Backlog.Proofs.WrittenFilters

/-!
# The two parts of a group

The document of a group has two parts. The first equality of every field stands in the open, under
the name of its field, and all the other members stand in the list, in their order. Which member
stands where is decided from the first member to the last one, by what is in the open so far. So of
equalities of different fields all stand in the open, wherever they come in the group, and of a
group without equalities all members stand in the list.

## Main results

* `Filter.cons_cases` — where the next member of a group is put;
* `Filter.flatten_snd`, `Filter.length_flatten` — every member stands in one of the parts;
* `Filter.exists_of_get?_flatten` — what stands in the open are equalities of the group;
* `Filter.flatten_one_listed` — of equalities of different fields and one member more one is listed.
-/

namespace Backlog

namespace SortedMap

variable {κ α : Type} [Ord κ] [Std.TransOrd κ] [Std.LawfulEqOrd κ]

omit [Std.LawfulEqOrd κ] in
/-- A new key comes between the entries below it and the entries above it. -/
theorem place_new {k : κ} (a : α) {l : List (κ × α)}
    (hsorted : l.Pairwise fun a b => compare a.1 b.1 = .lt) (hnew : find k l = none) :
    ∃ below above, l = below ++ above ∧ place k a l = below ++ (k, a) :: above ∧
      (∀ e ∈ below, compare e.1 k = .lt) ∧ ∀ e ∈ above, compare k e.1 = .lt := by
  induction l with
  | nil => exact ⟨[], [], rfl, rfl, nofun, nofun⟩
  | cons e rest ih =>
    obtain ⟨hlow, hrest⟩ := List.pairwise_cons.mp hsorted
    rw [find] at hnew
    cases hcompare : compare k e.1 with
    | lt =>
      refine ⟨[], e :: rest, rfl, by rw [place, hcompare]; rfl, nofun, ?_⟩
      exact List.forall_mem_cons.mpr
        ⟨hcompare, fun e' he' => Std.TransCmp.lt_trans hcompare (hlow e' he')⟩
    | eq => simp [hcompare] at hnew
    | gt =>
      obtain ⟨below, above, rfl, hplace, hbelow, habove⟩ :=
        ih hrest (by simpa [hcompare] using hnew)
      refine ⟨e :: below, above, rfl, by rw [place, hcompare, hplace]; rfl, ?_, habove⟩
      exact List.forall_mem_cons.mpr ⟨Std.OrientedCmp.gt_iff_lt.mp hcompare, hbelow⟩

theorem insert_of_get? [DecidableEq κ] {m : SortedMap κ α} {k : κ} {a : α} (h : m.get? k = some a) :
    m.insert k a = m := by
  refine ext_get? fun k' => ?_
  rw [get?_insert]
  split
  · next e => rw [e, h]
  · rfl

omit [Std.TransOrd κ] [Std.LawfulEqOrd κ] in
theorem find_append (k : κ) (l l' : List (κ × α)) :
    find k (l ++ l') = (find k l).or (find k l') := by
  induction l with
  | nil => rfl
  | cons e rest ih =>
    rw [List.cons_append, find, find, ih]
    split <;> rfl

theorem get?_ofList [DecidableEq κ] {l : List (κ × α)} (h : (l.map Prod.fst).Nodup) (k : κ) :
    (ofList l).get? k = find k l := by
  rw [ofList, get?_insertMany h]
  exact Option.or_none

theorem insertMany_ofList (l l' : List (κ × α)) : (ofList l).insertMany l' = ofList (l ++ l') := by
  rw [ofList, ofList, insertMany, insertMany, insertMany, List.foldl_append]

theorem entries_insert_new {m : SortedMap κ α} {k : κ} (a : α) (h : m.get? k = none) :
    ∃ below above, m.entries = below ++ above ∧
      (m.insert k a).entries = below ++ (k, a) :: above ∧
      (∀ e ∈ below, compare e.1 k = .lt) ∧ ∀ e ∈ above, compare k e.1 = .lt :=
  place_new a m.sorted h

theorem length_insert_new {m : SortedMap κ α} {k : κ} (a : α) (h : m.get? k = none) :
    (m.insert k a).entries.length = m.entries.length + 1 := by
  obtain ⟨below, above, hm, hinsert, -, -⟩ := entries_insert_new a h
  rw [hm, hinsert, List.length_append, List.length_append, List.length_cons, Nat.add_assoc]

end SortedMap

namespace Filter

-- ---------------------------------------------------------------------------
-- What stands in the list
-- ---------------------------------------------------------------------------

/-- Whether a filter is an equality. -/
def isEquality : Filter → Bool
  | .equals _ _ => true
  | _ => false

theorem isEquality_iff {f : Filter} :
    f.isEquality = true ↔ ∃ field value, f = .equals field value := by
  cases f <;> simp [isEquality]

/-- The members of a group that stand in its list, if some fields stand in the open already. -/
def listed (flat : SortedMap String Json) : List Filter → List Filter
  | [] => []
  | .equals field value :: rest =>
    if flat.contains field then .equals field value :: listed flat rest
    else listed (flat.insert field value.toJson) rest
  | f :: rest => f :: listed flat rest

theorem flatten_nil (flat : SortedMap String Json) : flatten flat [] = (flat, []) := by
  simp only [flatten]

/-- The first member of a group is put in the list, where it is an equality only if its field
stands in the open already, or it is an equality that is put in the open. -/
theorem cons_cases (flat : SortedMap String Json) (f : Filter) (rest : List Filter) :
    (flatten flat (f :: rest) = ((flatten flat rest).1, f.toJson :: (flatten flat rest).2) ∧
      listed flat (f :: rest) = f :: listed flat rest ∧
      ∀ field value, f = .equals field value → ∃ j, flat.get? field = some j) ∨
    ∃ field value, f = .equals field value ∧ flat.get? field = none ∧
      flatten flat (f :: rest) = flatten (flat.insert field value.toJson) rest ∧
      listed flat (f :: rest) = listed (flat.insert field value.toJson) rest := by
  by_cases hf : f.isEquality = true
  · obtain ⟨field, value, rfl⟩ := isEquality_iff.mp hf
    rw [flatten_cons_equals, listed]
    cases hget : flat.get? field with
    | some j =>
      have hin : flat.contains field = true := by simp [SortedMap.contains, hget]
      refine .inl ⟨if_pos hin, if_pos hin, ?_⟩
      rintro _ _ ⟨⟩
      exact ⟨j, hget⟩
    | none =>
      have hout : ¬ flat.contains field = true := by simp [SortedMap.contains, hget]
      exact .inr ⟨field, value, rfl, hget, if_neg hout, if_neg hout⟩
  · have hne : ∀ field value, f ≠ .equals field value := fun field value h =>
      hf (isEquality_iff.mpr ⟨field, value, h⟩)
    refine .inl ⟨flatten_cons_of_ne hne flat rest, ?_, fun field value h => absurd h (hne _ _)⟩
    cases f with
    | equals field value => exact absurd rfl (hne field value)
    | _ => rw [listed]; simp

/-- The list holds the documents of the members that stand in it. -/
theorem flatten_snd (fs : List Filter) (flat : SortedMap String Json) :
    (flatten flat fs).2 = (listed flat fs).map toJson := by
  induction fs generalizing flat with
  | nil => rw [flatten_nil, listed, List.map_nil]
  | cons f rest ih =>
    rcases cons_cases flat f rest with ⟨hflatten, hlisted, -⟩ | ⟨_, _, -, -, hflatten, hlisted⟩
    · rw [hflatten, hlisted, ih, List.map_cons]
    · rw [hflatten, hlisted, ih]

/-- Every member stands in the open or in the list. -/
theorem length_flatten (fs : List Filter) (flat : SortedMap String Json) :
    (flatten flat fs).1.entries.length + (listed flat fs).length =
      flat.entries.length + fs.length := by
  induction fs generalizing flat with
  | nil => simp [flatten_nil, listed]
  | cons f rest ih =>
    rcases cons_cases flat f rest with ⟨hflatten, hlisted, -⟩ | ⟨_, _, -, hnew, hflatten, hlisted⟩
    · have := ih flat
      simp only [hflatten, hlisted, List.length_cons]
      omega
    · rw [hflatten, hlisted, ih, SortedMap.length_insert_new _ hnew, List.length_cons]
      omega

theorem mem_of_mem_listed {fs : List Filter} {flat : SortedMap String Json} {f : Filter}
    (h : f ∈ listed flat fs) : f ∈ fs := by
  induction fs generalizing flat with
  | nil => simp [listed] at h
  | cons g rest ih =>
    rcases cons_cases flat g rest with ⟨-, hlisted, -⟩ | ⟨_, _, -, -, -, hlisted⟩
    · rw [hlisted] at h
      rcases List.mem_cons.mp h with rfl | h
      · exact List.mem_cons_self
      · exact List.mem_cons_of_mem g (ih h)
    · rw [hlisted] at h
      exact List.mem_cons_of_mem g (ih h)

/-- Only equalities are not put in the list. -/
theorem mem_listed_or_isEquality {fs : List Filter} (flat : SortedMap String Json) {f : Filter}
    (h : f ∈ fs) : f ∈ listed flat fs ∨ f.isEquality = true := by
  induction fs generalizing flat with
  | nil => exact nomatch h
  | cons g rest ih =>
    rcases cons_cases flat g rest with
      ⟨-, hlisted, -⟩ | ⟨field, value, rfl, -, -, hlisted⟩
    · rw [hlisted]
      rcases List.mem_cons.mp h with rfl | h
      · exact .inl List.mem_cons_self
      · exact (ih flat h).imp_left (List.mem_cons_of_mem g)
    · rw [hlisted]
      rcases List.mem_cons.mp h with rfl | h
      · exact .inr rfl
      · exact ih _ h

-- ---------------------------------------------------------------------------
-- What stands in the open
-- ---------------------------------------------------------------------------

/-- What stands in the open stays there. -/
theorem get?_flatten_of_some {fs : List Filter} {flat : SortedMap String Json} {field : String}
    {j : Json} (h : flat.get? field = some j) : (flatten flat fs).1.get? field = some j := by
  induction fs generalizing flat with
  | nil => rwa [flatten_nil]
  | cons f rest ih =>
    rcases cons_cases flat f rest with ⟨hflatten, -⟩ | ⟨other, value, -, hnew, hflatten, -⟩
    · rw [hflatten]
      exact ih h
    · have hne : field ≠ other := fun e => by simp [e, hnew] at h
      rw [hflatten]
      exact ih (by rw [SortedMap.get?_insert, if_neg hne, h])

/-- Every field of an equality stands in the open. -/
theorem exists_get?_flatten {fs : List Filter} (flat : SortedMap String Json) {field : String}
    {value : FieldValue} (h : .equals field value ∈ fs) :
    ∃ j, (flatten flat fs).1.get? field = some j := by
  induction fs generalizing flat with
  | nil => exact nomatch h
  | cons f rest ih =>
    rcases cons_cases flat f rest with ⟨hflatten, -, hopen⟩ | ⟨other, value', hf, -, hflatten, -⟩
    · rw [hflatten]
      rcases List.mem_cons.mp h with hf | h
      · obtain ⟨j, hj⟩ := hopen field value hf.symm
        exact ⟨j, get?_flatten_of_some hj⟩
      · exact ih flat h
    · rw [hflatten]
      rcases List.mem_cons.mp h with hhead | h
      · obtain ⟨rfl, rfl⟩ := equals.inj (hhead.trans hf)
        exact ⟨value.toJson, get?_flatten_of_some (SortedMap.get?_insert_self _ _ _)⟩
      · exact ih _ h

/-- What is put in the open are equalities of the group. -/
theorem exists_of_get?_flatten {fs : List Filter} {flat : SortedMap String Json} {field : String}
    {j : Json} (h : (flatten flat fs).1.get? field = some j) :
    flat.get? field = some j ∨ ∃ value, .equals field value ∈ fs ∧ value.toJson = j := by
  induction fs generalizing flat with
  | nil =>
    rw [flatten_nil] at h
    exact .inl h
  | cons f rest ih =>
    have hlater : ∀ {flat : SortedMap String Json},
        (flatten flat rest).1.get? field = some j →
        flat.get? field = some j ∨ ∃ value, .equals field value ∈ f :: rest ∧ value.toJson = j :=
      fun h => (ih h).imp_right fun ⟨value, hm, hj⟩ => ⟨value, List.mem_cons_of_mem f hm, hj⟩
    rcases cons_cases flat f rest with ⟨hflatten, -⟩ | ⟨other, value, rfl, -, hflatten, -⟩
    · rw [hflatten] at h
      exact hlater h
    · rw [hflatten] at h
      rcases hlater h with hflat | hrest
      · rw [SortedMap.get?_insert] at hflat
        split at hflat
        · next e => exact .inr ⟨value, e ▸ List.mem_cons_self, Option.some.inj hflat⟩
        · exact .inl hflat
      · exact .inr hrest

/-- A group without equalities stands in the list altogether. -/
theorem flatten_of_no_equality {fs : List Filter} (h : ∀ f ∈ fs, f.isEquality = false)
    (flat : SortedMap String Json) : flatten flat fs = (flat, fs.map toJson) := by
  induction fs with
  | nil => rw [flatten_nil, List.map_nil]
  | cons f rest ih =>
    obtain ⟨hf, hrest⟩ := List.forall_mem_cons.mp h
    rcases cons_cases flat f rest with ⟨hflatten, -⟩ | ⟨_, _, rfl, -⟩
    · rw [hflatten, ih hrest, List.map_cons]
    · exact nomatch hf

/-- The equality of a field and a value. -/
def ofPair (e : String × FieldValue) : Filter := .equals e.1 e.2

/-- The member of a document that the equality of a field and a value is written as. -/
def memberOf (e : String × FieldValue) : String × Json := (e.1, e.2.toJson)

theorem map_fst_memberOf (ps : List (String × FieldValue)) :
    (ps.map memberOf).map Prod.fst = ps.map Prod.fst := by
  rw [List.map_map]
  rfl

/-- Equalities of different new fields are put in the open. -/
theorem flatten_ofPair {ps : List (String × FieldValue)} (hdistinct : (ps.map Prod.fst).Nodup)
    {flat : SortedMap String Json} (hnew : ∀ e ∈ ps, flat.get? e.1 = none) (rest : List Filter) :
    flatten flat (ps.map ofPair ++ rest) = flatten (flat.insertMany (ps.map memberOf)) rest := by
  induction ps generalizing flat with
  | nil => rfl
  | cons e ps ih =>
    obtain ⟨hfirst, hdistinct⟩ := List.nodup_cons.mp hdistinct
    obtain ⟨he, hnew⟩ := List.forall_mem_cons.mp hnew
    have hnext : ∀ e' ∈ ps, (flat.insert e.1 e.2.toJson).get? e'.1 = none := by
      intro e' he'
      have hne : e'.1 ≠ e.1 := fun heq => hfirst (heq ▸ List.mem_map_of_mem he')
      rw [SortedMap.get?_insert, if_neg hne, hnew e' he']
    rw [List.map_cons, List.cons_append, ofPair, flatten_cons_equals,
      if_neg (by simp [SortedMap.contains, he]), ih hdistinct hnext]
    rfl

/-- What the equalities of different fields are written as. -/
theorem flatten_map_ofPair {ps : List (String × FieldValue)}
    (hdistinct : (ps.map Prod.fst).Nodup) :
    flatten ∅ (ps.map ofPair) = (.ofList (ps.map memberOf), []) := by
  have hend : flatten ∅ (ps.map ofPair ++ []) = flatten (.ofList (ps.map memberOf)) [] :=
    flatten_ofPair hdistinct (fun _ _ => rfl) []
  rw [List.append_nil] at hend
  rw [hend, flatten_nil]

/-- Among equalities of different fields one other filter is listed, or another equality of a field
that came before. -/
theorem flatten_one_listed {ps qs : List (String × FieldValue)}
    (hdistinct : ((ps ++ qs).map Prod.fst).Nodup) {f : Filter}
    (hf : ∀ field value, f = .equals field value → field ∈ ps.map Prod.fst) :
    flatten ∅ (ps.map ofPair ++ f :: qs.map ofPair) =
      (.ofList ((ps ++ qs).map memberOf), [f.toJson]) := by
  have hboth := hdistinct
  rw [List.map_append] at hboth
  obtain ⟨hps, hqs, hapart⟩ := List.nodup_append.mp hboth
  have hnew : ∀ e ∈ qs, (SortedMap.ofList (ps.map memberOf)).get? e.1 = none := by
    intro e he
    rw [SortedMap.get?_ofList (by rwa [map_fst_memberOf])]
    refine SortedMap.find_eq_none_of_notMem ?_
    rw [map_fst_memberOf]
    exact fun hm => hapart _ hm _ (List.mem_map_of_mem he) rfl
  have hrest : flatten (.ofList (ps.map memberOf)) (qs.map ofPair) =
      (.ofList ((ps ++ qs).map memberOf), []) := by
    have hend := flatten_ofPair hqs hnew []
    rw [List.append_nil] at hend
    rw [hend, flatten_nil, SortedMap.insertMany_ofList, List.map_append]
  have hstart : flatten ∅ (ps.map ofPair ++ f :: qs.map ofPair) =
      flatten (.ofList (ps.map memberOf)) (f :: qs.map ofPair) :=
    flatten_ofPair hps (fun _ _ => rfl) _
  rw [hstart]
  rcases cons_cases (.ofList (ps.map memberOf)) f (qs.map ofPair) with
    ⟨hlisted, -⟩ | ⟨field, value, rfl, hopen, -⟩
  · rw [hlisted, hrest]
  · -- the field came before, so it stands in the open
    obtain ⟨e, he, rfl⟩ := List.mem_map.mp (hf field value rfl)
    have hm : .equals e.1 e.2 ∈ ps.map ofPair := List.mem_map_of_mem he
    obtain ⟨j, hj⟩ := exists_get?_flatten ∅ hm
    rw [flatten_map_ofPair hps, hopen] at hj
    exact nomatch hj

end Filter

end Backlog
