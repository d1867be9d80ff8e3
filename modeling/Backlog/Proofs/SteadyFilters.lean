import Backlog.Proofs.GroupParts
import Backlog.Proofs.StoredForms

/-!
# Filters that are written as they were read

A filter that is written and read again means the same, but it need not be written the same the
second time. The list of a group is read as one member of the group, whose place is the place of its
key among the fields. So a list of several members beside something in the open becomes a group of
its own, and is written one list deeper. And one equality in the list is read before an equality of
the same field that stands in the open, if the key of the list sorts before the name of the field:
then the two change their places, and change them back the next time, for ever. Everything else
stays as it is written.

## Main results

* `Filter.reread_and` — what the document of a group is read as;
* `Filter.text_reread_iff` — which filters are written the second time as they were the first time;
* `Filter.swapped_unsteady` — a filter that is written in turns in one of two ways.
-/

namespace Backlog

namespace Filter

variable {catalog : Catalog}

-- ---------------------------------------------------------------------------
-- What documents are read as
-- ---------------------------------------------------------------------------

theorem filter_isAll_eq_self {fs : List Filter} (h : ∀ f ∈ fs, f.isAll = false) :
    fs.filter (fun f => !f.isAll) = fs :=
  List.filter_eq_self.mpr fun f hf => by rw [h f hf]; rfl

theorem joinAll_singleton (f : Filter) : joinAll [f] = f := by
  cases f <;> rfl

theorem joinAll_eq_and {fs : List Filter} (hall : ∀ f ∈ fs, f.isAll = false)
    (hlength : 2 ≤ fs.length) : joinAll fs = .and fs := by
  match fs, hlength with
  | _ :: _ :: _, _ => rw [joinAll, filter_isAll_eq_self hall]

theorem joinAny_eq_or {fs : List Filter} (hlength : 2 ≤ fs.length) : joinAny fs = .or fs := by
  match fs, hlength with
  | _ :: _ :: _, _ => rfl

theorem isAll_joinAll {fs : List Filter} (hall : ∀ f ∈ fs, f.isAll = false) (hne : fs ≠ []) :
    (joinAll fs).isAll = false := by
  match fs, hne with
  | [f], _ => rw [joinAll_singleton]; exact hall f List.mem_cons_self
  | _ :: _ :: _, _ => rw [joinAll_eq_and hall (by simp)]; rfl

theorem isAll_eq_false_of_mem {fs : List Filter} (hall : .all ∉ fs) {f : Filter} (hf : f ∈ fs) :
    f.isAll = false := by
  cases f with
  | all => exact absurd hf hall
  | _ => rfl

/-- A filter that asks for something stays a member of its own between equalities. -/
theorem joinAll_between {ps qs : List (String × FieldValue)} (hne : ps ++ qs ≠ []) {f : Filter}
    (hf : f.isAll = false) :
    joinAll (ps.map ofPair ++ f :: qs.map ofPair) = .and (ps.map ofPair ++ f :: qs.map ofPair) := by
  refine joinAll_eq_and ?_ ?_
  · rw [List.forall_mem_append, List.forall_mem_cons]
    exact ⟨List.forall_mem_map.mpr fun _ _ => rfl, hf, List.forall_mem_map.mpr fun _ _ => rfl⟩
  · have hlength := List.length_pos_iff.mpr hne
    simp only [List.length_append, List.length_map, List.length_cons] at hlength ⊢
    omega

theorem reread_all {g : Filter} (hg : ofJson catalog Filter.all.toJson = .ok g) : g = .all := by
  rw [toJson] at hg
  exact (Except.ok.inj hg).symm

/-- A value that is read from a written literal is written as that literal. -/
theorem IsLiteral.toJson_eq {field : String} {j : Json} {v w : FieldValue}
    (hv : IsLiteral catalog field j v) (hw : IsLiteral catalog field v.toJson w) :
    w.toJson = v.toJson := by
  have hunsigned : ¬ v.IsSigned := fun hsigned => hv.not_written hsigned w hw
  rw [hw.unique (hv.written hunsigned), FieldValue.toJson_truncated]

/-- An equality is read from its literal as an equality that is written as it was. -/
theorem reread_member {field : String} {value : FieldValue} {g : Filter}
    (hof : (Filter.equals field value).IsOf catalog)
    (hg : ofMember catalog field value.toJson = .ok g) :
    ∃ w, g = .equals field w ∧ w.toJson = value.toJson := by
  cases hof with
  | equals hand hor _ hv =>
    rw [ofMember_of_joinOf?_none (joinOf?_eq_none_iff.mpr ⟨hand, hor⟩)] at hg
    obtain ⟨-, w, hw, rfl⟩ := equality_eq_ok_iff.mp hg
    exact ⟨w, rfl, hv.toJson_eq hw⟩

/-- The document of an equality is read as an equality that is written as it was. -/
theorem reread_equals {field : String} {value : FieldValue} {g : Filter}
    (hof : (Filter.equals field value).IsOf catalog)
    (hg : ofJson catalog (Filter.equals field value).toJson = .ok g) :
    ∃ w, g = .equals field w ∧ w.toJson = value.toJson := by
  rw [toJson_equals] at hg
  obtain ⟨gs, hgs, rfl⟩ := ofJson_object_eq_ok_iff.mp hg
  obtain ⟨g, rfl, hread⟩ := List.map_eq_singleton_iff.mp hgs.symm
  obtain ⟨w, rfl, hw⟩ := reread_member hof hread.symm
  exact ⟨w, joinAll_singleton _, hw⟩

/-- What stands in the open is read as equalities of the fields that stand there. -/
theorem reread_open {fs : List Filter} (hof : ∀ f ∈ fs, f.IsOf catalog)
    {l : List (String × Json)} (hl : ∀ e ∈ l, (flatten ∅ fs).1.get? e.1 = some e.2)
    {gs : List Filter} (hgs : l.map (fun e => ofMember catalog e.1 e.2) = gs.map .ok) :
    ∃ ps : List (String × FieldValue), l = ps.map memberOf ∧ gs = ps.map ofPair := by
  induction l generalizing gs with
  | nil => exact ⟨[], rfl, by simpa using hgs.symm⟩
  | cons e rest ih =>
    obtain ⟨g, gs, rfl, hg, hgs⟩ := List.map_eq_cons_iff.mp hgs.symm
    obtain ⟨he, hrest⟩ := List.forall_mem_cons.mp hl
    obtain ⟨ps, rfl, rfl⟩ := ih hrest hgs.symm
    obtain ⟨key, j⟩ := e
    rcases exists_of_get?_flatten he with hempty | ⟨value, hm, rfl⟩
    · exact nomatch hempty
    · obtain ⟨w, rfl, hw⟩ := reread_member (hof _ hm) hg.symm
      exact ⟨(key, w) :: ps, by rw [List.map_cons, memberOf, hw], rfl⟩

/-- The list of a group is read as its members are, joined. -/
theorem reread_list {fs : List Filter} {g : Filter}
    (hg : ofMember catalog andKey (.array (fs.map toJson)) = .ok g) :
    ∃ gs, fs.map (fun f => ofJson catalog f.toJson) = gs.map .ok ∧ g = joinAll gs := by
  have hjoin : joinOf? andKey = some joinAll := if_pos rfl
  obtain ⟨gs, -, hgs, rfl⟩ := (ofMember_array_eq_ok_iff hjoin).mp hg
  rw [List.map_map] at hgs
  exact ⟨gs, hgs, rfl⟩

/-- The document of a choice is read as the choice of what the documents of its members are read
as. -/
theorem reread_or {fs : List Filter} {g : Filter} (hlength : 2 ≤ fs.length)
    (hg : ofJson catalog (Filter.or fs).toJson = .ok g) :
    ∃ gs, fs.map (fun f => ofJson catalog f.toJson) = gs.map .ok ∧ g = .or gs := by
  rw [toJson_or] at hg
  obtain ⟨hs, hhs, rfl⟩ := ofJson_object_eq_ok_iff.mp hg
  obtain ⟨h, rfl, hread⟩ := List.map_eq_singleton_iff.mp hhs.symm
  have hjoin : joinOf? orKey = some joinAny := by simp [joinOf?, show orKey ≠ andKey by decide]
  obtain ⟨gs, -, hgs, rfl⟩ := (ofMember_array_eq_ok_iff hjoin).mp hread.symm
  rw [List.map_map] at hgs
  have hsame : fs.length = gs.length := by simpa using congrArg List.length hgs
  exact ⟨gs, hgs, by rw [joinAll_singleton, joinAny_eq_or (by omega)]⟩

section

variable {fs : List Filter} {g : Filter}

theorem get?_andKey_flatten (hof : ∀ f ∈ fs, f.IsOf catalog) :
    (flatten ∅ fs).1.get? andKey = none :=
  get?_flatten_eq_none rfl (IsOf.equals_andKey_notMem hof)

theorem toJson_and_of_flatten_nil {m : SortedMap String Json} (h : flatten ∅ fs = (m, [])) :
    (Filter.and fs).toJson = .ofMap m := by
  rw [toJson, h]
  rfl

theorem toJson_and_of_nil (h : listed ∅ fs = []) :
    (Filter.and fs).toJson = .ofMap (flatten ∅ fs).1 :=
  toJson_and_of_flatten_nil <| Prod.ext rfl <| by rw [flatten_snd, h, List.map_nil]

theorem toJson_and_of_ne_nil (h : listed ∅ fs ≠ []) :
    (Filter.and fs).toJson =
      .ofMap ((flatten ∅ fs).1.insert andKey (.array ((listed ∅ fs).map toJson))) := by
  rw [toJson, flatten_snd]
  exact congrArg Json.ofMap (if_neg (by simpa using h))

/-- A group of which everything stands in the open is read as the group of that, by the names of
the fields. -/
theorem reread_and_of_nil (hof : ∀ f ∈ fs, f.IsOf catalog) (hlength : 2 ≤ fs.length)
    (hlisted : listed ∅ fs = []) (hg : ofJson catalog (Filter.and fs).toJson = .ok g) :
    ∃ ps : List (String × FieldValue), (flatten ∅ fs).1.entries = ps.map memberOf ∧
      g = .and (ps.map ofPair) := by
  rw [toJson_and_of_nil hlisted] at hg
  obtain ⟨gs, hgs, rfl⟩ := ofJson_object_eq_ok_iff.mp hg
  obtain ⟨ps, hps, rfl⟩ := reread_open hof (fun e he => SortedMap.mem_entries_iff.mp he) hgs
  have hcount := length_flatten fs ∅
  rw [hlisted, hps, List.length_map] at hcount
  have hempty : (∅ : SortedMap String Json).entries.length = 0 := rfl
  refine ⟨ps, hps, joinAll_eq_and (List.forall_mem_map.mpr fun _ _ => rfl) ?_⟩
  rw [List.length_map]
  simp only [List.length_nil] at hcount
  omega

theorem isAll_of_listed (hkept : ∀ f ∈ fs, ∀ g, ofJson catalog f.toJson = .ok g → g.isAll = false)
    {gs : List Filter}
    (hgs : (listed ∅ fs).map (fun f => ofJson catalog f.toJson) = gs.map .ok) :
    ∀ g ∈ gs, g.isAll = false := by
  intro g hg
  obtain ⟨f, hf, hread⟩ := exists_of_map_eq hgs hg
  exact hkept f (mem_of_mem_listed hf) g hread

/-- A group with members in the list is read as the group of what stands in the open, by the names
of the fields, and of what the list is read as, in the place of the key of the list. -/
theorem reread_and (hof : ∀ f ∈ fs, f.IsOf catalog) (hlength : 2 ≤ fs.length)
    (hkept : ∀ f ∈ fs, ∀ g, ofJson catalog f.toJson = .ok g → g.isAll = false)
    (hlisted : listed ∅ fs ≠ []) (hg : ofJson catalog (Filter.and fs).toJson = .ok g) :
    ∃ gs, (listed ∅ fs).map (fun f => ofJson catalog f.toJson) = gs.map .ok ∧
      ((flatten ∅ fs).1 = ∅ ∧ g = .and gs ∨
        (flatten ∅ fs).1 ≠ ∅ ∧ ∃ ps qs : List (String × FieldValue),
          (flatten ∅ fs).1.entries = (ps ++ qs).map memberOf ∧
          (∀ e ∈ ps, compare e.1 andKey = .lt) ∧ (∀ e ∈ qs, compare andKey e.1 = .lt) ∧
          g = .and (ps.map ofPair ++ joinAll gs :: qs.map ofPair)) := by
  rw [toJson_and_of_ne_nil hlisted] at hg
  obtain ⟨hs, hhs, rfl⟩ := ofJson_object_eq_ok_iff.mp hg
  obtain ⟨below, above, hentries, hinsert, hbelow, habove⟩ := SortedMap.entries_insert_new
    (.array ((listed ∅ fs).map toJson)) (get?_andKey_flatten hof)
  have hopen : ∀ e ∈ below ++ above, (flatten ∅ fs).1.get? e.1 = some e.2 := fun e he =>
    SortedMap.mem_entries_iff.mp (hentries ▸ he)
  rw [List.forall_mem_append] at hopen
  rw [hinsert] at hhs
  obtain ⟨hs₁, hs₂, rfl, hread₁, hread₂⟩ :=
    List.map_eq_append_iff.mp (hhs.symm.trans List.map_append)
  obtain ⟨h, hs₂, rfl, hread, hread₂⟩ := List.map_eq_cons_iff.mp hread₂
  obtain ⟨ps, rfl, rfl⟩ := reread_open hof hopen.1 hread₁.symm
  obtain ⟨qs, rfl, rfl⟩ := reread_open hof hopen.2 hread₂.symm
  obtain ⟨gs, hgs, rfl⟩ := reread_list hread.symm
  refine ⟨gs, hgs, ?_⟩
  have hall := isAll_of_listed hkept hgs
  have hsame : (listed ∅ fs).length = gs.length := by simpa using congrArg List.length hgs
  have hne : gs ≠ [] := by
    rintro rfl
    exact hlisted (List.length_eq_zero_iff.mp hsame)
  have hcount := length_flatten fs ∅
  rw [hentries, show (∅ : SortedMap String Json).entries = [] from rfl] at hcount
  simp only [List.length_append, List.length_map, List.length_nil] at hcount
  by_cases hempty : (flatten ∅ fs).1 = ∅
  · rw [hempty] at hentries
    obtain ⟨hps, hqs⟩ := List.append_eq_nil_iff.mp hentries.symm
    obtain rfl := List.map_eq_nil_iff.mp hps
    obtain rfl := List.map_eq_nil_iff.mp hqs
    simp only [List.length_nil] at hcount
    exact .inl ⟨hempty, (joinAll_singleton _).trans (joinAll_eq_and hall (by omega))⟩
  · have hopened : ps ++ qs ≠ [] := by
      intro hnil
      refine hempty (SortedMap.ext_entries ?_)
      rw [hentries, ← List.map_append, hnil]
      rfl
    exact .inr ⟨hempty, ps, qs, by rw [hentries, List.map_append],
      List.forall_mem_map.mp hbelow, List.forall_mem_map.mp habove,
      joinAll_between hopened (isAll_joinAll hall hne)⟩

end

-- ---------------------------------------------------------------------------
-- What a filter is read as when it is read again
-- ---------------------------------------------------------------------------

/-- What is read again asks for something if it did, and is an equality if it was one. -/
theorem sort_of_reread {f g : Filter} (hof : f.IsOf catalog) (hreduced : f.IsReduced)
    (hg : ofJson catalog f.toJson = .ok g) :
    g.isAll = f.isAll ∧ g.isEquality = f.isEquality := by
  induction f using Filter.induction generalizing g with
  | all =>
    rw [reread_all hg]
    exact ⟨rfl, rfl⟩
  | equals field value =>
    obtain ⟨w, rfl, -⟩ := reread_equals hof hg
    exact ⟨rfl, rfl⟩
  | and fs ih =>
    match hof, hreduced with
    | .and hof, .and hlength hall hreduced =>
      have hkept : ∀ f ∈ fs, ∀ g, ofJson catalog f.toJson = .ok g → g.isAll = false := by
        intro f hf g hg
        rw [(ih f hf (hof f hf) (hreduced f hf) hg).1]
        exact isAll_eq_false_of_mem hall hf
      by_cases hlisted : listed ∅ fs = []
      · obtain ⟨ps, -, rfl⟩ := reread_and_of_nil hof hlength hlisted hg
        exact ⟨rfl, rfl⟩
      · obtain ⟨gs, -, ⟨-, rfl⟩ | ⟨-, ps, qs, -, -, -, rfl⟩⟩ :=
          reread_and hof hlength hkept hlisted hg
        · exact ⟨rfl, rfl⟩
        · exact ⟨rfl, rfl⟩
  | or fs _ =>
    match hreduced with
    | .or hlength _ =>
      obtain ⟨gs, -, rfl⟩ := reread_or hlength hg
      exact ⟨rfl, rfl⟩

-- ---------------------------------------------------------------------------
-- Filters that stay as they are written
-- ---------------------------------------------------------------------------

/-- Whether the parts that a group is written in come apart again as they are: nothing is listed, or
nothing stands in the open, or one member is listed, and if that is an equality, its field sorts
before the key of the list or has the same literal in the open. -/
def rests (fs : List Filter) : Bool :=
  match listed ∅ fs with
  | [] => true
  | [.equals field value] =>
    compare field andKey == .lt || (flatten ∅ fs).1.get? field == some value.toJson
  | [_] => true
  | _ => (flatten ∅ fs).1.isEmpty

mutual

/-- Whether the parts of every group of a filter come apart as they are. -/
def isSteady : Filter → Bool
  | .all => true
  | .equals _ _ => true
  | .and fs => rests fs && areSteady fs
  | .or fs => areSteady fs

/-- Whether filters are steady. -/
def areSteady : List Filter → Bool
  | [] => true
  | f :: rest => isSteady f && areSteady rest

end

theorem areSteady_iff {fs : List Filter} :
    areSteady fs = true ↔ ∀ f ∈ fs, f.isSteady = true := by
  induction fs with
  | nil => simp [areSteady]
  | cons f rest ih => rw [areSteady, Bool.and_eq_true, ih, List.forall_mem_cons]

/-- Equalities are steady, so only what is listed counts. -/
theorem areSteady_listed_iff {fs : List Filter} :
    areSteady fs = true ↔ ∀ f ∈ listed ∅ fs, f.isSteady = true := by
  rw [areSteady_iff]
  constructor
  · exact fun h f hf => h f (mem_of_mem_listed hf)
  · intro h f hf
    rcases mem_listed_or_isEquality ∅ hf with hlisted | hequality
    · exact h f hlisted
    · obtain ⟨field, value, rfl⟩ := isEquality_iff.mp hequality
      simp only [isSteady]

/-- Filters are written again as they were, one by one. -/
theorem map_toJson_reread_iff {fs gs : List Filter} {P : Filter → Prop}
    (hgs : fs.map (fun f => ofJson catalog f.toJson) = gs.map .ok)
    (h : ∀ f ∈ fs, ∀ g, ofJson catalog f.toJson = .ok g → (g.toJson = f.toJson ↔ P f)) :
    gs.map toJson = fs.map toJson ↔ ∀ f ∈ fs, P f := by
  induction fs generalizing gs with
  | nil => simp [List.map_eq_nil_iff.mp hgs.symm]
  | cons f rest ih =>
    obtain ⟨g, gs, rfl, hg, hgs⟩ := List.map_eq_cons_iff.mp hgs.symm
    obtain ⟨hf, hrest⟩ := List.forall_mem_cons.mp h
    rw [List.map_cons, List.map_cons, List.cons.injEq, hf g hg.symm, ih hgs.symm hrest,
      List.forall_mem_cons]

theorem ofMap_inj {m n : SortedMap String Json} : Json.ofMap m = Json.ofMap n ↔ m = n := by
  rw [Json.ofMap, Json.ofMap, Json.object.injEq]
  exact ⟨SortedMap.ext_entries, congrArg SortedMap.entries⟩

/-- A group is written with its parts. -/
theorem toJson_and_of_flatten {fs : List Filter} {m : SortedMap String Json} {items : List Json}
    (h : flatten ∅ fs = (m, items)) (hne : items ≠ []) :
    (Filter.and fs).toJson = .ofMap (m.insert andKey (.array items)) := by
  rw [toJson, h]
  exact congrArg Json.ofMap (if_neg hne)

section

variable {m : SortedMap String Json} {ps qs : List (String × FieldValue)}

theorem nodup_of_entries (h : m.entries = ps.map memberOf) : (ps.map Prod.fst).Nodup := by
  rw [← map_fst_memberOf, ← h]
  exact SortedMap.nodup_of_sorted m.sorted

theorem ofList_of_entries (h : m.entries = ps.map memberOf) : .ofList (ps.map memberOf) = m := by
  rw [← h, SortedMap.ofList_entries]

/-- Another equality of a field, before the one that stands in the open, takes its place there. -/
theorem flatten_swapped {field : String} {value w : FieldValue}
    (h : m.entries = (ps ++ qs).map memberOf) (hfield : field ∉ ps.map Prod.fst)
    (hw : (field, w) ∈ qs) :
    flatten ∅ (ps.map ofPair ++ .equals field value :: qs.map ofPair) =
      (m.insert field value.toJson, [(Filter.equals field w).toJson]) := by
  obtain ⟨early, late, rfl⟩ := List.append_of_mem hw
  have hkeys := nodup_of_entries h
  have hperm : (((ps ++ (field, value) :: early) ++ late).map Prod.fst).Perm
      ((ps ++ (early ++ (field, w) :: late)).map Prod.fst) := by
    simp only [List.map_append, List.map_cons, List.append_assoc, List.cons_append]
    exact List.perm_middle.symm.append_left _
  have hdistinct := hperm.nodup_iff.mpr hkeys
  have hsame : ps.map ofPair ++ .equals field value :: (early ++ (field, w) :: late).map ofPair =
      (ps ++ (field, value) :: early).map ofPair ++ .equals field w :: late.map ofPair := by
    simp [ofPair]
  have hmap : SortedMap.ofList (((ps ++ (field, value) :: early) ++ late).map memberOf) =
      m.insert field value.toJson := by
    refine SortedMap.ext_get? fun key => ?_
    have hheld : m.get? key =
        SortedMap.find key ((ps ++ (early ++ (field, w) :: late)).map memberOf) := h ▸ rfl
    rw [SortedMap.get?_ofList (by rwa [map_fst_memberOf]), SortedMap.get?_insert, hheld]
    simp only [List.map_append, List.map_cons, memberOf, SortedMap.find_append, SortedMap.find_cons]
    by_cases hkey : key = field
    · have hnone : SortedMap.find key (ps.map memberOf) = none :=
        SortedMap.find_eq_none_of_notMem (by rwa [map_fst_memberOf, hkey])
      rw [hnone, Option.none_or, if_pos hkey, if_pos hkey, Option.some_or]
    · rw [if_neg hkey, if_neg hkey, if_neg hkey, Option.or_assoc]
  rw [hsame, flatten_one_listed hdistinct (by rintro _ _ ⟨⟩; simp), hmap]

/-- Among equalities in the order of their fields a member is written in the list that is no
equality, or that asks for a field that came before. -/
theorem toJson_one_listed (h : m.entries = (ps ++ qs).map memberOf) {f : Filter}
    (hf : ∀ field value, f = .equals field value → field ∈ ps.map Prod.fst) :
    (Filter.and (ps.map ofPair ++ f :: qs.map ofPair)).toJson =
      .ofMap (m.insert andKey (.array [f.toJson])) := by
  have hflatten := flatten_one_listed (nodup_of_entries h) hf
  rw [ofList_of_entries h] at hflatten
  exact toJson_and_of_flatten hflatten (List.cons_ne_nil _ _)

end

theorem array_insert_inj {m n : SortedMap String Json} {items items' : List Json}
    (h : Json.ofMap (m.insert andKey (.array items)) = .ofMap (n.insert andKey (.array items'))) :
    items = items' := by
  have hget := congrArg (SortedMap.get? · andKey) (ofMap_inj.mp h)
  simp only [SortedMap.get?_insert_self, Option.some.injEq, Json.array.injEq] at hget
  exact hget

-- ---------------------------------------------------------------------------
-- Groups that are read again
-- ---------------------------------------------------------------------------

section

variable {fs : List Filter} {g : Filter}

/-- If nothing stands in the open, no member is an equality. -/
theorem isEquality_of_empty (h : (flatten ∅ fs).1 = ∅) : ∀ f ∈ fs, f.isEquality = false := by
  intro f hf
  refine Bool.eq_false_iff.mpr fun hequality => ?_
  obtain ⟨field, value, rfl⟩ := isEquality_iff.mp hequality
  obtain ⟨j, hj⟩ := exists_get?_flatten ∅ hf
  rw [h] at hj
  exact nomatch hj

theorem rests_of_empty (h : (flatten ∅ fs).1 = ∅) : rests fs = true := by
  unfold rests
  split
  · rfl
  · next field value hlisted =>
    have hmem : .equals field value ∈ listed ∅ fs := hlisted ▸ List.mem_cons_self
    exact nomatch isEquality_of_empty h _ (mem_of_mem_listed hmem)
  · rfl
  · rw [h]
    rfl

/-- A group of which nothing is listed is written again as it was. -/
theorem toJson_reread_of_nil (hof : ∀ f ∈ fs, f.IsOf catalog) (hlength : 2 ≤ fs.length)
    (hlisted : listed ∅ fs = []) (hg : ofJson catalog (Filter.and fs).toJson = .ok g) :
    g.toJson = (Filter.and fs).toJson ∧ (Filter.and fs).isSteady = true := by
  obtain ⟨ps, hps, rfl⟩ := reread_and_of_nil hof hlength hlisted hg
  have hflatten := flatten_map_ofPair (nodup_of_entries hps)
  rw [ofList_of_entries hps] at hflatten
  refine ⟨?_, ?_⟩
  · rw [toJson_and_of_nil hlisted, toJson_and_of_flatten_nil hflatten]
  · rw [isSteady, Bool.and_eq_true, areSteady_listed_iff, rests, hlisted]
    exact ⟨rfl, nofun⟩

/-- A group of which nothing stands in the open is written again as it was if its members are. -/
theorem toJson_reread_of_empty (hof : ∀ f ∈ fs, f.IsOf catalog) (hreduced : ∀ f ∈ fs, f.IsReduced)
    (ih : ∀ f ∈ fs, ∀ g, ofJson catalog f.toJson = .ok g →
      (g.toJson = f.toJson ↔ f.isSteady = true))
    (hlisted : listed ∅ fs ≠ []) (hempty : (flatten ∅ fs).1 = ∅) {gs : List Filter}
    (hgs : (listed ∅ fs).map (fun f => ofJson catalog f.toJson) = gs.map .ok) :
    (Filter.and gs).toJson = (Filter.and fs).toJson ↔ (Filter.and fs).isSteady = true := by
  have hequality : ∀ g ∈ gs, g.isEquality = false := by
    intro g hg
    obtain ⟨f, hf, hread⟩ := exists_of_map_eq hgs hg
    have hm := mem_of_mem_listed hf
    rw [(sort_of_reread (hof f hm) (hreduced f hm) hread).2]
    exact isEquality_of_empty hempty f hm
  have hne : gs.map toJson ≠ [] := by
    intro hnil
    rw [List.map_eq_nil_iff.mp hnil, List.map_nil] at hgs
    exact hlisted (List.map_eq_nil_iff.mp hgs)
  rw [isSteady, rests_of_empty hempty, Bool.true_and, areSteady_listed_iff,
    ← map_toJson_reread_iff hgs fun f hf => ih f (mem_of_mem_listed hf),
    toJson_and_of_ne_nil hlisted, hempty,
    toJson_and_of_flatten (flatten_of_no_equality hequality ∅) hne]
  exact ⟨array_insert_inj, fun heq => by rw [heq]⟩

section

variable {ps qs : List (String × FieldValue)} (hof : ∀ f ∈ fs, f.IsOf catalog)
  (hentries : (flatten ∅ fs).1.entries = (ps ++ qs).map memberOf)
  (hqs : ∀ e ∈ qs, compare andKey e.1 = .lt)

include hof hentries hqs

/-- An equality that is listed alone is written again as it was, with what stands in the open, if
its field sorts before the key of the list or if the one in the open has the same literal. -/
theorem toJson_reread_of_equality (hps : ∀ e ∈ ps, compare e.1 andKey = .lt) {field : String}
    {value : FieldValue} (hlisted : listed ∅ fs = [.equals field value]) {g : Filter}
    (hg : ofJson catalog (Filter.equals field value).toJson = .ok g) :
    (Filter.and (ps.map ofPair ++ g :: qs.map ofPair)).toJson = (Filter.and fs).toJson ↔
      rests fs = true := by
  have hfirst : .equals field value ∈ listed ∅ fs := hlisted ▸ List.mem_cons_self
  have hm : .equals field value ∈ fs := mem_of_mem_listed hfirst
  obtain ⟨w, rfl, hw⟩ := reread_equals (hof _ hm) hg
  have hrests : rests fs = true ↔ compare field andKey = .lt ∨
      (flatten ∅ fs).1.get? field = some value.toJson := by
    rw [rests, hlisted]
    simp
  have hsome : listed ∅ fs ≠ [] := hlisted ▸ List.cons_ne_nil _ _
  rw [hrests, toJson_and_of_ne_nil hsome, hlisted, List.map_singleton]
  by_cases hbefore : field ∈ ps.map Prod.fst
  · obtain ⟨e, he, rfl⟩ := List.mem_map.mp hbefore
    rw [toJson_one_listed hentries (by rintro _ _ ⟨⟩; exact hbefore), toJson_equals, toJson_equals,
      hw]
    exact iff_of_true rfl (.inl (hps e he))
  · -- the one in the open comes behind the list, and changes places with the one in the list
    obtain ⟨j, hj⟩ := exists_get?_flatten ∅ hm
    have hentry := hentries ▸ SortedMap.mem_entries_iff.mpr hj
    obtain ⟨e, he, hmember⟩ := List.mem_map.mp hentry
    obtain ⟨rfl, rfl⟩ := Prod.mk.inj hmember
    have hbehind : e ∈ qs := (List.mem_append.mp he).resolve_left fun he =>
      hbefore (List.mem_map_of_mem he)
    have hnotlt : compare e.1 andKey ≠ .lt := fun hlt =>
      SortedMap.compare_self_ne_lt andKey (Std.TransCmp.lt_trans (hqs e hbehind) hlt)
    rw [toJson_and_of_flatten (flatten_swapped hentries hbefore hbehind) (List.cons_ne_nil _ _),
      toJson_equals, toJson_equals, hw, hj, Option.some.injEq]
    constructor
    · intro heq
      exact .inr (by simpa using array_insert_inj heq)
    · intro hrests
      have hsame := hrests.resolve_left hnotlt
      rw [← hsame, SortedMap.insert_of_get? hj]

end

/-- A group with something in the open and in the list is written again as it was exactly if it
rests and its members are written again as they were: a list of several members becomes one of
one. -/
theorem toJson_reread_of_both (hof : ∀ f ∈ fs, f.IsOf catalog) (hreduced : ∀ f ∈ fs, f.IsReduced)
    (hkept : ∀ f ∈ fs, ∀ g, ofJson catalog f.toJson = .ok g → g.isAll = false)
    (ih : ∀ f ∈ fs, ∀ g, ofJson catalog f.toJson = .ok g →
      (g.toJson = f.toJson ↔ f.isSteady = true))
    (hlisted : listed ∅ fs ≠ []) (hempty : (flatten ∅ fs).1 ≠ ∅) {gs : List Filter}
    (hgs : (listed ∅ fs).map (fun f => ofJson catalog f.toJson) = gs.map .ok)
    {ps qs : List (String × FieldValue)}
    (hentries : (flatten ∅ fs).1.entries = (ps ++ qs).map memberOf)
    (hps : ∀ e ∈ ps, compare e.1 andKey = .lt) (hqs : ∀ e ∈ qs, compare andKey e.1 = .lt) :
    (Filter.and (ps.map ofPair ++ joinAll gs :: qs.map ofPair)).toJson = (Filter.and fs).toJson ↔
      (Filter.and fs).isSteady = true := by
  rw [isSteady, Bool.and_eq_true, areSteady_listed_iff]
  match hlist : listed ∅ fs with
  | [] => exact absurd hlist hlisted
  | [f] =>
    rw [hlist] at hgs
    obtain ⟨g, rfl, hg⟩ := List.map_eq_singleton_iff.mp hgs.symm
    have hfirst : f ∈ listed ∅ fs := hlist ▸ List.mem_cons_self
    have hm : f ∈ fs := mem_of_mem_listed hfirst
    rw [joinAll_singleton, List.forall_mem_singleton]
    by_cases hequality : f.isEquality = true
    · obtain ⟨field, value, rfl⟩ := isEquality_iff.mp hequality
      rw [toJson_reread_of_equality hof hentries hqs hps hlist hg.symm, isSteady]
      simp
    · have hnone : ∀ field value, g ≠ .equals field value := by
        rintro field value rfl
        exact hequality (sort_of_reread (hof f hm) (hreduced f hm) hg.symm).2.symm
      have hrests : rests fs = true := by
        rw [rests, hlist]
        cases f with
        | equals field value => exact absurd rfl hequality
        | _ => rfl
      rw [toJson_one_listed hentries fun field value h => absurd h (hnone field value),
        toJson_and_of_ne_nil hlisted, hlist, List.map_singleton, and_iff_right hrests,
        ← ih f hm g hg.symm]
      exact ⟨fun heq => by simpa using array_insert_inj heq, fun heq => by rw [heq]⟩
  | f :: f' :: rest =>
    have hjoin : joinAll gs = .and gs := by
      refine joinAll_eq_and (isAll_of_listed hkept hgs) ?_
      have hsame : (listed ∅ fs).length = gs.length := by simpa using congrArg List.length hgs
      rw [← hsame, hlist]
      simp
    have hunrest : ¬ rests fs = true := by
      simp only [rests, hlist]
      exact fun h => hempty (SortedMap.ext_entries (List.isEmpty_iff.mp h))
    rw [hjoin, toJson_one_listed hentries (by simp), toJson_and_of_ne_nil hlisted, hlist]
    refine iff_of_false (fun heq => ?_) fun hboth => hunrest hboth.1
    simpa using congrArg List.length (array_insert_inj heq)

end

/-- A group is written again as it was exactly if it is steady. -/
theorem toJson_reread_and_iff {fs : List Filter} {g : Filter} (hof : ∀ f ∈ fs, f.IsOf catalog)
    (hreduced : ∀ f ∈ fs, f.IsReduced) (hlength : 2 ≤ fs.length) (hall : .all ∉ fs)
    (ih : ∀ f ∈ fs, ∀ g, ofJson catalog f.toJson = .ok g →
      (g.toJson = f.toJson ↔ f.isSteady = true))
    (hg : ofJson catalog (Filter.and fs).toJson = .ok g) :
    g.toJson = (Filter.and fs).toJson ↔ (Filter.and fs).isSteady = true := by
  have hkept : ∀ f ∈ fs, ∀ g, ofJson catalog f.toJson = .ok g → g.isAll = false := by
    intro f hf g hg
    rw [(sort_of_reread (hof f hf) (hreduced f hf) hg).1]
    exact isAll_eq_false_of_mem hall hf
  by_cases hlisted : listed ∅ fs = []
  · obtain ⟨hsame, hsteady⟩ := toJson_reread_of_nil hof hlength hlisted hg
    exact iff_of_true hsame hsteady
  · obtain ⟨gs, hgs, ⟨hempty, rfl⟩ | ⟨hempty, ps, qs, hentries, hps, hqs, rfl⟩⟩ :=
      reread_and hof hlength hkept hlisted hg
    · exact toJson_reread_of_empty hof hreduced ih hlisted hempty hgs
    · exact toJson_reread_of_both hof hreduced hkept ih hlisted hempty hgs hentries hps hqs

/-- A filter is written again as it was exactly if it is steady. -/
theorem toJson_reread_iff {f g : Filter} (hof : f.IsOf catalog) (hreduced : f.IsReduced)
    (hg : ofJson catalog f.toJson = .ok g) : g.toJson = f.toJson ↔ f.isSteady = true := by
  induction f using Filter.induction generalizing g with
  | all =>
    rw [reread_all hg]
    exact iff_of_true rfl (by simp only [isSteady])
  | equals field value =>
    obtain ⟨w, rfl, hw⟩ := reread_equals hof hg
    rw [toJson_equals, toJson_equals, hw]
    exact iff_of_true rfl (by simp only [isSteady])
  | and fs ih =>
    match hof, hreduced with
    | .and hof, .and hlength hall hreduced =>
      exact toJson_reread_and_iff hof hreduced hlength hall
        (fun f hf _ hg => ih f hf (hof f hf) (hreduced f hf) hg) hg
  | or fs ih =>
    match hof, hreduced with
    | .or _ hof, .or hlength hreduced =>
      obtain ⟨gs, hgs, rfl⟩ := reread_or hlength hg
      rw [isSteady, areSteady_iff, ← map_toJson_reread_iff hgs fun f hf _ hg =>
        ih f hf (hof f hf) (hreduced f hf) hg, toJson_or, toJson_or]
      simp

/-- **A filter that was read, written and read again is written the second time as it was the first
time exactly if it is steady.** -/
theorem text_reread_iff {s : String} {f g : Filter} (hf : read catalog s = .ok f)
    (hg : read catalog f.text = .ok g) : g.toJson = f.toJson ↔ f.isSteady = true := by
  have hof := isOf_of_read hf
  have hreduced := isReduced_of_read hf
  rw [hof.read_text] at hg
  split at hg
  · exact toJson_reread_iff hof hreduced hg
  · exact nomatch hg

/-- Two fields and a choice with a group in it that asks twice for a field that sorts before the key
of the list. -/
def choiceFilter : Filter :=
  .and [.equals "c" (.integer 1), .equals "a" (.integer 3),
    .or [.and [.equals "#n" (.integer 1), .equals "#n" (.string "1")], .equals "b" (.bool true)]]

/-- The filter is read again with its members in another order, and written as it was. -/
theorem text_reread_choice :
    ∃ g, read ∅ ("\x7b\"$and\":[\x7b\"c\":1\x7d,\x7b\"a\":3\x7d,\x7b\"$or\":[" ++
        "\x7b\"#n\":1,\"$and\":[\x7b\"#n\":\"1\"\x7d]\x7d,\x7b\"b\":true\x7d]\x7d]\x7d") =
          .ok choiceFilter ∧
      read ∅ choiceFilter.text = .ok g ∧ g ≠ choiceFilter ∧ g.toJson = choiceFilter.toJson := by
  have hf : read ∅ ("\x7b\"$and\":[\x7b\"c\":1\x7d,\x7b\"a\":3\x7d,\x7b\"$or\":[" ++
      "\x7b\"#n\":1,\"$and\":[\x7b\"#n\":\"1\"\x7d]\x7d,\x7b\"b\":true\x7d]\x7d]\x7d") =
        .ok choiceFilter := eq_ok_of_toOption (by decide +kernel)
  have hg : read ∅ choiceFilter.text = .ok (.and [
      .or [.and [.equals "#n" (.integer 1), .equals "#n" (.string "1")], .equals "b" (.bool true)],
      .equals "a" (.integer 3), .equals "c" (.integer 1)]) := eq_ok_of_toOption (by decide +kernel)
  exact ⟨_, hf, hg, by decide +kernel, (text_reread_iff hf hg).mpr (by decide +kernel)⟩

/-- **A filter that is written in turns in one of two ways.** -/
theorem swapped_unsteady :
    ∃ f g, read ∅ "\x7b\"$and\":[\x7b\"a\":1\x7d,\x7b\"a\":2\x7d]\x7d" = .ok f ∧
      read ∅ f.text = .ok g ∧ g.toJson ≠ f.toJson ∧ read ∅ g.text = .ok f :=
  ⟨.and [.equals "a" (.integer 1), .equals "a" (.integer 2)],
    .and [.equals "a" (.integer 2), .equals "a" (.integer 1)],
    eq_ok_of_toOption (by decide +kernel), eq_ok_of_toOption (by decide +kernel),
    by decide +kernel, eq_ok_of_toOption (by decide +kernel)⟩

end Filter

end Backlog
