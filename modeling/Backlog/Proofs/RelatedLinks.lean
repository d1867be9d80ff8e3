import Backlog.Proofs.PlannedFilters

/-!
# The link to what is planned

The view of an iteration leads to the work items that are planned into it: the address of the work
items is followed by a query with the text of a filter. Two writers stand behind each other there.
The filter is written as a document, in which quotes, backslashes and control characters of the id
are escaped, and the bytes of the document are written so that every character has the right to
stand in a query. Whoever undoes the second and then the first has the filter again, whatever the
id is, and finds nothing in the query that ends it before its end. So a link names its iteration,
even if nobody says under which address the service runs.

## Main results

* `Text.Percent.isQuery_encodeBytes` — what stands in a query has the right to stand there;
* `Filter.read_plannedFilter_untyped` — what the text of the filter is read as, for every id;
* `ResourceView.related?_ofIteration` — where the link is, and that counts leave it alone;
* `ResourceView.plannedAddress_eq_iff` — two links are one exactly for one id and one address;
* `ResourceView.related_link` — what a reader makes of the link.
-/

namespace Backlog

-- ---------------------------------------------------------------------------
-- Characters of a query
-- ---------------------------------------------------------------------------

namespace Text.Percent

/-- An unreserved character: a letter or a digit of ASCII, or one of four marks. -/
def isUnreservedChar (c : Char) : Bool := c.isAlphanum || c ∈ ['-', '.', '_', '~']

/-- A capital hexadecimal digit. -/
def isHexDigit (c : Char) : Bool := c.isDigit || c ∈ ['A', 'B', 'C', 'D', 'E', 'F']

/-- Unreserved characters, and percent signs with two hexadecimal digits each. -/
inductive IsQuery : List Char → Prop
  | nil : IsQuery []
  | unreserved {c : Char} {rest : List Char} (hc : isUnreservedChar c = true)
      (hrest : IsQuery rest) : IsQuery (c :: rest)
  | triple {a b : Char} {rest : List Char} (ha : isHexDigit a = true) (hb : isHexDigit b = true)
      (hrest : IsQuery rest) : IsQuery ('%' :: a :: b :: rest)

theorem isHexDigit_hexDigit : ∀ n, n < 16 → isHexDigit (hexDigit n) = true := by decide

/-- A byte that stands for itself is an unreserved character. -/
theorem isUnreservedChar_of_isUnreserved {b : UInt8} (h : isUnreserved b = true) :
    isUnreservedChar (Char.ofNat b.toNat) = true := by
  have hall : ∀ n, n < 128 → isUnreserved (UInt8.ofNat n) = true →
      isUnreservedChar (Char.ofNat n) = true := by decide
  exact hall b.toNat (toNat_lt_of_isUnreserved h) (by rwa [UInt8.ofNat_toNat])

theorem isQuery_encodeByte_append (b : UInt8) {rest : List Char} (h : IsQuery rest) :
    IsQuery (encodeByte b ++ rest) := by
  unfold encodeByte
  split
  · next hb => exact .unreserved (isUnreservedChar_of_isUnreserved hb) h
  · have hhigh : b.toNat / 16 < 16 := by
      have := b.toNat_lt
      omega
    have hlow : b.toNat % 16 < 16 := by omega
    exact .triple (isHexDigit_hexDigit _ hhigh) (isHexDigit_hexDigit _ hlow) h

/-- **What stands in a query has the right to stand there.** -/
theorem isQuery_encodeBytes (bs : List UInt8) : IsQuery (encodeBytes bs) := by
  induction bs with
  | nil => exact .nil
  | cons b bs ih =>
    rw [encodeBytes, List.flatMap_cons]
    exact isQuery_encodeByte_append b ih

theorem isQuery_encode (s : String) : IsQuery (encode s).toList := by
  rw [encode, String.toList_ofList]
  exact isQuery_encodeBytes _

/-- The bytes of a text come back from its encoding. -/
theorem decode?_toList_encode (s : String) :
    decode? (encode s).toList = some s.toUTF8.data.toList := by
  rw [encode, String.toList_ofList, decode?_encode]

/-- The mark that begins a query does not stand in it. -/
theorem IsQuery.question_notMem {cs : List Char} (h : IsQuery cs) : '?' ∉ cs := by
  have hne : ∀ {c : Char}, (isUnreservedChar c = true ∨ isHexDigit c = true) → '?' ≠ c := by
    rintro c hc rfl
    exact absurd hc (by decide)
  induction h with
  | nil => exact List.not_mem_nil
  | unreserved hc _ ih => exact List.not_mem_cons_of_ne_of_not_mem (hne (.inl hc)) ih
  | triple ha hb _ ih =>
    exact List.not_mem_cons_of_ne_of_not_mem (by decide)
      (List.not_mem_cons_of_ne_of_not_mem (hne (.inr ha))
        (List.not_mem_cons_of_ne_of_not_mem (hne (.inr hb)) ih))

end Text.Percent

-- ---------------------------------------------------------------------------
-- The filter of the link
-- ---------------------------------------------------------------------------

/-- **The text of the filter of an iteration is read as the one condition that it is**, with the id
as a string, whatever the characters of the id are. -/
theorem Filter.read_plannedFilter_untyped (id : IterationId) :
    read .empty (ResourceView.plannedFilter id).text =
      .ok (.equals SystemField.iteration (.string id.text)) :=
  read_plannedFilter (.string rfl id.text)

namespace ResourceView

-- ---------------------------------------------------------------------------
-- The link
-- ---------------------------------------------------------------------------

/-- The link of a view to the work items that are planned into the record. -/
def related? (v : ResourceView) : Option String :=
  (v.relationships.get? "workitems").bind fun r => r.links.get? "related"

/-- Counts are noted beside the link. -/
theorem related?_withCounts (counts : List (IterationId × IterationCounts)) (i : Iteration)
    (v : ResourceView) : (withCounts counts i v).related? = v.related? := by
  unfold related? withCounts
  simp only [SortedMap.get?_insert, if_true, Option.bind_some]
  cases v.relationships.get? "workitems" with
  | none => rfl
  | some r => rfl

/-- A view of an iteration has the link, however often its counts are noted. -/
theorem related?_ofIteration (api : ApiConfig)
    (countings : List (List (IterationId × IterationCounts))) (i : Iteration) :
    (ofIteration api (countings.map withCounts) i).related? =
      some (plannedAddress api i.id) := by
  have hdecorate : ∀ v, (decorate (countings.map withCounts) i v).related? = v.related? := by
    intro v
    induction countings generalizing v with
    | nil => rfl
    | cons counts rest ih => exact (ih _).trans (related?_withCounts counts i v)
  have hbase : ∀ r : Relationship, ((SortedMap.ofList [("space", r), ("workitems",
      { Relationship.empty with links := .ofList [("related", plannedAddress api i.id)] })]).get?
        "workitems").bind (fun r => r.links.get? "related") =
      some (plannedAddress api i.id) := by
    intro r
    simp only [SortedMap.ofList, SortedMap.insertMany, List.foldl_cons, List.foldl_nil,
      SortedMap.get?_insert, if_true, Option.bind_some]
  rw [ofIteration, hdecorate]
  unfold related? iterationRelationships
  cases i.parent with
  | none => exact hbase _
  | some p =>
    simp only [SortedMap.get?_insert]
    exact hbase _

/-- The last place of a mark cuts a list in one way. -/
theorem eq_of_append_last {α : Type} {mark : α} {front front' back back' : List α}
    (h : front ++ mark :: back = front' ++ mark :: back') (hback : mark ∉ back)
    (hback' : mark ∉ back') : front = front' ∧ back = back' := by
  have hshort : ∀ {middle back back' : List α}, mark ∉ back →
      mark :: back = middle ++ mark :: back' → middle = [] := by
    intro middle back back' hback heq
    cases middle with
    | nil => rfl
    | cons a rest =>
      rw [List.cons_append, List.cons.injEq] at heq
      exact absurd (heq.2 ▸ by simp) hback
  rcases List.append_eq_append_iff.mp h with ⟨middle, rfl, heq⟩ | ⟨middle, rfl, heq⟩
  · obtain rfl := hshort hback heq
    exact ⟨(List.append_nil _).symm, (List.cons.inj heq).2⟩
  · obtain rfl := hshort hback' heq
    exact ⟨List.append_nil _, (List.cons.inj heq).2.symm⟩

/-- The filters of two iterations have one text only if the iterations have one id. -/
theorem id_eq_of_text_eq {id id' : IterationId}
    (h : (plannedFilter id).text = (plannedFilter id').text) : id = id' := by
  have hread := Filter.read_plannedFilter_untyped id
  rw [h, Filter.read_plannedFilter_untyped id'] at hread
  have hvalue := (Filter.equals.inj (Except.ok.inj hread)).2
  cases id
  cases id'
  exact congrArg IterationId.mk (FieldValue.string.inj hvalue).symm

/-- **Two links are one exactly for one id and one address of work items.** -/
theorem plannedAddress_eq_iff {api api' : ApiConfig} {id id' : IterationId} :
    plannedAddress api id = plannedAddress api' id' ↔
      api.workItemsUrl = api'.workItemsUrl ∧ id = id' := by
  constructor
  · intro h
    have hparts : ∀ (api : ApiConfig) (id : IterationId), (plannedAddress api id).toList =
        api.workItemsUrl.toList ++ '?' :: ("filter=".toList ++
          (Text.Percent.encode (plannedFilter id).text).toList) := by
      intro api id
      rw [plannedAddress, String.toList_append, String.toList_append, List.append_assoc]
      rfl
    have hmark : ∀ id : IterationId,
        '?' ∉ "filter=".toList ++ (Text.Percent.encode (plannedFilter id).text).toList := by
      intro id
      rw [List.mem_append, not_or]
      exact ⟨by decide, (Text.Percent.isQuery_encode _).question_notMem⟩
    have hlists := congrArg String.toList h
    rw [hparts, hparts] at hlists
    obtain ⟨hurl, hquery⟩ := eq_of_append_last hlists (hmark id) (hmark id')
    have htext := String.toList_inj.mp (List.append_cancel_left hquery)
    exact ⟨String.toList_inj.mp hurl, id_eq_of_text_eq (Text.Percent.encode_injective htext)⟩
  · rintro ⟨hurl, rfl⟩
    rw [plannedAddress, plannedAddress, hurl]

/-- **What a reader makes of the link to what is planned.** Behind the address of the work items and
the name of the query the link has only characters that may stand there; taken back to bytes they
are the text of the filter; the text is read as the one condition that the iteration is the one with
this id; and the view of an iteration with another id has another link, whichever address it was
made for. -/
theorem related_link (api : ApiConfig) (countings : List (List (IterationId × IterationCounts)))
    (i : Iteration) :
    ∃ query, (ofIteration api (countings.map withCounts) i).related? =
        some (api.workItemsUrl ++ "?filter=" ++ query) ∧
      Text.Percent.IsQuery query.toList ∧
      Text.Percent.decode? query.toList = some (plannedFilter i.id).text.toUTF8.data.toList ∧
      Filter.read .empty (plannedFilter i.id).text =
        .ok (.equals SystemField.iteration (.string i.id.text)) ∧
      ∀ (api' : ApiConfig) (countings' : List (List (IterationId × IterationCounts)))
        (j : Iteration), j.id ≠ i.id →
        (ofIteration api' (countings'.map withCounts) j).related? ≠
          (ofIteration api (countings.map withCounts) i).related? := by
  refine ⟨_, related?_ofIteration api countings i, Text.Percent.isQuery_encode _,
    Text.Percent.decode?_toList_encode _, Filter.read_plannedFilter_untyped i.id, ?_⟩
  intro api' countings' j hne hsame
  rw [related?_ofIteration, related?_ofIteration] at hsame
  exact hne (plannedAddress_eq_iff.mp (Option.some.inj hsame)).2

end ResourceView

end Backlog
