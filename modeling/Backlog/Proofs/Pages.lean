import Backlog.Proofs.ItemRows
import Backlog.Proofs.Search

/-!
# Lists, page by page

A client that lists items sees one page of them, and goes on by the link that the page has to the
next one. A store that sees which of its items a filter holds for answers every request with a cut
of the list of these items, and the pages that are reached from the first one, one link after the
other, put that list together again. What is on one of these pages is what a client is told of the
item when it loads it.

## Main results

* `Pages.of_cut` — the pages from an offset on make up the rest of the list;
* `Tables.Sees.lists` — tables list the items that a filter holds for;
* `WorkItems.steps_list` — a list that is asked for by a text is the list of the filter it reads as.
-/

namespace Backlog

open Tx WorkItems

variable {σ : Type} [Store σ] {o o' : Open σ} {f : Filter} {found : List WorkItem}

-- ---------------------------------------------------------------------------
-- Single items
-- ---------------------------------------------------------------------------

namespace WorkItems

variable {id : ItemId} {i : WorkItem}

/-- An item that is loaded is the one that the store has in the row that the id names. -/
theorem load_ok (h : (load id : Tx σ WorkItem).steps o = (.ok i, o')) :
    ∃ row, id.row? = some row ∧ Store.item? o.store row = .ok (some i) := by
  rcases steps_proceed_bind_cases h with ⟨hr, -⟩ | hrow
  · exact absurd hr (by simp)
  rcases steps_ofExcept_bind_cases hrow with ⟨e, -, hr, -⟩ | ⟨row, hid, hfetch⟩
  · exact absurd hr (by simp)
  obtain ⟨-, ⟨e, he⟩ | ⟨j, hj, hitem⟩⟩ := fetch_cases hfetch
  · exact absurd he (by simp)
  · rw [Open.store_looked, ← Except.ok.inj hj] at hitem
    exact ⟨row, rowOf_eq_ok hid, hitem⟩

omit [Store σ] in
theorem steps_proceed_of_stands (h : Stands o) :
    (Tx.proceed : Tx σ Unit).steps o = (.ok (), o) := by
  rw [steps_proceed, h.looked_eq, (Cancellation.check_eq_ok_iff _).mpr h.request]

end WorkItems

-- ---------------------------------------------------------------------------
-- Pages
-- ---------------------------------------------------------------------------

/-- The page of a list of items that a request is answered with. -/
def ItemPage.cut (items : List WorkItem) (request : PageRequest) : ItemPage :=
  ⟨(items.drop request.offset.toNat).take request.limit.toNat, countWord items.length, request,
    .compute request (countWord items.length)⟩

/-- The items of the page that a request is answered with, and of all pages that are reached from
there by links to the next page. -/
inductive Pages (o : Open σ) (f : Filter) : PageRequest → List WorkItem → Prop
  | last {request : PageRequest} {page : ItemPage}
      (hpage : (listFiltered f request : Tx σ ItemPage).steps o = (.ok page, o))
      (hnext : page.window.next = none) : Pages o f request page.items
  | more {request : PageRequest} {page : ItemPage} {link : PageLink} {rest : List WorkItem}
      (hpage : (listFiltered f request : Tx σ ItemPage).steps o = (.ok page, o))
      (hnext : page.window.next = some link) (hrest : Pages o f ⟨link.offset, link.limit⟩ rest) :
      Pages o f request (page.items ++ rest)

namespace Pages

theorem toNat_countWord {n : Nat} (h : n < 18446744073709551616) : (countWord n).toNat = n := by
  rw [countWord, Nat.min_eq_left (by omega)]
  exact UInt64.toNat_ofNat_of_lt' h

/-- The pages from an offset on make up the rest of the list. -/
theorem of_cut
    (hpage : ∀ request, (listFiltered f request : Tx σ ItemPage).steps o =
      (.ok (.cut found request), o))
    (hlength : found.length < 18446744073709551616) {limit : UInt64} (hlimit : limit ≠ 0)
    (offset : UInt64) : Pages o f ⟨offset, limit⟩ (found.drop offset.toNat) := by
  have hstep : PageWindow.step limit = limit := if_neg hlimit
  have hpos : 0 < limit.toNat := hstep ▸ PageWindow.one_le_step limit
  have htotal := toNat_countWord hlength
  generalize hleft : found.length - offset.toNat = left
  induction left using Nat.strongRecOn generalizing offset with
  | ind left ih =>
    cases hnext : PageWindow.nextOffset? offset limit (countWord found.length) with
    | none =>
      -- the rest fits on this page
      have hend : found.length ≤ offset.toNat + limit.toNat := by
        unfold PageWindow.nextOffset? at hnext
        split at hnext
        · simp at hnext
        · next h => rwa [htotal, Nat.not_lt] at h
      have hrest : (found.drop offset.toNat).take limit.toNat = found.drop offset.toNat :=
        List.take_of_length_le (by rw [List.length_drop]; omega)
      rw [← hrest]
      refine .last (hpage ⟨offset, limit⟩) ?_
      simp only [ItemPage.cut, PageWindow.compute, hstep, hnext, Option.map_none]
    | some next =>
      obtain ⟨hoffset, hbelow⟩ := PageWindow.toNat_nextOffset? hnext
      rw [htotal] at hbelow
      have hrest := ih (found.length - next.toNat) (by omega) next rfl
      have hparts : found.drop offset.toNat =
          (found.drop offset.toNat).take limit.toNat ++ found.drop next.toNat := by
        rw [hoffset, ← List.drop_drop, List.take_append_drop]
      rw [hparts]
      have hlink : (ItemPage.cut found ⟨offset, limit⟩).window.next = some ⟨next, limit⟩ := by
        simp only [ItemPage.cut, PageWindow.compute, hstep, hnext, Option.map_some]
      exact .more (hpage ⟨offset, limit⟩) hlink hrest

end Pages

-- ---------------------------------------------------------------------------
-- Lists
-- ---------------------------------------------------------------------------

/-- A transaction lists some items, in the order of their rows, for a filter. -/
structure Lists (o : Open σ) (f : Filter) (found : List WorkItem) : Prop where
  /-- Every page is cut from them, -/
  page : ∀ request, (listFiltered f request : Tx σ ItemPage).steps o =
    (.ok (.cut found request), o)
  /-- and all pages, from the first one on, make them up. -/
  pages : found.length < 18446744073709551616 → ∀ limit : UInt64, limit ≠ 0 →
    Pages o f ⟨0, limit⟩ found
  /-- Of the items that can be loaded, those are on the pages that the filter holds for. -/
  loaded : ∀ id i o', (load id : Tx σ WorkItem).steps o = (.ok i, o') →
    (i ∈ found ↔ f.holdsFor i = true)
  /-- Each of them is the item of a row. -/
  stored : ∀ i ∈ found, ∃ row, i.id = .ofRow row ∧ Store.item? o.store row = .ok (some i)
  ascending : ∃ rows : List Int, rows.Pairwise (· < ·) ∧ found.map WorkItem.id = rows.map .ofRow

namespace Tables

variable {t : Tables} {items : List WorkItem}

theorem decodeItem_of_mem {rows : List (Int × ItemRow)} {i : WorkItem}
    (h : t.decodeItems rows = .ok items) (hi : i ∈ items) :
    ∃ e ∈ rows, t.decodeItem e.1 e.2 = .ok i := by
  induction rows generalizing items with
  | nil =>
    rw [decodeItems_nil h] at hi
    exact absurd hi List.not_mem_nil
  | cons e rest ih =>
    obtain ⟨j, is, hj, his, rfl⟩ := decodeItems_cons h
    rcases List.mem_cons.mp hi with rfl | hi
    · exact ⟨e, List.mem_cons_self, hj⟩
    · obtain ⟨e', he', hdecode⟩ := ih his hi
      exact ⟨e', List.mem_cons_of_mem e he', hdecode⟩

/-- **Tables list the items that a filter holds for**, if they see which ones these are. -/
theorem Sees.lists {o : Open Tables} (h : o.store.Sees f items) (hstands : Stands o)
    (hready : Clause.isPreparable f 2 = true) : Lists o f (items.filter f.holdsFor) := by
  have hpage : ∀ request, (listFiltered f request : Tx Tables ItemPage).steps o =
      (.ok (.cut (items.filter f.holdsFor) request), o) := by
    intro request
    have hcount := h.countItems (Clause.isPreparable_of_le (Nat.zero_le 2) hready)
    have hfetch := h.fetchItems hready request.offset request.limit
    unfold listFiltered
    rw [steps_bind_ok (steps_proceed_of_stands hstands), steps_bind_ok (steps_ask_ok hcount),
      steps_bind_ok (steps_ask_ok hfetch)]
    rfl
  refine ⟨hpage, fun hlength limit hlimit => ?_, ?_, ?_, ?_⟩
  · exact Pages.of_cut hpage hlength hlimit 0
  · intro id i o' hload
    obtain ⟨row, -, hitem⟩ := load_ok hload
    obtain ⟨r, hr, hdecode⟩ := row_of_item? hitem
    have hmem := mem_of_decodeItem h.all (SortedMap.mem_entries_iff.mpr hr) hdecode
    rw [List.mem_filter, and_iff_right hmem]
  · intro i hi
    obtain ⟨⟨row, r⟩, he, hdecode⟩ := decodeItem_of_mem h.all (List.mem_filter.mp hi).1
    refine ⟨row, id_decodeItem hdecode, ?_⟩
    exact (item?_of_row (SortedMap.mem_entries_iff.mp he)).trans
      (congrArg (Except.map some) hdecode)
  · refine ⟨(o.store.items.toList.filter fun e =>
        (Clause.ofFilter f).outcome (o.store.viewOf e.2) == .yes).map Prod.fst, ?_, ?_⟩
    · have hrows : o.store.items.toList.Pairwise fun a b => a.1 < b.1 :=
        o.store.items.sorted.imp Int.compare_eq_lt.mp
      rw [List.pairwise_map]
      exact hrows.filter _
    · rw [ids_decodeItems h.found, List.map_map]
      rfl

end Tables

/-- A list that is asked for by a text is the list of the filter that the text reads as. -/
theorem WorkItems.steps_list {ts : List ItemType} (hstands : Stands o)
    (hts : Store.types o.store = .ok ts) {text : String}
    (hread : Filter.read (Catalog.ofTypes ts) text = .ok f) (paging : PagingConfig)
    (offset : Option String) (limit : Option Int64) :
    (list paging text offset limit : Tx σ ItemPage).steps o =
      (listFiltered f (.normalize paging offset limit) : Tx σ ItemPage).steps o := by
  have hfilter : (Tx.ofExcept (readFilter (Catalog.ofTypes ts) text) : Tx σ Filter).steps o =
      (.ok f, o) := by
    rw [steps_ofExcept, readFilter, hread]
  unfold list
  rw [steps_bind_ok (steps_proceed_of_stands hstands), steps_bind_ok (steps_ask_ok hts),
    steps_bind_ok hfilter]

end Backlog
