import Backlog.Config
import Backlog.Text.Integer

/-!
# Pages of a list

A list is shown in pages of a limit. Links lie on the grid of that limit: to the first page, to the
last one, and one limit back and forth from where the reader is, even past the end.

## Main statements

* `PageWindow.next_offset_gt` — the next page starts behind this one;
* `PageWindow.previous_offset_lt` — the previous page starts before this one.
-/

namespace Backlog

/-- The part of a list that is asked for. -/
structure PageRequest where
  offset : UInt64
  limit : UInt64
  deriving DecidableEq, Repr

namespace PageRequest

/-- The offset that a text asks for: what reads as no offset asks for the start. -/
def offsetOf (text : Option String) : UInt64 :=
  match text.bind fun s => Text.int64? (Text.trim s) with
  | some w => if 0 ≤ w.toInt then UInt64.ofNat w.toInt.toNat else 0
  | none => 0

/-- The limit that is asked for: at most the greatest one; nothing, zero and less ask for the
default. -/
def limitOf (paging : PagingConfig) (limit : Option Int64) : UInt64 :=
  match limit with
  | some w =>
    if 0 < w.toInt then
      let asked := UInt64.ofNat w.toInt.toNat
      if asked ≤ paging.maxLimit then asked else paging.maxLimit
    else paging.defaultLimit
  | none => paging.defaultLimit

/-- The request that raw values make. -/
def normalize (paging : PagingConfig) (offset : Option String) (limit : Option Int64) :
    PageRequest :=
  ⟨offsetOf offset, limitOf paging limit⟩

end PageRequest

/-- A page to go to. -/
structure PageLink where
  offset : UInt64
  limit : UInt64
  deriving DecidableEq, Repr

namespace PageLink

/-- The query of a link. -/
def query (l : PageLink) : String :=
  "offset=" ++ Text.natural l.offset.toNat ++ "&limit=" ++ Text.natural l.limit.toNat

/-- The address of a link in a collection. -/
def address (l : PageLink) (collection : String) : String :=
  collection ++ (if '?' ∈ collection.toList then "&" else "?") ++ l.query

end PageLink

/-- The links of a page. -/
structure PageWindow where
  first : PageLink
  previous : Option PageLink
  next : Option PageLink
  last : Option PageLink
  deriving DecidableEq, Repr

/-- The addresses of the links of a page. -/
structure PageAddresses where
  first : String
  previous : Option String
  next : Option String
  last : Option String
  deriving DecidableEq, Repr

namespace PageWindow

/-- The difference of two words, or zero where it would be negative. -/
def minus (a b : UInt64) : UInt64 := if b ≤ a then a - b else 0

/-- The offset of the page after the one at an offset, if it starts before the end. -/
def nextOffset? (offset limit total : UInt64) : Option UInt64 :=
  if offset.toNat + limit.toNat < total.toNat then some (offset + limit) else none

/-- The step of the grid: pages hold at least one record. -/
def step (limit : UInt64) : UInt64 := if limit = 0 then 1 else limit

/-- The links around a request in a list of the given length. -/
def compute (request : PageRequest) (total : UInt64) : PageWindow :=
  let limit := step request.limit
  { first := ⟨0, limit⟩
    previous := if 0 < request.offset then some ⟨minus request.offset limit, limit⟩ else none
    next := (nextOffset? request.offset limit total).map fun o => ⟨o, limit⟩
    last := if 0 < total then some ⟨(total - 1) / limit * limit, limit⟩ else none }

/-- The addresses of the links in a collection. -/
def addresses (w : PageWindow) (collection : String) : PageAddresses :=
  { first := w.first.address collection
    previous := w.previous.map fun l => l.address collection
    next := w.next.map fun l => l.address collection
    last := w.last.map fun l => l.address collection }

/-! ## Where links lead -/

theorem toNat_minus (a b : UInt64) : (minus a b).toNat = a.toNat - b.toNat := by
  unfold minus
  split
  · next h => exact UInt64.toNat_sub_of_le _ _ h
  · next h =>
    have : a.toNat < b.toNat := UInt64.lt_iff_toNat_lt.mp (UInt64.not_le.mp h)
    simp only [UInt64.toNat_zero]
    omega

theorem toNat_nextOffset? {offset limit total o : UInt64}
    (h : nextOffset? offset limit total = some o) :
    o.toNat = offset.toNat + limit.toNat ∧ o.toNat < total.toNat := by
  unfold nextOffset? at h
  split at h
  · next hlt =>
    have ht := total.toNat_lt
    have ho : o.toNat = offset.toNat + limit.toNat := by
      rw [← Option.some.inj h, UInt64.toNat_add]
      omega
    exact ⟨ho, by omega⟩
  · simp at h

theorem one_le_step (limit : UInt64) : 1 ≤ (step limit).toNat := by
  unfold step
  split
  · decide
  · next h =>
    have : limit.toNat ≠ 0 := fun h0 => h (UInt64.toNat_inj.mp h0)
    omega

/-- The next page starts behind this one. -/
theorem next_offset_gt {request : PageRequest} {total : UInt64} {l : PageLink}
    (h : (compute request total).next = some l) : request.offset.toNat < l.offset.toNat := by
  unfold compute at h
  obtain ⟨o, ho, rfl⟩ := Option.map_eq_some_iff.mp h
  have := (toNat_nextOffset? ho).1
  have := one_le_step request.limit
  simp only
  omega

/-- The previous page starts before this one. -/
theorem previous_offset_lt {request : PageRequest} {total : UInt64} {l : PageLink}
    (h : (compute request total).previous = some l) : l.offset.toNat < request.offset.toNat := by
  unfold compute at h
  simp only at h
  split at h
  · next hpos =>
    rw [← Option.some.inj h]
    simp only [toNat_minus]
    have h1 := one_le_step request.limit
    have h2 : 0 < request.offset.toNat := UInt64.lt_iff_toNat_lt.mp hpos
    omega
  · simp at h

end PageWindow

end Backlog
