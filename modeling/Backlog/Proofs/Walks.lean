import Backlog.Proofs.Legible

/-!
# Walking through a list

A client that lists items asks for an offset and a limit, in the form in which they come with a
request, and gets a page with links. It follows a link by asking again, with the offset of the link
as a text and its limit. Every page is shown in a transaction of its own, which changes nothing.

This module is about such walks through pages that are all cut from one list. From the first page
the links to the next one lead over the offsets on the grid of the limit to the page that every page
links to as the last one; what a client has seen by then is the list. From any offset, even from one
behind the end, the links to the previous page lead down to the start. For this the arithmetic of
the links must not leave the range of words, and it does not, for any request and any total.

## Main results

* `PageWindow.isExact_compute` — links are computed without overflow and without division by zero;
* `Service.Cuts.forward`, `Service.Cuts.back` — the two walks through a list that pages are cut
  from;
* `Service.Cuts.walks` — what a client sees who got a page and walks on.
-/

namespace Backlog

open Tx WorkItems

-- ---------------------------------------------------------------------------
-- Links in numbers
-- ---------------------------------------------------------------------------

/-- The offset and the limit of a link, as numbers without a bound. -/
def PageLink.place (l : PageLink) : Nat × Nat := (l.offset.toNat, l.limit.toNat)

namespace PageWindow

/-- The links of a window are those that arithmetic without a bound gives. -/
structure IsExact (w : PageWindow) (offset limit total : Nat) : Prop where
  first : w.first.place = (0, limit)
  previous : w.previous.map PageLink.place =
    if 0 < offset then some (offset - limit, limit) else none
  next : w.next.map PageLink.place =
    if offset + limit < total then some (offset + limit, limit) else none
  last : w.last.map PageLink.place =
    if 0 < total then some ((total - 1) / limit * limit, limit) else none

theorem toNat_step (limit : UInt64) : (step limit).toNat = max 1 limit.toNat := by
  unfold step
  split
  · next h =>
    rw [h]
    rfl
  · next h =>
    have hne : limit.toNat ≠ 0 := fun h0 => h (UInt64.toNat_inj.mp h0)
    omega

theorem toNat_last {total limit : UInt64} (htotal : 0 < total.toNat) :
    ((total - 1) / limit * limit).toNat = (total.toNat - 1) / limit.toNat * limit.toNat := by
  have hword := total.toNat_lt
  have hone : (total - 1).toNat = total.toNat - 1 :=
    UInt64.toNat_sub_of_le _ _ (UInt64.le_iff_toNat_le.mpr htotal)
  have hle : (total.toNat - 1) / limit.toNat * limit.toNat ≤ total.toNat - 1 :=
    Nat.div_mul_le_self _ _
  rw [UInt64.toNat_mul, UInt64.toNat_div, hone, Nat.mod_eq_of_lt (by omega)]

/-- **Links are computed without overflow and without division by zero**, for every request and
every total. -/
theorem isExact_compute (request : PageRequest) (total : UInt64) :
    (compute request total).IsExact request.offset.toNat (max 1 request.limit.toNat)
      total.toNat := by
  have hstep := toNat_step request.limit
  have hpos : ∀ w : UInt64, 0 < w ↔ 0 < w.toNat := fun w => UInt64.lt_iff_toNat_lt
  unfold compute
  refine ⟨?_, ?_, ?_, ?_⟩
  · simp [PageLink.place, hstep]
  · simp only [hpos]
    split
    · rw [Option.map_some, PageLink.place, toNat_minus, hstep]
    · rfl
  · simp only [nextOffset?, hstep]
    split
    · next hlt =>
      have hword := total.toNat_lt
      simp only [Option.map_some, PageLink.place, hstep, UInt64.toNat_add]
      rw [Nat.mod_eq_of_lt (by omega)]
    · rfl
  · simp only [hpos]
    split
    · next htotal => rw [Option.map_some, PageLink.place, toNat_last htotal, hstep]
    · rfl

end PageWindow

-- ---------------------------------------------------------------------------
-- Following a link
-- ---------------------------------------------------------------------------

namespace Text

theorem trim_natural (n : Nat) : trim (natural n) = natural n := by
  refine trim_of_not_blank fun c hc => ?_
  rw [natural, String.toList_ofList] at hc
  exact isBlank_of_isDigit (Nat.isDigit_of_mem_toDigits (by decide) (by decide) hc)

theorem int64?_natural {n : Nat} (h : n < 9223372036854775808) :
    int64? (natural n) = some (Int64.ofInt n) := by
  rw [int64?, natural, String.toList_ofList, integer?_toDigits, Option.bind_some, exactInt64?,
    if_pos ⟨by omega, by omega⟩]

end Text

namespace PageLink

/-- The offset of a link, as a client sends it. -/
def offsetText (l : PageLink) : String := Text.natural l.offset.toNat

/-- The limit of a link, as a client sends it. -/
def limitWord (l : PageLink) : Int64 := Int64.ofInt l.limit.toNat

end PageLink

namespace PageRequest

variable {paging : PagingConfig}

theorem toNat_offsetOf_lt (text : Option String) :
    (offsetOf text).toNat < 9223372036854775808 := by
  unfold offsetOf
  split
  · next w _ =>
    split
    · have := Int64.toInt_lt w
      rw [UInt64.toNat_ofNat_of_lt' (show w.toInt.toNat < 18446744073709551616 by omega)]
      omega
    · decide
  · decide

theorem limitOf_bounds (hdefault : 1 ≤ paging.defaultLimit.toNat)
    (hle : paging.defaultLimit.toNat ≤ paging.maxLimit.toNat) (limit : Option Int64) :
    1 ≤ (limitOf paging limit).toNat ∧ (limitOf paging limit).toNat ≤ paging.maxLimit.toNat := by
  unfold limitOf
  split
  · next w =>
    split
    · next hpos =>
      have := Int64.toInt_lt w
      have hasked : (UInt64.ofNat w.toInt.toNat).toNat = w.toInt.toNat :=
        UInt64.toNat_ofNat_of_lt' (show w.toInt.toNat < 18446744073709551616 by omega)
      simp only
      split
      · next hmax =>
        rw [UInt64.le_iff_toNat_le] at hmax
        omega
      · omega
    · omega
  · omega

/-- Asking for a link asks for its offset and its limit. -/
theorem normalize_link {l : PageLink} (hoffset : l.offset.toNat < 9223372036854775808)
    (hpos : 1 ≤ l.limit.toNat) (hle : l.limit.toNat ≤ paging.maxLimit.toNat)
    (hmax : paging.maxLimit.toNat < 9223372036854775808) :
    normalize paging (some l.offsetText) (some l.limitWord) = ⟨l.offset, l.limit⟩ := by
  have hword : ∀ {n : Nat}, n < 9223372036854775808 → (Int64.ofInt n).toInt = n := by
    intro n hn
    exact Int64.toInt_ofInt_of_le (by omega) (by omega)
  have hsent : offsetOf (some l.offsetText) = l.offset := by
    unfold offsetOf PageLink.offsetText
    rw [Option.bind_some, Text.trim_natural, Text.int64?_natural hoffset]
    simp only [hword hoffset, Int.natCast_nonneg, if_true, Int.toNat_natCast, UInt64.ofNat_toNat]
  have hlimit : limitOf paging (some l.limitWord) = l.limit := by
    have hl : l.limit ≤ paging.maxLimit := UInt64.le_iff_toNat_le.mpr hle
    unfold limitOf PageLink.limitWord
    simp only [hword (show l.limit.toNat < 9223372036854775808 by omega), Int.toNat_natCast,
      UInt64.ofNat_toNat, if_pos hl]
    rw [if_pos (by omega)]
  rw [normalize, hsent, hlimit]

end PageRequest

-- ---------------------------------------------------------------------------
-- Walks
-- ---------------------------------------------------------------------------

namespace Service

variable {σ : Type} [Store σ] {s : Service σ} {text : String}

/-- A page that a service shows in a transaction of its own, which changes nothing. -/
def Shows (s : Service σ) (text : String) (offset : Option String) (limit : Option Int64)
    (page : ItemPage) : Prop :=
  s.transactional .new (WorkItems.list s.config.paging text offset limit) = (.ok page, s)

/-- The pages that a client gets one after the other, from a request on, by the links that lead its
way, until it comes to a page without such a link. -/
inductive Walk (s : Service σ) (text : String) (way : PageWindow → Option PageLink) :
    Option String → Option Int64 → List ItemPage → Prop
  | stop {offset limit} {page : ItemPage} (hpage : s.Shows text offset limit page)
      (hend : way page.window = none) : Walk s text way offset limit [page]
  | go {offset limit} {page : ItemPage} {link : PageLink} {pages : List ItemPage}
      (hpage : s.Shows text offset limit page) (hlink : way page.window = some link)
      (hrest : Walk s text way (some link.offsetText) (some link.limitWord) pages) :
      Walk s text way offset limit (page :: pages)

end Service

theorem PageLink.eq_of_place {l : PageLink} {offset : Nat} {limit : UInt64}
    (h : l.place = (offset, limit.toNat)) : l = ⟨UInt64.ofNat offset, limit⟩ := by
  obtain ⟨hoffset, hlimit⟩ := Prod.mk.inj h
  rw [← hoffset, UInt64.ofNat_toNat, ← UInt64.toNat_inj.mp hlimit]

/-- The page on the grid of a limit. -/
def ItemPage.onGrid (found : List WorkItem) (limit : UInt64) (k : Nat) : ItemPage :=
  .cut found ⟨UInt64.ofNat (k * limit.toNat), limit⟩

/-- How many pages there are on the grid of a limit; there always is one. -/
def pageCount (total limit : Nat) : Nat := (total - 1) / limit + 1

theorem mul_lt_of_lt_pageCount (total : Nat) {limit k : Nat} (hpos : 0 < limit)
    (hk : k + 1 < pageCount total limit) : k * limit + limit < total := by
  have hle : k + 1 ≤ (total - 1) / limit := by
    unfold pageCount at hk
    omega
  have hmul : (k + 1) * limit ≤ total - 1 := (Nat.le_div_iff_mul_le hpos).mp hle
  have hone : limit ≤ (k + 1) * limit := Nat.le_mul_of_pos_left limit (Nat.succ_pos k)
  rw [Nat.add_mul, Nat.one_mul] at hmul hone
  omega

theorem le_mul_pageCount (total : Nat) {limit : Nat} (hpos : 0 < limit) :
    total ≤ pageCount total limit * limit := by
  have hlt : (total - 1) / limit < pageCount total limit := Nat.lt_succ_self _
  have := (Nat.div_lt_iff_lt_mul hpos).mp hlt
  omega

theorem mul_le_of_lt_pageCount (total : Nat) {limit k : Nat} (hpos : 0 < limit)
    (hk : k < pageCount total limit) : k * limit ≤ total - 1 := by
  refine (Nat.le_div_iff_mul_le hpos).mp ?_
  unfold pageCount at hk
  omega

theorem toNat_ofNat {n : Nat} (h : n < 9223372036854775808) : (UInt64.ofNat n).toNat = n :=
  UInt64.toNat_ofNat_of_lt' (show n < 18446744073709551616 by omega)

/-- The links of a page that is cut from a list are those that arithmetic without a bound gives. -/
theorem ItemPage.isExact_cut {found : List WorkItem} (hlength : found.length < 9223372036854775808)
    {limit : UInt64} (hpos : 1 ≤ limit.toNat) (offset : UInt64) :
    (ItemPage.cut found ⟨offset, limit⟩).window.IsExact offset.toNat limit.toNat found.length := by
  have hexact := PageWindow.isExact_compute ⟨offset, limit⟩ (countWord found.length)
  rwa [Pages.toNat_countWord (by omega), Nat.max_eq_right hpos] at hexact

/-- A page on the grid links to the next one, unless it is the last. -/
theorem ItemPage.next_onGrid {found : List WorkItem} (hlength : found.length < 9223372036854775808)
    {limit : UInt64} (hpos : 1 ≤ limit.toNat) {k : Nat}
    (hk : k < pageCount found.length limit.toNat) :
    (ItemPage.onGrid found limit k).window.next =
      if k + 1 < pageCount found.length limit.toNat then
        some ⟨UInt64.ofNat ((k + 1) * limit.toNat), limit⟩
      else none := by
  have hbelow := mul_le_of_lt_pageCount found.length hpos hk
  have hnext := (ItemPage.isExact_cut hlength hpos (UInt64.ofNat (k * limit.toNat))).next
  rw [toNat_ofNat (by omega)] at hnext
  split
  · next hmore =>
    have hlt := mul_lt_of_lt_pageCount found.length hpos hmore
    rw [if_pos hlt] at hnext
    obtain ⟨link, hlink, hplace⟩ := Option.map_eq_some_iff.mp hnext
    obtain rfl := PageLink.eq_of_place hplace
    rw [Nat.add_mul, Nat.one_mul]
    exact hlink
  · next hlast =>
    have hall := le_mul_pageCount found.length hpos
    rw [show pageCount found.length limit.toNat = k + 1 by omega, Nat.add_mul, Nat.one_mul] at hall
    rw [if_neg (by omega), Option.map_eq_none_iff] at hnext
    exact hnext

/-- The pages on the grid make up the list. -/
theorem flatMap_onGrid {found : List WorkItem} (hlength : found.length < 9223372036854775808)
    {limit : UInt64} (hpos : 1 ≤ limit.toNat) :
    ((List.range (pageCount found.length limit.toNat)).map (ItemPage.onGrid found limit)).flatMap
      ItemPage.items = found := by
  have hfront : ∀ n, n ≤ pageCount found.length limit.toNat →
      ((List.range n).map (ItemPage.onGrid found limit)).flatMap ItemPage.items =
        found.take (n * limit.toNat) := by
    intro n hn
    induction n with
    | zero => simp
    | succ n ih =>
      have hbelow := mul_le_of_lt_pageCount found.length hpos (show n < _ by omega)
      have hpage : (ItemPage.onGrid found limit n).items =
          (found.drop (n * limit.toNat)).take limit.toNat := by
        rw [ItemPage.onGrid, ItemPage.cut, toNat_ofNat (by omega)]
      rw [List.range_succ, List.map_append, List.flatMap_append, ih (by omega), List.map_singleton,
        List.flatMap_singleton, hpage, Nat.add_mul, Nat.one_mul, List.take_add]
  rw [hfront _ (Nat.le_refl _)]
  exact List.take_of_length_le (le_mul_pageCount found.length hpos)

namespace Service

/-- Every page that a service shows for a text is cut from one list, which is short enough for its
offsets to be sent, and so are the limits. -/
structure Cuts {σ : Type} [Store σ] (s : Service σ) (text : String) (found : List WorkItem) :
    Prop where
  shows : ∀ offset limit,
    s.Shows text offset limit (.cut found (.normalize s.config.paging offset limit))
  short : found.length < 9223372036854775808
  sent : s.config.paging.maxLimit.toNat < 9223372036854775808

/-- What a client sees who got a page and walks on from there. -/
structure Paging {σ : Type} [Store σ] (s : Service σ) (text : String) (offset : Option String)
    (limit : Option Int64) (page : ItemPage) (found : List WorkItem) : Prop where
  shown : s.Shows text offset limit page
  request : page.request = .normalize s.config.paging offset limit
  total : page.total.toNat = found.length
  /-- The page holds what the list has there. -/
  items : page.items =
    (found.drop page.request.offset.toNat).take page.request.limit.toNat
  /-- From the first page on, the links to the next one lead over all offsets of the grid to the
  page that is linked to as the last one, and all pages make up the list. -/
  forward : ∃ pages, s.Walk text PageWindow.next (some page.window.first.offsetText)
      (some page.window.first.limitWord) pages ∧
    (pages.map fun p => p.request.offset.toNat) =
      (List.range pages.length).map (· * page.request.limit.toNat) ∧
    (∀ p ∈ pages, p.request.limit = page.request.limit) ∧
    pages.flatMap ItemPage.items = found ∧
    (found = [] → pages.length = 1 ∧ page.window.last = none) ∧
    (found ≠ [] → ∃ p, pages.getLast? = some p ∧
      page.window.last = some ⟨p.request.offset, p.request.limit⟩)
  /-- From the page itself, the links to the previous one lead down to the start. -/
  back : ∃ pages, s.Walk text PageWindow.previous offset limit pages ∧
    (pages.map fun p => p.request.offset.toNat).head? = some page.request.offset.toNat ∧
    (pages.map fun p => p.request.offset.toNat).Pairwise (· > ·) ∧
    (pages.map fun p => p.request.offset.toNat).getLast? = some 0
  /-- The page that the link to the next one leads to links back to this one. -/
  returns : ∀ link, page.window.next = some link →
    ∃ p, s.Shows text (some link.offsetText) (some link.limitWord) p ∧
      p.window.previous = some ⟨page.request.offset, page.request.limit⟩

namespace Cuts

variable {σ : Type} [Store σ] {s : Service σ} {text : String} {found : List WorkItem}
  (h : s.Cuts text found) {limit : UInt64}
  (hlimit : 1 ≤ limit.toNat ∧ limit.toNat ≤ s.config.paging.maxLimit.toNat)
include h hlimit

/-- A link with a small offset is followed to the page at that offset. -/
theorem shows_link {offset : Nat} (hoffset : offset < 9223372036854775808) :
    s.Shows text (some (PageLink.offsetText ⟨UInt64.ofNat offset, limit⟩))
      (some (PageLink.limitWord ⟨UInt64.ofNat offset, limit⟩))
      (.cut found ⟨UInt64.ofNat offset, limit⟩) := by
  have hasked := h.shows (some (PageLink.offsetText ⟨UInt64.ofNat offset, limit⟩))
    (some (PageLink.limitWord ⟨UInt64.ofNat offset, limit⟩))
  rwa [PageRequest.normalize_link (by rw [toNat_ofNat hoffset]; exact hoffset) hlimit.1 hlimit.2
    h.sent] at hasked

/-- Walking from a page on the grid by the links to the next one visits all pages from there on. -/
theorem forward (d k : Nat) (hk : k + d + 1 = pageCount found.length limit.toNat) :
    s.Walk text PageWindow.next
      (some (PageLink.offsetText ⟨UInt64.ofNat (k * limit.toNat), limit⟩))
      (some (PageLink.limitWord ⟨UInt64.ofNat (k * limit.toNat), limit⟩))
      ((List.range' k (d + 1)).map (ItemPage.onGrid found limit)) := by
  have hshort := h.short
  have hpage : ∀ k, k < pageCount found.length limit.toNat →
      s.Shows text (some (PageLink.offsetText ⟨UInt64.ofNat (k * limit.toNat), limit⟩))
        (some (PageLink.limitWord ⟨UInt64.ofNat (k * limit.toNat), limit⟩))
        (.onGrid found limit k) := by
    intro k hk
    have hbelow := mul_le_of_lt_pageCount found.length hlimit.1 hk
    exact h.shows_link hlimit (by omega)
  induction d generalizing k with
  | zero =>
    refine .stop (hpage k (by omega)) ?_
    rw [ItemPage.next_onGrid hshort hlimit.1 (by omega), if_neg (by omega)]
  | succ d ih =>
    rw [List.range'_succ, List.map_cons]
    refine .go (hpage k (by omega)) ?_ (ih (k + 1) (by omega))
    rw [ItemPage.next_onGrid hshort hlimit.1 (by omega), if_pos (by omega)]

/-- Walking from any page by the links to the previous one comes down to the start. -/
theorem back {offset : Option String} {asked : Option Int64} {start : UInt64}
    (hasked : PageRequest.normalize s.config.paging offset asked = ⟨start, limit⟩)
    (hstart : start.toNat < 9223372036854775808) :
    ∃ pages, s.Walk text PageWindow.previous offset asked pages ∧
      (pages.map fun p => p.request.offset.toNat).head? = some start.toNat ∧
      (pages.map fun p => p.request.offset.toNat).Pairwise (· > ·) ∧
      (pages.map fun p => p.request.offset.toNat).getLast? = some 0 := by
  generalize hn : start.toNat = n
  induction n using Nat.strongRecOn generalizing offset asked start with
  | ind n ih =>
    have hpos := hlimit.1
    have hpage := h.shows offset asked
    rw [hasked] at hpage
    have hprevious := (ItemPage.isExact_cut h.short hlimit.1 start).previous
    rw [hn] at hprevious
    by_cases hzero : n = 0
    · rw [if_neg (by omega), Option.map_eq_none_iff] at hprevious
      refine ⟨_, .stop hpage hprevious, ?_, List.pairwise_singleton _ _, ?_⟩
      · simp [ItemPage.cut, hn]
      · simp [ItemPage.cut, hn, hzero]
    · rw [if_pos (by omega)] at hprevious
      obtain ⟨link, hlink, hplace⟩ := Option.map_eq_some_iff.mp hprevious
      obtain rfl := PageLink.eq_of_place hplace
      have hword : (UInt64.ofNat (n - limit.toNat)).toNat = n - limit.toNat :=
        toNat_ofNat (by omega)
      have hfollowed : PageRequest.normalize s.config.paging
          (some (PageLink.offsetText ⟨UInt64.ofNat (n - limit.toNat), limit⟩))
          (some (PageLink.limitWord ⟨UInt64.ofNat (n - limit.toNat), limit⟩)) =
            ⟨UInt64.ofNat (n - limit.toNat), limit⟩ :=
        PageRequest.normalize_link (show (UInt64.ofNat _).toNat < _ by omega) hlimit.1 hlimit.2
          h.sent
      obtain ⟨pages, hwalk, hhead, hdown, hlast⟩ :=
        ih (n - limit.toNat) (by omega) hfollowed (by omega) hword
      refine ⟨_, .go hpage hlink hwalk, by simp [ItemPage.cut, hn], ?_, ?_⟩
      · -- all that follows lies at or before the page that the link leads to
        have hle : ∀ o ∈ pages.map fun p => p.request.offset.toNat, o ≤ n - limit.toNat := by
          cases hoffsets : pages.map fun p => p.request.offset.toNat with
          | nil => simp
          | cons first rest =>
            rw [hoffsets] at hhead hdown
            obtain rfl := Option.some.inj hhead
            exact List.forall_mem_cons.mpr ⟨Nat.le_refl _, fun o ho =>
              Nat.le_of_lt ((List.pairwise_cons.mp hdown).1 o ho)⟩
        rw [List.map_cons, List.pairwise_cons]
        refine ⟨fun o ho => ?_, hdown⟩
        have := hle o ho
        show o < start.toNat
        omega
      · rw [List.map_cons, List.getLast?_cons, hlast]
        rfl

/-- From the first page the links to the next one lead over the whole grid. -/
theorem forward_first {page : ItemPage}
    (hexact : ∃ offset, page.window.IsExact offset limit.toNat found.length) :
    ∃ pages, s.Walk text PageWindow.next (some page.window.first.offsetText)
        (some page.window.first.limitWord) pages ∧
      (pages.map fun p => p.request.offset.toNat) =
        (List.range pages.length).map (· * limit.toNat) ∧
      (∀ p ∈ pages, p.request.limit = limit) ∧
      pages.flatMap ItemPage.items = found ∧
      (found = [] → pages.length = 1 ∧ page.window.last = none) ∧
      (found ≠ [] → ∃ p, pages.getLast? = some p ∧
        page.window.last = some ⟨p.request.offset, p.request.limit⟩) := by
  obtain ⟨_, hfirst, -, -, hlast⟩ := hexact
  have hshort := h.short
  have hcount : pageCount found.length limit.toNat = (found.length - 1) / limit.toNat + 1 := rfl
  have hwalk := h.forward hlimit ((found.length - 1) / limit.toNat) 0 (by rw [hcount, Nat.zero_add])
  rw [← hcount, ← List.range_eq_range', Nat.zero_mul, ← PageLink.eq_of_place hfirst] at hwalk
  refine ⟨_, hwalk, ?_, ?_, flatMap_onGrid hshort hlimit.1, fun hnil => ?_, fun hsome => ?_⟩
  · rw [List.map_map, List.length_map, List.length_range]
    refine List.map_congr_left fun k hk => ?_
    have hbelow :=
      mul_le_of_lt_pageCount found.length hlimit.1 (List.mem_range.mp hk)
    exact toNat_ofNat (by omega)
  · intro p hp
    obtain ⟨k, -, rfl⟩ := List.mem_map.mp hp
    rfl
  · subst hnil
    refine ⟨by simp [pageCount], ?_⟩
    rwa [if_neg (by simp), Option.map_eq_none_iff] at hlast
  · have hpos : 0 < found.length := List.length_pos_iff.mpr hsome
    rw [if_pos hpos] at hlast
    obtain ⟨link, hlink, hplace⟩ := Option.map_eq_some_iff.mp hlast
    obtain rfl := PageLink.eq_of_place hplace
    refine ⟨ItemPage.onGrid found limit ((found.length - 1) / limit.toNat), ?_, hlink⟩
    rw [hcount, List.range_succ, List.map_append, List.map_singleton, List.getLast?_concat]

/-- **Walks through a list that pages are cut from.** -/
theorem walks {offset : Option String} {asked : Option Int64} {start : UInt64}
    (hasked : PageRequest.normalize s.config.paging offset asked = ⟨start, limit⟩) :
    s.Paging text offset asked (.cut found ⟨start, limit⟩) found := by
  have hpos := hlimit.1
  have hshort := h.short
  have hstart : start.toNat < 9223372036854775808 := by
    have hoffset : PageRequest.offsetOf offset = start := congrArg PageRequest.offset hasked
    exact hoffset ▸ PageRequest.toNat_offsetOf_lt offset
  have hexact := ItemPage.isExact_cut h.short hlimit.1 start
  have hshown := h.shows offset asked
  rw [hasked] at hshown
  refine ⟨hshown, hasked.symm, Pages.toNat_countWord (by omega), rfl,
    h.forward_first hlimit ⟨_, hexact⟩, h.back hlimit hasked hstart, fun link hlink => ?_⟩
  have hplace := hexact.next
  rw [hlink, Option.map_some] at hplace
  split at hplace
  · next hmore =>
    obtain rfl := PageLink.eq_of_place (Option.some.inj hplace)
    refine ⟨_, h.shows_link hlimit (by omega), ?_⟩
    have hprevious := (ItemPage.isExact_cut h.short hlimit.1
      (UInt64.ofNat (start.toNat + limit.toNat))).previous
    rw [toNat_ofNat (by omega), if_pos (by omega), Nat.add_sub_cancel] at hprevious
    obtain ⟨back, hback, hplace⟩ := Option.map_eq_some_iff.mp hprevious
    obtain rfl := PageLink.eq_of_place hplace
    rw [UInt64.ofNat_toNat] at hback
    exact hback
  · simp at hplace

end Cuts

end Service

end Backlog
