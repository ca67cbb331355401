import Mathlib.Data.Set.Pairwise.Basic
import Mathlib.Order.CompletePartialOrder
import Mathlib.Order.Interval.Set.Disjoint
import RecordSearch.Proofs.Query.Document

/-! The part of the matches a request asks for, as numbers without bounds, and how the parts of all
pages lie beside each other. -/
namespace RecordSearch.Query
variable (p : Policy) (r : Request)

def Request.size : Nat :=
  if 0 < (r.perPage.getD 0).toNat then (r.perPage.getD 0).toNat
  else if 0 < p.pageSize.toNat then p.pageSize.toNat
  else 10

def Request.offset : Nat :=
  match r.page with
  | none => 0
  | some page => min ((max page.toNat 1 - 1) * r.size p) 4294967295

private theorem pos_iff_ne_zero (n : UInt32) : 0 < n.toNat ↔ n ≠ 0 := by
  rw [Nat.pos_iff_ne_zero, ne_eq, ne_eq, ← UInt32.toNat_inj]
  rfl

theorem toNat_pageSize : (pageSize p r).toNat = r.size p := by
  have hpolicy : (pageSize.fromPolicy p).toNat =
      if 0 < p.pageSize.toNat then p.pageSize.toNat else 10 := by
    unfold pageSize.fromPolicy
    by_cases h : p.pageSize = 0 <;> simp [pos_iff_ne_zero, h, defaultPageSize]
  unfold pageSize Request.size
  cases r.perPage with
  | none => exact hpolicy
  | some n => by_cases h : n = 0 <;> simp [pos_iff_ne_zero, h, hpolicy]

/-- A product that does not fit stops at the greatest number of 32 bits; it does not wrap. -/
theorem toNat_saturatingMul (a b : UInt32) :
    (saturatingMul a b).toNat = min (a.toNat * b.toNat) 4294967295 := by
  unfold saturatingMul
  split
  · next hfits =>
    rw [UInt32.toNat_mul, Nat.mod_eq_of_lt hfits, Nat.min_eq_left (Nat.le_of_lt_succ hfits)]
  · next hover => exact (Nat.min_eq_right (Nat.le_of_succ_le (Nat.not_lt.1 hover))).symm

private theorem toNat_max_one (page : UInt32) : (max page 1).toNat = max page.toNat 1 := by
  have hle : page ≤ 1 ↔ page.toNat ≤ 1 := UInt32.le_iff_toNat_le
  change (if page ≤ 1 then 1 else page : UInt32).toNat = if page.toNat ≤ 1 then 1 else page.toNat
  by_cases h : page ≤ 1
  · rw [if_pos h, if_pos (hle.1 h)]
    rfl
  · rw [if_neg h, if_neg (mt hle.2 h)]

/-- There is a page to be taken off, so that the difference does not wrap. -/
theorem toNat_pages_before (page : UInt32) : (max page 1 - 1).toNat = max page.toNat 1 - 1 := by
  have hone : 1 ≤ max page 1 := by
    rw [UInt32.le_iff_toNat_le, toNat_max_one]
    exact Nat.le_max_right _ _
  rw [UInt32.toNat_sub_of_le _ _ hone, toNat_max_one]
  rfl

theorem toNat_pageOffset : (pageOffset p r).toNat = r.offset p := by
  unfold pageOffset Request.offset
  cases r.page with
  | none => rfl
  | some page =>
    dsimp only
    rw [toNat_saturatingMul, toNat_pages_before, toNat_pageSize]

variable {p r}

/-- Nothing else in a request has a say in the size of its pages. -/
theorem pageSize_congr {other : Request} (h : r.perPage = other.perPage) :
    pageSize p r = pageSize p other := by
  unfold pageSize
  rw [h]

theorem pageOffset_congr {other : Request} (hsize : r.perPage = other.perPage)
    (hpage : r.page = other.page) :
    pageOffset p r = pageOffset p other := by
  unfold pageOffset
  rw [pageSize_congr hsize, hpage]

variable (p r) in
theorem size_pos : 1 ≤ r.size p := by
  unfold Request.size
  split
  · assumption
  · split
    · assumption
    · decide

def pagesTo (n : UInt32) : Set UInt32 := {page | 1 ≤ page ∧ page ≤ n}

section Tiling

def pageWindow (start : UInt32 → Nat) (size : Nat) (page : UInt32) : Set Nat :=
  Set.Ico (start page) (start page + size)

variable {size : Nat} {start : UInt32 → Nat} {n : UInt32}
  (hstart : ∀ page, start page = min ((max page.toNat 1 - 1) * size) 4294967295)
  (hn : (n.toNat - 1) * size ≤ 4294967295)
include hstart hn

private theorem start_eq {page : UInt32} (hpage : page ∈ pagesTo n) :
    1 ≤ page.toNat ∧ page.toNat ≤ n.toNat ∧ start page = (page.toNat - 1) * size := by
  have hfirst : 1 ≤ page.toNat := UInt32.le_iff_toNat_le.1 hpage.1
  have hlast : page.toNat ≤ n.toNat := UInt32.le_iff_toNat_le.1 hpage.2
  have hbound : (page.toNat - 1) * size ≤ (n.toNat - 1) * size :=
    Nat.mul_le_mul_right _ (Nat.sub_le_sub_right hlast 1)
  refine ⟨hfirst, hlast, ?_⟩
  rw [hstart, Nat.max_eq_left hfirst, Nat.min_eq_left (hbound.trans hn)]

private theorem pageWindow_eq {page : UInt32} (hpage : page ∈ pagesTo n) :
    pageWindow start size page = Set.Ico ((page.toNat - 1) * size) (page.toNat * size) := by
  obtain ⟨hfirst, -, hs⟩ := start_eq hstart hn hpage
  rw [pageWindow, hs, ← Nat.succ_mul, Nat.succ_eq_add_one, Nat.sub_add_cancel hfirst]

/-- Pages that can be counted follow each other without a gap. -/
theorem start_succ {page : UInt32} (hfirst : 1 ≤ page) (hlast : page < n) :
    start (page + 1) = start page + size := by
  have hlt : page.toNat < n.toNat := UInt32.lt_iff_toNat_lt.1 hlast
  have hnumber : (page + 1).toNat = page.toNat + 1 := by
    rw [UInt32.toNat_add]
    exact Nat.mod_eq_of_lt ((Nat.succ_le_of_lt hlt).trans_lt n.toNat_lt)
  have hnext : page + 1 ∈ pagesTo n := by
    constructor <;> rw [UInt32.le_iff_toNat_le, hnumber]
    · exact Nat.le_add_left 1 _
    · exact hlt
  obtain ⟨hone, -, hs⟩ := start_eq hstart hn ⟨hfirst, UInt32.le_iff_toNat_le.2 hlt.le⟩
  obtain ⟨-, -, hs'⟩ := start_eq hstart hn hnext
  rw [hs, hs', hnumber, Nat.add_sub_cancel, ← Nat.succ_mul, Nat.succ_eq_add_one,
    Nat.sub_add_cancel hone]

/-- No match is on two pages. -/
theorem pairwiseDisjoint_pageWindow : (pagesTo n).PairwiseDisjoint (pageWindow start size) := by
  have hbefore {a b : UInt32} (ha : a ∈ pagesTo n) (hb : b ∈ pagesTo n) (hlt : a.toNat < b.toNat) :
      Disjoint (pageWindow start size a) (pageWindow start size b) := by
    rw [pageWindow_eq hstart hn ha, pageWindow_eq hstart hn hb, Set.disjoint_left]
    intro x hxa hxb
    have hle : a.toNat * size ≤ (b.toNat - 1) * size :=
      Nat.mul_le_mul_right _ (Nat.le_sub_one_of_lt hlt)
    exact absurd (hxa.2.trans_le hle) (Nat.not_lt.2 hxb.1)
  intro a ha b hb hne
  rcases Nat.lt_or_gt_of_ne (mt UInt32.toNat_inj.1 hne) with hlt | hgt
  · exact hbefore ha hb hlt
  · exact (hbefore hb ha hgt).symm

/-- Every match up to the end of the last page is on one of them. -/
theorem iUnion_pageWindow (hpos : 1 ≤ size) :
    ⋃ page ∈ pagesTo n, pageWindow start size page = Set.Iio (n.toNat * size) := by
  ext x
  simp only [Set.mem_iUnion, exists_prop, Set.mem_Iio]
  constructor
  · rintro ⟨page, hpage, hx⟩
    rw [pageWindow_eq hstart hn hpage] at hx
    exact hx.2.trans_le (Nat.mul_le_mul_right _ (start_eq hstart hn hpage).2.1)
  · intro hx
    have hlt : x / size < n.toNat := Nat.div_lt_of_lt_mul (Nat.mul_comm .. ▸ hx)
    have hnumber : (UInt32.ofNat (x / size + 1)).toNat = x / size + 1 :=
      UInt32.toNat_ofNat_of_lt' ((Nat.succ_le_of_lt hlt).trans_lt n.toNat_lt)
    have hpage : UInt32.ofNat (x / size + 1) ∈ pagesTo n := by
      constructor <;> rw [UInt32.le_iff_toNat_le, hnumber]
      · exact Nat.le_add_left 1 _
      · exact hlt
    refine ⟨_, hpage, ?_⟩
    rw [pageWindow_eq hstart hn hpage, hnumber, Nat.add_sub_cancel]
    exact ⟨Nat.div_mul_le_self x size, Nat.mul_comm .. ▸ Nat.lt_mul_div_succ x hpos⟩

end Tiling

/-- The size of the pages and the start of each page depend on nothing in a request but the two
numbers it gives for them. A page is never empty and no start wraps: it is the one that counting
without bounds gives, up to the greatest number of 32 bits. So pages do not go back, and those that
can be counted lie one after the other and leave no match out. -/
theorem pages_tile_matches (p : Policy) (perPage : Option UInt32) :
    ∃ (size : UInt32) (start : Option UInt32 → UInt32),
    (∀ fields (r : Request), r.raw = none → r.perPage = perPage →
      (compile p fields r).get? "size" = some (.nat size) ∧
      (compile p fields r).get? "from" = some (.nat (start r.page))) ∧
    size.toNat = Request.size p { perPage } ∧ 1 ≤ size ∧
    (∀ page, (start (some page)).toNat = min ((max page.toNat 1 - 1) * size.toNat) 4294967295) ∧
    start none = 0 ∧ start (some 0) = 0 ∧ start (some 1) = 0 ∧
    (∀ page later, page ≤ later → start (some page) ≤ start (some later)) ∧
    ∀ n : UInt32, (n.toNat - 1) * size.toNat ≤ 4294967295 →
      let window := pageWindow (fun page => (start (some page)).toNat) size.toNat
      (∀ page, 1 ≤ page → page < n →
        (start (some (page + 1))).toNat = (start (some page)).toNat + size.toNat) ∧
      (pagesTo n).PairwiseDisjoint window ∧
      ⋃ page ∈ pagesTo n, window page = Set.Iio (n.toNat * size.toNat) := by
  let r : Request := { perPage }
  have hsize : (pageSize p r).toNat = r.size p := toNat_pageSize p r
  have hpos : 1 ≤ (pageSize p r).toNat := hsize ▸ size_pos p r
  have hstart (page : UInt32) : (pageOffset p { r with page := some page }).toNat =
      min ((max page.toNat 1 - 1) * (pageSize p r).toNat) 4294967295 := by
    rw [toNat_pageOffset, hsize]
    rfl
  refine ⟨pageSize p r, fun page => pageOffset p { r with page }, fun fields q hraw hper => ?_,
    hsize, UInt32.le_iff_toNat_le.2 hpos, hstart, rfl, ?_, ?_, fun page later hle => ?_,
    fun n hn => ⟨fun page => start_succ hstart hn, pairwiseDisjoint_pageWindow hstart hn,
      iUnion_pageWindow hstart hn hpos⟩⟩
  · have hcount : (plan p fields q).size = pageSize p r := pageSize_congr hper
    have hoffset : (plan p fields q).offset = pageOffset p { r with page := q.page } :=
      pageOffset_congr hper rfl
    rw [compile_of_none p fields hraw, Compiled.get?_size, Compiled.get?_from, hcount, hoffset]
    exact ⟨rfl, rfl⟩
  · rw [← UInt32.toNat_inj, hstart]
    simp
  · rw [← UInt32.toNat_inj, hstart]
    simp
  · rw [UInt32.le_iff_toNat_le, hstart, hstart]
    have hpages : max page.toNat 1 - 1 ≤ max later.toNat 1 - 1 := by
      have := UInt32.le_iff_toNat_le.1 hle
      omega
    exact min_le_min_right _ (Nat.mul_le_mul_right _ hpages)

/-- A page far behind starts at the greatest offset, and three pages of the default size hold the
first thirty matches. -/
theorem far_page_does_not_wrap :
    (compile {} [] { page := some 3, perPage := some 4294967295 }).get? "from" =
      some (.nat 4294967295) ∧
    ∃ start : UInt32 → Nat, start 3 = 20 ∧
      ⋃ page ∈ pagesTo 3, pageWindow start 10 page = Set.Iio 30 := by
  constructor
  · obtain ⟨size, start, hdocument, hsize, -, hstart, -⟩ := pages_tile_matches {} (some 4294967295)
    have hthird : start (some 3) = 4294967295 := by
      rw [← UInt32.toNat_inj, hstart, hsize]
      rfl
    rw [(hdocument [] _ rfl rfl).2, hthird]
  · obtain ⟨size, start, -, hsize, -, hstart, -, -, -, -, htiles⟩ :=
      pages_tile_matches { pageSize := 0 } (some 0)
    have hten : size.toNat = 10 := hsize
    obtain ⟨-, -, hcover⟩ := htiles 3 (by rw [hten]; decide)
    rw [hten] at hstart hcover
    exact ⟨_, hstart 3, hcover⟩

end RecordSearch.Query
