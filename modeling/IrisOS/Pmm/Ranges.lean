import IrisOS.Pmm.Blocks
import IrisOS.Pmm.Scans
import Mathlib.Data.Set.Card
import Mathlib.Order.Interval.Finset.Nat

/-! What the callers of the memory manager hold: disjoint, aligned ranges of usable pages. The
bitmap is clear on the others, which the free blocks tile in block mode. -/
namespace IrisOS.Pmm
open Lib List

namespace Range

def Covers (r : Range) (q : ℕ) : Prop := r.start ≤ q ∧ q < r.start + r.pages

instance (r : Range) (q : ℕ) : Decidable (r.Covers q) := inferInstanceAs (Decidable (_ ∧ _))

/-- The order of the size class of a range. -/
def order (r : Range) : ℕ := ceilLog2 r.asked

def Apart (r r' : Range) : Prop := ∀ q, r.Covers q → ¬ r'.Covers q

theorem Apart.symm {r r' : Range} (h : r.Apart r') : r'.Apart r := fun q hq hr => h q hr hq

/-- A range starts at a multiple of its size class, and has at least what was asked for. -/
structure Fits (r : Range) : Prop where
  aligned : 2 ^ r.order ∣ r.start
  asked : r.asked ≠ 0
  enough : r.asked.toNat ≤ r.pages
  within : r.pages ≤ 2 ^ r.order

end Range

def freeSet (b : Words) : Set ℕ := {q | q < maxPages ∧ b.testBit q = false}

theorem freeSet_finite (b : Words) : (freeSet b).Finite :=
  (Set.finite_lt_nat maxPages).subset fun _ hq => hq.1

/-- The state of a manager whose usable pages are `U`. -/
structure Sound (U : ℕ → Prop) (s : State) : Prop where
  bits : ∀ q < maxPages, s.pmm.bitmap.testBit q = false ↔ U q ∧ ∀ r ∈ s.held, ¬ r.Covers q
  apart : s.held.Pairwise Range.Apart
  usable : ∀ r ∈ s.held, ∀ q, r.Covers q → U q
  fits : ∀ r ∈ s.held, r.Fits
  exact : s.pmm.buddyActive = false → ∀ r ∈ s.held, r.pages = r.asked.toNat
  used : (s.held.map Range.pages).sum ≤ s.pmm.usedPagesCount
  count : s.pmm.usedPagesCount + (freeSet s.pmm.bitmap).ncard = s.pmm.totalPagesCount
  hint : s.pmm.lastSearchIndex ≤ maxPages
  fresh : s.pmm.buddyActive = false → s.pmm.buddy = {}
  tiling : s.pmm.buddyActive = true → Tiling s.pmm.buddy (· ∈ freeSet s.pmm.bitmap)

/-- A manager that has handed out `pages` free pages from `page` on. -/
structure Takes (m m' : Manager) (page pages : ℕ) : Prop where
  free : ∀ q, page ≤ q → q < page + pages → q ∈ freeSet m.bitmap
  bitmap : ∀ q, m'.bitmap.testBit q =
    (decide (page ≤ q ∧ q < page + pages) || m.bitmap.testBit q)
  used : m'.usedPagesCount = m.usedPagesCount + pages
  total : m'.totalPagesCount = m.totalPagesCount
  active : m'.buddyActive = m.buddyActive
  hint : m'.lastSearchIndex ≤ maxPages
  fresh : m'.buddyActive = false → m'.buddy = {}
  tiling : m'.buddyActive = true → Tiling m'.buddy (· ∈ freeSet m'.bitmap)

/-- A manager that has got `pages` pages in use from `page` on back. -/
structure Gives (m m' : Manager) (page pages : ℕ) : Prop where
  bitmap : ∀ q, m'.bitmap.testBit q =
    (decide (¬ (page ≤ q ∧ q < page + pages)) && m.bitmap.testBit q)
  used : m'.usedPagesCount = m.usedPagesCount - pages
  total : m'.totalPagesCount = m.totalPagesCount
  active : m'.buddyActive = m.buddyActive
  hint : m'.lastSearchIndex ≤ maxPages
  fresh : m'.buddyActive = false → m'.buddy = {}
  tiling : m'.buddyActive = true → Tiling m'.buddy (· ∈ freeSet m'.bitmap)

section
variable {U : ℕ → Prop} {s : State} {m m' : Manager} {page pages : ℕ} {r : Range}

theorem ncard_interval (page pages : ℕ) : {q | page ≤ q ∧ q < page + pages}.ncard = pages := by
  have : {q | page ≤ q ∧ q < page + pages} = ↑(Finset.Ico page (page + pages)) := by
    ext q
    simp
  rw [this, Set.ncard_coe_finset, Nat.card_Ico, Nat.add_sub_cancel_left]

theorem Takes.freeSet_eq (h : Takes m m' page pages) :
    freeSet m'.bitmap = freeSet m.bitmap \ {q | page ≤ q ∧ q < page + pages} := by
  ext q
  simp only [freeSet, Set.mem_ofPred_eq, Set.mem_sdiff, h.bitmap, Bool.or_eq_false_iff,
    decide_eq_false_iff_not]
  tauto

theorem Takes.ncard (h : Takes m m' page pages) :
    (freeSet m'.bitmap).ncard + pages = (freeSet m.bitmap).ncard := by
  have hsub : {q | page ≤ q ∧ q < page + pages} ⊆ freeSet m.bitmap := fun q hq => h.free q hq.1 hq.2
  have hcard := Set.ncard_sdiff_add_ncard_of_subset hsub (freeSet_finite _)
  rwa [ncard_interval, ← h.freeSet_eq] at hcard

theorem Sound.take (hs : Sound U s) (h : Takes s.pmm m r.start r.pages) (hfits : r.Fits)
    (hexact : m.buddyActive = false → r.pages = r.asked.toNat) : Sound U ⟨m, r :: s.held⟩ := by
  have hnew : ∀ q, r.Covers q → U q ∧ ∀ r' ∈ s.held, ¬ r'.Covers q := by
    intro q hq
    obtain ⟨hlt, hclear⟩ := h.free q hq.1 hq.2
    exact (hs.bits q hlt).mp hclear
  refine ⟨fun q hlt => ?_, ?_, ?_, ?_, fun hmode r' hr' => ?_, ?_, ?_, h.hint, h.fresh, h.tiling⟩
  · simp only [h.bitmap, Bool.or_eq_false_iff, decide_eq_false_iff_not, hs.bits q hlt,
      forall_mem_cons, Range.Covers]
    tauto
  · exact pairwise_cons.mpr ⟨fun r' hr' q hq => (hnew q hq).2 r' hr', hs.apart⟩
  · exact forall_mem_cons.mpr ⟨fun q hq => (hnew q hq).1, hs.usable⟩
  · exact forall_mem_cons.mpr ⟨hfits, hs.fits⟩
  · obtain rfl | hr' := mem_cons.mp hr'
    · exact hexact hmode
    · exact hs.exact (h.active ▸ hmode) r' hr'
  · have := hs.used
    simp only [map_cons, sum_cons, h.used]
    omega
  · have := hs.count
    have := h.ncard
    have := h.used
    have := h.total
    simp only
    omega

variable {held : List Range} {q : ℕ}

theorem Sound.perm (hs : Sound U s) (hperm : s.held.Perm held) : Sound U ⟨s.pmm, held⟩ := by
  have hmem : ∀ r, r ∈ held → r ∈ s.held := fun r hr => hperm.mem_iff.mpr hr
  refine ⟨fun q hlt => ?_, ?_, fun r hr => hs.usable r (hmem r hr),
    fun r hr => hs.fits r (hmem r hr), fun hmode r hr => hs.exact hmode r (hmem r hr), ?_, hs.count,
    hs.hint, hs.fresh, hs.tiling⟩
  · rw [hs.bits q hlt]
    simp only [hperm.mem_iff]
  · exact (hperm.pairwise_iff fun h => h.symm).mp hs.apart
  · exact (hperm.map Range.pages).sum_eq ▸ hs.used

theorem Sound.range_lt (hs : Sound U s) (hU : ∀ q, U q → q < maxPages) (hr : r ∈ s.held)
    (hq : r.Covers q) : q < maxPages := hU q (hs.usable r hr q hq)

theorem Sound.testBit_of_covers (hs : Sound U s) (hU : ∀ q, U q → q < maxPages)
    (hr : r ∈ s.held) (hq : r.Covers q) : s.pmm.bitmap.testBit q = true := by
  rw [← Bool.not_eq_false]
  intro hclear
  exact ((hs.bits q (hs.range_lt hU hr hq)).mp hclear).2 r hr hq

theorem Gives.freeSet_eq (h : Gives m m' page pages) (hlast : page + pages ≤ maxPages) :
    freeSet m'.bitmap = freeSet m.bitmap ∪ {q | page ≤ q ∧ q < page + pages} := by
  ext q
  simp only [freeSet, Set.mem_ofPred_eq, Set.mem_union, h.bitmap, Bool.and_eq_false_iff,
    decide_eq_false_iff_not]
  constructor
  · rintro ⟨hlt, hin | hclear⟩
    · exact .inr (by tauto)
    · exact .inl ⟨hlt, hclear⟩
  · rintro (⟨hlt, hclear⟩ | hin)
    · exact ⟨hlt, .inr hclear⟩
    · exact ⟨by omega, .inl (by tauto)⟩

theorem Sound.give (hU : ∀ q, U q → q < maxPages)
    (hs : Sound U ⟨m, r :: held⟩) (h : Gives m m' r.start r.pages) : Sound U ⟨m', held⟩ := by
  have hin : ∀ q, r.Covers q → m.bitmap.testBit q = true := fun q hq =>
    hs.testBit_of_covers hU mem_cons_self hq
  obtain ⟨hapart, hrest⟩ := pairwise_cons.mp hs.apart
  have hlast : r.start + r.pages ≤ maxPages := by
    by_cases hzero : r.pages = 0
    · have := (hs.fits r mem_cons_self).enough
      have := (hs.fits r mem_cons_self).asked
      refine absurd (UInt32.toNat_inj.mp ?_) this
      simp only [UInt32.toNat_zero]
      omega
    · have := hs.range_lt hU mem_cons_self (q := r.start + r.pages - 1)
        ⟨by omega, by omega⟩
      omega
  have hsum : r.pages + (held.map Range.pages).sum ≤ m.usedPagesCount := hs.used
  refine ⟨fun q hlt => ?_, hrest, fun r' hr' => hs.usable r' (mem_cons_of_mem _ hr'),
    fun r' hr' => hs.fits r' (mem_cons_of_mem _ hr'),
    fun hmode r' hr' => hs.exact (h.active ▸ hmode) r' (mem_cons_of_mem _ hr'), ?_, ?_, h.hint,
    h.fresh, h.tiling⟩
  · have hbits := hs.bits q hlt
    simp only [forall_mem_cons] at hbits
    simp only [h.bitmap, Bool.and_eq_false_iff, decide_eq_false_iff_not, not_not, hbits]
    by_cases hq : r.Covers q
    · refine iff_of_true (.inl hq) ⟨hs.usable r mem_cons_self q hq, fun r' hr' => ?_⟩
      exact hapart r' hr' q hq
    · have hq' : ¬ (r.start ≤ q ∧ q < r.start + r.pages) := hq
      tauto
  · have := h.used
    simp only
    omega
  · have hdisj : Disjoint (freeSet m.bitmap) {q | r.start ≤ q ∧ q < r.start + r.pages} := by
      rw [Set.disjoint_left]
      rintro q ⟨-, hclear⟩ hq
      rw [hin q hq] at hclear
      cases hclear
    have hcard := Set.ncard_union_eq hdisj (freeSet_finite _)
      ((Set.finite_lt_nat (r.start + r.pages)).subset fun q hq => hq.2)
    rw [← h.freeSet_eq hlast, ncard_interval] at hcard
    have hcount : m.usedPagesCount + (freeSet m.bitmap).ncard = m.totalPagesCount := hs.count
    have := h.used
    have := h.total
    simp only
    omega

end

end IrisOS.Pmm
