import IrisOS.Pmm.Allocator
import Mathlib.Data.Nat.Log

/-! The searches of the physical memory manager through the bitmap, and the size class of a
request. -/
namespace IrisOS.Pmm
open Lib List

/-! ## Size classes -/

/-- The bits below a bit of `m`, out to a distance. -/
def SmearedTo (m x d : ℕ) : Prop := ∀ i, x.testBit i = true ↔ ∃ j < d, m.testBit (i + j) = true

theorem smearedTo_one (m : ℕ) : SmearedTo m m 1 := by
  intro i
  refine ⟨fun h => ⟨0, by decide, h⟩, fun ⟨j, hj, h⟩ => ?_⟩
  obtain rfl : j = 0 := by omega
  exact h

/-- Each line of the source's bit smearing doubles how far a bit has spread. -/
theorem SmearedTo.double {m x d : ℕ} (h : SmearedTo m x d) :
    SmearedTo m (x ||| x >>> d) (2 * d) := by
  intro i
  rw [Nat.testBit_or, Nat.testBit_shiftRight, Bool.or_eq_true, h, h]
  constructor
  · rintro (⟨j, hj, hbit⟩ | ⟨j, hj, hbit⟩)
    · exact ⟨j, by omega, hbit⟩
    · refine ⟨d + j, by omega, ?_⟩
      rwa [show i + (d + j) = d + i + j by omega]
  rintro ⟨j, hj, hbit⟩
  obtain hlow | hhigh := Nat.lt_or_ge j d
  · exact .inl ⟨j, hlow, hbit⟩
  · refine .inr ⟨j - d, by omega, ?_⟩
    rwa [show d + i + (j - d) = i + j by omega]

theorem SmearedTo.eq {m x d : ℕ} (h : SmearedTo m x d) (hm : m ≠ 0) (hd : m.log2 < d) :
    x = 2 ^ (m.log2 + 1) - 1 := by
  refine Nat.eq_of_testBit_eq fun i => ?_
  rw [Nat.testBit_two_pow_sub_one, Bool.eq_iff_iff, h i, decide_eq_true_iff]
  constructor
  · rintro ⟨j, -, hbit⟩
    by_contra hhigh
    have hlt : m < 2 ^ (i + j) := (Nat.log2_lt hm).mp (by omega)
    rw [Nat.testBit_lt_two_pow hlt] at hbit
    cases hbit
  · intro hi
    refine ⟨m.log2 - i, by omega, ?_⟩
    rw [show i + (m.log2 - i) = m.log2 by omega]
    exact Nat.testBit_log2 hm

variable {n : UInt32} {b : Words} {k : ℕ}

/-- The least power of two not below `n`, in 32 bits: it wraps to 0 above `2 ^ 31`. -/
theorem toNat_nextPow2 (hn : 1 < n) :
    (nextPow2 n).toNat = 2 ^ ((n.toNat - 1).log2 + 1) % 2 ^ 32 := by
  have hn' : 1 < n.toNat := UInt32.lt_iff_toNat_lt.mp hn
  have hsub : (n - 1).toNat = n.toNat - 1 :=
    UInt32.toNat_sub_of_le n 1 (UInt32.le_of_lt hn)
  have hne : n.toNat - 1 ≠ 0 := by omega
  have hlog : (n.toNat - 1).log2 < 32 :=
    (Nat.log2_lt hne).mpr (by have := n.toNat_lt; omega)
  have hsmear := ((((((smearedTo_one (n.toNat - 1)).double).double).double).double).double).eq hne
    hlog
  unfold nextPow2
  rw [if_neg (by simpa using hn)]
  simp only [UInt32.toNat_add, UInt32.toNat_or, UInt32.toNat_shiftRight, hsub]
  simp only [UInt32.reduceToNat, Nat.reduceMod, Nat.reduceMul] at hsmear ⊢
  rw [hsmear, Nat.sub_add_cancel (Nat.two_pow_pos _)]

theorem ctz_two_pow {m : UInt32} (hk : k ≤ 32) (hm : m.toNat = 2 ^ k % 2 ^ 32) : ctz m = k := by
  unfold ctz
  obtain hlt | rfl := Nat.lt_or_eq_of_le hk
  · have hfind : (range 32).find? (fun i => m.toNat.testBit i) = some k := by
      have hpow : 2 ^ k < 2 ^ 32 := Nat.pow_lt_pow_right (by decide) hlt
      rw [find?_range_eq_some, hm, Nat.mod_eq_of_lt hpow]
      refine ⟨Nat.testBit_two_pow_self, mem_range.mpr hlt, fun j hj => ?_⟩
      rw [Nat.testBit_two_pow_of_ne (by omega)]
      rfl
    rw [hfind]
    rfl
  · have hfind : (range 32).find? (fun i => m.toNat.testBit i) = none := by
      rw [find?_range_eq_none, hm]
      simp
    rw [hfind]
    rfl

/-- The size class is the least one whose blocks hold `n` pages. -/
theorem ceilLog2_spec (hn : n ≠ 0) : n.toNat ≤ 2 ^ ceilLog2 n ∧ 2 ^ ceilLog2 n < 2 * n.toNat := by
  have hpos : 0 < n.toNat := by
    rw [Nat.pos_iff_ne_zero]
    exact fun h => hn (UInt32.toNat_inj.mp h)
  unfold ceilLog2
  split
  · rename_i hle
    have : n.toNat ≤ 1 := UInt32.le_iff_toNat_le.mp hle
    omega
  rename_i hle
  have hlt : 1 < n := UInt32.not_le.mp hle
  have hn' : 1 < n.toNat := UInt32.lt_iff_toNat_lt.mp hlt
  have hne : n.toNat - 1 ≠ 0 := by omega
  have hlog : (n.toNat - 1).log2 < 32 :=
    (Nat.log2_lt hne).mpr (by have := n.toNat_lt; omega)
  rw [ctz_two_pow (by omega) (toNat_nextPow2 hlt)]
  have hbelow := (Nat.log2_lt hne).mp (Nat.lt_succ_self _)
  have habove := Nat.log2_self_le hne
  omega

theorem ceilLog2_two_pow (hn : n.toNat = 2 ^ k) : ceilLog2 n = k := by
  have hpos := Nat.two_pow_pos k
  obtain ⟨hle, hlt⟩ := ceilLog2_spec (n := n) (by rintro rfl; simp at hn; omega)
  rw [hn] at hle hlt
  have hge : k ≤ ceilLog2 n := (Nat.pow_le_pow_iff_right (by decide)).mp hle
  have hup : ceilLog2 n < k + 1 := by
    refine (Nat.pow_lt_pow_iff_right (a := 2) (by decide)).mp ?_
    omega
  omega

theorem ceilLog2_le_maxOrder (hn : n.toNat ≤ maxPages) : ceilLog2 n ≤ maxOrder := by
  by_cases hzero : n = 0
  · subst hzero
    decide
  obtain ⟨-, hlt⟩ := ceilLog2_spec hzero
  have : 2 ^ ceilLog2 n < 2 ^ (maxOrder + 1) := by
    have : (2 : ℕ) ^ (maxOrder + 1) = 2 * maxPages := by decide
    omega
  have := (Nat.pow_lt_pow_iff_right (a := 2) (by decide)).mp this
  omega

/-! ## One free page -/

theorem ctzll_spec {m : UInt64} (hm : m ≠ 0) :
    ctzll m < 64 ∧ m.toBitVec.getLsbD (ctzll m) = true := by
  have hmod : ∀ i < 64, m &&& Words.mask i ≠ 0 ↔ m.toBitVec.getLsbD i = true := fun i hi => by
    rw [Words.and_mask_ne_zero, Nat.mod_eq_of_lt hi]
  unfold ctzll
  cases hfind : (range 64).find? fun i => decide (m &&& Words.mask i ≠ 0) with
  | none =>
    refine absurd (UInt64.toBitVec_inj.mp (BitVec.eq_of_getLsbD_eq fun i hi => ?_)) hm
    have := find?_range_eq_none.mp hfind i hi
    rw [Bool.not_eq_true', decide_eq_false_iff_not, hmod i hi, Bool.not_eq_true] at this
    rw [this]
    simp
  | some i =>
    obtain ⟨hbit, hmem, -⟩ := find?_range_eq_some.mp hfind
    have hi : i < 64 := mem_range.mp hmem
    exact ⟨hi, (hmod i hi).mp (of_decide_eq_true hbit)⟩

/-- The page found in a word is clear and never page 0. -/
theorem freeInWord_spec {w idx : ℕ} (h : freeInWord b w = some idx) :
    idx / 64 = w ∧ idx ≠ 0 ∧ b.testBit idx = false := by
  unfold freeInWord at h
  simp only at h
  generalize hm : (if w = 0 then ~~~b w &&& ~~~1 else ~~~b w) = m at h
  split at h
  · cases h
  rename_i hmask
  obtain ⟨hlt, hbit⟩ := ctzll_spec hmask
  obtain rfl := (Option.some.inj h).symm
  generalize ctzll m = i at hlt hbit
  have hword : (w * 64 + i) / 64 = w := by omega
  have hplace : (w * 64 + i) % 64 = i := by omega
  -- the bit is set in the complement of the word, and is not that of page 0
  have hfree : (~~~b w).toBitVec.getLsbD i = true ∧ ¬ (w = 0 ∧ i = 0) := by
    rw [← hm] at hbit
    split at hbit
    · rw [UInt64.toBitVec_and, BitVec.getLsbD_and, Bool.and_eq_true] at hbit
      refine ⟨hbit.1, ?_⟩
      rintro ⟨-, rfl⟩
      exact absurd hbit.2 (by decide)
    · exact ⟨hbit, fun hzero => by omega⟩
  refine ⟨hword, by omega, ?_⟩
  rw [Words.testBit_eq, hword, hplace]
  have := hfree.1
  rw [UInt64.toBitVec_not, BitVec.getLsbD_not, Bool.and_eq_true, Bool.not_eq_true'] at this
  exact this.2

/-- The scan starts at the hint's word and wraps round; what it finds is a clear page. -/
theorem scanWords_spec {fromWord idx : ℕ} (hfrom : fromWord ≤ bitmapWords)
    (h : scanWords b fromWord = some idx) : idx < maxPages ∧ idx ≠ 0 ∧ b.testBit idx = false := by
  have hword : ∃ w < bitmapWords, freeInWord b w = some idx := by
    unfold scanWords at h
    split at h
    · rename_i i hfirst
      obtain ⟨w, hw, hfree⟩ := exists_of_findSome?_eq_some hfirst
      rw [mem_range'_1] at hw
      exact ⟨w, by omega, hfree.trans h⟩
    · obtain ⟨w, hw, hfree⟩ := exists_of_findSome?_eq_some h
      exact ⟨w, by have := mem_range.mp hw; omega, hfree⟩
  obtain ⟨w, hw, hfree⟩ := hword
  obtain ⟨hdiv, hne, hclear⟩ := freeInWord_spec hfree
  have hwords : bitmapWords * 64 = maxPages := by decide
  exact ⟨by omega, hne, hclear⟩

/-! ## Free pages in a row -/

/-- The pages from `page` on, `count` of them, have their bit clear. -/
def Clear (b : Words) (page count : ℕ) : Prop :=
  ∀ q, page ≤ q → q < page + count → b.testBit q = false

/-- While the scan runs, the last `count` pages it passed are clear. -/
theorem runScan_spec {n left i first count result low : ℕ} (hlow : low ≤ i)
    (hrun : count ≠ 0 → low ≤ first ∧ first + count = i ∧ Clear b first count)
    (h : runScan b n left i first count = some result) :
    low ≤ result ∧ result + n ≤ i + left ∧ Clear b result n := by
  induction left generalizing i first count with
  | zero => cases h
  | succ left ih =>
    unfold runScan at h
    split at h
    · rename_i hclear
      have hclear : b.testBit i = false := by simpa using hclear
      -- the run, with this page
      have hnext : low ≤ (if count = 0 then i else first) ∧
          (if count = 0 then i else first) + (count + 1) = i + 1 ∧
          Clear b (if count = 0 then i else first) (count + 1) := by
        split
        · rename_i hzero
          refine ⟨hlow, by omega, fun q hq hlt => ?_⟩
          obtain rfl : q = i := by omega
          exact hclear
        rename_i hpos
        obtain ⟨hge, hsum, hpages⟩ := hrun hpos
        refine ⟨hge, by omega, fun q hq hlt => ?_⟩
        obtain hlt | heq : q < first + count ∨ q = i := by omega
        · exact hpages q hq hlt
        · exact heq ▸ hclear
      simp only at h
      split at h
      · rename_i hn
        cases h
        subst hn
        exact ⟨hnext.1, by omega, hnext.2.2⟩
      · obtain ⟨hge, hlast, hpages⟩ := ih (by omega) (fun _ => hnext) h
        exact ⟨hge, by omega, hpages⟩
    · obtain ⟨hge, hlast, hpages⟩ := ih (by omega) (fun hne => absurd rfl hne) h
      exact ⟨hge, by omega, hpages⟩

/-- A run that the search returns is clear and inside the bitmap; the wrapped search starts again at
page 1. -/
theorem scanRuns_spec {n hint result : ℕ} (hpos : 1 ≤ hint) (hhint : hint ≤ maxPages)
    (h : scanRuns b n hint = some result) :
    1 ≤ result ∧ result + n ≤ maxPages ∧ Clear b result n := by
  unfold scanRuns at h
  split at h
  · rename_i i hfirst
    obtain rfl := Option.some.inj h
    obtain ⟨hge, hlast, hpages⟩ := runScan_spec hpos (fun hne => absurd rfl hne) hfirst
    exact ⟨hge, by omega, hpages⟩
  · obtain ⟨hge, hlast, hpages⟩ := runScan_spec le_rfl (fun hne => absurd rfl hne) h
    exact ⟨hge, by omega, hpages⟩

end IrisOS.Pmm
