import Mathlib.Data.List.Basic

/-! Bitmaps kept in 64-bit words, with the masks and shifts that programs use. -/
namespace IrisOS.Lib
open Function List

/-- The words of a bitmap. -/
abbrev Words := ℕ → UInt64

namespace Words

/-- The mask of bit `i` in its word. -/
def mask (i : ℕ) : UInt64 := 1 <<< (i % 64).toUInt64

def testBit (b : Words) (i : ℕ) : Bool := b (i / 64) &&& mask i ≠ 0

def setBit (b : Words) (i : ℕ) : Words := update b (i / 64) (b (i / 64) ||| mask i)

def clearBit (b : Words) (i : ℕ) : Words := update b (i / 64) (b (i / 64) &&& ~~~mask i)

/-- The first of `n` bits that is clear. -/
def firstClear (b : Words) (n : ℕ) : Option ℕ := (List.range n).find? fun i => !b.testBit i

/-- The `n` bits from `i` on are set one after the other. -/
def setBits (b : Words) (i n : ℕ) : Words :=
  (List.range n).foldl (fun b j => b.setBit (i + j)) b

def clearBits (b : Words) (i n : ℕ) : Words :=
  (List.range n).foldl (fun b j => b.clearBit (i + j)) b

/-- The `n` words from `w` on are overwritten. -/
def fill (b : Words) (w n : ℕ) (v : UInt64) : Words :=
  (List.range n).foldl (fun b k => update b (w + k) v) b

section
variable {b : Words} {i j n : ℕ}

theorem getLsbD_mask (i k : ℕ) : (mask i).toBitVec.getLsbD k = decide (k = i % 64) := by
  have hlt : i % 64 < 64 := Nat.mod_lt _ (by decide)
  unfold mask
  by_cases hki : k = i % 64
  · subst hki
    simp [hlt]
  · by_cases hlow : k < i % 64
    · simp [hlow, hki]
    · have : k - i % 64 ≠ 0 := by omega
      simp [hki, this]

theorem and_mask_ne_zero (w : UInt64) (i : ℕ) :
    w &&& mask i ≠ 0 ↔ w.toBitVec.getLsbD (i % 64) = true := by
  have hbit : ∀ k, (w &&& mask i).toBitVec.getLsbD k =
      (w.toBitVec.getLsbD k && decide (k = i % 64)) := fun k => by
    rw [UInt64.toBitVec_and, BitVec.getLsbD_and, getLsbD_mask]
  constructor
  · intro hne
    by_contra hclear
    refine hne (UInt64.toBitVec_inj.mp (BitVec.eq_of_getLsbD_eq fun k hk => ?_))
    rw [hbit]
    by_cases hki : k = i % 64
    · rw [hki, Bool.eq_false_iff.mpr hclear]
      simp
    · simp [hki]
  · intro hset hzero
    have := hbit (i % 64)
    rw [hzero, hset] at this
    simp at this

theorem testBit_eq (b : Words) (i : ℕ) : b.testBit i = (b (i / 64)).toBitVec.getLsbD (i % 64) := by
  unfold testBit
  rw [Bool.eq_iff_iff, decide_eq_true_iff]
  exact and_mask_ne_zero _ _

theorem eq_of_div_mod (hword : j / 64 = i / 64) (hbit : j % 64 = i % 64) : j = i := by
  omega

theorem testBit_setBit : (b.setBit i).testBit j = (decide (j = i) || b.testBit j) := by
  rw [testBit_eq, testBit_eq]
  unfold setBit
  by_cases hword : j / 64 = i / 64
  · rw [hword, update_self, UInt64.toBitVec_or, BitVec.getLsbD_or, getLsbD_mask,
      Bool.or_comm]
    congr 1
    exact decide_eq_decide.mpr ⟨eq_of_div_mod hword, fun h => h ▸ rfl⟩
  · have hne : j ≠ i := fun h => hword (h ▸ rfl)
    rw [update_of_ne hword, decide_eq_false hne, Bool.false_or]

theorem testBit_clearBit : (b.clearBit i).testBit j = (decide (j ≠ i) && b.testBit j) := by
  rw [testBit_eq, testBit_eq]
  unfold clearBit
  by_cases hword : j / 64 = i / 64
  · have hlt : j % 64 < 64 := Nat.mod_lt _ (by decide)
    rw [hword, update_self, UInt64.toBitVec_and, BitVec.getLsbD_and, UInt64.toBitVec_not,
      BitVec.getLsbD_not, getLsbD_mask, Bool.and_comm]
    congr 1
    simp only [hlt, decide_true, Bool.true_and, ← decide_not]
    exact decide_eq_decide.mpr (not_congr ⟨eq_of_div_mod hword, fun h => h ▸ rfl⟩)
  · have hne : j ≠ i := fun h => hword (h ▸ rfl)
    rw [update_of_ne hword, decide_eq_true hne, Bool.true_and]

theorem firstClear_eq_some (h : b.firstClear n = some i) :
    i < n ∧ b.testBit i = false ∧ ∀ k < i, b.testBit k = true := by
  obtain ⟨hclear, hlt, hbefore⟩ := find?_range_eq_some.mp h
  exact ⟨mem_range.mp hlt, by simpa using hclear, fun k hk => by simpa using hbefore k hk⟩

theorem firstClear_isSome (hi : i < n) (hclear : b.testBit i = false) :
    ∃ k ≤ i, b.firstClear n = some k := by
  cases hfirst : b.firstClear n with
  | none =>
    have := find?_range_eq_none.mp hfirst i hi
    simp [hclear] at this
  | some k =>
    refine ⟨k, Nat.le_of_not_lt fun hlt => ?_, rfl⟩
    rw [(firstClear_eq_some hfirst).2.2 i hlt] at hclear
    cases hclear

theorem testBit_setBits :
    (b.setBits i n).testBit j = (decide (i ≤ j ∧ j < i + n) || b.testBit j) := by
  induction n with
  | zero =>
    have : ¬ (i ≤ j ∧ j < i + 0) := by omega
    rw [decide_eq_false this, Bool.false_or]
    rfl
  | succ n ih =>
    unfold setBits at ih ⊢
    rw [range_succ, foldl_append, foldl_cons, foldl_nil, testBit_setBit, ih,
      ← Bool.or_assoc, ← Bool.decide_or]
    congr 1
    exact decide_eq_decide.mpr (by omega)

theorem testBit_clearBits :
    (b.clearBits i n).testBit j = (decide (¬ (i ≤ j ∧ j < i + n)) && b.testBit j) := by
  induction n with
  | zero =>
    have : ¬ (i ≤ j ∧ j < i + 0) := by omega
    rw [decide_eq_true this, Bool.true_and]
    rfl
  | succ n ih =>
    unfold clearBits at ih ⊢
    rw [range_succ, foldl_append, foldl_cons, foldl_nil, testBit_clearBit, ih,
      ← Bool.and_assoc, ← Bool.decide_and]
    congr 1
    exact decide_eq_decide.mpr (by omega)

theorem fill_apply (b : Words) (w n : ℕ) (v : UInt64) (k : ℕ) :
    b.fill w n v k = if w ≤ k ∧ k < w + n then v else b k := by
  induction n with
  | zero =>
    have : ¬ (w ≤ k ∧ k < w + 0) := by omega
    rw [if_neg this]
    rfl
  | succ n ih =>
    unfold fill at ih ⊢
    rw [range_succ, foldl_append, foldl_cons, foldl_nil, update_apply,
      ih]
    grind

theorem testBit_fill_ones (hi : 64 ∣ i) :
    (b.fill (i / 64) n (~~~0)).testBit j = (decide (i ≤ j ∧ j < i + 64 * n) || b.testBit j) := by
  rw [testBit_eq, testBit_eq, fill_apply]
  have hlt : j % 64 < 64 := Nat.mod_lt _ (by decide)
  split
  · have : i ≤ j ∧ j < i + 64 * n := by omega
    rw [decide_eq_true this, Bool.true_or, UInt64.toBitVec_not, BitVec.getLsbD_not]
    simp [hlt]
  · have : ¬ (i ≤ j ∧ j < i + 64 * n) := by omega
    rw [decide_eq_false this, Bool.false_or]

theorem testBit_fill_zeros (hi : 64 ∣ i) :
    (b.fill (i / 64) n 0).testBit j = (decide (¬ (i ≤ j ∧ j < i + 64 * n)) && b.testBit j) := by
  rw [testBit_eq, testBit_eq, fill_apply]
  split
  · have : ¬ ¬ (i ≤ j ∧ j < i + 64 * n) := by omega
    rw [decide_eq_false this, Bool.false_and]
    simp
  · have : ¬ (i ≤ j ∧ j < i + 64 * n) := by omega
    rw [decide_eq_true this, Bool.true_and]

end

end Words
end IrisOS.Lib
