import IrisOS.Pmm.Allocator

/-! The buddy system of the physical memory manager. Releasing a block, claiming one and building
the free lists from the bitmap all keep the free blocks a tiling of the free pages. -/
namespace IrisOS.Pmm
open Lib Buddy

/-! ## Blocks of bits -/

section
variable {b : Words} {page order q : ℕ}

theorem words_of_block (horder : 6 ≤ order) (hdvd : 2 ^ order ∣ page) :
    64 ∣ page ∧ 64 * (2 ^ order >>> 6) = 2 ^ order := by
  have h64 : 64 ∣ 2 ^ order := Nat.pow_dvd_pow 2 horder
  refine ⟨h64.trans hdvd, ?_⟩
  rw [Nat.shiftRight_eq_div_pow]
  exact Nat.mul_div_cancel' h64

/-- Blocks of 64 pages or more are set a word at a time; either way the bits of the block and no
others are set. -/
theorem testBit_bitmapSetBlock (hdvd : 2 ^ order ∣ page) :
    (bitmapSetBlock b page order).testBit q = (decide (InBlock page order q) || b.testBit q) := by
  unfold bitmapSetBlock
  split
  · rename_i horder
    obtain ⟨hword, hcount⟩ := words_of_block horder hdvd
    rw [Words.testBit_fill_ones hword, hcount]
    rfl
  · rw [Words.testBit_setBits]
    rfl

theorem testBit_bitmapClearBlock (hdvd : 2 ^ order ∣ page) :
    (bitmapClearBlock b page order).testBit q =
      (decide (¬ InBlock page order q) && b.testBit q) := by
  unfold bitmapClearBlock
  split
  · rename_i horder
    obtain ⟨hword, hcount⟩ := words_of_block horder hdvd
    rw [Words.testBit_fill_zeros hword, hcount]
    rfl
  · rw [Words.testBit_clearBits]
    rfl

end

section
variable {B : Buddy} {free : ℕ → Prop} {page order : ℕ}

/-- The free blocks tile a set of pages, within the manager's orders and pages. -/
abbrev Tiling (B : Buddy) (free : ℕ → Prop) : Prop := B.Tiles maxOrder maxPages free

/-! ## Release -/

/-- A released block joins the free ones: as long as its buddy is free the two are merged, and the
result is tiled like the rest. -/
theorem releaseLoop_tiling {left : ℕ} (h : Tiling B free) (hleft : order + left = maxOrder)
    (hdvd : 2 ^ order ∣ page) (hn : page + 2 ^ order ≤ maxPages)
    (hnew : ∀ q, InBlock page order q → ¬ free q) :
    Tiling (releaseLoop left B page order) fun q => free q ∨ InBlock page order q := by
  induction left generalizing B free page order with
  | zero => exact h.insert (by omega) hdvd hn hnew
  | succ left ih =>
    have hstop := h.insert (by omega) hdvd hn hnew
    unfold releaseLoop
    simp only
    split
    · exact hstop
    split
    · exact hstop
    rename_i hfits htag
    have htag : B.tag (page ^^^ 2 ^ order) = order + 1 := by simpa using htag
    obtain ⟨hmerged, hblock⟩ := merge hdvd
    have hlast : (if page ^^^ 2 ^ order < page then page ^^^ 2 ^ order else page) + 2 ^ (order + 1)
        ≤ maxPages := by
      obtain ⟨-, hx⟩ | ⟨hle, -, hx⟩ := xor_two_pow hdvd
      · rw [hx] at hfits ⊢
        rw [if_neg (by omega), pow_succ]
        omega
      · have hpos := Nat.two_pow_pos order
        rw [hx, if_pos (by omega), pow_succ]
        omega
    -- the buddy leaves the free blocks before the merged block goes in
    refine (ih (h.remove htag) (by omega) hmerged hlast fun q hq => ?_).congr fun q => ?_
    · rintro ⟨hfree, hout⟩
      obtain hq | hq := (hblock q).mp hq
      · exact hnew q hq hfree
      · exact hout hq
    rw [hblock]
    constructor
    · rintro (⟨hfree, -⟩ | hq | hq)
      · exact .inl hfree
      · exact .inr hq
      · exact .inl (h.inside _ _ q htag hq)
    rintro (hfree | hq)
    · by_cases hin : InBlock (page ^^^ 2 ^ order) order q
      · exact .inr (.inr hin)
      · exact .inl ⟨hfree, hin⟩
    · exact .inr (.inl hq)

theorem buddyRelease_tiling (h : Tiling B free) (horder : order ≤ maxOrder) (hdvd : 2 ^ order ∣ page)
    (hn : page + 2 ^ order ≤ maxPages) (hnew : ∀ q, InBlock page order q → ¬ free q) :
    Tiling (buddyRelease B page order) fun q => free q ∨ InBlock page order q :=
  releaseLoop_tiling h (by omega) hdvd hn hnew

/-! ## Claim -/

/-- Splitting a block of a larger order leaves its upper halves free and the first block of the
requested order taken. -/
theorem splitLoop_tiling {d : ℕ} (h : Tiling B free) (htop : order + d ≤ maxOrder)
    (hdvd : 2 ^ (order + d) ∣ page) (hn : page + 2 ^ (order + d) ≤ maxPages)
    (hnew : ∀ q, InBlock page (order + d) q → ¬ free q) :
    Tiling (splitLoop d B page order) fun q =>
      free q ∨ InBlock page (order + d) q ∧ ¬ InBlock page order q := by
  induction d generalizing B free with
  | zero => exact h.congr fun q => by simp
  | succ d ih =>
    have hsucc : 2 ^ (order + (d + 1)) = 2 ^ (order + d) + 2 ^ (order + d) := by
      rw [← Nat.add_assoc, pow_succ, Nat.mul_two]
    have hhalf : 2 ^ (order + d) ∣ page :=
      (Nat.pow_dvd_pow 2 (by omega)).trans hdvd
    have hsmall : 2 ^ order ≤ 2 ^ (order + d) := Nat.pow_le_pow_right (by decide) (by omega)
    have hupper := h.insert (k := order + d) (p := page + 2 ^ (order + d)) (by omega)
      (Nat.dvd_add hhalf (Nat.dvd_refl _)) (by omega)
      fun q hq => hnew q ⟨by have := hq.1; omega, by have := hq.2; omega⟩
    refine (ih hupper (by omega) hhalf (by omega) fun q hq => ?_).congr fun q => ?_
    · rintro (hfree | hin)
      · exact hnew q ⟨hq.1, by have := hq.2; omega⟩ hfree
      · have := hq.2
        have := hin.1
        omega
    · unfold InBlock
      rw [hsucc, or_assoc]
      refine or_congr_right ?_
      omega

/-- What a claim returns: an aligned block, free before and no longer free. -/
theorem buddyClaim_spec {s s' : Manager} {result : ℕ} (h : Tiling s.buddy free)
    (hclaim : buddyClaim s order = (s', result)) (hresult : result ≠ 0) :
    ∃ page, result = page * pageSize ∧ order ≤ maxOrder ∧ 2 ^ order ∣ page ∧
      page + 2 ^ order ≤ maxPages ∧ (∀ q, InBlock page order q → free q) ∧
      Tiling s'.buddy (fun q => free q ∧ ¬ InBlock page order q) ∧
      s' = { s with
        bitmap := bitmapSetBlock s.bitmap page order
        buddy := s'.buddy
        usedPagesCount := s.usedPagesCount + 2 ^ order } := by
  unfold buddyClaim at hclaim
  split at hclaim
  · cases hclaim
    exact absurd rfl hresult
  rename_i avail havail
  split at hclaim
  · cases hclaim
    exact absurd rfl hresult
  rename_i page rest hlist
  cases hclaim
  have hle : order ≤ avail := by
    have := List.mem_of_find?_eq_some havail
    rw [List.mem_range'_1] at this
    exact this.1
  obtain ⟨d, rfl⟩ := Nat.exists_eq_add_of_le hle
  have htag : s.buddy.tag page = order + d + 1 :=
    (h.listed page _).mp (hlist ▸ List.mem_cons_self)
  obtain ⟨htop, hdvd, hn⟩ := h.aligned _ _ htag
  have hsmall : 2 ^ order ≤ 2 ^ (order + d) := Nat.pow_le_pow_right (by decide) (by omega)
  have hwithin : ∀ q, InBlock page order q → InBlock page (order + d) q :=
    fun q hq => ⟨hq.1, by have := hq.2; omega⟩
  refine ⟨page, rfl, by omega, (Nat.pow_dvd_pow 2 hle).trans hdvd, by omega,
    fun q hq => h.inside _ _ q htag (hwithin q hq), ?_, rfl⟩
  have hsplit := splitLoop_tiling (h.remove htag) htop hdvd hn fun q hq hfree => hfree.2 hq
  rw [Nat.add_sub_cancel_left]
  refine hsplit.congr fun q => ?_
  constructor
  · rintro (⟨hfree, hout⟩ | ⟨hin, hout⟩)
    · exact ⟨hfree, fun hq => hout (hwithin q hq)⟩
    · exact ⟨h.inside _ _ q htag hin, hout⟩
  · rintro ⟨hfree, hout⟩
    by_cases hin : InBlock page (order + d) q
    · exact .inr ⟨hin, hout⟩
    · exact .inl ⟨hfree, hin⟩

theorem buddyClaim_fail {s s' : Manager} (h : Tiling s.buddy free) (hzero : ¬ free 0)
    (hclaim : buddyClaim s order = (s', 0)) : s' = s := by
  unfold buddyClaim at hclaim
  split at hclaim
  · cases hclaim
    rfl
  split at hclaim
  · cases hclaim
    rfl
  rename_i avail _ _ page rest hlist
  obtain ⟨-, hpage⟩ := Prod.mk.inj hclaim
  have hpage : page = 0 := (Nat.mul_eq_zero.mp hpage).resolve_right (by decide)
  subst hpage
  exact absurd (h.inside 0 avail 0 ((h.listed 0 avail).mp (hlist ▸ List.mem_cons_self))
    (inBlock_self 0 avail)) hzero

/-! ## Set-up -/

theorem runEnd_spec (b : Words) (left page : ℕ) :
    page ≤ runEnd b left page ∧ runEnd b left page ≤ page + left ∧
      ∀ q, page ≤ q → q < runEnd b left page → b.testBit q = false := by
  induction left generalizing page with
  | zero => exact ⟨le_rfl, le_rfl, fun q hle hlt => absurd hlt (Nat.not_lt.mpr hle)⟩
  | succ left ih =>
    unfold runEnd
    split
    · exact ⟨le_rfl, by omega, fun q hle hlt => absurd hlt (Nat.not_lt.mpr hle)⟩
    rename_i hclear
    obtain ⟨hle, hlast, hrun⟩ := ih (page + 1)
    refine ⟨by omega, by omega, fun q hq hlt => ?_⟩
    obtain rfl | hq := Nat.eq_or_lt_of_le hq
    · simpa using hclear
    · exact hrun q hq hlt

theorem lt_runEnd {b : Words} (left : ℕ) (hclear : b.testBit page = false) (hleft : left ≠ 0) :
    page < runEnd b left page := by
  obtain ⟨left, rfl⟩ := Nat.exists_eq_succ_of_ne_zero hleft
  unfold runEnd
  rw [hclear]
  exact (runEnd_spec b left (page + 1)).1

/-- The order chosen for a run divides its position and fits in what remains of it. -/
theorem largestOrder_spec (pos remaining : ℕ) {left ord : ℕ} (hord : ord + left = maxOrder)
    (hdvd : 2 ^ ord ∣ pos) (hle : 2 ^ ord ≤ remaining) :
    largestOrder pos remaining left ord ≤ maxOrder ∧
      2 ^ largestOrder pos remaining left ord ∣ pos ∧
      2 ^ largestOrder pos remaining left ord ≤ remaining := by
  induction left generalizing ord with
  | zero => exact ⟨by simp only [largestOrder]; omega, hdvd, hle⟩
  | succ left ih =>
    unfold largestOrder
    split
    · rename_i hnext
      refine ih (by omega) ?_ hnext.2
      rw [Nat.and_two_pow_sub_one_eq_mod] at hnext
      exact Nat.dvd_of_mod_eq_zero hnext.1
    · exact ⟨by omega, hdvd, hle⟩

/-- A run of pages becomes blocks that cover it exactly. -/
theorem decompose_tiling {fuel pos remaining : ℕ} (h : Tiling B free) (hfuel : remaining ≤ fuel)
    (hn : pos + remaining ≤ maxPages) (hnew : ∀ q, pos ≤ q → q < pos + remaining → ¬ free q) :
    Tiling (decompose fuel B pos remaining) fun q => free q ∨ pos ≤ q ∧ q < pos + remaining := by
  induction fuel generalizing B free pos remaining with
  | zero => exact h.congr fun q => ⟨.inl, fun hq => hq.resolve_right (by omega)⟩
  | succ fuel ih =>
    unfold decompose
    split
    · exact h.congr fun q => ⟨.inl, fun hq => hq.resolve_right (by omega)⟩
    rename_i hpos
    have hspec := largestOrder_spec pos remaining (Nat.zero_add maxOrder) (Nat.one_dvd pos)
      (Nat.pos_of_ne_zero hpos)
    obtain ⟨htop, hdvd, hle⟩ := hspec
    have hblock := h.insert htop hdvd (by omega) fun q hq => hnew q hq.1 (by have := hq.2; omega)
    refine (ih hblock (by omega) (by omega) fun q hq hlt => ?_).congr fun q => ?_
    · rintro (hfree | hin)
      · exact hnew q (by omega) (by omega) hfree
      · have := hin.2
        omega
    · unfold InBlock
      rw [or_assoc]
      refine or_congr_right ?_
      omega

/-- Up to the page reached, the free blocks are the clear bits. -/
theorem setupLoop_tiling {b : Words} {fuel : ℕ}
    (h : Tiling B fun q => q < page ∧ b.testBit q = false) (hpage : page ≤ maxPages)
    (hfuel : maxPages ≤ page + fuel) :
    Tiling (setupLoop b fuel B page) fun q => q < maxPages ∧ b.testBit q = false := by
  induction fuel generalizing B page with
  | zero =>
    obtain rfl : page = maxPages := by omega
    exact h
  | succ fuel ih =>
    unfold setupLoop
    split
    case isFalse hend =>
      obtain rfl : page = maxPages := by omega
      exact h
    split
    · rename_i hset
      refine ih (h.congr fun q => and_congr_left fun hclear => ?_) (by omega) (by omega)
      constructor
      · omega
      intro hq
      obtain hq | rfl := Nat.lt_succ_iff_lt_or_eq.mp hq
      · exact hq
      · rw [hset] at hclear
        cases hclear
    · rename_i hclear
      have hclear : b.testBit page = false := by simpa using hclear
      obtain ⟨hle, hlast, hrun⟩ := runEnd_spec b (maxPages - page) page
      have hgrow := lt_runEnd (maxPages - page) hclear (by omega)
      generalize runEnd b (maxPages - page) page = stop at hle hlast hrun hgrow
      have hroom : page + (stop - page) ≤ maxPages := by omega
      have hcut := decompose_tiling h le_rfl hroom fun q hq _ hfree => by have := hfree.1; omega
      refine ih (hcut.congr fun q => ?_) (by omega) (by omega)
      constructor
      · rintro (⟨hq, hclear⟩ | ⟨hq, hlt⟩)
        · exact ⟨by omega, hclear⟩
        · exact ⟨by omega, hrun q hq (by omega)⟩
      · rintro ⟨hq, hclear⟩
        obtain hlow | hhigh := Nat.lt_or_ge q page
        · exact .inl ⟨hlow, hclear⟩
        · exact .inr ⟨hhigh, by omega⟩

/-- After the set-up the free blocks tile the pages whose bit is clear. -/
theorem pmmBuddySetup_tiling {s : Manager} (hbuddy : s.buddy = {})
    (hzero : s.bitmap.testBit 0 = true) :
    Tiling (pmmBuddySetup s).buddy fun q => q < maxPages ∧ s.bitmap.testBit q = false := by
  unfold pmmBuddySetup
  rw [hbuddy]
  refine setupLoop_tiling ((tiles_empty _ _).congr fun q => ?_) (by decide) (by omega)
  refine ⟨False.elim, fun ⟨hq, hclear⟩ => ?_⟩
  obtain rfl : q = 0 := by omega
  rw [hzero] at hclear
  cases hclear

end

end IrisOS.Pmm
