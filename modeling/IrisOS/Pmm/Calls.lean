import IrisOS.Pmm.Ranges
import Mathlib.Algebra.Order.BigOperators.Group.List

/-! The calls of the physical memory manager, each on a state in which the ranges held agree with
the bitmap and the free blocks. -/
namespace IrisOS.Pmm
open Lib List

section
variable {U : ℕ → Prop} {s : State} {m : Manager} {result order : ℕ} {r : Range}

/-! ## Allocation -/

/-- An allocation keeps the agreement when its answer is null with nothing changed, or names pages
it took. -/
theorem Sound.hand {answer : Manager × ℕ} {asked : UInt32} {pages : ℕ} (hs : Sound U s)
    (hfail : answer.2 = 0 → answer.1 = s.pmm)
    (hok : answer.2 ≠ 0 → ∃ page, answer.2 = page * pageSize ∧ Takes s.pmm answer.1 page pages ∧
      Range.Fits ⟨page, asked, pages⟩ ∧ (s.pmm.buddyActive = false → pages = asked.toNat)) :
    Sound U (s.hand answer asked pages) := by
  unfold State.hand
  split
  · rename_i hzero
    rw [hfail hzero]
    exact hs
  · rename_i hne
    obtain ⟨page, hanswer, htakes, hfits, hexact⟩ := hok hne
    rw [hanswer, Nat.mul_div_cancel _ (by decide)]
    exact hs.take htakes hfits fun hmode => hexact (htakes.active ▸ hmode)

/-- A claimed block was free and is taken, aligned to its size. -/
theorem takes_buddyClaim (hs : Sound U s) (hmode : s.pmm.buddyActive = true)
    (hclaim : buddyClaim s.pmm order = (m, result)) (hresult : result ≠ 0) :
    ∃ page, result = page * pageSize ∧ 2 ^ order ∣ page ∧ Takes s.pmm m page (2 ^ order) := by
  obtain ⟨page, hpage, -, hdvd, -, hfree, htiling, hm⟩ :=
    buddyClaim_spec (hs.tiling hmode) hclaim hresult
  generalize m.buddy = B at htiling hm
  subst hm
  have hbits : ∀ q, (bitmapSetBlock s.pmm.bitmap page order).testBit q =
      (decide (page ≤ q ∧ q < page + 2 ^ order) || s.pmm.bitmap.testBit q) :=
    fun q => testBit_bitmapSetBlock hdvd
  refine ⟨page, hpage, hdvd, fun q hle hlt => hfree q ⟨hle, hlt⟩, hbits, rfl, rfl, rfl, hs.hint,
    fun hoff => ?_, fun _ => htiling.congr fun q => ?_⟩
  · rw [hmode] at hoff
    cases hoff
  · simp only [freeSet, Set.mem_ofPred_eq, hbits, Bool.or_eq_false_iff, decide_eq_false_iff_not,
      InBlock]
    tauto

/-- A claim that answers null leaves the manager as it was. Page 0, whose address is null, is never
free. -/
theorem buddyClaim_fails (hs : Sound U s) (hmode : s.pmm.buddyActive = true)
    (hU : ∀ q, U q → q < maxPages ∧ q ≠ 0) (hfail : (buddyClaim s.pmm order).2 = 0) :
    (buddyClaim s.pmm order).1 = s.pmm := by
  refine buddyClaim_fail (hs.tiling hmode) ?_ (Prod.ext rfl hfail)
  rintro ⟨hlt, hclear⟩
  exact (hU 0 ((hs.bits 0 hlt).mp hclear).1).2 rfl

/-- Setting the bits of a clear run takes it, before the buddy system is active. -/
theorem takes_takeBits {page pages hint : ℕ} (hs : Sound U s) (hmode : s.pmm.buddyActive = false)
    (hlast : page + pages ≤ maxPages) (hclear : Clear s.pmm.bitmap page pages)
    (hhint : hint ≤ maxPages) :
    Takes s.pmm { takeBits s.pmm page pages with lastSearchIndex := hint } page pages where
  free q hle hlt := ⟨by omega, hclear q hle hlt⟩
  bitmap _ := Words.testBit_setBits
  used := rfl
  total := rfl
  active := rfl
  hint := hhint
  fresh := hs.fresh
  tiling hon := by
    have hon : s.pmm.buddyActive = true := hon
    rw [hmode] at hon
    cases hon

theorem ceilLog2_one : ceilLog2 1 = 0 := by decide

theorem fits_one {page : ℕ} : Range.Fits ⟨page, 1, 1⟩ := by
  have horder : Range.order ⟨page, 1, 1⟩ = 0 := ceilLog2_one
  refine ⟨?_, (by decide : (1 : UInt32) ≠ 0), le_rfl, ?_⟩
  · rw [horder]
    exact Nat.one_dvd page
  · rw [horder]
    exact le_rfl

theorem Sound.hint_word (hs : Sound U s) : s.pmm.lastSearchIndex / 64 ≤ bitmapWords :=
  Nat.div_le_div_right hs.hint

variable {b : Words} {i : ℕ}

theorem clear_one {idx : ℕ} (h : b.testBit idx = false) : Clear b idx 1 := by
  intro q hle hlt
  obtain rfl : q = idx := by omega
  exact h

/-- One page, from the buddy system or from the bitmap scan. -/
theorem sound_allocPage (hs : Sound U s) (hU : ∀ q, U q → q < maxPages ∧ q ≠ 0) :
    Sound U (act s .allocPage) := by
  refine hs.hand (fun hfail => ?_) fun hok => ?_
  · unfold pmmAllocPage at hfail ⊢
    split at hfail
    · rename_i hmode
      rw [if_pos hmode]
      exact buddyClaim_fails hs hmode hU hfail
    rename_i hmode
    rw [if_neg hmode]
    split at hfail
    · rfl
    · rename_i idx hscan
      have hne := (scanWords_spec hs.hint_word hscan).2.1
      exact absurd hfail (Nat.mul_ne_zero hne (by decide))
  · unfold pmmAllocPage at hok ⊢
    split at hok
    · rename_i hmode
      rw [if_pos hmode]
      obtain ⟨page, hpage, -, htakes⟩ := takes_buddyClaim hs hmode rfl hok
      exact ⟨page, hpage, htakes, fits_one, fun _ => rfl⟩
    rename_i hmode
    rw [if_neg hmode]
    split at hok
    · exact absurd rfl hok
    · rename_i idx hscan
      obtain ⟨hlt, -, hclear⟩ := scanWords_spec hs.hint_word hscan
      exact ⟨idx, rfl, takes_takeBits hs (by simpa using hmode) (by omega) (clear_one hclear)
        (by omega), fits_one, fun _ => rfl⟩

/-- This call sets bits without telling the buddy system, so once that is active it has to find no
free page under the limit. -/
theorem sound_allocPageBelow {limit : ℕ} (hs : Sound U s)
    (hsane : s.pmm.buddyActive = true → ∀ i, 1 ≤ i → i < min (limit / pageSize) maxPages →
      s.pmm.bitmap.testBit i = true) :
    Sound U (act s (.allocPageBelow limit)) := by
  refine hs.hand (fun hfail => ?_) fun hok => ?_
  · unfold pmmAllocPageBelow at hfail ⊢
    simp only at hfail ⊢
    split at hfail
    · rfl
    · rename_i idx hfind
      have := mem_of_find?_eq_some hfind
      rw [mem_range'_1] at this
      exact absurd hfail (Nat.mul_ne_zero (by omega) (by decide))
  · unfold pmmAllocPageBelow at hok ⊢
    simp only at hok ⊢
    split at hok
    · exact absurd rfl hok
    rename_i idx hfind
    have hmem := mem_of_find?_eq_some hfind
    have hclear : s.pmm.bitmap.testBit idx = false := by simpa using find?_some hfind
    rw [mem_range'_1] at hmem
    have hmode : s.pmm.buddyActive = false := by
      rw [← Bool.not_eq_true]
      intro hon
      exact absurd (hsane hon idx (by omega) (by omega)) (by simp [hclear])
    have hlast : idx + 1 ≤ maxPages := by omega
    exact ⟨idx, rfl, takes_takeBits hs hmode hlast (clear_one hclear) hs.hint, fits_one,
      fun _ => rfl⟩

/-- Where the scan for several pages starts. -/
theorem Sound.scan_hint (hs : Sound U s) :
    1 ≤ (if s.pmm.lastSearchIndex > 0 then s.pmm.lastSearchIndex else 1) ∧
      (if s.pmm.lastSearchIndex > 0 then s.pmm.lastSearchIndex else 1) ≤ maxPages := by
  split
  · exact ⟨by omega, hs.hint⟩
  · exact ⟨le_rfl, by decide⟩

/-- What the scan finds is aligned if every run of free pages that is long enough is. -/
theorem allocPages_aligned {n : UInt32} (hs : Sound U s) (hmode : s.pmm.buddyActive = false)
    (hruns : ∀ start, 1 ≤ start → start + n.toNat ≤ maxPages →
      Clear s.pmm.bitmap start n.toNat → 2 ^ ceilLog2 n ∣ start) :
    2 ^ ceilLog2 n ∣ (pmmAllocPages s.pmm n).2 / pageSize := by
  unfold pmmAllocPages
  simp only [hmode, Bool.false_eq_true, if_false]
  split
  · simp
  split
  · simp
  rename_i first hscan
  obtain ⟨hfirst, hlast, hclear⟩ := scanRuns_spec hs.scan_hint.1 hs.scan_hint.2 hscan
  rw [Nat.mul_div_cancel _ (by decide)]
  exact hruns first hfirst hlast hclear

/-- Before the switch the run is found by scanning, at an address that need not be aligned to the
size class under which it will be released. -/
theorem sound_allocPages {n : UInt32} (hs : Sound U s) (hU : ∀ q, U q → q < maxPages ∧ q ≠ 0)
    (hsane : s.pmm.buddyActive = false →
      2 ^ ceilLog2 n ∣ (pmmAllocPages s.pmm n).2 / pageSize) : Sound U (act s (.allocPages n)) := by
  have hint := hs.scan_hint
  refine hs.hand (fun hfail => ?_) fun hok => ?_
  · unfold pmmAllocPages at hfail ⊢
    split at hfail
    · rename_i hn
      rw [if_pos hn]
    rename_i hn
    rw [if_neg hn]
    split at hfail
    · rename_i hmode
      rw [if_pos hmode]
      exact buddyClaim_fails hs hmode hU hfail
    rename_i hmode
    rw [if_neg hmode]
    split at hfail
    · rfl
    · rename_i first hscan
      have hge := (scanRuns_spec hint.1 hint.2 hscan).1
      exact absurd hfail (Nat.mul_ne_zero (by omega) (by decide))
  · unfold pmmAllocPages at hsane hok ⊢
    unfold pagesOf
    split at hok
    · exact absurd rfl hok
    rename_i hn
    rw [if_neg hn] at hsane ⊢
    obtain ⟨henough, -⟩ := ceilLog2_spec hn
    split at hok
    · rename_i hmode
      rw [if_pos hmode, if_pos hmode]
      obtain ⟨page, hpage, hdvd, htakes⟩ := takes_buddyClaim hs hmode rfl hok
      refine ⟨page, hpage, htakes, ⟨hdvd, hn, henough, le_rfl⟩, fun hoff => ?_⟩
      rw [hmode] at hoff
      cases hoff
    · rename_i hmode
      rw [if_neg hmode] at hsane ⊢
      rw [if_neg hmode]
      split at hok
      · exact absurd rfl hok
      rename_i first hscan
      obtain ⟨-, hlast, hclear⟩ := scanRuns_spec hint.1 hint.2 hscan
      have hmode : s.pmm.buddyActive = false := by simpa using hmode
      have haligned := hsane hmode
      rw [hscan] at haligned
      rw [Nat.mul_div_cancel _ (by decide)] at haligned
      exact ⟨first, rfl, takes_takeBits hs hmode hlast hclear hlast,
        ⟨haligned, hn, le_rfl, henough⟩, fun _ => rfl⟩

theorem toNat_two_pow (horder : order ≤ maxOrder) : (2 ^ order).toUInt32.toNat = 2 ^ order := by
  have hlt : 2 ^ order < 2 ^ 32 :=
    Nat.pow_lt_pow_right (by decide) (Nat.lt_of_le_of_lt horder (by decide))
  rw [Nat.toUInt32_eq, UInt32.toNat_ofNat', Nat.mod_eq_of_lt hlt]

theorem fits_two_pow {page : ℕ} (horder : order ≤ maxOrder) (hdvd : 2 ^ order ∣ page) :
    Range.Fits ⟨page, (2 ^ order).toUInt32, 2 ^ order⟩ := by
  have hnat := toNat_two_pow horder
  have hclass : Range.order ⟨page, (2 ^ order).toUInt32, 2 ^ order⟩ = order :=
    ceilLog2_two_pow hnat
  refine ⟨?_, fun hzero => ?_, hnat.le, ?_⟩
  · rw [hclass]
    exact hdvd
  · have hzero : (2 ^ order).toUInt32.toNat = 0 := congrArg UInt32.toNat hzero
    omega
  · rw [hclass]

/-- The largest free block at once, as the kernel takes it for the first Untypeds. -/
theorem sound_allocBlock (hs : Sound U s) (hU : ∀ q, U q → q < maxPages ∧ q ≠ 0) :
    Sound U (act s .allocBlock) := by
  simp only [act, pmmAllocBlock]
  split
  · exact hs
  rename_i hmode
  have hmode : s.pmm.buddyActive = true := by simpa using hmode
  split
  · exact hs
  rename_i ord hfind
  have hord : ord ≤ maxOrder := by
    have := mem_of_find?_eq_some hfind
    rw [mem_reverse, mem_range] at this
    omega
  refine hs.hand (fun hfail => buddyClaim_fails hs hmode hU hfail) fun hok => ?_
  obtain ⟨page, hpage, hdvd, htakes⟩ := takes_buddyClaim hs hmode rfl hok
  exact ⟨page, hpage, htakes, fits_two_pow hord hdvd, fun _ => (toNat_two_pow hord).symm⟩

/-! ## The switch -/

/-- The switch builds the free blocks from the bitmap as it stands. -/
theorem sound_buddySetup (hs : Sound U s) (hU : ∀ q, U q → q < maxPages ∧ q ≠ 0) :
    Sound U (act s .buddySetup) := by
  simp only [act]
  split
  · exact hs
  rename_i hmode
  have hmode : s.pmm.buddyActive = false := by simpa using hmode
  have hzero : s.pmm.bitmap.testBit 0 = true := by
    rw [← Bool.not_eq_false]
    intro hclear
    exact (hU 0 ((hs.bits 0 (by decide)).mp hclear).1).2 rfl
  exact ⟨hs.bits, hs.apart, hs.usable, hs.fits, nofun, hs.used, hs.count, hs.hint, nofun,
    fun _ => pmmBuddySetup_tiling (hs.fresh hmode) hzero⟩

/-! ## Release -/

/-- Giving back exactly the pages of a held range ends its entry. -/
theorem Sound.release (hs : Sound U s) (hU : ∀ q, U q → q < maxPages ∧ q ≠ 0)
    (hget : s.held[i]? = some r) (h : Gives s.pmm m r.start r.pages) :
    Sound U ⟨m, s.held.eraseIdx i⟩ := by
  obtain ⟨hi, rfl⟩ := List.getElem?_eq_some_iff.mp hget
  exact (hs.perm (getElem_cons_eraseIdx_perm hi).symm).give (fun q hq => (hU q hq).1) h

theorem Sound.covers_start (hs : Sound U s) (hr : r ∈ s.held) : r.Covers r.start := by
  have hfits := hs.fits r hr
  have hne : r.asked.toNat ≠ 0 := fun hzero => hfits.asked (UInt32.toNat_inj.mp hzero)
  have := hfits.enough
  exact ⟨le_rfl, by omega⟩

theorem Sound.end_le (hs : Sound U s) (hU : ∀ q, U q → q < maxPages ∧ q ≠ 0) (hr : r ∈ s.held) :
    r.start + r.pages ≤ maxPages := by
  have hstart := hs.covers_start hr
  have hlast : r.Covers (r.start + r.pages - 1) := ⟨by have := hstart.2; omega, by
    have := hstart.2; omega⟩
  have := (hU _ (hs.usable r hr _ hlast)).1
  omega

/-- In the buddy system the pages of a range come back as the block of its order. -/
theorem tiling_release (hs : Sound U s) (hU : ∀ q, U q → q < maxPages ∧ q ≠ 0)
    (hmode : s.pmm.buddyActive = true) (hr : r ∈ s.held) (hpages : r.pages = 2 ^ r.order)
    (hbits : ∀ q, b.testBit q = (decide (¬ (r.start ≤ q ∧ q < r.start + r.pages)) &&
      s.pmm.bitmap.testBit q)) :
    Tiling (buddyRelease s.pmm.buddy r.start r.order) (· ∈ freeSet b) := by
  have hlast := hs.end_le hU hr
  have horder : r.order ≤ maxOrder := by
    refine ceilLog2_le_maxOrder ?_
    have := (hs.fits r hr).enough
    omega
  have hin : ∀ q, InBlock r.start r.order q ↔ r.Covers q := fun q => by
    unfold InBlock Range.Covers
    rw [hpages]
  have hused : ∀ q, r.Covers q → s.pmm.bitmap.testBit q = true := fun q hq =>
    hs.testBit_of_covers (fun q hq => (hU q hq).1) hr hq
  refine (buddyRelease_tiling (hs.tiling hmode) horder (hs.fits r hr).aligned (hpages ▸ hlast)
    fun q hq => ?_).congr fun q => ?_
  · rintro ⟨-, hclear⟩
    rw [hused q ((hin q).mp hq)] at hclear
    cases hclear
  rw [hin]
  simp only [freeSet, Set.mem_ofPred_eq, hbits, Bool.and_eq_false_iff, decide_eq_false_iff_not,
    not_not]
  unfold Range.Covers
  constructor
  · rintro (⟨hlt, hclear⟩ | hq)
    · exact ⟨hlt, .inr hclear⟩
    · exact ⟨by omega, .inl hq⟩
  · rintro ⟨hlt, hq | hclear⟩
    · exact .inr hq
    · exact .inl ⟨hlt, hclear⟩

theorem lowerHint_eq (m : Manager) (page : ℕ) :
    ∃ hint ≤ m.lastSearchIndex, lowerHint m page = { m with lastSearchIndex := hint } := by
  unfold lowerHint
  split
  · rename_i hlt
    exact ⟨page, Nat.le_of_lt hlt, rfl⟩
  · exact ⟨m.lastSearchIndex, le_rfl, rfl⟩

/-- Clearing bits and lowering the search hint gives pages back, before the buddy system is
active. -/
theorem gives_lowerHint {page pages : ℕ} (hs : Sound U s) (hmode : s.pmm.buddyActive = false)
    (hbits : ∀ q, b.testBit q = (decide (¬ (page ≤ q ∧ q < page + pages)) &&
      s.pmm.bitmap.testBit q)) :
    Gives s.pmm (lowerHint { s.pmm with
      bitmap := b
      usedPagesCount := s.pmm.usedPagesCount - pages } page) page pages := by
  obtain ⟨hint, hle, heq⟩ := lowerHint_eq { s.pmm with
    bitmap := b
    usedPagesCount := s.pmm.usedPagesCount - pages } page
  rw [heq]
  refine ⟨hbits, rfl, rfl, rfl, Nat.le_trans hle hs.hint, hs.fresh, fun hon => ?_⟩
  rw [hmode] at hon
  cases hon

/-- A range asked for as one page goes back as one. -/
theorem sound_freePage (hs : Sound U s) (hU : ∀ q, U q → q < maxPages ∧ q ≠ 0) :
    Sound U (act s (.freePage i)) := by
  simp only [act]
  split
  · exact hs
  rename_i r hget
  split
  · exact hs
  rename_i hasked
  have hasked : r.asked = 1 := by simpa using hasked
  have hr : r ∈ s.held := mem_of_getElem? hget
  have horder : r.order = 0 := by
    unfold Range.order
    rw [hasked, ceilLog2_one]
  have hpages : r.pages = 1 := by
    have henough := (hs.fits r hr).enough
    have hwithin := (hs.fits r hr).within
    rw [horder] at hwithin
    rw [hasked] at henough
    exact Nat.le_antisymm hwithin henough
  have hstart := hs.covers_start hr
  obtain ⟨hlt, hne⟩ := hU _ (hs.usable r hr _ hstart)
  have hused := hs.testBit_of_covers (fun q hq => (hU q hq).1) hr hstart
  have hbits : ∀ q, (s.pmm.bitmap.clearBit r.start).testBit q =
      (decide (¬ (r.start ≤ q ∧ q < r.start + r.pages)) && s.pmm.bitmap.testBit q) := by
    intro q
    rw [Words.testBit_clearBit, hpages]
    congr 1
    exact decide_eq_decide.mpr (by omega)
  unfold pmmFreePage
  rw [if_neg (Nat.mul_ne_zero hne (by decide))]
  simp only [Nat.mul_div_cancel _ (show 0 < pageSize by decide)]
  rw [if_neg (Nat.not_le.mpr hlt), hused]
  by_cases hmode : s.pmm.buddyActive = true
  · rw [if_pos hmode]
    refine hs.release hU hget ⟨hbits, by rw [hpages], rfl, rfl, hs.hint, fun hoff => ?_, fun _ => ?_⟩
    · rw [hmode] at hoff
      cases hoff
    · have := tiling_release hs hU hmode hr (by rw [hpages, horder]; rfl) hbits
      rwa [horder] at this
  · rw [if_neg hmode]
    refine hs.release hU hget ?_
    have hgives := gives_lowerHint hs (by simpa using hmode) hbits
    rw [hpages] at hgives ⊢
    exact hgives

theorem foldl_clearUsed {page n : ℕ}
    (hused : ∀ q, page ≤ q → q < page + n → m.bitmap.testBit q = true) :
    (List.range' page n).foldl clearUsed m =
      { m with
        bitmap := m.bitmap.clearBits page n
        usedPagesCount := m.usedPagesCount - n } := by
  induction n with
  | zero => rfl
  | succ n ih =>
    have hbit : (m.bitmap.clearBits page n).testBit (page + n) = true := by
      rw [Words.testBit_clearBits, hused (page + n) (by omega) (by omega), Bool.and_true,
        decide_eq_true_iff]
      omega
    rw [range'_1_concat, foldl_append, ih fun q hle hlt => hused q hle (by omega)]
    simp only [foldl_cons, foldl_nil, clearUsed, hbit, if_true]
    unfold Words.clearBits
    rw [range_succ, foldl_append]
    rfl

/-- In the buddy system a release clears the block of the range's order, which then has to be the
range itself. -/
theorem sound_freeContig (hs : Sound U s) (hU : ∀ q, U q → q < maxPages ∧ q ≠ 0)
    (hsane : s.pmm.buddyActive = true → ∀ r ∈ s.held[i]?, r.pages = 2 ^ r.order) :
    Sound U (act s (.freeContig i)) := by
  simp only [act]
  split
  · exact hs
  rename_i r hget
  have hr : r ∈ s.held := mem_of_getElem? hget
  have hfits := hs.fits r hr
  have hend := hs.end_le hU hr
  have hne := (hU _ (hs.usable r hr _ (hs.covers_start hr))).2
  have hused := fun q hq => hs.testBit_of_covers (q := q) (fun q hq => (hU q hq).1) hr hq
  refine hs.release hU hget ?_
  -- an aligned block that starts below the last page ends at most there
  have hroom : r.start + 2 ^ ceilLog2 r.asked ≤ maxPages := by
    have horder : r.order ≤ maxOrder :=
      ceilLog2_le_maxOrder (by have := hfits.enough; omega)
    have hdvd : 2 ^ r.order ∣ maxPages := Nat.pow_dvd_pow 2 horder
    have hlt := (hU _ (hs.usable r hr _ (hs.covers_start hr))).1
    have := Nat.le_of_dvd (Nat.sub_pos_of_lt hlt) (Nat.dvd_sub hdvd hfits.aligned)
    change r.start + 2 ^ r.order ≤ maxPages
    omega
  unfold pmmFreeContig
  rw [if_neg (by rintro (h | h); exacts [Nat.mul_ne_zero hne (by decide) h, hfits.asked h])]
  simp only [Nat.mul_div_cancel _ (show 0 < pageSize by decide)]
  rw [if_neg (Nat.not_lt.mpr hroom)]
  by_cases hmode : s.pmm.buddyActive = true
  · have hpages := hsane hmode r hget
    have hbits : ∀ q, (bitmapClearBlock s.pmm.bitmap r.start r.order).testBit q =
        (decide (¬ (r.start ≤ q ∧ q < r.start + r.pages)) && s.pmm.bitmap.testBit q) := by
      intro q
      rw [testBit_bitmapClearBlock hfits.aligned, hpages]
      rfl
    have hcount : 2 ^ ceilLog2 r.asked ≤ s.pmm.usedPagesCount := by
      have hsum := single_le_sum (fun _ _ => Nat.zero_le _) _
        (mem_map_of_mem (f := Range.pages) hr)
      rw [hpages] at hsum
      exact hsum.trans hs.used
    rw [if_pos hmode, if_pos hcount]
    refine ⟨hbits, by rw [hpages]; rfl, rfl, rfl, hs.hint, fun hoff => ?_, fun _ => ?_⟩
    · rw [hmode] at hoff
      cases hoff
    · exact tiling_release hs hU hmode hr hpages hbits
  · have hmode' : s.pmm.buddyActive = false := by simpa using hmode
    have hpages := hs.exact hmode' r hr
    rw [if_neg hmode, ← hpages, foldl_clearUsed fun q hle hlt => hused q ⟨hle, hlt⟩]
    exact gives_lowerHint hs hmode' fun q => Words.testBit_clearBits

end

end IrisOS.Pmm
