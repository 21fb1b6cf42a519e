import IrisOS.Pmm.Calls

/-! Pages are neither lost nor handed out twice, from a memory map on and over every sequence of
calls. -/
namespace IrisOS.Pmm
open Lib List Set

/-! ## The memory map -/

namespace MmapEntry

def first (e : MmapEntry) : ℕ := e.base / pageSize

def count (e : MmapEntry) : ℕ :=
  if !e.usable then 0
  else if e.base = 0 then 0
  else if e.first ≥ maxPages then 0
  else if e.first + e.length / pageSize > maxPages then maxPages - e.first
  else e.length / pageSize

def Pages (e : MmapEntry) (q : ℕ) : Prop := e.first ≤ q ∧ q < e.first + e.count

variable {e : MmapEntry} {q : ℕ}

theorem pages_iff :
    e.Pages q ↔ e.usable = true ∧ e.base ≠ 0 ∧ q < maxPages ∧ e.first ≤ q ∧
      q < e.first + e.length / pageSize := by
  unfold Pages count
  cases e.usable with
  | false =>
    simp only [Bool.not_false, if_true, Bool.false_eq_true, false_and, iff_false]
    omega
  | true =>
    simp only [Bool.not_true, Bool.false_eq_true, if_false, true_and]
    split
    · omega
    split
    · omega
    split <;> omega

theorem lt_of_pages (h : e.Pages q) : q < maxPages := (pages_iff.mp h).2.2.1

theorem count_ne_zero (h : e.Pages q) : e.count ≠ 0 := by
  have := h.1
  have := h.2
  omega

end MmapEntry

/-- The entries that pages are taken from start on a page, and no two share one. -/
structure WellFormed (mmap : List MmapEntry) : Prop where
  aligned : ∀ e ∈ mmap, e.count ≠ 0 → pageSize ∣ e.base
  apart : mmap.Pairwise fun e f => ∀ q, e.Pages q → ¬ f.Pages q

/-- A page the map reports usable from an address other than 0, outside page 0 and the kernel image.
-/
def Usable (mmap : List MmapEntry) (ks ke q : ℕ) : Prop :=
  q < maxPages ∧ q ≠ 0 ∧ q ∉ kernelPages ks ke ∧
    ∃ e ∈ mmap, e.usable = true ∧ e.base ≠ 0 ∧ e.base ≤ q * pageSize ∧
      (q + 1) * pageSize ≤ e.base + e.length

section
variable {mmap : List MmapEntry} {ks ke q : ℕ} {m : Manager} {b : Words}

theorem initEntry_eq (m : Manager) (e : MmapEntry) :
    initEntry m e = { m with
      bitmap := m.bitmap.clearBits e.first e.count
      totalPagesCount := m.totalPagesCount + e.count } := by
  unfold initEntry MmapEntry.count
  simp only
  split
  · rfl
  split
  · rfl
  split
  · rename_i hhigh
    rw [if_pos (show e.first ≥ maxPages from hhigh)]
    rfl
  · rename_i hlow
    rw [if_neg (show ¬ e.first ≥ maxPages from hlow)]
    rfl

/-- The manager after some entries of the map. -/
structure Mapped (mmap : List MmapEntry) (m : Manager) : Prop where
  bits : ∀ q, m.bitmap.testBit q = false ↔ ∃ e ∈ mmap, e.Pages q
  total : m.totalPagesCount = (freeSet m.bitmap).ncard
  rest : m = { bitmap := m.bitmap, totalPagesCount := m.totalPagesCount }

theorem testBit_ones (q : ℕ) : Words.testBit (fun _ => ~~~0) q = true := by
  have hlt : q % 64 < 64 := Nat.mod_lt _ (by decide)
  rw [Words.testBit_eq, UInt64.toBitVec_not, BitVec.getLsbD_not]
  simp [hlt]

theorem mapped_nil : Mapped [] {} := by
  have hempty : freeSet (fun _ => ~~~0) = ∅ := by
    ext q
    simp only [freeSet, testBit_ones, Bool.true_eq_false, and_false, mem_ofPred_eq,
      mem_empty_iff_false]
  refine ⟨fun q => ?_, ?_, rfl⟩
  · simp only [testBit_ones, Bool.true_eq_false, not_mem_nil, false_and, exists_false]
  · change 0 = (freeSet fun _ => ~~~0).ncard
    rw [hempty, ncard_empty]

theorem Mapped.snoc (h : Mapped mmap m) (hapart : ∀ f ∈ mmap, ∀ q, f.Pages q → ¬ e.Pages q) :
    Mapped (mmap ++ [e]) (initEntry m e) := by
  rw [initEntry_eq]
  have hbits : ∀ q, (m.bitmap.clearBits e.first e.count).testBit q = false ↔
      m.bitmap.testBit q = false ∨ e.Pages q := by
    intro q
    rw [Words.testBit_clearBits, Bool.and_eq_false_iff, decide_eq_false_iff_not, not_not, or_comm]
    rfl
  have hset : freeSet (m.bitmap.clearBits e.first e.count) =
      freeSet m.bitmap ∪ {q | e.first ≤ q ∧ q < e.first + e.count} := by
    ext q
    simp only [freeSet, mem_ofPred_eq, mem_union, hbits]
    constructor
    · rintro ⟨hlt, hclear | hq⟩
      · exact .inl ⟨hlt, hclear⟩
      · exact .inr hq
    · rintro (⟨hlt, hclear⟩ | hq)
      · exact ⟨hlt, .inl hclear⟩
      · exact ⟨MmapEntry.lt_of_pages hq, .inr hq⟩
  have hdisj : Disjoint (freeSet m.bitmap) {q | e.first ≤ q ∧ q < e.first + e.count} := by
    rw [Set.disjoint_left]
    rintro q ⟨-, hclear⟩ hq
    obtain ⟨f, hf, hpages⟩ := (h.bits q).mp hclear
    exact hapart f hf q hpages hq
  refine ⟨fun q => ?_, ?_, ?_⟩
  · rw [hbits, h.bits]
    simp [or_and_right, exists_or]
  · change m.totalPagesCount + e.count = _
    rw [hset, ncard_union_eq hdisj (freeSet_finite _)
      ((finite_lt_nat (e.first + e.count)).subset fun q hq => hq.2), ncard_interval, h.total]
  · rw [h.rest]

theorem mapped_mmap (hmmap : WellFormed mmap) : Mapped mmap (mmap.foldl initEntry {}) := by
  have hpair := hmmap.apart
  clear hmmap
  induction mmap using reverseRecOn with
  | nil => exact mapped_nil
  | append_singleton mmap e ih =>
    obtain ⟨hinit, -, hlast⟩ := pairwise_append.mp hpair
    rw [foldl_append]
    exact (ih hinit).snoc fun f hf => hlast f hf e mem_cons_self

theorem exists_pages_iff (hmmap : WellFormed mmap) :
    (∃ e ∈ mmap, e.Pages q) ↔ q < maxPages ∧ q ≠ 0 ∧
      ∃ e ∈ mmap, e.usable = true ∧ e.base ≠ 0 ∧ e.base ≤ q * pageSize ∧
        (q + 1) * pageSize ≤ e.base + e.length := by
  constructor
  · rintro ⟨e, he, hpages⟩
    obtain ⟨k, hk⟩ := hmmap.aligned e he (MmapEntry.count_ne_zero hpages)
    obtain ⟨husable, hbase, hlt, hle, hin⟩ := MmapEntry.pages_iff.mp hpages
    have hk : e.base = 4096 * k := hk
    have hle : e.base / 4096 ≤ q := hle
    have hin : q < e.base / 4096 + e.length / 4096 := hin
    refine ⟨hlt, by omega, e, he, husable, hbase, ?_, ?_⟩
    · change e.base ≤ q * 4096
      omega
    · change (q + 1) * 4096 ≤ e.base + e.length
      omega
  · rintro ⟨hlt, -, e, he, husable, hbase, hlow, hhigh⟩
    have hlow : e.base ≤ q * 4096 := hlow
    have hhigh : (q + 1) * 4096 ≤ e.base + e.length := hhigh
    have hle : e.base / 4096 ≤ q := by omega
    have hsome : e.Pages e.first := by
      refine MmapEntry.pages_iff.mpr ⟨husable, hbase, Nat.lt_of_le_of_lt hle hlt, le_rfl, ?_⟩
      change e.base / 4096 < e.base / 4096 + e.length / 4096
      omega
    obtain ⟨k, hk⟩ := hmmap.aligned e he (MmapEntry.count_ne_zero hsome)
    have hk : e.base = 4096 * k := hk
    refine ⟨e, he, MmapEntry.pages_iff.mpr ⟨husable, hbase, hlt, hle, ?_⟩⟩
    change q < e.base / 4096 + e.length / 4096
    omega

/-! ## The kernel image -/

theorem kernelPages_lt {k : ℕ} (hk : k ∈ kernelPages ks ke) : k < maxPages := by
  unfold kernelPages at hk
  simp only [mem_range'_1] at hk
  omega

theorem reservePage_spec {k : ℕ} (hk : k < maxPages) :
    (∀ q, (reservePage m k).bitmap.testBit q = false ↔ m.bitmap.testBit q = false ∧ q ≠ k) ∧
      (reservePage m k).usedPagesCount + (freeSet (reservePage m k).bitmap).ncard =
        m.usedPagesCount + (freeSet m.bitmap).ncard := by
  unfold reservePage
  split
  · rename_i hclear
    have hclear : m.bitmap.testBit k = false := by simpa using hclear
    have hbits : ∀ q, (m.bitmap.setBit k).testBit q = false ↔
        m.bitmap.testBit q = false ∧ q ≠ k := by
      intro q
      rw [Words.testBit_setBit, Bool.or_eq_false_iff, decide_eq_false_iff_not, and_comm]
    have hset : freeSet (m.bitmap.setBit k) = freeSet m.bitmap \ {k} := by
      ext q
      simp only [freeSet, mem_ofPred_eq, hbits, mem_sdiff, mem_singleton_iff, and_assoc]
    have hcard := ncard_sdiff_singleton_add_one (show k ∈ freeSet m.bitmap from ⟨hk, hclear⟩)
      (freeSet_finite _)
    refine ⟨hbits, ?_⟩
    simp only [hset]
    omega
  · rename_i hset
    have hset : m.bitmap.testBit k = true := by simpa using hset
    refine ⟨fun q => ⟨fun hq => ⟨hq, ?_⟩, fun hq => hq.1⟩, rfl⟩
    rintro rfl
    rw [hset] at hq
    cases hq

theorem foldl_reservePage {l : List ℕ} (hl : ∀ k ∈ l, k < maxPages) :
    (∀ q, (l.foldl reservePage m).bitmap.testBit q = false ↔
      m.bitmap.testBit q = false ∧ q ∉ l) ∧
    (l.foldl reservePage m).usedPagesCount + (freeSet (l.foldl reservePage m).bitmap).ncard =
      m.usedPagesCount + (freeSet m.bitmap).ncard ∧
    l.foldl reservePage m = { m with
      bitmap := (l.foldl reservePage m).bitmap
      usedPagesCount := (l.foldl reservePage m).usedPagesCount } := by
  induction l generalizing m with
  | nil => exact ⟨fun q => by simp, rfl, rfl⟩
  | cons k l ih =>
    obtain ⟨hk, hl⟩ := forall_mem_cons.mp hl
    obtain ⟨hbits, hcount, hrest⟩ := ih (m := reservePage m k) hl
    obtain ⟨hone, hcountOne⟩ := reservePage_spec (m := m) hk
    rw [foldl_cons]
    refine ⟨fun q => ?_, hcount.trans hcountOne, ?_⟩
    · rw [hbits, hone, mem_cons, not_or, and_assoc]
    · rw [hrest]
      unfold reservePage
      split <;> rfl

theorem sound_start (hmmap : WellFormed mmap) : Sound (Usable mmap ks ke) (start mmap ks ke) := by
  have hmapped := mapped_mmap hmmap
  unfold start pmmInit
  simp only
  generalize mmap.foldl initEntry {} = m at hmapped
  obtain ⟨hbits, hcount, hrest⟩ := foldl_reservePage
    (m := { m with bitmap := m.bitmap.setBit 0 }) fun k (hk : k ∈ kernelPages ks ke) =>
      kernelPages_lt hk
  -- page 0 is in no entry, so taking it changes nothing
  have hzero : ∀ q, (m.bitmap.setBit 0).testBit q = false ↔ m.bitmap.testBit q = false := by
    intro q
    rw [Words.testBit_setBit, Bool.or_eq_false_iff, decide_eq_false_iff_not]
    refine ⟨fun h => h.2, fun h => ⟨?_, h⟩⟩
    exact ((exists_pages_iff hmmap).mp ((hmapped.bits q).mp h)).2.1
  have hfree : freeSet (m.bitmap.setBit 0) = freeSet m.bitmap := by
    ext q
    simp only [freeSet, mem_ofPred_eq, hzero]
  have husable : ∀ q, Usable mmap ks ke q ↔ m.bitmap.testBit q = false ∧ q ∉ kernelPages ks ke := by
    intro q
    rw [hmapped.bits, exists_pages_iff hmmap]
    unfold Usable
    tauto
  generalize (kernelPages ks ke).foldl reservePage { m with bitmap := m.bitmap.setBit 0 } = m'
    at hbits hcount hrest
  have hm := hmapped.rest
  have htotal := hmapped.total
  generalize m.bitmap = b, m.totalPagesCount = total at *
  subst hm
  simp only [hfree] at hcount
  generalize m'.bitmap = b', m'.usedPagesCount = used at *
  subst hrest
  refine ⟨fun q _ => ?_, Pairwise.nil, by simp, by simp, by simp, Nat.zero_le _, ?_,
    Nat.zero_le _, fun _ => rfl, by simp⟩
  · simp only [hbits, hzero, husable, not_mem_nil, false_implies, implies_true, and_true]
  · simp only
    omega

end

/-! ## Runs -/

/-- After the switch no page below a limit that is asked for is free, and what is freed as a block
was handed out as one. Before it, wherever as many pages as are asked for are free in a row, they
start at a multiple of their size class. -/
def Sane (s : State) : Event → Prop
  | .allocPageBelow limit => s.pmm.buddyActive = true → ∀ i, 1 ≤ i →
      i < min (limit / pageSize) maxPages → s.pmm.bitmap.testBit i = true
  | .allocPages n => s.pmm.buddyActive = false → ∀ start, 1 ≤ start →
      start + n.toNat ≤ maxPages → Clear s.pmm.bitmap start n.toNat → 2 ^ ceilLog2 n ∣ start
  | .freeContig i => s.pmm.buddyActive = true → ∀ r ∈ s.held[i]?, r.pages = 2 ^ r.order
  | _ => True

theorem sound_act (hU : ∀ q, U q → q < maxPages ∧ q ≠ 0) (e : Event)
    (hs : Sound U s) (hsane : Sane s e) : Sound U (act s e) := by
  cases e with
  | allocPage => exact sound_allocPage hs hU
  | allocPageBelow limit => exact sound_allocPageBelow hs hsane
  | allocPages n =>
    exact sound_allocPages hs hU fun hmode => allocPages_aligned hs hmode (hsane hmode)
  | allocBlock => exact sound_allocBlock hs hU
  | freePage i => exact sound_freePage hs hU
  | freeContig i => exact sound_freeContig hs hU hsane
  | buddySetup => exact sound_buddySetup hs hU

def oneEntry (p n : ℕ) : List MmapEntry := [⟨true, p * pageSize, n * pageSize⟩]

theorem wellFormed_oneEntry (p n : ℕ) : WellFormed (oneEntry p n) := by
  refine ⟨fun e he _ => ?_, pairwise_singleton _ _⟩
  obtain rfl := mem_singleton.mp he
  exact Nat.dvd_mul_left _ _

theorem lt_of_usable {p n q : ℕ} (h : Usable (oneEntry p n) 0 0 q) : p ≤ q ∧ q < p + n := by
  obtain ⟨-, -, -, e, he, -, -, hlow, hhigh⟩ := h
  obtain rfl := mem_singleton.mp he
  have hlow : p * 4096 ≤ q * 4096 := hlow
  have hhigh : (q + 1) * 4096 ≤ p * 4096 + n * 4096 := hhigh
  omega

theorem setupLoop_of_used {page fuel : ℕ}
    (hused : ∀ q, page ≤ q → q < maxPages → b.testBit q = true) : setupLoop b fuel B page = B := by
  induction fuel generalizing page with
  | zero => rfl
  | succ fuel ih =>
    unfold setupLoop
    split
    · rename_i hlt
      rw [hused page le_rfl hlt]
      exact ih fun q hq => hused q (by omega)
    · rfl

theorem setupLoop_page_one {fuel : ℕ} (hone : b.testBit 1 = false)
    (hused : ∀ q, 2 ≤ q → q < maxPages → b.testBit q = true) :
    setupLoop b (fuel + 1) {} 1 = Buddy.insert {} 1 0 := by
  have hstop : runEnd b (maxPages - 1) 1 = 2 := by
    obtain ⟨-, hlast, hrun⟩ := runEnd_spec b (maxPages - 1) 1
    have hlt := lt_runEnd (maxPages - 1) hone (by decide)
    by_contra hne
    have := hrun 2 (by decide) (by omega)
    rw [hused 2 le_rfl (by decide)] at this
    cases this
  unfold setupLoop
  rw [if_pos (by decide), hone]
  simp only [Bool.false_eq_true, if_false, hstop]
  exact setupLoop_of_used hused

/-- The state after the switch, with the given free blocks. -/
def State.switched (s : State) (B : Buddy) : State :=
  { s with pmm := { s.pmm with buddy := B, buddyActive := true } }

theorem act_buddySetup (hs : Sound U s)
    (hmode : s.pmm.buddyActive = false) (hsetup : setupLoop s.pmm.bitmap maxPages {} 1 = B) :
    act s .buddySetup = s.switched B := by
  simp only [act, pmmBuddySetup, State.switched, hmode, Bool.false_eq_true, if_false,
    hs.fresh hmode, hsetup]

/-- The four pages of a map are handed out before the switch, freed after it, and then go out in
three parts, one of which is freed again. -/
def acrossTheSwitch : List Event :=
  [.allocPages 4, .buddySetup, .freeContig 0, .allocPage, .allocPages 2, .allocBlock, .freeContig 1]

/-- A page below a limit that is handed out after the switch is handed out again. -/
theorem low_page_is_handed_out_twice :
    (runFrom act (start (oneEntry 1 1) 0 0)
      [.buddySetup, .allocPageBelow 0x100000, .allocPage]).held = [⟨1, 1, 1⟩, ⟨1, 1, 1⟩] := by
  have hsound : Sound (Usable (oneEntry 1 1) 0 0) (start (oneEntry 1 1) 0 0) :=
    sound_start (wellFormed_oneEntry 1 1)
  have hone : (start (oneEntry 1 1) 0 0).pmm.bitmap.testBit 1 = false := by decide +kernel
  have hused : ∀ q, 2 ≤ q → q < maxPages →
      (start (oneEntry 1 1) 0 0).pmm.bitmap.testBit q = true := by
    intro q hq hlt
    rw [← Bool.not_eq_false, hsound.bits q hlt]
    rintro ⟨husable, -⟩
    have := lt_of_usable husable
    omega
  rw [runFrom_cons, act_buddySetup hsound (by decide +kernel) (setupLoop_page_one hone hused)]
  decide +kernel

theorem free_across_the_switch_takes_a_neighbour :
    (runFrom act (start (oneEntry 4 4) 0 0)
      [.allocPages 3, .allocPage, .buddySetup, .freeContig 1, .allocBlock]).held =
      [⟨4, 4, 4⟩, ⟨7, 1, 1⟩] := by
  have hU : ∀ q, Usable (oneEntry 4 4) 0 0 q → q < maxPages ∧ q ≠ 0 := fun q hq => ⟨hq.1, hq.2.1⟩
  have hsound : Sound (Usable (oneEntry 4 4) 0 0)
      (runFrom act (start (oneEntry 4 4) 0 0) [.allocPages 3, .allocPage]) :=
    sound_allocPage (sound_allocPages (n := 3) (sound_start (wellFormed_oneEntry 4 4)) hU
      (by decide +kernel)) hU
  have hheld : (runFrom act (start (oneEntry 4 4) 0 0) [.allocPages 3, .allocPage]).held =
      [⟨7, 1, 1⟩, ⟨4, 3, 3⟩] := by decide +kernel
  have hused : ∀ q, 1 ≤ q → q < maxPages →
      (runFrom act (start (oneEntry 4 4) 0 0) [.allocPages 3, .allocPage]).pmm.bitmap.testBit q =
        true := by
    intro q _ hlt
    rw [← Bool.not_eq_false, hsound.bits q hlt, hheld]
    rintro ⟨husable, hfree⟩
    obtain ⟨hle, hlast⟩ := lt_of_usable husable
    have hseven := hfree ⟨7, 1, 1⟩ (by decide)
    have hfour := hfree ⟨4, 3, 3⟩ (by decide)
    simp only [Range.Covers] at hseven hfour
    omega
  have happend : [Event.allocPages 3, .allocPage, .buddySetup, .freeContig 1, .allocBlock] =
      [.allocPages 3, .allocPage] ++ [.buddySetup, .freeContig 1, .allocBlock] := rfl
  rw [happend, runFrom_append, runFrom_cons,
    act_buddySetup hsound (by decide +kernel) (setupLoop_of_used hused)]
  decide +kernel

end IrisOS.Pmm
