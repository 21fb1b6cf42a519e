import IrisOS.Program.Memory
import Mathlib.Order.Nat

/-! A program's memory map stays consistent: disjoint page ranges in their regions, a heap tiled up
to its top, and every record backed by a frame mapped as recorded. -/
namespace IrisOS.Program
open Lib Function List State

def heapLo : ℕ := userPrivateBase + irisProgHeapOff
def heapHi : ℕ := userPrivateBase + irisProgHeapEndOff
def mmapLo : ℕ := userPrivateBase + irisProgMmapOff
def mmapHi : ℕ := userPrivateBase + irisProgStackOff - pageSize

namespace ProgMap

def Holds (e : ProgMap) (a : ℕ) : Prop := e.vaddr ≤ a ∧ a < e.vaddr + e.bytes

/-- The frame of the record is mapped at its range with its protection. -/
def Backed (k : Frames) (e : ProgMap) : Prop :=
  ∃ f, k e.slot = some f ∧ f.bytes = e.bytes ∧ f.place = some (e.vaddr, e.prot)

def Disjoint (d e : ProgMap) : Prop := d.vaddr + d.bytes ≤ e.vaddr ∨ e.vaddr + e.bytes ≤ d.vaddr

end ProgMap

/-- A consistent memory map. -/
structure Consistent (s : State) : Prop where
  paged : ∀ e ∈ s.mem.maps, pageSize ∣ e.vaddr ∧ pageSize ∣ e.bytes ∧ 0 < e.bytes
  heap : ∀ e ∈ s.mem.maps, e.heap = true → heapLo ≤ e.vaddr ∧ e.vaddr + e.bytes ≤ heapHi
  mmap : ∀ e ∈ s.mem.maps, e.heap = false → mmapLo ≤ e.vaddr ∧ e.vaddr + e.bytes ≤ mmapHi
  disjoint : s.mem.maps.Pairwise ProgMap.Disjoint
  tiled : ∀ a, heapLo ≤ a ∧ a < s.mem.heapTop ↔ ∃ e ∈ s.mem.maps, e.heap = true ∧ e.Holds a
  brk : heapLo ≤ s.mem.brkCur ∧ s.mem.brkCur ≤ s.mem.heapTop ∧ s.mem.heapTop ≤ heapHi
  cursor : s.mem.mmapCur ≤ mmapHi
  slots : (s.mem.maps.map ProgMap.slot).Nodup
  backed : ∀ e ∈ s.mem.maps, e.Backed s.frames

/-! ## The records -/

theorem layout : 4096 ∣ heapLo ∧ 4096 ∣ heapHi ∧ 4096 ∣ mmapLo ∧ heapLo ≤ heapHi ∧
    heapHi ≤ mmapLo ∧ mmapLo ≤ mmapHi ∧ mmapHi < 2 ^ 63 := by decide

structure ProgMap.Good (r : SlotRange) (cur next : ℕ) (k : Frames) (e : ProgMap) : Prop where
  page : pageSize ∣ e.vaddr ∧ pageSize ∣ e.bytes ∧ 0 < e.bytes
  heap : e.heap = true → heapLo ≤ e.vaddr ∧ e.vaddr + e.bytes ≤ heapHi
  mmap : e.heap = false → mmapLo ≤ e.vaddr ∧ e.vaddr + e.bytes ≤ cur
  slot : r.lo ≤ e.slot ∧ e.slot < next ∧ e.slot ≤ r.hi
  backed : e.Backed k

/-- The records `l` with the break `brk`, the heap up to `top`, the cursor `cur` and the next slot
`next`. Heap records from `top` on are about to be released. -/
structure Inv (r : SlotRange) (brk top cur next : ℕ) (k : Frames) (l : List ProgMap) : Prop where
  each : ∀ e ∈ l, e.Good r cur next k
  apart : l.Pairwise fun d e => d.slot ≠ e.slot ∧ d.Disjoint e
  covered : ∀ a, heapLo ≤ a ∧ a < top ↔ ∃ e ∈ l, e.heap = true ∧ e.vaddr < top ∧ e.Holds a
  brk : heapLo ≤ brk ∧ brk ≤ top ∧ top ≤ heapHi ∧ pageSize ∣ top
  cursor : mmapLo ≤ cur ∧ cur ≤ mmapHi ∧ pageSize ∣ cur

section
variable {r : SlotRange} {brk top top' cur cur' next next' : ℕ} {k k' : Frames}
  {l l' : List ProgMap} {e : ProgMap} {p : ℕ}

theorem ProgMap.Good.mono (h : e.Good r cur next k) (hcur : cur ≤ cur') (hnext : next ≤ next')
    (hk : k' e.slot = k e.slot) : e.Good r cur' next' k' where
  page := h.page
  heap := h.heap
  mmap hm := ⟨(h.mmap hm).1, (h.mmap hm).2.trans hcur⟩
  slot := ⟨h.slot.1, h.slot.2.1.trans_le hnext, h.slot.2.2⟩
  backed := by
    unfold Backed
    rw [hk]
    exact h.backed

theorem ProgMap.Good.ne_pt (h : e.Good r cur next k) : e.slot ≠ r.pt := by
  have hslot := h.slot
  have hapart := r.apart
  omega

namespace Inv

section

variable (h : Inv r brk top cur next k l)
include h

theorem perm (hp : l.Perm l') : Inv r brk top cur next k l' where
  each e he := h.each e (hp.mem_iff.mpr he)
  apart := (hp.pairwise_iff fun hd => ⟨hd.1.symm, hd.2.symm⟩).mp h.apart
  covered a := by simp only [h.covered, hp.mem_iff]
  brk := h.brk
  cursor := h.cursor

theorem mono (hnext : next ≤ next')
    (hk : ∀ x < next, x ≠ r.pt → k' x = k x) : Inv r brk top cur next' k' l where
  each e he := (h.each e he).mono le_rfl hnext (hk _ (h.each e he).slot.2.1 (h.each e he).ne_pt)
  apart := h.apart
  covered := h.covered
  brk := h.brk
  cursor := h.cursor

theorem end_le (he : e ∈ l) (hheap : e.heap = true)
    (hlow : e.vaddr < top) : e.vaddr + e.bytes ≤ top := by
  have hpos := (h.each e he).page.2.2
  have hlast := (h.covered (e.vaddr + e.bytes - 1)).mpr ⟨e, he, hheap, hlow, by omega, by omega⟩
  omega

theorem cons_heap (hlow : ∀ d ∈ l, d.heap = true → d.vaddr < top)
    (he : e.Good r cur (next + 1) k) (hheap : e.heap = true) (hva : e.vaddr = top)
    (hslot : e.slot = next) : Inv r brk (top + e.bytes) cur (next + 1) k (e :: l) := by
  obtain ⟨hpage, hbytes, hpos⟩ := he.page
  have hle := (he.heap hheap).2
  refine ⟨forall_mem_cons.mpr ⟨he, fun d hd => (h.each d hd).mono le_rfl (by omega) rfl⟩,
    pairwise_cons.mpr ⟨fun d hd => ?_, h.apart⟩, fun a => ?_, ?_, h.cursor⟩
  · have hgood := h.each d hd
    have hds := hgood.slot
    refine ⟨by omega, ?_⟩
    cases hdh : d.heap with
    | true => exact .inr (hva ▸ h.end_le hd hdh (hlow d hd hdh))
    | false => exact .inl (hle.trans (layout.2.2.2.2.1.trans (hgood.mmap hdh).1))
  · simp only [mem_cons, exists_eq_or_imp, hheap, true_and]
    have hcov := h.covered a
    constructor
    · rintro ⟨hlo, hhi⟩
      by_cases ha : a < top
      · obtain ⟨d, hd, hdh, hdt, hda⟩ := hcov.mp ⟨hlo, ha⟩
        exact .inr ⟨d, hd, hdh, by omega, hda⟩
      · exact .inl ⟨by omega, by omega, by omega⟩
    · have hbase := (he.heap hheap).1
      rintro (⟨-, hlo, hhi⟩ | ⟨d, hd, hdh, -, hda⟩)
      · omega
      · have := hcov.mpr ⟨d, hd, hdh, hlow d hd hdh, hda⟩
        omega
  · have hbrk := h.brk
    exact ⟨hbrk.1, by omega, by omega, Nat.dvd_add hbrk.2.2.2 hbytes⟩

theorem cons_mmap (he : e.Good r (cur + e.bytes) (next + 1) k)
    (hheap : e.heap = false) (hva : e.vaddr = cur) (hslot : e.slot = next)
    (hend : cur + e.bytes ≤ mmapHi) : Inv r brk top (cur + e.bytes) (next + 1) k (e :: l) := by
  refine ⟨forall_mem_cons.mpr ⟨he, fun d hd => (h.each d hd).mono (by omega) (by omega) rfl⟩,
    pairwise_cons.mpr ⟨fun d hd => ?_, h.apart⟩, fun a => ?_, h.brk, ?_⟩
  · have hgood := h.each d hd
    have hds := hgood.slot
    refine ⟨by omega, .inr ?_⟩
    cases hdh : d.heap with
    | true => exact (hgood.heap hdh).2.trans (layout.2.2.2.2.1.trans (he.mmap hheap).1)
    | false => exact hva ▸ (hgood.mmap hdh).2
  · simp [h.covered, hheap]
  · have hcur := h.cursor
    exact ⟨by omega, hend, Nat.dvd_add hcur.2.2 he.page.2.1⟩

end

section

variable (h : Inv r brk top cur next k (e :: l))
include h

theorem tail_mmap (hk : ∀ x ≠ e.slot, k' x = k x)
    (hheap : e.heap = false) : Inv r brk top cur next k' l := by
  obtain ⟨hfirst, hrest⟩ := pairwise_cons.mp h.apart
  refine ⟨fun d hd => (h.each d (mem_cons_of_mem e hd)).mono le_rfl le_rfl
    (hk _ (hfirst d hd).1.symm), hrest, fun a => ?_, h.brk, h.cursor⟩
  have hcov := h.covered a
  simpa [hheap] using hcov

theorem tail_heap (hk : ∀ x ≠ e.slot, k' x = k x)
    (hbrk : brk ≤ e.vaddr) (htop : top' = if e.vaddr < top then e.vaddr else top) :
    Inv r brk top' cur next k' l := by
  obtain ⟨hfirst, hrest⟩ := pairwise_cons.mp h.apart
  have hgood := h.each e mem_cons_self
  have hmin : top' ≤ top ∧ top' ≤ e.vaddr ∧ (top' = top ∨ top' = e.vaddr) := by
    split_ifs at htop <;> omega
  refine ⟨fun d hd => (h.each d (mem_cons_of_mem e hd)).mono le_rfl le_rfl
    (hk _ (hfirst d hd).1.symm), hrest, fun a => ?_, ?_, h.cursor⟩
  · have hcov := h.covered a
    simp only [mem_cons, exists_eq_or_imp] at hcov
    constructor
    · intro ha
      rcases hcov.mp (by omega) with ⟨-, -, hea⟩ | ⟨d, hd, hdh, -, hda⟩
      · have := hea.1
        omega
      · have := hda.1
        exact ⟨d, hd, hdh, by omega, hda⟩
    · rintro ⟨d, hd, hdh, hdt, hda⟩
      have hin := hcov.mpr (.inr ⟨d, hd, hdh, by omega, hda⟩)
      have hdis := (hfirst d hd).2
      unfold ProgMap.Disjoint at hdis
      unfold ProgMap.Holds at hda
      omega
  · obtain ⟨hlo, hle, hhi, hpage⟩ := h.brk
    refine ⟨hlo, by omega, by omega, ?_⟩
    rcases hmin.2.2 with heq | heq
    · rwa [heq]
    · exact heq ▸ hgood.page.1

theorem setProt
    (hk : ∀ x ≠ e.slot, x ≠ r.pt → k' x = k x) (hb : ProgMap.Backed k' { e with prot := p }) :
    Inv r brk top cur next k' ({ e with prot := p } :: l) := by
  obtain ⟨hfirst, hrest⟩ := pairwise_cons.mp h.apart
  have hgood := h.each e mem_cons_self
  refine ⟨forall_mem_cons.mpr ⟨⟨hgood.page, hgood.heap, hgood.mmap, hgood.slot, hb⟩,
    fun d hd => ?_⟩, pairwise_cons.mpr ⟨hfirst, hrest⟩, fun a => ?_, h.brk, h.cursor⟩
  · have hd' := h.each d (mem_cons_of_mem e hd)
    exact hd'.mono le_rfl le_rfl (hk _ (hfirst d hd).1.symm hd'.ne_pt)
  · have hcov := h.covered a
    simp only [mem_cons, exists_eq_or_imp] at hcov ⊢
    exact hcov

end

end Inv
end

/-! ## One frame more or less -/

section
variable {k : Frames} {slot pt vaddr prot : ℕ} {f : Frame} {a : Answer}

theorem mapFrame_of_some (a : Answer) (vaddr prot : ℕ) (hpt : slot ≠ pt) (hf : k slot = some f) :
    ∃ k', (∀ x ≠ slot, x ≠ pt → k' x = k x) ∧
      (k.mapFrame a slot pt vaddr prot = (k', false) ∧ k' slot = some f ∧
          f.was ≠ some (vaddr, prot) ∨
        k.mapFrame a slot pt vaddr prot = (k', true) ∧
          k' slot = some { f with place := some (vaddr, prot), was := none }) := by
  obtain ⟨k1, hk1, hf1, hoff⟩ : ∃ k1, (if a.tables then update k pt none else k) = k1 ∧
      k1 slot = some f ∧ ∀ x ≠ pt, k1 x = k x := by
    split_ifs
    · exact ⟨_, rfl, by rw [update_of_ne hpt, hf], fun x hx => update_of_ne hx ..⟩
    · exact ⟨k, rfl, hf, fun _ _ => rfl⟩
  simp only [Frames.mapFrame, hk1, hf1]
  split_ifs with hmap
  · exact ⟨_, fun x hx hxp => (update_of_ne hx ..).trans (hoff x hxp), .inr ⟨rfl, update_self ..⟩⟩
  · exact ⟨k1, fun x _ hxp => hoff x hxp, .inl ⟨rfl, hf1, fun hwas => hmap (.inr hwas)⟩⟩

theorem unmap_of_place (hf : k slot = some f) (hp : f.place = some (vaddr, prot)) :
    k.unmap slot vaddr = (update k slot (some { f with place := none, was := f.place }), true) := by
  simp [Frames.unmap, hf, hp]

theorem unmap_off {k : Frames} {slot vaddr x : ℕ} (hx : x ≠ slot) :
    (k.unmap slot vaddr).1 x = k x := by
  unfold Frames.unmap
  split
  · rfl
  · split_ifs
    · exact update_of_ne hx ..
    · rfl

end

/-- What `pmAdd` can do: take a slot at most, or take the slot and record the mapped frame. -/
inductive Added (s : State) (vaddr bytes prot : ℕ) (heap : Bool) : State × Bool → Prop
  | failed {n k} (hn : s.mem.slotNext ≤ n) (hlast : n = s.mem.slotNext ↔ s.mem.slotEnd < s.mem.slotNext)
      (hk : ∀ x ≠ s.mem.ptSlot, k x = s.frames x) :
      Added s vaddr bytes prot heap (⟨{ s.mem with slotNext := n }, k⟩, false)
  | added {k f} (hroom : s.mem.slotNext ≤ s.mem.slotEnd)
      (hk : ∀ x < s.mem.slotNext, x ≠ s.mem.ptSlot → k x = s.frames x)
      (hf : k s.mem.slotNext = some f) (hb : f.bytes = bytes) (hp : f.place = some (vaddr, prot)) :
      Added s vaddr bytes prot heap (⟨{ s.mem with
        slotNext := s.mem.slotNext + 1
        maps := s.mem.maps ++ [⟨vaddr, bytes, s.mem.slotNext, prot, heap⟩] }, k⟩, true)

theorem pmAdd_added {s : State} {vaddr bytes prot : ℕ} (hend : s.mem.slotEnd + 1 < 2 ^ 32)
    (hpt : s.mem.slotNext ≤ s.mem.slotEnd → s.mem.slotNext ≠ s.mem.ptSlot) :
    Added s vaddr bytes prot heap (s.pmAdd a vaddr bytes prot heap) := by
  unfold pmAdd ProgMem.progMemTakeSlot Frames.retype
  by_cases hroom : s.mem.slotNext > s.mem.slotEnd
  · rw [if_pos hroom]
    exact .failed le_rfl (iff_of_true rfl hroom) fun _ _ => rfl
  have hnext : (s.mem.slotNext + 1) % 2 ^ 32 = s.mem.slotNext + 1 := Nat.mod_eq_of_lt (by omega)
  simp only [if_neg hroom, hnext]
  have hlast : s.mem.slotNext + 1 = s.mem.slotNext ↔ s.mem.slotEnd < s.mem.slotNext := by omega
  by_cases hok : a.retype ∧ s.frames s.mem.slotNext = none
  swap
  · rw [if_neg hok]
    exact .failed (Nat.le_succ _) hlast fun _ _ => rfl
  rw [if_pos hok]
  obtain ⟨k, hk, hmap | hmap⟩ := mapFrame_of_some a vaddr prot (hpt (not_lt.mp hroom))
    (update_self s.mem.slotNext (some { bytes }) s.frames)
  all_goals
    have hoff : ∀ x ≠ s.mem.slotNext, x ≠ s.mem.ptSlot → k x = s.frames x := fun x hx hxp =>
      (hk x hx hxp).trans (update_of_ne hx ..)
    -- the slot was empty before the frame was retyped into it
    have hgone : ∀ k' : Frames, (∀ x ≠ s.mem.slotNext, k' x = k x) → ∀ x ≠ s.mem.ptSlot,
        k'.delete s.mem.slotNext x = s.frames x := fun k' hk' x hxp => by
      by_cases hx : x = s.mem.slotNext
      · rw [Frames.delete, hx, update_self, hok.2]
      · rw [Frames.delete, update_of_ne hx, hk' x hx, hoff x hx hxp]
    simp only [hmap.1]
  · exact .failed (Nat.le_succ _) hlast (hgone k fun _ _ => rfl)
  · unfold ProgMem.progMemRecord
    split_ifs
    · exact .failed (Nat.le_succ _) hlast (hgone _ fun _ hx => unmap_off hx)
    · exact .added (not_lt.mp hroom) (fun x hx hxp => hoff x hx.ne hxp) hmap.2 rfl rfl

theorem forget_perm {m : ProgMem} (he : m.maps[i]? = some e) :
    ∃ l, m.progMemForget i = { m with maps := l } ∧ m.maps.Perm (e :: l) := by
  obtain ⟨hi, rfl⟩ := List.getElem?_eq_some_iff.mp he
  rcases eq_nil_or_concat' m.maps with hnil | ⟨init, z, hz⟩
  · simp [hnil] at hi
  refine ⟨((init ++ [z]).set i z).dropLast, by simp [ProgMem.progMemForget, hz], ?_⟩
  simp only [hz, length_append, length_singleton] at hi ⊢
  rcases Nat.lt_succ_iff_lt_or_eq.mp hi with hlt | rfl
  · rw [set_append_left _ _ hlt, dropLast_concat, getElem_append_left hlt]
    refine (perm_append_singleton z init).trans ?_
    refine ((getElem_cons_eraseIdx_perm hlt).symm.cons z).trans (.trans (.swap ..) (.cons _ ?_))
    exact (set_perm_cons_eraseIdx hlt z).symm
  · simp

theorem pmDrop_eq {s : State} (he : s.mem.maps[i]? = some e) :
    ∃ l k, s.pmDrop i = ⟨{ s.mem with maps := l }, k⟩ ∧ s.mem.maps.Perm (e :: l) ∧
      ∀ x ≠ e.slot, k x = s.frames x := by
  obtain ⟨l, hl, hp⟩ := forget_perm he
  refine ⟨l, (s.frames.unmap e.slot e.vaddr).1.delete e.slot, ?_, hp, fun x hx => ?_⟩
  · simp only [pmDrop, he, hl]
  · exact (update_of_ne hx ..).trans (unmap_off hx)

/-! ## The calls -/

/-- What no call changes, and the first slot. -/
def Fixed (r : SlotRange) (m : ProgMem) : Prop :=
  m.brkBase = heapLo ∧ m.brkEnd = heapHi ∧ m.mmapEnd = mmapHi ∧ m.slotEnd = r.hi ∧
    m.ptSlot = r.pt ∧ r.lo ≤ m.slotNext

/-- The state with its break taken to be `brk`. -/
def InvAt (r : SlotRange) (brk : ℕ) (s : State) : Prop :=
  Inv r brk s.mem.heapTop s.mem.mmapCur s.mem.slotNext s.frames s.mem.maps

structure Sound (r : SlotRange) (s : State) : Prop where
  fixed : Fixed r s.mem
  inv : InvAt r s.mem.brkCur s
  low : ∀ e ∈ s.mem.maps, e.heap = true → e.vaddr < s.mem.heapTop

section
variable {r : SlotRange} {s : State} {m m' : ProgMem} {n va : ℕ}

theorem pages_spec (h : progMemPages n ≠ 0) :
    4096 ∣ progMemPages n ∧ n ≤ progMemPages n ∧ progMemPages (progMemPages n) = progMemPages n := by
  simp only [progMemPages, pageSize] at h ⊢
  split_ifs at h ⊢ <;> omega

theorem reserve_heap (h : m.progMemReserve n true = some (m', va)) (hn : progMemPages n = n) :
    va = m.heapTop ∧ m' = { m with heapTop := m.heapTop + n } ∧ m.heapTop + n ≤ m.brkEnd := by
  simp only [ProgMem.progMemReserve, hn, if_true] at h
  split_ifs at h
  cases h
  exact ⟨rfl, rfl, by omega⟩

theorem reserve_mmap (h : m.progMemReserve n false = some (m', va)) (hn : progMemPages n = n) :
    va = m.mmapCur ∧ m' = { m with mmapCur := m.mmapCur + n } ∧ m.mmapCur + n ≤ m.mmapEnd := by
  simp only [ProgMem.progMemReserve, hn, Bool.false_eq_true, if_false] at h
  split_ifs at h
  cases h
  exact ⟨rfl, rfl, by omega⟩

theorem chunk_spec (hbase : m.brkBase = heapLo) (hend : m.brkEnd = heapHi) (htop : heapLo ≤ m.heapTop ∧
    m.heapTop ≤ heapHi ∧ 4096 ∣ m.heapTop) (h0 : m.progMemChunk n ≠ 0) :
    4096 ∣ m.progMemChunk n ∧ n ≤ m.progMemChunk n ∧ m.heapTop + m.progMemChunk n ≤ heapHi := by
  have hlayout := layout
  have hpages := pages_spec (n := n)
  simp only [ProgMem.progMemChunk, progMemChunkMin, hbase, hend] at h0 ⊢
  split_ifs at h0 ⊢ <;> omega

theorem Sound.chunk (h : Sound r s) (h0 : s.mem.progMemChunk n ≠ 0) :
    4096 ∣ s.mem.progMemChunk n ∧ n ≤ s.mem.progMemChunk n ∧
      s.mem.heapTop + s.mem.progMemChunk n ≤ heapHi ∧
      progMemPages (s.mem.progMemChunk n) = s.mem.progMemChunk n := by
  obtain ⟨hlow, hle, hhigh, hpage⟩ := h.inv.brk
  obtain ⟨hdvd, hneed, hfits⟩ :=
    chunk_spec h.fixed.1 h.fixed.2.1 ⟨hlow.trans hle, hhigh, hpage⟩ h0
  have := layout
  refine ⟨hdvd, hneed, hfits, ?_⟩
  simp only [progMemPages, pageSize]
  split_ifs <;> omega

theorem Sound.add (h : Sound r s) {bytes prot : ℕ} {res : State × Bool}
    (hres : State.pmAdd ⟨m, s.frames⟩ a va bytes prot heap = res)
    (hm : m.slotNext = s.mem.slotNext ∧ m.slotEnd = s.mem.slotEnd ∧ m.ptSlot = s.mem.ptSlot) :
    Added ⟨m, s.frames⟩ va bytes prot heap res := by
  obtain ⟨-, -, -, hend, hpt, hlo⟩ := h.fixed
  have hbound := r.bounded
  have hapart := r.apart
  exact hres ▸ pmAdd_added (by simp only; omega) (by simp only; omega)

theorem Sound.add_heap (h : Sound r s) {c : ℕ} (hc : 4096 ∣ c) (hpos : 0 < c)
    (hfits : s.mem.heapTop + c ≤ heapHi) {t : State} {ok : Bool}
    (hres : State.pmAdd ⟨{ s.mem with heapTop := s.mem.heapTop + c }, s.frames⟩ a s.mem.heapTop c
      progProtRW true = (t, ok)) : t.mem.brkCur = s.mem.brkCur ∧
      (ok = false ∧ Sound r (t.setHeapTop s.mem.heapTop) ∨
        ok = true ∧ Sound r t ∧ t.mem.heapTop = s.mem.heapTop + c) := by
  obtain ⟨hbase, hend, hstop, hslots, hpt, hlo⟩ := h.fixed
  obtain ⟨hlow, hle, hhigh, hpage⟩ := h.inv.brk
  cases h.add hres ⟨rfl, rfl, rfl⟩ with
  | failed hn _ hk =>
    refine ⟨rfl, .inl ⟨rfl, ⟨hbase, hend, hstop, hslots, hpt, hlo.trans hn⟩, h.inv.mono hn ?_, h.low⟩⟩
    exact fun x _ hxp => hk x (hpt ▸ hxp)
  | @added k f hroom hk hf hb hp =>
    have hinv := h.inv.mono (Nat.le_refl _) fun x hx hxp => hk x hx (hpt ▸ hxp)
    have hcons := hinv.cons_heap (e := ⟨s.mem.heapTop, c, s.mem.slotNext, progProtRW, true⟩) h.low
      ⟨⟨hpage, hc, hpos⟩, fun _ => ⟨hlow.trans hle, hfits⟩, nofun,
        ⟨hlo, Nat.lt_succ_self _, hslots ▸ hroom⟩, f, hf, hb, hp⟩ rfl rfl rfl
    refine ⟨rfl, .inr ⟨rfl, ⟨⟨hbase, hend, hstop, hslots, hpt, hlo.trans (Nat.le_succ _)⟩,
      hcons.perm (perm_append_singleton _ _).symm, fun e he hh => ?_⟩, rfl⟩⟩
    rcases mem_append.mp he with he | he
    · exact (h.low e he hh).trans_le (Nat.le_add_right ..)
    · obtain rfl := mem_singleton.mp he
      exact Nat.lt_add_of_pos_right hpos

theorem Sound.growHeap (env : ℕ → Answer) (want n k : ℕ) (h : Sound r s)
    (hwant : want ≤ s.mem.heapTop + n) :
    Sound r (s.growHeap env want n k).1 ∧
      (s.growHeap env want n k).1.mem.brkCur = s.mem.brkCur ∧
      ((s.growHeap env want n k).2 = true → want ≤ (s.growHeap env want n k).1.mem.heapTop) := by
  induction n generalizing s k with
  | zero => exact ⟨h, rfl, fun _ => hwant⟩
  | succ n ih =>
    simp only [growHeap]
    split_ifs with hlt h0
    · exact ⟨h, rfl, nofun⟩
    · obtain ⟨hdvd, hneed, hfits, hc⟩ := h.chunk h0
      generalize s.mem.progMemChunk (want - s.mem.heapTop) = c at *
      cases hres : s.mem.progMemReserve c true with
      | none => exact ⟨h, rfl, nofun⟩
      | some p =>
        obtain ⟨m, va⟩ := p
        obtain ⟨rfl, rfl, -⟩ := reserve_heap hres hc
        dsimp only
        rcases hadd : pmAdd _ (env k) s.mem.heapTop c progProtRW true with ⟨t, ok⟩
        obtain ⟨hbrk, ⟨rfl, ht⟩ | ⟨rfl, ht, htop⟩⟩ :=
          h.add_heap hdvd (Nat.pos_of_ne_zero h0) hfits hadd
        · exact ⟨ht, hbrk, nofun⟩
        · obtain ⟨h1, h2, h3⟩ := ih (k + 1) ht (by omega)
          exact ⟨h1, h2.trans hbrk, h3⟩
    · exact ⟨h, rfl, fun _ => not_lt.mp hlt⟩

/-- Every record `releaseAbove` drops is a heap record at or above the break. -/
theorem InvAt.releaseAbove {want : ℕ} (n : ℕ) (hf : Fixed r s.mem) (h : InvAt r want s)
    (hn : s.mem.maps.length ≤ n) :
    Fixed r (s.releaseAbove want n).mem ∧ InvAt r want (s.releaseAbove want n) ∧
      ∀ e ∈ (s.releaseAbove want n).mem.maps, e.heap = true → e.vaddr < want := by
  induction n generalizing s with
  | zero =>
    have hnil := eq_nil_of_length_eq_zero (Nat.le_zero.mp hn)
    exact ⟨hf, h, by simp [releaseAbove, hnil]⟩
  | succ n ih =>
    unfold releaseAbove
    split
    · rename_i hnone
      refine ⟨hf, h, fun e he hheap => ?_⟩
      have := findIdx?_eq_none_iff.mp hnone e he
      simpa [hheap] using this
    rename_i i hsome
    obtain ⟨hi, hpred, -⟩ := findIdx?_eq_some_iff_getElem.mp hsome
    have he : s.mem.maps[i]? = some s.mem.maps[i] := getElem?_eq_getElem hi
    generalize s.mem.maps[i] = e at he hpred
    obtain ⟨hheap, habove⟩ : e.heap = true ∧ want ≤ e.vaddr := by simpa using hpred
    simp only [he]
    generalize htop : (if e.vaddr < s.mem.heapTop then e.vaddr else s.mem.heapTop) = top
    obtain ⟨l, k, hdrop, hp, hk⟩ := pmDrop_eq (s := s.setHeapTop top) he
    rw [hdrop]
    refine ih hf ((h.perm hp).tail_heap hk habove htop.symm) ?_
    have := hp.length_eq
    simp only [setHeapTop, length_cons] at this hn ⊢
    omega

section

variable (h : Sound r s)
include h

theorem Sound.progBrk (env : ℕ → Answer) (delta : Int) : Sound r (s.progBrk env delta).1 := by
  obtain ⟨hlow, hle, hhigh, hpage⟩ := h.inv.brk
  unfold State.progBrk
  simp only
  split_ifs with h0 hpos hbad hneg hdrop
  · exact h
  · exact h
  · generalize (s.mem.brkCur + delta.toNat) % 2 ^ 64 = want at *
    obtain ⟨hgrow, hbrk, htop⟩ :=
      Sound.growHeap env want (want - s.mem.heapTop) 0 h (Nat.sub_le_iff_le_add'.mp le_rfl)
    split
    all_goals
      rename_i t heq
      rw [heq] at hgrow hbrk htop
    · exact hgrow
    dsimp only at hgrow hbrk
    have htop := htop rfl
    obtain ⟨hlow', hle', hhigh', hpage'⟩ := hgrow.inv.brk
    refine ⟨hgrow.fixed, ⟨hgrow.inv.each, hgrow.inv.apart, hgrow.inv.covered, ?_, hgrow.inv.cursor⟩,
      hgrow.low⟩
    exact ⟨by simp only [setBrk]; omega, htop, hhigh', hpage'⟩
  · exact h
  · have hbase := h.fixed.1
    have hinv : InvAt r (s.mem.brkCur - (-delta).toNat) s :=
      ⟨h.inv.each, h.inv.apart, h.inv.covered, ⟨by omega, by omega, hhigh, hpage⟩, h.inv.cursor⟩
    obtain ⟨hf, hi, hl⟩ := hinv.releaseAbove _ h.fixed le_rfl
    exact ⟨hf, hi, fun e he hheap => (hl e he hheap).trans_le hi.brk.2.1⟩
  · exact h

theorem Sound.progMmap (env : ℕ → Answer) (bytes prot : ℕ) :
    Sound r (s.progMmap env bytes prot).1 := by
  unfold State.progMmap
  simp only
  split_ifs with h0
  · exact h
  obtain ⟨hdvd, -, hidem⟩ := pages_spec h0
  generalize progMemPages bytes = n at *
  cases hres : s.mem.progMemReserve n false with
  | none => exact h
  | some p =>
    obtain ⟨m, va⟩ := p
    obtain ⟨rfl, rfl, hfits⟩ := reserve_mmap hres hidem
    dsimp only
    obtain ⟨hbase, hend, hstop, hslots, hpt, hlo⟩ := h.fixed
    generalize hadd : pmAdd _ (env 0) s.mem.mmapCur n prot false = res
    cases h.add hadd ⟨rfl, rfl, rfl⟩ with
    | failed hn _ hk =>
      refine ⟨⟨hbase, hend, hstop, hslots, hpt, hlo.trans hn⟩, h.inv.mono hn ?_, h.low⟩
      exact fun x _ hxp => hk x (hpt ▸ hxp)
    | @added k f hroom hk hf hb hp =>
      have hinv := h.inv.mono (Nat.le_refl _) fun x hx hxp => hk x hx (hpt ▸ hxp)
      have hcons := hinv.cons_mmap (e := ⟨s.mem.mmapCur, n, s.mem.slotNext, prot, false⟩)
        ⟨⟨h.inv.cursor.2.2, hdvd, Nat.pos_of_ne_zero h0⟩, nofun,
          fun _ => ⟨h.inv.cursor.1, le_rfl⟩, ⟨hlo, Nat.lt_succ_self _, hslots ▸ hroom⟩,
          f, hf, hb, hp⟩ rfl rfl rfl (hstop ▸ hfits)
      refine ⟨⟨hbase, hend, hstop, hslots, hpt, hlo.trans (Nat.le_succ _)⟩,
        hcons.perm (perm_append_singleton _ _).symm, fun e he hh => ?_⟩
      rcases mem_append.mp he with he | he
      · exact h.low e he hh
      · obtain rfl := mem_singleton.mp he
        cases hh

theorem Sound.progMunmap (vaddr : ℕ) : Sound r (s.progMunmap vaddr).1 := by
  unfold State.progMunmap
  split
  · exact h
  rename_i i _
  cases he : s.mem.maps[i]? with
  | none => exact h
  | some e =>
    dsimp only
    split_ifs with hva hheap
    · exact h
    · exact h
    · obtain ⟨l, k, hdrop, hp, hk⟩ := pmDrop_eq he
      rw [hdrop]
      exact ⟨h.fixed, (h.inv.perm hp).tail_mmap hk (by simpa using hheap),
        fun d hd => h.low d (hp.mem_iff.mpr (mem_cons_of_mem e hd))⟩

/-- The frame of a record is mapped again where it was. -/
theorem Sound.remap (he : s.mem.maps[i]? = some e) {k : Frames}
    (hk : ∀ x ≠ e.slot, x ≠ r.pt → k x = s.frames x)
    (hb : ProgMap.Backed k { e with prot := p }) :
    Sound r ⟨{ s.mem with maps := s.mem.maps.set i { e with prot := p } }, k⟩ := by
  obtain ⟨hi, rfl⟩ := List.getElem?_eq_some_iff.mp he
  have hperm := (getElem_cons_eraseIdx_perm hi).symm
  have hset := set_perm_cons_eraseIdx hi { s.mem.maps[i] with prot := p }
  refine ⟨h.fixed, ((h.inv.perm hperm).setProt hk hb).perm hset.symm, fun d hd hheap => ?_⟩
  rcases mem_cons.mp (hset.mem_iff.mp hd) with rfl | hd
  · exact h.low s.mem.maps[i] (getElem_mem hi) hheap
  · exact h.low d (hperm.mem_iff.mpr (mem_cons_of_mem _ hd)) hheap

theorem Sound.progMprotect (env : ℕ → Answer) (vaddr bytes prot : ℕ) :
    Sound r (s.progMprotect env vaddr bytes prot).1 := by
  unfold State.progMprotect
  split
  · exact h
  rename_i i _
  cases he : s.mem.maps[i]? with
  | none => exact h
  | some e =>
    dsimp only
    split_ifs with hrange hsame
    · exact h
    · exact h
    obtain ⟨hi, hei⟩ := List.getElem?_eq_some_iff.mp he
    have hgood := h.inv.each e (hei ▸ getElem_mem hi)
    have hpt : e.slot ≠ s.mem.ptSlot := h.fixed.2.2.2.2.1 ▸ hgood.ne_pt
    obtain ⟨f, hf, hb, hp⟩ := hgood.backed
    rw [unmap_of_place hf hp]
    dsimp only
    obtain ⟨k1, hk1, ⟨hmap, hf1, -⟩ | ⟨hmap, hf1⟩⟩ := mapFrame_of_some (env 0) e.vaddr prot hpt
      (update_self e.slot (some { f with place := none, was := f.place }) s.frames)
    all_goals
      rw [hmap]
      dsimp only
      have hoff : ∀ x ≠ e.slot, x ≠ r.pt → k1 x = s.frames x := fun x hx hxp =>
        (hk1 x hx (h.fixed.2.2.2.2.1 ▸ hxp)).trans (update_of_ne hx ..)
    · obtain ⟨k2, hk2, ⟨-, -, hwas⟩ | ⟨hback, hf2⟩⟩ :=
        mapFrame_of_some (env 1) e.vaddr e.prot hpt hf1
      · exact absurd hp hwas
      rw [hback]
      have hsound := h.remap he (p := e.prot)
        (fun x hx hxp => (hk2 x hx (h.fixed.2.2.2.2.1 ▸ hxp)).trans (hoff x hx hxp))
        ⟨_, hf2, hb, rfl⟩
      subst hei
      rwa [set_getElem_self] at hsound
    · exact h.remap he hoff ⟨_, hf1, hb, rfl⟩

theorem Sound.act (call : (ℕ → Answer) × Call) : Sound r (act s call) := by
  obtain ⟨env, delta | ⟨bytes, prot⟩ | vaddr | ⟨vaddr, bytes, prot⟩⟩ := call
  · exact h.progBrk env delta
  · exact h.progMmap env bytes prot
  · exact h.progMunmap vaddr
  · exact h.progMprotect env vaddr bytes prot

end

theorem SlotRange.sound_start (r : SlotRange) (k : Frames) : Sound r (r.start k) where
  fixed := ⟨rfl, rfl, rfl, rfl, rfl, le_rfl⟩
  inv := by
    refine ⟨nofun, .nil, fun a => ⟨fun ha => absurd ha.1 (not_le.mpr ha.2), nofun⟩, ?_, ?_⟩
    · exact ⟨le_rfl, le_rfl, layout.2.2.2.1, layout.1⟩
    · exact ⟨le_rfl, layout.2.2.2.2.2.1, layout.2.2.1⟩
  low := nofun

theorem Sound.consistent (h : Sound r s) : Consistent s where
  paged e he := (h.inv.each e he).page
  heap e he := (h.inv.each e he).heap
  mmap e he hheap :=
    ⟨((h.inv.each e he).mmap hheap).1, ((h.inv.each e he).mmap hheap).2.trans h.inv.cursor.2.1⟩
  disjoint := h.inv.apart.imp And.right
  tiled a := by
    rw [h.inv.covered]
    constructor
    · rintro ⟨e, he, hheap, -, ha⟩
      exact ⟨e, he, hheap, ha⟩
    · rintro ⟨e, he, hheap, ha⟩
      exact ⟨e, he, hheap, h.low e he hheap, ha⟩
  brk := ⟨h.inv.brk.1, h.inv.brk.2.1, h.inv.brk.2.2.1⟩
  cursor := h.inv.cursor.2.1
  slots := pairwise_map.mpr (h.inv.apart.imp And.left)
  backed e he := (h.inv.each e he).backed

end

/-- The memory map is consistent after every sequence of `brk`, `mmap`, `munmap` and `mprotect`
calls. -/
theorem memory_map_stays_consistent (r : SlotRange) (k : Frames)
    (calls : List ((ℕ → Answer) × Call)) : Consistent (runFrom act (r.start k) calls) :=
  (runFrom_keeps (r.sound_start k) (fun _ call h => h.act call) calls).consistent

end IrisOS.Program
