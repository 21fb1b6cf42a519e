import IrisOS.Cap.Basic
import IrisOS.Lib.Rounding
import IrisOS.Lib.TwoEnded

/-! Carving memory out of an Untyped (`kuntyped.c`), from the bottom in blocks and pages and from
the top in headers. Arithmetic is on 64-bit words, with the source's wrap-around. -/
namespace IrisOS.Untyped
open Lib Cap

/-- `struct KUntyped` without its header and its lock. -/
structure KUntyped where
  physBase : UInt64 := 0
  totalSize : UInt64 := 0
  used : UInt64 := 0
  usedTop : UInt64 := 0
  childCount : ℕ := 0
  isDevice : Bool := false
  generation : UInt64 := 0
  hdrBudget : Option ObjId := none
  deriving DecidableEq

def kuntypedAlign : UInt64 := 64
def kuntypedRetypeMaxCount : UInt32 := 32
def kuntypedRetypeMaxBytes : UInt64 := 128 * 1024

def alignUp (x : UInt64) : UInt64 := (x + 63) &&& ~~~63

def pageUp (x : UInt64) : UInt64 := (x + 0xFFF) &&& ~~~0xFFF

theorem toNat_alignUp (x : UInt64) :
    (alignUp x).toNat = (x.toNat + 63) % 18446744073709551616 / 64 * 64 := by
  rw [alignUp, show (63 : UInt64) = UInt64.ofNat (2 ^ 6 - 1) from rfl, toNat_and_not_low _ 6,
    UInt64.toNat_add]
  rfl

theorem toNat_pageUp (x : UInt64) :
    (pageUp x).toNat = (x.toNat + 4095) % 18446744073709551616 / 4096 * 4096 := by
  rw [pageUp, show (0xFFF : UInt64) = UInt64.ofNat (2 ^ 12 - 1) from rfl,
    toNat_and_not_low _ 12, UInt64.toNat_add]
  rfl

namespace KUntyped

/-! ## The bottom of the region -/

/-- The test that refuses a carve for want of room, written as subtractions. -/
def roomRefused (u : KUntyped) (need : UInt64) : Bool :=
  u.totalSize < u.used || u.totalSize - u.used < u.usedTop ||
    u.totalSize - u.used - u.usedTop < need

theorem roomRefused_eq_false {u : KUntyped} {need : UInt64} : u.roomRefused need = false ↔
    u.used.toNat + u.usedTop.toNat + need.toNat ≤ u.totalSize.toNat := by
  have h3 := u.totalSize.toNat_lt
  simp only [roomRefused, Bool.or_eq_false_iff, decide_eq_false_iff_not, UInt64.lt_iff_toNat_lt,
    UInt64.toNat_sub]
  omega

/-- `kuntyped_bump`: the offset of the block. -/
def kuntypedBump (u : KUntyped) (bytes : UInt64) : KUntyped × Option UInt64 :=
  if 0xFFFFFFFFFFFFFFFF - (kuntypedAlign - 1) < bytes then (u, none)
  else if u.roomRefused (alignUp bytes) then (u, none)
  else ({ u with used := u.used + alignUp bytes }, some u.used)

/-- `kuntyped_bump_alloc`, with the physical address of the block. -/
def kuntypedBumpAlloc (u : KUntyped) (bytes : UInt64) : KUntyped × Option UInt64 :=
  if bytes = 0 then (u, none)
  else match u.kuntypedBump bytes with
    | (u, none) => (u, none)
    | (u, some offset) => (u, some (u.physBase + offset))

/-- `kuntyped_bump_alloc_phys`; the answer `0` is a refusal. -/
def kuntypedBumpAllocPhys (u : KUntyped) (bytes : UInt64) : KUntyped × UInt64 :=
  if bytes = 0 then (u, 0)
  else match u.kuntypedBump bytes with
    | (u, none) => (u, 0)
    | (u, some offset) => (u, u.physBase + offset)

/-- `kuntyped_alloc_child`, without the reference to the Untyped that the header names. -/
def kuntypedAllocChild (u : KUntyped) (objBytes : UInt64) : KUntyped × Option UInt64 :=
  if objBytes = 0 then (u, none)
  else match u.kuntypedBumpAlloc (kuntypedAlign + objBytes) with
    | (u, none) => (u, none)
    | (u, some block) => ({ u with childCount := u.childCount + 1 }, some (block + kuntypedAlign))

/-- `kuntyped_bump_alloc_phys_page`; the answer `0` is a refusal. -/
def kuntypedBumpAllocPhysPage (u : KUntyped) (size : UInt64) : KUntyped × UInt64 :=
  if size = 0 ∨ size &&& 0xFFF ≠ 0 then (u, 0)
  else
    let absStart := u.physBase + u.used
    let alignedAbs := pageUp absStart
    let alignedStart := alignedAbs - u.physBase
    if alignedAbs < absStart ∨ alignedStart < u.used then (u, 0)
    else if u.totalSize < alignedStart then (u, 0)
    else
      let room := u.totalSize - alignedStart
      if room < u.usedTop ∨ room - u.usedTop < size then (u, 0)
      else ({ u with used := alignedStart + size }, alignedAbs)

/-- `kuntyped_alloc_pages_child`: a run of pages with one child entry. -/
def kuntypedAllocPagesChild (u : KUntyped) (bytes : UInt64) : KUntyped × UInt64 :=
  if bytes = 0 ∨ bytes &&& 0xFFF ≠ 0 then (u, 0)
  else match u.kuntypedBumpAllocPhysPage bytes with
    | (u, phys) => if phys = 0 then (u, 0) else ({ u with childCount := u.childCount + 1 }, phys)

/-- `kuntyped_alloc_page_child`: a page table's page. -/
def kuntypedAllocPageChild (u : KUntyped) : KUntyped × UInt64 :=
  match u.kuntypedBumpAllocPhysPage 4096 with
  | (u, phys) => if phys = 0 then (u, 0) else ({ u with childCount := u.childCount + 1 }, phys)

/-! ## The top of the region -/

/-- `kuntyped_alloc_child_top`: a header block. -/
def kuntypedAllocChildTop (u : KUntyped) (objBytes : UInt64) : KUntyped × Option UInt64 :=
  if objBytes = 0 then (u, none)
  else if u.isDevice then (u, none)
  else if 0xFFFFFFFFFFFFFFFF - (kuntypedAlign - 1) < objBytes then (u, none)
  else
    let aligned := alignUp objBytes
    let need := kuntypedAlign + aligned
    if need < aligned then (u, none)
    else if u.roomRefused need then (u, none)
    else
      let usedTop := u.usedTop + need
      ({ u with usedTop, childCount := u.childCount + 1 },
        some (u.physBase + (u.totalSize - usedTop) + kuntypedAlign))

/-! ## Batches -/

/-- What a batch carve hands out: the objects' addresses and the window it reserved. -/
structure Batch where
  ptrs : List UInt64
  start : UInt64
  stop : UInt64
  deriving DecidableEq

/-- `kuntyped_alloc_children_atomic`, without the references to the Untyped it takes. -/
def kuntypedAllocChildrenAtomic (u : KUntyped) (objBytes : UInt64) (count : UInt32) :
    KUntyped × Except IrisError Batch :=
  if objBytes = 0 ∨ count = 0 then (u, .error .invalidArg)
  else if kuntypedRetypeMaxCount < count then (u, .error .invalidArg)
  else if u.isDevice then (u, .error .notSupported)
  else
    let alignedObj := alignUp objBytes
    let block := kuntypedAlign + alignedObj
    if block < alignedObj then (u, .error .overflow)
    else
      let total := block * count.toUInt64
      if total / block ≠ count.toUInt64 then (u, .error .overflow)
      else if kuntypedRetypeMaxBytes < total then (u, .error .invalidArg)
      else if u.roomRefused total then (u, .error .noMemory)
      else
        ({ u with used := u.used + total, childCount := u.childCount + count.toNat },
          .ok {
            ptrs := (List.range count.toNat).map fun i =>
              u.physBase + u.used + UInt64.ofNat i * block + kuntypedAlign
            start := u.used
            stop := u.used + total })

def kuntypedUnbumpExact (u : KUntyped) (startUsed endUsed : UInt64) : KUntyped :=
  if endUsed ≤ startUsed then u
  else if u.used = endUsed then { u with used := startUsed } else u

/-! ## Giving back -/

/-- The decrement of `kuntyped_release_child` and of `kuntyped_release_page_child`. -/
def kuntypedReleaseChild (u : KUntyped) : KUntyped := { u with childCount := u.childCount - 1 }

/-- The critical section of `sys_untyped_reset`. -/
def reset (u : KUntyped) : Except IrisError KUntyped :=
  if u.childCount ≠ 0 then .error .busy
  else .ok { u with used := 0, usedTop := 0, generation := u.generation + 1 }

/-! ## What a carve does -/

/-- The bottom cursor has moved past the span, and there are `n` more children. -/
structure CarvesLow (u u' : KUntyped) (s : Span) (n : ℕ) : Prop where
  eq : u' = { u with used := u'.used, childCount := u.childCount + n }
  start : u.used.toNat ≤ s.start
  pos : s.start < s.stop
  stop : s.stop = u'.used.toNat
  room : s.stop + u.usedTop.toNat ≤ u.totalSize.toNat

/-- The top cursor has moved past the span, and there is one more child. -/
structure CarvesHigh (u u' : KUntyped) (s : Span) : Prop where
  eq : u' = { u with usedTop := u'.usedTop, childCount := u.childCount + 1 }
  start : s.start + u'.usedTop.toNat = u.totalSize.toNat
  pos : s.start < s.stop
  stop : s.stop + u.usedTop.toNat = u.totalSize.toNat
  room : u.used.toNat ≤ s.start

variable {u u' : KUntyped} {s : Span} {n : ℕ}

theorem CarvesLow.keeps (h : CarvesLow u u' s n) :
    u'.isDevice = u.isDevice ∧ u'.hdrBudget = u.hdrBudget ∧ u'.childCount = u.childCount + n :=
  ⟨(congrArg isDevice h.eq :), (congrArg hdrBudget h.eq :), congrArg childCount h.eq⟩

theorem CarvesHigh.keeps (h : CarvesHigh u u' s) :
    u'.isDevice = u.isDevice ∧ u'.hdrBudget = u.hdrBudget ∧ u'.childCount = u.childCount + 1 :=
  ⟨(congrArg isDevice h.eq :), (congrArg hdrBudget h.eq :), congrArg childCount h.eq⟩

theorem CarvesLow.entries (h : CarvesLow u u' s n) (m : ℕ) :
    CarvesLow u { u' with childCount := u'.childCount + m } s (n + m) where
  eq := by
    have := h.eq
    rw [KUntyped.mk.injEq] at this
    simp [this, Nat.add_assoc]
  start := h.start
  pos := h.pos
  stop := h.stop
  room := h.room

section
variable (u : KUntyped)

/-- There is room at the bottom for a block of `bytes` bytes. -/
def bumpFits (bytes : UInt64) : Bool :=
  bytes ≠ 0 && bytes.toNat + 63 < 2 ^ 64 &&
    u.used.toNat + u.usedTop.toNat + (alignUp bytes).toNat ≤ u.totalSize.toNat

theorem kuntypedBump_spec {bytes : UInt64} (hb : bytes ≠ 0) :
    (u.bumpFits bytes = false ∧ u.kuntypedBump bytes = (u, none)) ∨
      u.bumpFits bytes = true ∧ ∃ u', u.kuntypedBump bytes = (u', some u.used) ∧
        CarvesLow u u' ⟨u.used.toNat, u'.used.toNat⟩ 0 ∧
        bytes.toNat ≤ u'.used.toNat - u.used.toNat := by
  have hfits : u.bumpFits bytes = true ↔ ¬ 18446744073709551615 - 63 < bytes.toNat ∧
      u.roomRefused (alignUp bytes) = false := by
    rw [roomRefused_eq_false]
    simp only [bumpFits, ne_eq, hb, not_false_eq_true, decide_true, Bool.true_and,
      Bool.and_eq_true, decide_eq_true_eq]
    omega
  rw [kuntypedBump]
  split_ifs with hwrap hroom
  · exact .inl ⟨Bool.eq_false_iff.mpr fun h => (hfits.mp h).1 hwrap, rfl⟩
  · exact .inl ⟨Bool.eq_false_iff.mpr fun h =>
      Bool.false_ne_true ((hfits.mp h).2.symm.trans hroom), rfl⟩
  have hbound : ¬ 18446744073709551615 - 63 < bytes.toNat := hwrap
  refine .inr ⟨hfits.mpr ⟨hbound, by simpa using hroom⟩, _, rfl, ?_⟩
  have hb' : bytes.toNat ≠ 0 := fun h => hb (UInt64.toNat_inj.mp h)
  have hup := toNat_alignUp bytes
  have hroom := roomRefused_eq_false.mp (by simpa using hroom)
  have hsize := u.totalSize.toNat_lt
  have hused : (u.used + alignUp bytes).toNat = u.used.toNat + (alignUp bytes).toNat := by
    rw [UInt64.toNat_add]
    omega
  refine ⟨⟨rfl, le_rfl, ?_, rfl, ?_⟩, ?_⟩
  · simp only [hused]
    omega
  · simp only [hused]
    omega
  · simp only [hused]
    omega

theorem kuntypedBumpAlloc_spec (bytes : UInt64) :
    (u.bumpFits bytes = false ∧ u.kuntypedBumpAlloc bytes = (u, none)) ∨
      u.bumpFits bytes = true ∧
        ∃ u', u.kuntypedBumpAlloc bytes = (u', some (u.physBase + u.used)) ∧
          CarvesLow u u' ⟨u.used.toNat, u'.used.toNat⟩ 0 ∧
          bytes.toNat ≤ u'.used.toNat - u.used.toNat := by
  rw [kuntypedBumpAlloc]
  split_ifs with hb
  · exact .inl ⟨by simp [bumpFits, hb], rfl⟩
  · rcases kuntypedBump_spec u hb with ⟨hfits, h⟩ | ⟨hfits, u', h, hc, hlen⟩
    · exact .inl ⟨hfits, by rw [h]⟩
    · refine .inr ⟨hfits, u', ?_, hc, hlen⟩
      rw [h, hc.eq]

theorem kuntypedBumpAllocPhys_spec (bytes : UInt64) :
    (u.bumpFits bytes = false ∧ u.kuntypedBumpAllocPhys bytes = (u, 0)) ∨
      u.bumpFits bytes = true ∧
        ∃ u', u.kuntypedBumpAllocPhys bytes = (u', u.physBase + u.used) ∧
          CarvesLow u u' ⟨u.used.toNat, u'.used.toNat⟩ 0 ∧
          bytes.toNat ≤ u'.used.toNat - u.used.toNat := by
  rw [kuntypedBumpAllocPhys]
  split_ifs with hb
  · exact .inl ⟨by simp [bumpFits, hb], rfl⟩
  · rcases kuntypedBump_spec u hb with ⟨hfits, h⟩ | ⟨hfits, u', h, hc, hlen⟩
    · exact .inl ⟨hfits, by rw [h]⟩
    · refine .inr ⟨hfits, u', ?_, hc, hlen⟩
      rw [h, hc.eq]

/-- There is room for an object of that size behind its header. -/
def childFits (objBytes : UInt64) : Bool :=
  objBytes ≠ 0 && u.bumpFits (kuntypedAlign + objBytes)

theorem kuntypedAllocChild_spec (objBytes : UInt64) :
    (u.childFits objBytes = false ∧ u.kuntypedAllocChild objBytes = (u, none)) ∨
      u.childFits objBytes = true ∧
        ∃ u', u.kuntypedAllocChild objBytes = (u', some (u.physBase + u.used + kuntypedAlign)) ∧
          CarvesLow u u' ⟨u.used.toNat, u'.used.toNat⟩ 1 ∧
          (kuntypedAlign + objBytes).toNat ≤ u'.used.toNat - u.used.toNat := by
  rw [kuntypedAllocChild]
  split_ifs with hb
  · exact .inl ⟨by simp [childFits, hb], rfl⟩
  · rcases kuntypedBumpAlloc_spec u (kuntypedAlign + objBytes)
      with ⟨hfits, h⟩ | ⟨hfits, u', h, hc, hlen⟩
    · exact .inl ⟨by simp [childFits, hfits], by rw [h]⟩
    · exact .inr ⟨by simp [childFits, hb, hfits], _, by rw [h], hc.entries 1, hlen⟩

theorem kuntypedBumpAllocPhysPage_spec (size : UInt64) :
    u.kuntypedBumpAllocPhysPage size = (u, 0) ∨
      ∃ u' start, u.kuntypedBumpAllocPhysPage size = (u', u.physBase + UInt64.ofNat start) ∧
        CarvesLow u u' ⟨start, start + size.toNat⟩ 0 ∧
        (u.physBase + UInt64.ofNat start).toNat % 4096 = 0 := by
  simp only [kuntypedBumpAllocPhysPage]
  split_ifs with hsize habs hbig hroom
  · exact .inl rfl
  · exact .inl rfl
  · exact .inl rfl
  · exact .inl rfl
  set alignedAbs := pageUp (u.physBase + u.used) with hdef
  have habs' : alignedAbs.toNat = _ := hdef ▸ toNat_pageUp (u.physBase + u.used)
  have hcanon : UInt64.ofNat (alignedAbs - u.physBase).toNat = alignedAbs - u.physBase :=
    UInt64.ofNat_toNat
  have hne : size.toNat ≠ 0 := fun h => hsize (.inl (UInt64.toNat_inj.mp h))
  simp only [not_or, UInt64.lt_iff_toNat_lt, Nat.not_lt] at habs hbig hroom
  have hsub := UInt64.toNat_sub u.totalSize (alignedAbs - u.physBase)
  have hsub' := UInt64.toNat_sub (u.totalSize - (alignedAbs - u.physBase)) u.usedTop
  have h1 := u.totalSize.toNat_lt
  have hroom' : (alignedAbs - u.physBase).toNat + size.toNat + u.usedTop.toNat ≤
      u.totalSize.toNat := by omega
  have hsum : (alignedAbs - u.physBase + size).toNat =
      (alignedAbs - u.physBase).toNat + size.toNat := by
    rw [UInt64.toNat_add]
    omega
  have hpos := Nat.lt_add_of_pos_right (n := (alignedAbs - u.physBase).toNat)
    (Nat.pos_of_ne_zero hne)
  refine .inr ⟨{ u with used := alignedAbs - u.physBase + size }, (alignedAbs - u.physBase).toNat,
    ?_, ⟨rfl, habs.2, hpos, hsum.symm, hroom'⟩, ?_⟩
  · rw [hcanon, add_sub_cancel]
  · rw [hcanon, add_sub_cancel, habs']
    omega

theorem kuntypedAllocPagesChild_spec (bytes : UInt64) :
    u.kuntypedAllocPagesChild bytes = (u, 0) ∨
      ∃ u' start n, u.kuntypedAllocPagesChild bytes = (u', u.physBase + UInt64.ofNat start) ∧
        CarvesLow u u' ⟨start, start + bytes.toNat⟩ n ∧
        (n = if u.physBase + UInt64.ofNat start = 0 then 0 else 1) ∧
        (u.physBase + UInt64.ofNat start).toNat % 4096 = 0 := by
  rw [kuntypedAllocPagesChild]
  split_ifs with hb
  · exact .inl rfl
  rcases kuntypedBumpAllocPhysPage_spec u bytes with h | ⟨u', start, h, hc, hp⟩
  · exact .inl (by simp [h])
  · simp only [h]
    by_cases hz : u.physBase + UInt64.ofNat start = 0
    · exact .inr ⟨u', start, 0, by simp [hz], hc, by rw [if_pos hz], hp⟩
    · exact .inr ⟨_, start, 1, by simp only [hz, if_false], hc.entries 1, by rw [if_neg hz], hp⟩

theorem kuntypedAllocPageChild_eq : u.kuntypedAllocPageChild = u.kuntypedAllocPagesChild 4096 := by
  simp [kuntypedAllocPageChild, kuntypedAllocPagesChild, show (4096 : UInt64) &&& 4095 = 0 from rfl]

theorem kuntypedAllocChildTop_spec (objBytes : UInt64) :
    u.kuntypedAllocChildTop objBytes = (u, none) ∨
      ∃ u' s, u.kuntypedAllocChildTop objBytes =
          (u', some (u.physBase + UInt64.ofNat s.start + kuntypedAlign)) ∧
        CarvesHigh u u' s ∧ 64 + objBytes.toNat ≤ s.stop - s.start ∧
        (s.stop - s.start) % 64 = 0 := by
  simp only [kuntypedAllocChildTop]
  split_ifs with hb hdev hwrap hneed hroom
  · exact .inl rfl
  · exact .inl rfl
  · exact .inl rfl
  · exact .inl rfl
  · exact .inl rfl
  have hup := toNat_alignUp objBytes
  have hbound : ¬ 18446744073709551615 - 63 < objBytes.toNat := hwrap
  have hroom := roomRefused_eq_false.mp (by simpa using hroom)
  have hsize := u.totalSize.toNat_lt
  have hneed' : ¬ (kuntypedAlign + alignUp objBytes).toNat < (alignUp objBytes).toNat := hneed
  have hsum : (kuntypedAlign + alignUp objBytes).toNat = 64 + (alignUp objBytes).toNat := by
    rw [UInt64.toNat_add] at hneed' ⊢
    change (64 + _) % _ = _
    change ¬ (64 + _) % _ < _ at hneed'
    omega
  have htop : (u.usedTop + (kuntypedAlign + alignUp objBytes)).toNat =
      u.usedTop.toNat + (64 + (alignUp objBytes).toNat) := by
    rw [UInt64.toNat_add, hsum]
    omega
  have hstart : (u.totalSize - (u.usedTop + (kuntypedAlign + alignUp objBytes))).toNat =
      u.totalSize.toNat - (u.usedTop.toNat + (64 + (alignUp objBytes).toNat)) := by
    rw [UInt64.toNat_sub, htop]
    omega
  refine .inr ⟨{ u with
      usedTop := u.usedTop + (kuntypedAlign + alignUp objBytes), childCount := u.childCount + 1 },
    ⟨(u.totalSize - (u.usedTop + (kuntypedAlign + alignUp objBytes))).toNat,
      u.totalSize.toNat - u.usedTop.toNat⟩, ?_, ⟨rfl, ?_, ?_, ?_, ?_⟩, ?_, ?_⟩
  · simp only [UInt64.ofNat_toNat]
  · simp only [hstart, htop]
    omega
  · simp only [hstart]
    omega
  · change u.totalSize.toNat - u.usedTop.toNat + u.usedTop.toNat = _
    omega
  · simp only [hstart]
    omega
  · simp only [hstart]
    omega
  · simp only [hstart]
    omega

/-- The size of a block of a batch. -/
def batchBlock (objBytes : UInt64) : ℕ := (kuntypedAlign + alignUp objBytes).toNat

theorem le_batchBlock {objBytes : UInt64} (h : objBytes.toNat + 63 < 18446744073709551616)
    (hblock : 64 ≤ batchBlock objBytes) : 64 + objBytes.toNat ≤ batchBlock objBytes := by
  have hup := toNat_alignUp objBytes
  rw [batchBlock, UInt64.toNat_add] at hblock ⊢
  change 64 ≤ (64 + _) % _ at hblock
  change _ ≤ (64 + _) % _
  omega

theorem kuntypedAllocChildrenAtomic_spec (objBytes : UInt64) (count : UInt32) :
    (∃ e, u.kuntypedAllocChildrenAtomic objBytes count = (u, .error e)) ∨
      ∃ u' b, u.kuntypedAllocChildrenAtomic objBytes count = (u', .ok b) ∧
        CarvesLow u u' ⟨u.used.toNat, u'.used.toNat⟩ count.toNat ∧
        u'.used.toNat = u.used.toNat + count.toNat * batchBlock objBytes ∧
        64 ≤ batchBlock objBytes ∧ batchBlock objBytes % 64 = 0 ∧
        b.start = u.used ∧ b.stop = u'.used ∧
        b.ptrs = (List.range count.toNat).map fun i =>
          u.physBase + UInt64.ofNat (u.used.toNat + i * batchBlock objBytes) + kuntypedAlign := by
  simp only [kuntypedAllocChildrenAtomic]
  split_ifs with hb hmax hdev hwrap hmul hbytes hroom
  · exact .inl ⟨_, rfl⟩
  · exact .inl ⟨_, rfl⟩
  · exact .inl ⟨_, rfl⟩
  · exact .inl ⟨_, rfl⟩
  · exact .inl ⟨_, rfl⟩
  · exact .inl ⟨_, rfl⟩
  · exact .inl ⟨_, rfl⟩
  set block := kuntypedAlign + alignUp objBytes with hblock
  have hb64 : 64 ≤ block.toNat ∧ block.toNat % 64 = 0 := by
    have hup := toNat_alignUp objBytes
    have hsum := UInt64.toNat_add kuntypedAlign (alignUp objBytes)
    rw [← hblock, show kuntypedAlign.toNat = 64 from rfl] at hsum
    have := (UInt64.lt_iff_toNat_lt.not.mp hwrap)
    omega
  have hcount : count.toNat ≠ 0 := fun h => hb (.inr (UInt32.toNat_inj.mp h))
  have htotal : (block * count.toUInt64).toNat = count.toNat * block.toNat := by
    have hmul' : (block * count.toUInt64).toNat / block.toNat = count.toNat := by
      rw [← UInt64.toNat_div, not_not.mp hmul, UInt32.toNat_toUInt64]
    have hle := Nat.div_mul_le_self (block * count.toUInt64).toNat block.toNat
    rw [hmul', UInt64.toNat_mul, UInt32.toNat_toUInt64, Nat.mul_comm] at hle
    rw [UInt64.toNat_mul, UInt32.toNat_toUInt64, Nat.mul_comm count.toNat]
    exact le_antisymm (Nat.mod_le _ _) hle
  have hpos : 0 < count.toNat * block.toNat := Nat.mul_pos (by omega) (by omega)
  have hroom := roomRefused_eq_false.mp (by simpa using hroom)
  have hsize := u.totalSize.toNat_lt
  have hused : (u.used + block * count.toUInt64).toNat =
      u.used.toNat + count.toNat * block.toNat := by
    rw [UInt64.toNat_add, htotal]
    omega
  refine .inr ⟨{ u with
      used := u.used + block * count.toUInt64, childCount := u.childCount + count.toNat }, _, rfl,
    ⟨rfl, le_rfl, ?_, rfl, ?_⟩, hused, hb64.1, hb64.2, rfl, rfl, ?_⟩
  · simp only [hused]
    omega
  · simp only [hused]
    omega
  · apply List.map_congr_left
    intro i _
    rw [batchBlock, ← hblock, UInt64.ofNat_add, UInt64.ofNat_mul, UInt64.ofNat_toNat,
      UInt64.ofNat_toNat, UInt64.add_assoc u.physBase]

/-! ## When a carve is granted -/

/-- There is room at the top for the header of an object of `bytes` bytes. -/
def headerFits (bytes : UInt64) : Bool :=
  bytes ≠ 0 && !u.isDevice && bytes.toNat + 63 < 2 ^ 64 &&
    u.used.toNat + u.usedTop.toNat + (64 + (alignUp bytes).toNat) ≤ u.totalSize.toNat

/-- The Untyped with that header. -/
def withHeader (bytes : UInt64) : KUntyped :=
  { u with usedTop := u.usedTop + (kuntypedAlign + alignUp bytes), childCount := u.childCount + 1 }

/-- There is room from the next page on for `size` bytes, and that page is not at address 0. -/
def pagesFit (size : UInt64) : Bool :=
  let start := u.physBase + u.used
  size ≠ 0 && size &&& 0xFFF = 0 && start ≤ pageUp start && pageUp start ≠ 0 &&
    u.used ≤ pageUp start - u.physBase &&
    (pageUp start - u.physBase).toNat + u.usedTop.toNat + size.toNat ≤ u.totalSize.toNat

/-- There is room for a batch, and the batch is within the limits. -/
def batchFits (objBytes : UInt64) (count : UInt32) : Bool :=
  objBytes ≠ 0 && count ≠ 0 && count ≤ kuntypedRetypeMaxCount && !u.isDevice &&
    count.toNat * (64 + (alignUp objBytes).toNat) ≤ kuntypedRetypeMaxBytes.toNat &&
    u.used.toNat + u.usedTop.toNat + count.toNat * (64 + (alignUp objBytes).toNat) ≤
      u.totalSize.toNat

theorem kuntypedAllocChildTop_eq (bytes : UInt64) :
    (u.headerFits bytes = true ∧
      ∃ p, u.kuntypedAllocChildTop bytes = (u.withHeader bytes, some p)) ∨
    u.headerFits bytes = false ∧ u.kuntypedAllocChildTop bytes = (u, none) := by
  have hup := toNat_alignUp bytes
  have hsize := u.totalSize.toNat_lt
  have hsum : (kuntypedAlign + alignUp bytes).toNat = (64 + (alignUp bytes).toNat) % 2 ^ 64 :=
    UInt64.toNat_add ..
  have hbits : (alignUp bytes).toNat ≤ 18446744073709551552 := by omega
  simp only [kuntypedAllocChildTop]
  split_ifs with hb hdev hwrap hneed hroom
  · exact .inr ⟨by simp [headerFits, hb], rfl⟩
  · exact .inr ⟨by simp [headerFits, hdev], rfl⟩
  · have hwrap' : 18446744073709551615 - 63 < bytes.toNat := hwrap
    refine .inr ⟨?_, rfl⟩
    simp only [headerFits, Bool.and_eq_false_iff, decide_eq_false_iff_not]
    omega
  · rw [UInt64.lt_iff_toNat_lt, hsum] at hneed
    refine .inr ⟨?_, rfl⟩
    simp only [headerFits, Bool.and_eq_false_iff, decide_eq_false_iff_not]
    omega
  all_goals
    have hneed' : ¬ (kuntypedAlign + alignUp bytes).toNat < (alignUp bytes).toNat := hneed
    have hwrap' : ¬ 18446744073709551615 - 63 < bytes.toNat := hwrap
    have hneed'' : (kuntypedAlign + alignUp bytes).toNat = 64 + (alignUp bytes).toNat := by omega
  · have hroom' : ¬ u.used.toNat + u.usedTop.toNat + (64 + (alignUp bytes).toNat) ≤
        u.totalSize.toNat := by
      rw [← hneed'', ← roomRefused_eq_false, hroom]
      simp
    refine .inr ⟨?_, rfl⟩
    simp only [headerFits, Bool.and_eq_false_iff, decide_eq_false_iff_not]
    exact .inr hroom'
  · have hroom' := roomRefused_eq_false.mp (by simpa using hroom)
    refine .inl ⟨?_, _, rfl⟩
    simp only [headerFits, Bool.and_eq_true, decide_eq_true_eq, Bool.not_eq_true']
    refine ⟨⟨⟨hb, by simpa using hdev⟩, ?_⟩, ?_⟩
    · omega
    · omega

theorem kuntypedBumpAllocPhysPage_ne_zero (size : UInt64) :
    (u.kuntypedBumpAllocPhysPage size).2 ≠ 0 ↔ u.pagesFit size = true := by
  have htotal := u.totalSize.toNat_lt
  simp only [kuntypedBumpAllocPhysPage, pagesFit, Bool.and_eq_true, decide_eq_true_eq]
  generalize pageUp (u.physBase + u.used) = page
  have hsub := UInt64.toNat_sub u.totalSize (page - u.physBase)
  have hsub' := UInt64.toNat_sub (u.totalSize - (page - u.physBase)) u.usedTop
  split_ifs with hsize habs hbig hroom
  · refine iff_of_false (fun h => h rfl) fun h => ?_
    exact hsize.elim h.1.1.1.1.1 fun hne => hne h.1.1.1.1.2
  · refine iff_of_false (fun h => h rfl) fun h => ?_
    exact habs.elim (UInt64.not_lt.mpr h.1.1.1.2) (UInt64.not_lt.mpr h.1.2)
  · refine iff_of_false (fun h => h rfl) fun h => ?_
    have := UInt64.lt_iff_toNat_lt.mp hbig
    omega
  · refine iff_of_false (fun h => h rfl) fun h => ?_
    simp only [UInt64.lt_iff_toNat_lt] at hbig hroom
    omega
  · simp only [not_or, not_not, UInt64.not_lt] at hsize habs
    simp only [not_or, UInt64.lt_iff_toNat_lt] at hbig hroom
    constructor
    · exact fun hne => ⟨⟨⟨⟨hsize, habs.1⟩, hne⟩, habs.2⟩, by omega⟩
    · exact fun h => h.1.1.2

theorem kuntypedAllocChildrenAtomic_isOk (objBytes : UInt64) (count : UInt32) :
    (u.kuntypedAllocChildrenAtomic objBytes count).2.isOk = u.batchFits objBytes count := by
  have hup := toNat_alignUp objBytes
  have htotal := u.totalSize.toNat_lt
  have hmax : kuntypedRetypeMaxBytes.toNat = 131072 := rfl
  have hblock : (kuntypedAlign + alignUp objBytes).toNat = (64 + (alignUp objBytes).toNat) % 2 ^ 64 :=
    UInt64.toNat_add ..
  simp only [kuntypedAllocChildrenAtomic]
  generalize kuntypedAlign + alignUp objBytes = block at hblock ⊢
  rw [Bool.eq_iff_iff]
  simp only [batchFits, Bool.and_eq_true, decide_eq_true_eq, Bool.not_eq_true', hmax]
  set size := 64 + (alignUp objBytes).toNat
  have hle : count ≠ 0 → size ≤ count.toNat * size := fun h => Nat.le_mul_of_pos_left _
    (Nat.pos_of_ne_zero fun hz => h (UInt32.toNat_inj.mp hz))
  have hmod : (block * count.toUInt64).toNat = block.toNat * count.toNat % 2 ^ 64 := by
    rw [UInt64.toNat_mul, UInt32.toNat_toUInt64]
  split_ifs with hb hcount hdev hwrap hmul hbytes hroom
  · refine iff_of_false (by simp [Except.isOk, Except.toBool]) fun h => ?_
    exact hb.elim h.1.1.1.1.1 h.1.1.1.1.2
  · refine iff_of_false (by simp [Except.isOk, Except.toBool]) fun h => ?_
    exact UInt32.not_le.mpr hcount h.1.1.1.2
  · refine iff_of_false (by simp [Except.isOk, Except.toBool]) fun h => ?_
    simp [hdev] at h
  · refine iff_of_false (by simp [Except.isOk, Except.toBool]) fun h => ?_
    have := UInt64.lt_iff_toNat_lt.mp hwrap
    have := hle h.1.1.1.1.2
    omega
  all_goals
    have hsize : block.toNat = size := by
      have := UInt64.lt_iff_toNat_lt.not.mp hwrap
      omega
    rw [hsize, Nat.mul_comm] at hmod
  · refine iff_of_false (by simp [Except.isOk, Except.toBool]) fun h => hmul ?_
    have hexact : (block * count.toUInt64).toNat = count.toNat * size := by omega
    apply UInt64.toNat_inj.mp
    rw [UInt64.toNat_div, hexact, hsize, UInt32.toNat_toUInt64]
    exact Nat.mul_div_cancel _ (by omega)
  all_goals
    have hexact : (block * count.toUInt64).toNat = count.toNat * size := by
      have hdiv : (block * count.toUInt64).toNat / size = count.toNat := by
        rw [← hsize, ← UInt64.toNat_div, not_not.mp hmul, UInt32.toNat_toUInt64]
      have := Nat.div_mul_le_self (block * count.toUInt64).toNat size
      rw [hdiv] at this
      omega
  · refine iff_of_false (by simp [Except.isOk, Except.toBool]) fun h => ?_
    have hbytes' : 131072 < (block * count.toUInt64).toNat := hbytes
    omega
  · refine iff_of_false (by simp [Except.isOk, Except.toBool]) fun h => ?_
    have := roomRefused_eq_false.mpr (hexact ▸ h.2)
    rw [hroom] at this
    cases this
  · have hbytes' : ¬ 131072 < (block * count.toUInt64).toNat := hbytes
    have hroom' := roomRefused_eq_false.mp (by simpa using hroom)
    refine iff_of_true rfl ⟨⟨⟨⟨?_, UInt32.not_lt.mp hcount⟩, by simpa using hdev⟩, ?_⟩, ?_⟩
    · simpa using hb
    · omega
    · omega

end
end KUntyped
end IrisOS.Untyped
