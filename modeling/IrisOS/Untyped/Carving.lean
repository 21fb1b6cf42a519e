import IrisOS.Untyped.Region
import Mathlib.Data.List.Pairwise

/-! Sequences of carves out of one Untyped. The ranges held and the windows of the batches that
could still be rolled back are recorded beside it. -/
namespace IrisOS.Untyped
open Lib List UInt64 KUntyped

/-- A range handed out: `bytes` usable bytes behind `head` bytes of header, at an aligned address.
-/
structure Carve where
  span : Span
  head : ℕ := 0
  bytes : ℕ
  align : ℕ := 64
  addr : UInt64
  child : Bool := false
  batch : Option ℕ := none
  deriving DecidableEq

/-- The window of a batch, and how often the Untyped had been reset when it was carved. -/
structure Window where
  id : ℕ
  start : UInt64
  stop : UInt64
  epoch : ℕ
  deriving DecidableEq

def Window.span (w : Window) : Span := ⟨w.start.toNat, w.stop.toNat⟩

/-- An Untyped with the ranges its callers hold and the batches they may roll back. -/
structure Arena where
  ut : KUntyped
  carves : List Carve := []
  windows : List Window := []
  epoch : ℕ := 0
  numBatches : ℕ := 0
  deriving DecidableEq

/-- A release names the range by its place among those held, a rollback names the batch. -/
inductive Op
  | bumpAlloc (bytes : UInt64)
  | bumpAllocPhys (bytes : UInt64)
  | allocChild (objBytes : UInt64)
  | allocChildTop (objBytes : UInt64)
  | bumpAllocPhysPage (size : UInt64)
  | allocPageChild
  | allocPagesChild (bytes : UInt64)
  | allocChildrenAtomic (objBytes : UInt64) (count : UInt32)
  | releaseChild (i : ℕ)
  | unbumpExact (id : ℕ)
  | reset
  deriving DecidableEq

/-- A physical address as an answer: `0` is a refusal. -/
def granted (phys : UInt64) : Option UInt64 := if phys = 0 then none else some phys

/-- A span that has been cut into equal blocks. -/
def cut (start len : ℕ) (i : ℕ) : Span := ⟨start + i * len, start + (i + 1) * len⟩

/-- A block of a batch, with the object in it. -/
def batchCarve (id : ℕ) (objBytes : UInt64) (start len : ℕ) (p : UInt64 × ℕ) : Carve :=
  { span := cut start len p.2, head := 64, bytes := objBytes.toNat, addr := p.1, child := true
    batch := some id }

section

variable (id : ℕ) (objBytes : UInt64) (start len : ℕ) (p : UInt64 × ℕ)
include id objBytes start len p

@[simp] theorem batchCarve_span :
    (batchCarve id objBytes start len p).span = cut start len p.2 := rfl

@[simp] theorem batchCarve_batch : (batchCarve id objBytes start len p).batch = some id := rfl

@[simp] theorem batchCarve_child : (batchCarve id objBytes start len p).child = true := rfl

end

namespace Arena

def note (a : Arena) (ut : KUntyped) (addr : Option UInt64) (carve : UInt64 → Carve) : Arena :=
  { a with ut, carves := addr.toList.map carve ++ a.carves }

def noteBatch (a : Arena) (ut : KUntyped) (objBytes : UInt64) (b : KUntyped.Batch) : Arena :=
  let len := (b.stop.toNat - b.start.toNat) / b.ptrs.length
  { a with
    ut
    carves := b.ptrs.zipIdx.map (batchCarve a.numBatches objBytes b.start.toNat len) ++ a.carves
    windows := { id := a.numBatches, start := b.start, stop := b.stop, epoch := a.epoch } :: a.windows
    numBatches := a.numBatches + 1 }

def bottomSpan (a : Arena) (ut : KUntyped) : Span := ⟨a.ut.used.toNat, ut.used.toNat⟩

def pageSpan (ut : KUntyped) (size : UInt64) : Span :=
  ⟨ut.used.toNat - size.toNat, ut.used.toNat⟩

def topSpan (a : Arena) (ut : KUntyped) : Span :=
  ⟨ut.totalSize.toNat - ut.usedTop.toNat, a.ut.totalSize.toNat - a.ut.usedTop.toNat⟩

/-- One operation. A batch is rolled back once, after its blocks are released; a reset takes back
ranges without child entries. -/
def step (a : Arena) : Op → Arena
  | .bumpAlloc bytes =>
    let (ut, addr) := a.ut.kuntypedBumpAlloc bytes
    a.note ut addr fun addr => { span := a.bottomSpan ut, bytes := bytes.toNat, addr }
  | .bumpAllocPhys bytes =>
    let (ut, phys) := a.ut.kuntypedBumpAllocPhys bytes
    a.note ut (granted phys) fun addr => { span := a.bottomSpan ut, bytes := bytes.toNat, addr }
  | .allocChild objBytes =>
    let (ut, addr) := a.ut.kuntypedAllocChild objBytes
    a.note ut addr fun addr =>
      { span := a.bottomSpan ut, head := 64, bytes := objBytes.toNat, addr, child := true }
  | .allocChildTop objBytes =>
    let (ut, addr) := a.ut.kuntypedAllocChildTop objBytes
    a.note ut addr fun addr =>
      { span := a.topSpan ut, head := 64, bytes := objBytes.toNat, addr, child := true }
  | .bumpAllocPhysPage size =>
    let (ut, phys) := a.ut.kuntypedBumpAllocPhysPage size
    a.note ut (granted phys) fun addr =>
      { span := pageSpan ut size, bytes := size.toNat, align := 4096, addr }
  | .allocPageChild =>
    let (ut, phys) := a.ut.kuntypedAllocPageChild
    a.note ut (granted phys) fun addr =>
      { span := pageSpan ut 4096, bytes := 4096, align := 4096, addr, child := true }
  | .allocPagesChild bytes =>
    let (ut, phys) := a.ut.kuntypedAllocPagesChild bytes
    a.note ut (granted phys) fun addr =>
      { span := pageSpan ut bytes, bytes := bytes.toNat, align := 4096, addr, child := true }
  | .allocChildrenAtomic objBytes count =>
    match a.ut.kuntypedAllocChildrenAtomic objBytes count with
    | (ut, .error _) => { a with ut }
    | (ut, .ok b) => a.noteBatch ut objBytes b
  | .releaseChild i =>
    if (a.carves[i]?).any (·.child)
      then { a with ut := a.ut.kuntypedReleaseChild, carves := a.carves.eraseIdx i } else a
  | .unbumpExact id =>
    match a.windows.find? (·.id = id) with
    | none => a
    | some w =>
      if a.carves.any (·.batch = some id) then a
      else { a with
        ut := a.ut.kuntypedUnbumpExact w.start w.stop
        windows := a.windows.filter (·.id ≠ id) }
  | .reset =>
    match a.ut.reset with
    | .error _ => a
    | .ok ut => { a with ut, carves := a.carves.filter (·.child), epoch := a.epoch + 1 }

def run (a : Arena) (ops : List Op) : Arena := ops.foldl step a

/-- A fresh Untyped over a region. -/
def start (physBase totalSize : UInt64) (isDevice : Bool) : Arena :=
  { ut := { physBase, totalSize, isDevice } }

/-- Every operation of the sequence meets the condition in the state it is made in. -/
def Meets (P : Arena → Op → Prop) (a : Arena) : List Op → Prop
  | [] => True
  | op :: ops => P a op ∧ Meets P (a.step op) ops

instance (P : Arena → Op → Prop) [∀ a op, Decidable (P a op)] :
    ∀ (a : Arena) (ops : List Op), Decidable (Meets P a ops)
  | _, [] => .isTrue trivial
  | a, op :: ops =>
    have := instDecidableMeets P (a.step op) ops
    inferInstanceAs (Decidable (_ ∧ _))

/-! ## The invariant -/

end Arena

/-- The range is as large and its usable part as aligned as asked for. -/
def Carve.Fits (base : UInt64) (c : Carve) : Prop :=
  c.head + c.bytes ≤ c.span.stop - c.span.start ∧
    c.addr = base + UInt64.ofNat (c.span.start + c.head) ∧ c.addr.toNat % c.align = 0

instance (base : UInt64) (c : Carve) : Decidable (c.Fits base) :=
  inferInstanceAs (Decidable (_ ∧ _))

namespace Arena

def current (a : Arena) : List Window := a.windows.filter (·.epoch = a.epoch)

/-- What is held or can be rolled back lies outside the gap between the cursors, disjoint but for
the blocks in a batch's window. -/
structure Sound (base size : UInt64) (a : Arena) : Prop where
  base : a.ut.physBase = base
  size : a.ut.totalSize = size
  carved : TwoEnded a.ut.totalSize.toNat a.ut.used.toNat a.ut.usedTop.toNat (a.carves.map (·.span))
  reserved : TwoEnded a.ut.totalSize.toNat a.ut.used.toNat a.ut.usedTop.toNat
    (a.current.map Window.span)
  apart : ∀ c ∈ a.carves, ∀ w ∈ a.current, c.batch = some w.id ∨ c.span.Disjoint w.span
  entries : a.ut.childCount = a.carves.countP (·.child)
  fits : ∀ c ∈ a.carves, c.Fits a.ut.physBase
  past : ∀ w ∈ a.windows, w.epoch ≤ a.epoch

variable {base size : UInt64} {a : Arena} {u : KUntyped} {s : Span} {n bytes : ℕ}
  {u' : KUntyped} {child : Bool} {c : Carve}

theorem sound_start (physBase totalSize : UInt64) (isDevice : Bool) :
    (start physBase totalSize isDevice).Sound physBase totalSize where
  base := rfl
  size := rfl
  carved := .nil (by simp [start])
  reserved := .nil (by simp [start])
  apart := by simp [start]
  entries := rfl
  fits := by simp [start]
  past := by simp [start]

/-- The spans lie between the cursors of the Untyped, outside the gap that is left. -/
def Between (u u' : KUntyped) (s : Span) : Prop :=
  u.used.toNat ≤ s.start ∧ s.start < s.stop ∧ s.stop ≤ u.totalSize.toNat - u.usedTop.toNat ∧
    (s.stop ≤ u'.used.toNat ∨ u.totalSize.toNat - u'.usedTop.toNat ≤ s.start)

theorem Sound.carve (h : a.Sound base size) (new : List Carve)
    (ws : List Window) (hbase : u.physBase = a.ut.physBase) (htotal : u.totalSize = a.ut.totalSize)
    (hlo : a.ut.used.toNat ≤ u.used.toNat) (hhi : a.ut.usedTop.toNat ≤ u.usedTop.toNat)
    (hfits : u.used.toNat + u.usedTop.toNat ≤ u.totalSize.toNat)
    (hnew : ∀ c ∈ new, Between a.ut u c.span ∧ c.Fits u.physBase)
    (hd : (new.map (·.span)).Pairwise Span.Disjoint)
    (hws : ∀ w ∈ ws, Between a.ut u w.span ∧ w.epoch = a.epoch)
    (hwd : (ws.map Window.span).Pairwise Span.Disjoint)
    (hown : ∀ c ∈ new, ∀ w ∈ ws, c.batch = some w.id)
    (hentries : u.childCount = a.ut.childCount + new.countP (·.child)) :
    Sound base size { a with
      ut := u, carves := new ++ a.carves, windows := ws ++ a.windows, numBatches := n } where
  base := hbase.trans h.base
  size := htotal.trans h.size
  carved := by
    simp only [htotal, map_append] at hfits ⊢
    refine h.carved.carve ?_ hd hlo hhi hfits
    intro s hs
    obtain ⟨c, hc, rfl⟩ := mem_map.mp hs
    exact (hnew c hc).1
  reserved := by
    have hcur : (ws ++ a.windows).filter (·.epoch = a.epoch) = ws ++ a.current := by
      rw [filter_append, filter_eq_self.mpr fun w hw => decide_eq_true (hws w hw).2]
      rfl
    simp only [current, hcur, htotal, map_append] at hfits ⊢
    refine h.reserved.carve ?_ hwd hlo hhi hfits
    intro s hs
    obtain ⟨w, hw, rfl⟩ := mem_map.mp hs
    exact (hws w hw).1
  apart c hc w hw := by
    simp only [current, filter_append, mem_append, mem_filter] at hc hw
    rcases hc with hc | hc
    · rcases hw with ⟨hw, -⟩ | ⟨hw, hep⟩
      · exact .inl (hown c hc w hw)
      · have hcur : w.span ∈ a.current.map Window.span :=
          mem_map_of_mem (mem_filter.mpr ⟨hw, hep⟩)
        exact .inr (h.reserved.disjoint_free hcur (hnew c hc).1.1 (hnew c hc).1.2.2.1)
    · rcases hw with ⟨hw, -⟩ | ⟨hw, hep⟩
      · have hmem : c.span ∈ a.carves.map (·.span) := mem_map_of_mem hc
        exact .inr (h.carved.disjoint_free hmem (hws w hw).1.1 (hws w hw).1.2.2.1).symm
      · exact h.apart c hc w (mem_filter.mpr ⟨hw, hep⟩)
  entries := by
    rw [hentries, h.entries, countP_append, Nat.add_comm]
  fits c hc := by
    rcases mem_append.mp hc with hc | hc
    · exact (hnew c hc).2
    · exact hbase ▸ h.fits c hc
  past w hw := by
    rcases mem_append.mp hw with hw | hw
    · exact (hws w hw).2.le
    · exact h.past w hw

/-! ## When it is kept -/

/-- The operation asks for blocks, and there is room for them. -/
def grantsBlocks (a : Arena) : Op → Bool
  | .bumpAlloc bytes => a.ut.bumpFits bytes
  | .bumpAllocPhys bytes => a.ut.bumpFits bytes && a.ut.physBase + a.ut.used ≠ 0
  | .allocChild objBytes => a.ut.childFits objBytes
  | .allocChildTop objBytes => a.ut.headerFits objBytes
  | .allocChildrenAtomic objBytes count => a.ut.batchFits objBytes count
  | _ => false

/-- The size of the block with its header is a 64-bit word. -/
def sizeFits : Op → Bool
  | .allocChild objBytes => objBytes.toNat + 64 < 2 ^ 64
  | .allocChildrenAtomic objBytes _ => objBytes.toNat + 63 < 2 ^ 64
  | _ => true

/-- The cursor that a block carve moves stands at a multiple of the granularity. -/
def cursorAligned (a : Arena) : Op → Bool
  | .bumpAlloc _ | .bumpAllocPhys _ | .allocChild _ | .allocChildrenAtomic _ _ =>
    (a.ut.physBase + a.ut.used).toNat % 64 = 0
  | .allocChildTop _ => (a.ut.physBase + (a.ut.totalSize - a.ut.usedTop)).toNat % 64 = 0
  | _ => true

/-- The rollback of a batch that moves the cursor although the Untyped has been reset since. -/
def overtaken (a : Arena) : Op → Bool
  | .unbumpExact id =>
    (a.windows.find? (·.id = id)).any fun w => w.epoch ≠ a.epoch && a.ut.used = w.stop
  | _ => false

/-- The condition under which carving is sound. -/
def Careful (a : Arena) (op : Op) : Prop :=
  a.overtaken op = false ∧
    (a.grantsBlocks op = true → sizeFits op = true ∧ a.cursorAligned op = true)

instance (a : Arena) (op : Op) : Decidable (a.Careful op) := inferInstanceAs (Decidable (_ ∧ _))

theorem between_low {s t : Span} (h : u.CarvesLow u' s n)
    (hstart : s.start ≤ t.start) (hpos : t.start < t.stop) (hstop : t.stop ≤ s.stop) :
    Between u u' t := by
  have h1 := h.start
  have h2 := h.stop
  have h3 := h.room
  unfold Between
  omega

theorem between_high (h : u.CarvesHigh u' s) : Between u u' s := by
  have h1 := h.start
  have h2 := h.pos
  have h3 := h.stop
  have h4 := h.room
  unfold Between
  omega

@[simp] theorem note_none (a : Arena) (carve : UInt64 → Carve) : a.note a.ut none carve = a := rfl

theorem Sound.noteLow (h : a.Sound base size)
    (hc : a.ut.CarvesLow u s n) {addr : Option UInt64} {carve : UInt64 → Carve}
    (hn : n = (addr.toList.map carve).countP (·.child))
    (hcarve : ∀ x, addr = some x → (carve x).span = s ∧ (carve x).Fits a.ut.physBase) :
    (a.note u addr carve).Sound base size := by
  have hstart := hc.start
  have hpos := hc.pos
  have hstop := hc.stop
  have hroom := hc.room
  have hu := hc.eq
  have hbase : u.physBase = a.ut.physBase := by rw [hu]
  have htop : u.usedTop = a.ut.usedTop := by rw [hu]
  have htotal : u.totalSize = a.ut.totalSize := by rw [hu]
  have hcount : u.childCount = a.ut.childCount + n := by rw [hu]
  refine h.carve _ [] hbase htotal (by omega) (by rw [htop]) (by rw [htop, htotal]; omega)
    ?_ ?_ (by simp) (by simp) (by simp) (hn ▸ hcount)
  · intro c hmem
    obtain ⟨x, hx, rfl⟩ := mem_map.mp hmem
    obtain ⟨hspan, hfit⟩ := hcarve x (Option.mem_toList.mp hx)
    rw [hspan, hbase]
    exact ⟨between_low hc le_rfl hpos le_rfl, hfit⟩
  · cases addr <;> simp

theorem Sound.noteHigh (h : a.Sound base size)
    (hc : a.ut.CarvesHigh u c.span) (hfit : c.Fits a.ut.physBase) (hchild : c.child = true) :
    Sound base size { a with ut := u, carves := c :: a.carves } := by
  have hstart := hc.start
  have hstop := hc.stop
  have hpos := hc.pos
  have hroom := hc.room
  have hu := hc.eq
  have hbase : u.physBase = a.ut.physBase := by rw [hu]
  have hused : u.used = a.ut.used := by rw [hu]
  have htotal : u.totalSize = a.ut.totalSize := by rw [hu]
  have hcount : u.childCount = a.ut.childCount + 1 := by rw [hu]
  refine h.carve [c] [] hbase htotal (by rw [hused]) (by omega)
    (by rw [hused, htotal]; omega) ?_ (by simp) (by simp) (by simp) (by simp) (by simp [hchild, hcount])
  intro d hd
  rw [mem_singleton.mp hd, hbase]
  exact ⟨between_high hc, hfit⟩

theorem toNat_add_ofNat_mod (base : UInt64) (n : ℕ) :
    (base + UInt64.ofNat n).toNat % 64 = (base.toNat + n) % 64 := by
  rw [UInt64.toNat_add, UInt64.toNat_ofNat']
  omega

theorem add_kuntypedAlign (base : UInt64) (n : ℕ) :
    base + UInt64.ofNat n + kuntypedAlign = base + UInt64.ofNat (n + 64) := by
  rw [ofNat_add, add_assoc]
  rfl

theorem fits_block {batch : Option ℕ}
    (hlen : 64 + bytes ≤ s.stop - s.start) (hal : (base.toNat + s.start) % 64 = 0) :
    Carve.Fits base
      { span := s, head := 64, bytes, child, batch
        addr := base + ofNat s.start + kuntypedAlign } := by
  refine ⟨hlen, add_kuntypedAlign _ _, ?_⟩
  simp only [add_kuntypedAlign, toNat_add_ofNat_mod]
  omega

theorem fits_bare (hlen : bytes ≤ s.stop - s.start) (hal : (base.toNat + s.start) % 64 = 0) :
    Carve.Fits base { span := s, bytes, addr := base + ofNat s.start } := by
  refine ⟨by simpa using hlen, by simp, ?_⟩
  simpa [toNat_add_ofNat_mod] using hal

theorem fits_page
    (hlen : bytes ≤ s.stop - s.start) (hal : (base + UInt64.ofNat s.start).toNat % 4096 = 0) :
    Carve.Fits base { span := s, bytes, align := 4096, addr := base + ofNat s.start, child } :=
  ⟨by simpa using hlen, by simp, hal⟩

theorem cut_pairwise (start len n : ℕ) :
    ((List.range n).map (cut start len)).Pairwise Span.Disjoint := by
  rw [pairwise_map]
  refine pairwise_lt_range.imp ?_
  intro i j hij
  have := Nat.mul_le_mul_right len (Nat.succ_le_of_lt hij)
  exact .inl (Nat.add_le_add_left this start)

theorem Sound.noteBatch (h : a.Sound base size) {objBytes : UInt64}
    {b : KUntyped.Batch} (hc : a.ut.CarvesLow u ⟨a.ut.used.toNat, u.used.toNat⟩ n)
    (hused : u.used.toNat = a.ut.used.toNat + n * KUntyped.batchBlock objBytes)
    (hblock : 64 ≤ KUntyped.batchBlock objBytes) (hmod : KUntyped.batchBlock objBytes % 64 = 0)
    (hstart : b.start = a.ut.used) (hstop : b.stop = u.used)
    (hptrs : b.ptrs = (List.range n).map fun i => a.ut.physBase +
      UInt64.ofNat (a.ut.used.toNat + i * KUntyped.batchBlock objBytes) + kuntypedAlign)
    (hlen : 64 + objBytes.toNat ≤ KUntyped.batchBlock objBytes)
    (hal : (a.ut.physBase + a.ut.used).toNat % 64 = 0) :
    (a.noteBatch u objBytes b).Sound base size := by
  set len := batchBlock objBytes with hlendef
  have hu := hc.eq
  have hroom := hc.room
  have hpos := hc.pos
  have hbase : u.physBase = a.ut.physBase := by rw [hu]
  have htop : u.usedTop = a.ut.usedTop := by rw [hu]
  have htotal : u.totalSize = a.ut.totalSize := by rw [hu]
  have hcount : u.childCount = a.ut.childCount + n := by rw [hu]
  have hn : n ≠ 0 := by
    rintro rfl
    simp only at hpos
    omega
  have hcut : (b.stop.toNat - b.start.toNat) / b.ptrs.length = len := by
    rw [hstop, hstart, hused, hptrs, length_map, length_range, Nat.add_sub_cancel_left,
      Nat.mul_div_cancel_left _ (Nat.pos_of_ne_zero hn)]
  have hblocks : b.ptrs.zipIdx.map (batchCarve a.numBatches objBytes b.start.toNat len) =
      (range n).map fun i => batchCarve a.numBatches objBytes a.ut.used.toNat len
        (a.ut.physBase + ofNat (a.ut.used.toNat + i * len) + kuntypedAlign, i) := by
    rw [hptrs, hstart, zipIdx_map, map_map, zipIdx_eq_zip_range', length_range,
      range_eq_range', zip_eq_zipWith]
    simp [zipWith_self]
  simp only [Arena.noteBatch, hcut, hblocks]
  refine h.carve _ [_] hbase htotal (by omega) (by rw [htop]) (by rw [htop, htotal]; exact hroom)
    ?_ ?_ ?_ (by simp) (by simp) ?_
  · intro c hmem
    obtain ⟨i, hi, rfl⟩ := mem_map.mp hmem
    have hi' : (i + 1) * len ≤ n * len := Nat.mul_le_mul_right len (mem_range.mp hi)
    have hsucc := Nat.add_one_mul i len
    constructor
    · refine between_low hc ?_ ?_ ?_
      · simp [cut]
      · simp only [batchCarve_span, cut]
        omega
      · simp only [batchCarve_span, cut]
        omega
    · rw [hbase]
      refine fits_block (s := cut a.ut.used.toNat len i) ?_ ?_
      · simp only [cut]
        omega
      have hal' := toNat_add_ofNat_mod a.ut.physBase a.ut.used.toNat
      rw [UInt64.ofNat_toNat, hal] at hal'
      have hi64 : i * len % 64 = 0 := by rw [Nat.mul_mod, hmod]; rfl
      simp only [cut]
      omega
  · rw [map_map]
    exact cut_pairwise _ _ _
  · intro w hw
    rw [mem_singleton.mp hw]
    refine ⟨between_low hc ?_ ?_ ?_, rfl⟩
    · simp [Window.span, hstart]
    · simpa [Window.span, hstart, hstop] using hpos
    · simp [Window.span, hstop]
  · simp [hcount, countP_map, Function.comp_def]

/-! ## Giving back -/

theorem Sound.releaseChild (h : a.Sound base size) {i : ℕ} (hi : a.carves[i]? = some c)
    (hchild : c.child = true) :
    Sound base size { a with ut := a.ut.kuntypedReleaseChild, carves := a.carves.eraseIdx i } where
  base := h.base
  size := h.size
  carved := h.carved.sublist ((eraseIdx_sublist _ _).map _)
  reserved := h.reserved
  apart d hd := h.apart d (mem_of_mem_eraseIdx hd)
  entries := by
    obtain ⟨hlt, hget⟩ := List.getElem?_eq_some_iff.mp hi
    have hperm := getElem_cons_eraseIdx_perm hlt
    have hcount := hperm.countP_eq (·.child)
    rw [hget, countP_cons_of_pos hchild, ← h.entries] at hcount
    exact (Nat.eq_sub_of_add_eq hcount).symm
  fits d hd := h.fits d (mem_of_mem_eraseIdx hd)
  past := h.past

theorem Sound.unbumpExact (h : a.Sound base size) {w : Window}
    (hmem : w ∈ a.windows) (hfree : ∀ c ∈ a.carves, c.batch ≠ some w.id)
    (hok : w.epoch ≠ a.epoch → a.ut.used ≠ w.stop) :
    Sound base size { a with
      ut := a.ut.kuntypedUnbumpExact w.start w.stop
      windows := a.windows.filter (·.id ≠ w.id) } := by
  have hsub : ((a.windows.filter (·.id ≠ w.id)).filter (·.epoch = a.epoch)).Sublist a.current :=
    (filter_sublist).filter _
  have hkeep : Sound base size { a with windows := a.windows.filter (·.id ≠ w.id) } :=
    ⟨h.base, h.size, h.carved, h.reserved.sublist (hsub.map _),
      fun c hc v hv => h.apart c hc v (hsub.subset hv),
      h.entries, h.fits, fun v hv => h.past v (mem_of_mem_filter hv)⟩
  unfold kuntypedUnbumpExact
  split_ifs with hempty hend
  · exact hkeep
  · have hcur : w ∈ a.current := mem_filter.mpr ⟨hmem, by simpa using fun hne => hok hne hend⟩
    have hpos : w.span.start < w.span.stop :=
      h.reserved.pos _ (mem_map_of_mem hcur)
    have hstop : w.span.stop = a.ut.used.toNat := by rw [hend]; rfl
    refine ⟨h.base, h.size, h.carved.rewind hpos hstop ?_,
      (h.reserved.sublist (hsub.map _)).rewind hpos hstop ?_,
      hkeep.apart, h.entries, h.fits, hkeep.past⟩
    · intro s hs
      obtain ⟨c, hc, rfl⟩ := mem_map.mp hs
      exact (h.apart c hc w hcur).resolve_left (hfree c hc)
    intro s hs
    obtain ⟨v, hv, rfl⟩ := mem_map.mp hs
    have hne : v ≠ w := by
      rintro rfl
      simp at hv
    have hd := pairwise_map.mp h.reserved.disjoint
    have : Std.Symm fun x y : Window => x.span.Disjoint y.span := ⟨fun _ _ => Span.Disjoint.symm⟩
    exact hd.forall (hsub.subset hv) hcur hne
  · exact hkeep

theorem Sound.reset (h : a.Sound base size) (hu : a.ut.reset = .ok u) :
    Sound base size { a with ut := u, carves := a.carves.filter (·.child), epoch := a.epoch + 1 } := by
  have hcount : a.ut.childCount = 0 := by
    by_contra hne
    simp [KUntyped.reset, hne] at hu
  have hu' : { a.ut with used := 0, usedTop := 0, generation := a.ut.generation + 1 } = u := by
    simpa [KUntyped.reset, hcount] using hu
  have hnil : a.carves.filter (·.child) = [] := by
    rw [← length_eq_zero_iff, ← countP_eq_length_filter, ← h.entries, hcount]
  have hcur : a.windows.filter (·.epoch = a.epoch + 1) = [] :=
    filter_eq_nil_iff.mpr fun w hw => by simpa using (Nat.lt_succ_of_le (h.past w hw)).ne
  subst hu'
  refine ⟨h.base, h.size, ?_, ?_, ?_, ?_, ?_, fun w hw => (h.past w hw).trans (Nat.le_succ _)⟩
  · rw [hnil]
    exact .nil (Nat.zero_le _)
  · simp only [current, hcur]
    exact .nil (Nat.zero_le _)
  · simp [hnil]
  · simpa [hnil] using hcount
  · simp [hnil]

/-! ## Every sequence -/

section
variable {x : UInt64} {stop : ℕ}

theorem add_start_mod (h : (base + x).toNat % 64 = 0) : (base.toNat + x.toNat) % 64 = 0 := by
  rw [← toNat_add_ofNat_mod, UInt64.ofNat_toNat, h]

/-- A bare block that starts at an aligned cursor. -/
theorem fits_bump (hlen : bytes ≤ stop - x.toNat) (hal : (base + x).toNat % 64 = 0) :
    Carve.Fits base { span := ⟨x.toNat, stop⟩, bytes, addr := base + x } := by
  have h := fits_bare (s := ⟨x.toNat, stop⟩) hlen (add_start_mod hal)
  rwa [UInt64.ofNat_toNat] at h

/-- A block with a header that starts there. -/
theorem fits_child (hlen : 64 + bytes ≤ stop - x.toNat) (hal : (base + x).toNat % 64 = 0) :
    Carve.Fits base
      { span := ⟨x.toNat, stop⟩, head := 64, bytes, child, addr := base + x + kuntypedAlign } := by
  have h : Carve.Fits base { span := ⟨x.toNat, stop⟩, head := 64, bytes, child
                             addr := base + ofNat x.toNat + kuntypedAlign } :=
    fits_block hlen (add_start_mod hal)
  rwa [UInt64.ofNat_toNat] at h

end

theorem granted_eq_some {phys x : UInt64} (h : granted phys = some x) : phys ≠ 0 ∧ phys = x := by
  unfold granted at h
  split_ifs at h with hz
  exact ⟨hz, Option.some.inj h⟩

theorem Sound.notePage (h : a.Sound base size) {start n : ℕ}
    {bytes : UInt64} (child : Bool) (hc : a.ut.CarvesLow u ⟨start, start + bytes.toNat⟩ n)
    (hn : n = if a.ut.physBase + UInt64.ofNat start = 0 then 0 else child.toNat)
    (hp : (a.ut.physBase + UInt64.ofNat start).toNat % 4096 = 0) :
    (a.note u (granted (a.ut.physBase + UInt64.ofNat start)) fun addr =>
      { span := pageSpan u bytes, bytes := bytes.toNat, align := 4096, addr, child }).Sound
        base size := by
  have hspan : pageSpan u bytes = ⟨start, start + bytes.toNat⟩ := by
    rw [pageSpan, ← hc.stop, Nat.add_sub_cancel]
  refine h.noteLow hc ?_ ?_
  · rw [hn, granted]
    split_ifs
    · rfl
    · cases child <;> rfl
  intro x hx
  obtain ⟨-, rfl⟩ := granted_eq_some hx
  refine ⟨hspan, ?_⟩
  rw [hspan]
  exact fits_page (s := ⟨start, start + bytes.toNat⟩) (by simp) hp

section
variable (h : a.Sound base size)
include h

theorem Sound.step_bumpAlloc {bytes : UInt64} (hop : a.Careful (.bumpAlloc bytes)) :
    (a.step (.bumpAlloc bytes)).Sound base size := by
  rcases kuntypedBumpAlloc_spec a.ut bytes with ⟨-, hr⟩ | ⟨hfits, u, hr, hc, hlen⟩
  · simpa [Arena.step, hr] using h
  have hal := (hop.2 hfits).2
  simp only [Arena.step, hr]
  refine h.noteLow hc rfl ?_
  rintro x ⟨⟩
  exact ⟨rfl, fits_bump hlen (by simpa [cursorAligned] using hal)⟩

theorem Sound.step_bumpAllocPhys {bytes : UInt64} (hop : a.Careful (.bumpAllocPhys bytes)) :
    (a.step (.bumpAllocPhys bytes)).Sound base size := by
  rcases kuntypedBumpAllocPhys_spec a.ut bytes with ⟨-, hr⟩ | ⟨hfits, u, hr, hc, hlen⟩
  · simpa [Arena.step, hr, granted] using h
  simp only [Arena.step, hr]
  refine h.noteLow hc ?_ ?_
  · cases granted (a.ut.physBase + a.ut.used) <;> rfl
  intro x hx
  obtain ⟨hne, rfl⟩ := granted_eq_some hx
  have hal := (hop.2 (by simp [grantsBlocks, hfits, hne])).2
  exact ⟨rfl, fits_bump hlen (by simpa [cursorAligned] using hal)⟩

theorem Sound.step_allocChild {objBytes : UInt64} (hop : a.Careful (.allocChild objBytes)) :
    (a.step (.allocChild objBytes)).Sound base size := by
  rcases kuntypedAllocChild_spec a.ut objBytes with ⟨-, hr⟩ | ⟨hfits, u, hr, hc, hlen⟩
  · simpa [Arena.step, hr] using h
  obtain ⟨hsize, hal⟩ := hop.2 hfits
  have hsum : (kuntypedAlign + objBytes).toNat = 64 + objBytes.toNat := by
    have hsize' : objBytes.toNat + 64 < 2 ^ 64 := by simpa [sizeFits] using hsize
    rw [UInt64.toNat_add, show kuntypedAlign.toNat = 64 from rfl]
    omega
  simp only [Arena.step, hr]
  refine h.noteLow hc rfl ?_
  rintro x ⟨⟩
  exact ⟨rfl, fits_child (hsum ▸ hlen) (by simpa [cursorAligned] using hal)⟩

theorem Sound.step_allocChildTop {objBytes : UInt64} (hop : a.Careful (.allocChildTop objBytes)) :
    (a.step (.allocChildTop objBytes)).Sound base size := by
  rcases kuntypedAllocChildTop_spec a.ut objBytes with hr | ⟨u, s, hr, hc, hlen, hmod⟩
  · simpa [Arena.step, hr] using h
  have hfits : a.ut.headerFits objBytes = true := by
    rcases kuntypedAllocChildTop_eq a.ut objBytes with ⟨hfits, -⟩ | ⟨-, hnone⟩
    · exact hfits
    · cases hnone.symm.trans hr
  have hal := (hop.2 hfits).2
  have hspan : a.topSpan u = s := by
    have h1 := hc.start
    have h2 := hc.stop
    rw [topSpan, show u.totalSize = a.ut.totalSize by rw [hc.eq]]
    cases s
    simp only [Span.mk.injEq] at h1 h2 ⊢
    omega
  simp only [Arena.step, hr]
  rw [hspan]
  refine h.noteHigh hc (fits_block hlen ?_) rfl
  have hal' := add_start_mod (by simpa [cursorAligned] using hal)
  have hsub : (a.ut.totalSize - a.ut.usedTop).toNat = s.stop := by
    have := hc.stop
    have := a.ut.totalSize.toNat_lt
    rw [UInt64.toNat_sub]
    omega
  omega

theorem Sound.step_allocPagesChild (bytes : UInt64) :
    (a.step (.allocPagesChild bytes)).Sound base size := by
  rcases kuntypedAllocPagesChild_spec a.ut bytes with hr | ⟨u, start, n, hr, hc, hn, hp⟩
  · simpa [Arena.step, hr, granted] using h
  · simp only [Arena.step, hr]
    exact h.notePage true hc hn hp

theorem Sound.step_allocChildrenAtomic {objBytes : UInt64} {count : UInt32}
    (hop : a.Careful (.allocChildrenAtomic objBytes count)) :
    (a.step (.allocChildrenAtomic objBytes count)).Sound base size := by
  rcases kuntypedAllocChildrenAtomic_spec a.ut objBytes count
    with ⟨e, hr⟩ | ⟨u, b, hr, hc, hused, hblock, hmod, hstart, hstop, hptrs⟩
  · simpa [Arena.step, hr] using h
  have hfits : a.ut.batchFits objBytes count = true := by
    rw [← kuntypedAllocChildrenAtomic_isOk, hr]
    rfl
  obtain ⟨hsize, hal⟩ := hop.2 hfits
  simp only [Arena.step, hr]
  refine h.noteBatch hc hused hblock hmod hstart hstop hptrs ?_ ?_
  · exact le_batchBlock (by simpa [sizeFits] using hsize) hblock
  · simpa [cursorAligned] using hal

theorem Sound.step_unbumpExact {id : ℕ} (hop : a.Careful (.unbumpExact id)) :
    (a.step (.unbumpExact id)).Sound base size := by
  rw [Arena.step]
  cases hw : a.windows.find? (·.id = id) with
  | none => exact h
  | some w =>
    have hid : w.id = id := by simpa using find?_some hw
    split_ifs with hheld
    · exact h
    subst hid
    refine h.unbumpExact (mem_of_find?_eq_some hw) ?_ ?_
    · intro c hc hb
      exact hheld (any_eq_true.mpr ⟨c, hc, by simpa using hb⟩)
    · intro hne hend
      have hstale := hop.1
      simp [overtaken, hw, hne, hend] at hstale

theorem Sound.step {op : Op} (hop : a.Careful op) : (a.step op).Sound base size := by
  cases op with
  | bumpAlloc bytes => exact h.step_bumpAlloc hop
  | bumpAllocPhys bytes => exact h.step_bumpAllocPhys hop
  | allocChild objBytes => exact h.step_allocChild hop
  | allocChildTop objBytes => exact h.step_allocChildTop hop
  | bumpAllocPhysPage size =>
    rcases kuntypedBumpAllocPhysPage_spec a.ut size with hr | ⟨u, start, hr, hc, hp⟩
    · simpa [Arena.step, hr, granted] using h
    · simp only [Arena.step, hr]
      exact h.notePage false hc (by simp) hp
  | allocPageChild =>
    have hpage := h.step_allocPagesChild 4096
    rwa [Arena.step, ← kuntypedAllocPageChild_eq] at hpage
  | allocPagesChild bytes => exact h.step_allocPagesChild bytes
  | allocChildrenAtomic objBytes count => exact h.step_allocChildrenAtomic hop
  | releaseChild i =>
    rw [Arena.step]
    split_ifs with hi
    · obtain ⟨c, hc, hchild⟩ := (Option.any_eq_true _ _).mp hi
      exact h.releaseChild hc hchild
    · exact h
  | unbumpExact id => exact h.step_unbumpExact hop
  | reset =>
    rw [Arena.step]
    cases hr : a.ut.reset with
    | error e => exact h
    | ok u => exact h.reset hr

end

theorem Sound.run (h : a.Sound base size) {ops : List Op} (hops : a.Meets Careful ops) :
    (a.run ops).Sound base size := by
  induction ops generalizing a with
  | nil => exact h
  | cons op ops ih => exact ih (h.step hops.1) hops.2

/-- What is held is disjoint, in the region and as asked for, and the cursors have not crossed. -/
def Tiled (base size : UInt64) (a : Arena) : Prop :=
  a.carves.Pairwise (fun c d => c.span.Disjoint d.span) ∧
    (∀ c ∈ a.carves, c.span.stop ≤ size.toNat ∧ c.Fits base) ∧
    a.ut.used.toNat + a.ut.usedTop.toNat ≤ size.toNat

instance (base size : UInt64) (a : Arena) : Decidable (a.Tiled base size) :=
  inferInstanceAs (Decidable (_ ∧ _ ∧ _))

theorem Sound.tiled (h : a.Sound base size) : a.Tiled base size := by
  refine ⟨pairwise_map.mp h.carved.disjoint, ?_, h.size ▸ h.carved.fits⟩
  intro c hc
  exact ⟨h.size ▸ h.carved.inside (mem_map_of_mem hc), h.base ▸ h.fits c hc⟩

end Arena

/-- In every sequence of operations that meet the condition, what is carved never overlaps. -/
theorem carving_never_overlaps (base size : UInt64) (isDevice : Bool) (ops : List Op)
    (hops : (Arena.start base size isDevice).Meets Arena.Careful ops) :
    ((Arena.start base size isDevice).run ops).Tiled base size :=
  ((Arena.sound_start base size isDevice).run hops).tiled

/-- A sequence that uses both ends of a region, rolls a batch back and resets. -/
def mixedOps : List Op :=
  [.allocChild 100, .bumpAllocPhysPage 4096, .allocChildTop 48, .allocChildrenAtomic 40 2,
    .releaseChild 1, .releaseChild 0, .unbumpExact 0, .bumpAllocPhys 8192, .allocPageChild,
    .releaseChild 0, .releaseChild 1, .releaseChild 2, .reset, .allocChildrenAtomic 1 3, .bumpAlloc 1]

theorem carving_never_overlaps_mixedOps :
    ((Arena.start 0x10040 0x8000 false).run mixedOps).carves.length = 4 ∧
      ((Arena.start 0x10040 0x8000 false).run mixedOps).Tiled 0x10040 0x8000 :=
  ⟨by decide +kernel, carving_never_overlaps _ _ _ _ (by decide +kernel)⟩

/-- A size that wraps with its header, a rollback that a reset has overtaken, and a region that
starts off the granularity. -/
theorem carving_overlaps :
    ¬ ((Arena.start 0x1000 0x8000 false).run [.allocChild 0xFFFFFFFFFFFFFFFF]).Tiled 0x1000 0x8000 ∧
    ¬ ((Arena.start 0x1000 0x8000 false).run [.allocChildrenAtomic 0xFFFFFFFFFFFFFFFF 1]).Tiled
      0x1000 0x8000 ∧
    ¬ ((Arena.start 0x1000 0x8000 false).run
      [.allocChildrenAtomic 64 1, .releaseChild 0, .reset, .allocChildrenAtomic 64 1, .unbumpExact 0,
        .bumpAlloc 64]).Tiled 0x1000 0x8000 ∧
    ¬ ((Arena.start 0x1020 0x8000 false).run [.bumpAlloc 64]).Tiled 0x1020 0x8000 := by
  decide +kernel

end IrisOS.Untyped
