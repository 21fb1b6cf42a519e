import IrisOS.Lib.Steps
import Mathlib.Data.UInt

/-! A program's own memory: `brk`, `mmap`, `munmap` and `mprotect` retype frames out of the
program's budget and map them, where the plan of `prog_mem_plan.c` says. -/
namespace IrisOS.Program
open Function

def pageSize : ℕ := 4096
def userPrivateBase : ℕ := 0x8000000000
def irisProgHeapOff : ℕ := 0x60000000
def irisProgHeapEndOff : ℕ := 0x70000000
def irisProgMmapOff : ℕ := 0x70000000
def irisProgStackOff : ℕ := 0x7FFFFF7000
def progProtRW : ℕ := 1
def progMemMaps : ℕ := 32
def progMemChunkMin : ℕ := 64 * 1024

/-- One mapping the program made: its range, the slot of its frame, and its protection. -/
structure ProgMap where
  vaddr : ℕ
  bytes : ℕ
  slot : ℕ
  prot : ℕ
  heap : Bool
  deriving DecidableEq

structure ProgMem where
  slotNext : ℕ
  slotEnd : ℕ
  ptSlot : ℕ
  brkBase : ℕ
  brkCur : ℕ
  brkEnd : ℕ
  heapTop : ℕ
  mmapCur : ℕ
  mmapEnd : ℕ
  maps : List ProgMap := []
  deriving DecidableEq

inductive IrisError
  | invalidArg | notFound | notSupported
  deriving DecidableEq

/-! ## The kernel's side -/

/-- A frame: its size, and the address and protection it is and was last mapped with. -/
structure Frame where
  bytes : ℕ
  place : Option (ℕ × ℕ) := none
  was : Option (ℕ × ℕ) := none
  deriving DecidableEq

/-- The frames in the slots of the program. -/
abbrev Frames := ℕ → Option Frame

/-- The answers to a retype and a map, and whether the map asked for page tables. -/
structure Answer where
  retype : Bool
  map : Bool
  tables : Bool
  deriving DecidableEq

namespace Frames

/-- `INV_UNTYPED_RETYPE` of one frame. -/
def retype (k : Frames) (a : Answer) (slot bytes : ℕ) : Frames × Bool :=
  if a.retype ∧ k slot = none then (update k slot (some { bytes }), true) else (k, false)

/-- `iris_map_frame`, which empties the scratch slot when it needs page tables. -/
def mapFrame (k : Frames) (a : Answer) (slot ptSlot vaddr prot : ℕ) : Frames × Bool :=
  let k := if a.tables then update k ptSlot none else k
  match k slot with
  | none => (k, false)
  | some f =>
    if a.map ∨ f.was = some (vaddr, prot) then
      (update k slot (some { f with place := some (vaddr, prot), was := none }), true)
    else (k, false)

/-- `INV_FRAME_UNMAP`, which succeeds on a frame that is mapped there. -/
def unmap (k : Frames) (slot vaddr : ℕ) : Frames × Bool :=
  match k slot with
  | none => (k, false)
  | some f =>
    if f.place.map Prod.fst = some vaddr then
      (update k slot (some { f with place := none, was := f.place }), true)
    else (k, false)

/-- `INV_CNODE_DELETE`. -/
def delete (k : Frames) (slot : ℕ) : Frames := update k slot none

end Frames

/-! ## The plan -/

def progMemSetup (privateBase slotLo slotHi ptSlot : ℕ) : ProgMem where
  slotNext := slotLo
  slotEnd := slotHi
  ptSlot
  brkBase := privateBase + irisProgHeapOff
  brkCur := privateBase + irisProgHeapOff
  brkEnd := privateBase + irisProgHeapEndOff
  heapTop := privateBase + irisProgHeapOff
  mmapCur := privateBase + irisProgMmapOff
  mmapEnd := privateBase + irisProgStackOff - pageSize

def progMemPages (bytes : ℕ) : ℕ :=
  if bytes > 2 ^ 64 - 1 - 4095 then 0 else (bytes + 4095) / pageSize * pageSize

namespace ProgMem

def progMemReserve (m : ProgMem) (bytes : ℕ) (heap : Bool) : Option (ProgMem × ℕ) :=
  let cur := if heap then m.heapTop else m.mmapCur
  let stop := if heap then m.brkEnd else m.mmapEnd
  let n := progMemPages bytes
  if n = 0 then none
  else if cur > stop ∨ n > stop - cur then none
  else some (if heap then { m with heapTop := cur + n } else { m with mmapCur := cur + n }, cur)

def progMemChunk (m : ProgMem) (need : ℕ) : ℕ :=
  let need := progMemPages need
  if need = 0 then 0
  else
    let held := m.heapTop - m.brkBase
    let want := if held > progMemChunkMin then held else progMemChunkMin
    let want := if want < need then need else want
    let want := if m.heapTop ≤ m.brkEnd ∧ want > m.brkEnd - m.heapTop then m.brkEnd - m.heapTop else want
    if want < need then 0 else want

def progMemTakeSlot (m : ProgMem) : Option (ProgMem × ℕ) :=
  if m.slotNext > m.slotEnd then none
  else some ({ m with slotNext := (m.slotNext + 1) % 2 ^ 32 }, m.slotNext)

def progMemFind (m : ProgMem) (vaddr bytes : ℕ) : Option ℕ :=
  if bytes = 0 then none
  else if vaddr > 2 ^ 64 - 1 - bytes then none
  else m.maps.findIdx? fun e =>
    ¬ vaddr < e.vaddr ∧ ¬ vaddr - e.vaddr > e.bytes ∧ ¬ bytes > e.bytes - (vaddr - e.vaddr)

def progMemRecord (m : ProgMem) (e : ProgMap) : Option ProgMem :=
  if m.maps.length ≥ progMemMaps then none else some { m with maps := m.maps ++ [e] }

/-- The last entry moves into the hole. -/
def progMemForget (m : ProgMem) (i : ℕ) : ProgMem :=
  match m.maps.getLast? with
  | none => m
  | some last => { m with maps := (m.maps.set i last).dropLast }

end ProgMem

/-! ## The calls -/

structure State where
  mem : ProgMem
  frames : Frames

namespace State

/-- One frame, retyped and mapped. -/
def pmAdd (s : State) (a : Answer) (vaddr bytes prot : ℕ) (heap : Bool) : State × Bool :=
  match s.mem.progMemTakeSlot with
  | none => (s, false)
  | some (m, slot) =>
    match s.frames.retype a slot bytes with
    | (k, false) => (⟨m, k⟩, false)
    | (k, true) =>
      match k.mapFrame a slot m.ptSlot vaddr prot with
      | (k, false) => (⟨m, k.delete slot⟩, false)
      | (k, true) =>
        match m.progMemRecord { vaddr, bytes, slot, prot, heap } with
        | none => (⟨m, (k.unmap slot vaddr).1.delete slot⟩, false)
        | some m => (⟨m, k⟩, true)

/-- The inverse of `pmAdd`, by index. -/
def pmDrop (s : State) (i : ℕ) : State :=
  match s.mem.maps[i]? with
  | none => s
  | some e => ⟨s.mem.progMemForget i, (s.frames.unmap e.slot e.vaddr).1.delete e.slot⟩

def setHeapTop (s : State) (top : ℕ) : State := { s with mem := { s.mem with heapTop := top } }

def setBrk (s : State) (brk : ℕ) : State := { s with mem := { s.mem with brkCur := brk } }

/-- The loop of a growing `prog_brk` from pass `k` on, with a pass for each byte at most. -/
def growHeap (env : ℕ → Answer) (want : ℕ) : ℕ → ℕ → State → State × Bool
  | 0, _, s => (s, true)
  | n + 1, k, s =>
    if s.mem.heapTop < want then
      let chunk := s.mem.progMemChunk (want - s.mem.heapTop)
      if chunk = 0 then (s, false)
      else match s.mem.progMemReserve chunk true with
        | none => (s, false)
        | some (m, va) =>
          match pmAdd ⟨m, s.frames⟩ (env k) va chunk progProtRW true with
          | (s, false) => (s.setHeapTop va, false)
          | (s, true) => growHeap env want n (k + 1) s
    else (s, true)

/-- The loop of a shrinking `prog_brk`: every round releases a heap frame above the break. -/
def releaseAbove (want : ℕ) : ℕ → State → State
  | 0, s => s
  | n + 1, s =>
    match s.mem.maps.findIdx? fun e => e.heap ∧ ¬ e.vaddr < want with
    | none => s
    | some i =>
      let top := match s.mem.maps[i]? with
        | some e => if e.vaddr < s.mem.heapTop then e.vaddr else s.mem.heapTop
        | none => s.mem.heapTop
      releaseAbove want n ((s.setHeapTop top).pmDrop i)

/-- The old break, or nothing where the source answers -1. -/
def progBrk (s : State) (env : ℕ → Answer) (delta : Int) : State × Option ℕ :=
  if s.mem.brkBase = 0 then (s, none)
  else
    let old := s.mem.brkCur
    if delta > 0 then
      let want := (old + delta.toNat) % 2 ^ 64
      if want < old ∨ want > s.mem.brkEnd then (s, none)
      else match growHeap env want (want - s.mem.heapTop) 0 s with
        | (s, false) => (s, none)
        | (s, true) => (s.setBrk want, some old)
    else if delta < 0 then
      let drop := (-delta).toNat
      if drop > old - s.mem.brkBase then (s, none)
      else ((s.releaseAbove (old - drop) s.mem.maps.length).setBrk (old - drop), some old)
    else (s, some old)

def progMmap (s : State) (env : ℕ → Answer) (bytes prot : ℕ) : State × ℕ :=
  let n := progMemPages bytes
  if n = 0 then (s, 0)
  else match s.mem.progMemReserve n false with
    | none => (s, 0)
    | some (m, va) =>
      match pmAdd ⟨m, s.frames⟩ (env 0) va n prot false with
      | (s, false) => ({ s with mem := { s.mem with mmapCur := va } }, 0)
      | (s, true) => (s, va)

def progMunmap (s : State) (vaddr : ℕ) : State × Option IrisError :=
  match s.mem.progMemFind vaddr 1 with
  | none => (s, some .notFound)
  | some i =>
    match s.mem.maps[i]? with
    | none => (s, some .notFound)
    | some e =>
      if e.vaddr ≠ vaddr then (s, some .notFound)
      else if e.heap then (s, some .invalidArg)
      else (s.pmDrop i, none)

def progMprotect (s : State) (env : ℕ → Answer) (vaddr bytes prot : ℕ) : State × Option IrisError :=
  match s.mem.progMemFind vaddr bytes with
  | none => (s, some .notFound)
  | some i =>
    match s.mem.maps[i]? with
    | none => (s, some .notFound)
    | some e =>
      if vaddr ≠ e.vaddr ∨ bytes ≠ e.bytes then (s, some .notSupported)
      else if prot = e.prot then (s, none)
      else match s.frames.unmap e.slot e.vaddr with
        | (k, false) => (⟨s.mem, k⟩, some .invalidArg)
        | (k, true) =>
          match k.mapFrame (env 0) e.slot s.mem.ptSlot e.vaddr prot with
          | (k, true) => (⟨{ s.mem with maps := s.mem.maps.set i { e with prot } }, k⟩, none)
          | (k, false) =>
            match k.mapFrame (env 1) e.slot s.mem.ptSlot e.vaddr e.prot with
            | (k, true) => (⟨s.mem, k⟩, some .invalidArg)
            | (k, false) => (⟨s.mem.progMemForget i, k⟩, some .invalidArg)

end State

inductive Call
  | brk (delta : Int)
  | mmap (bytes prot : ℕ)
  | munmap (vaddr : ℕ)
  | mprotect (vaddr bytes prot : ℕ)
  deriving DecidableEq

/-- A call, with the kernel's answers during it. -/
def act (s : State) : (ℕ → Answer) × Call → State
  | (env, .brk delta) => (s.progBrk env delta).1
  | (env, .mmap bytes prot) => (s.progMmap env bytes prot).1
  | (_, .munmap vaddr) => (s.progMunmap vaddr).1
  | (env, .mprotect vaddr bytes prot) => (s.progMprotect env vaddr bytes prot).1

/-- The slots for mappings, and the scratch slot for page tables, which is not one of them. -/
structure SlotRange where
  lo : ℕ
  hi : ℕ
  pt : ℕ
  bounded : hi + 1 < 2 ^ 32
  apart : pt < lo ∨ hi < pt

def SlotRange.start (r : SlotRange) (k : Frames) : State :=
  ⟨progMemSetup userPrivateBase r.lo r.hi r.pt, k⟩

end IrisOS.Program
