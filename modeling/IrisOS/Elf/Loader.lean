import IrisOS.Elf.Reloc

/-! The service loader's way through an image: header checks, collection of the segments, copy into
their windows, and relocation. The kernel calls in between and the load bias are inputs. -/
namespace IrisOS.Elf
open Lib (loadLe Traced)
open Lib.Traced

/-- A file of a given size; what is read past its end is whatever is mapped there. -/
structure Image where
  bytes : ℕ → UInt8
  size : ℕ

def ehdrBytes : ℕ := 64
def phdrBytes : ℕ := 56
def dynBytes : ℕ := 16
def etDyn : ℕ := 3
def emX8664 : ℕ := 62
def ptLoad : ℕ := 1
def ptDynamic : ℕ := 2
def ptInterp : ℕ := 3
def dtNull : ℕ := 0
def dtRela : ℕ := 7
def dtRelasz : ℕ := 8
def dtRelaent : ℕ := 9
def slMaxSegs : ℕ := 8
def slSegSlotSize : ℕ := 0x400000
def slElfVaddr : ℕ := 0x8050000000
def slSegVaddrBase : ℕ := slElfVaddr + 0x400000

def slPageFloor (v : ℕ) : ℕ := v / 4096 * 4096
def slPageCeil (v : ℕ) : ℕ := (v + 4095) % 2 ^ 64 / 4096 * 4096

/-- A collected segment: its program header and the page-rounded window it gets. -/
structure Segment where
  vaddr : ℕ
  memsz : ℕ
  filesz : ℕ
  offset : ℕ
  flags : ℕ
  mapBase : ℕ
  mapSize : ℕ
  pageOff : ℕ
  deriving DecidableEq

/-- What the header check leaves for the later passes. -/
structure Header where
  phoff : ℕ
  phnum : ℕ
  phentsize : ℕ
  deriving DecidableEq

/-- Where program header `i` is read: the table is walked by the size of the structure. -/
def Header.phdr (eh : Header) (i : ℕ) : ℕ := eh.phoff + i * phdrBytes

def checkHeader (img : Image) : Traced Access Header := do
  check (ehdrBytes ≤ img.size)
  let ident ← load img.bytes 0 4
  check (ident = 0x464C457F)
  let type ← load img.bytes 16 2
  check (type = etDyn)
  let machine ← load img.bytes 18 2
  check (machine = emX8664)
  let phnum ← load img.bytes 56 2
  let phentsize ← load img.bytes 54 2
  check (phnum ≠ 0 ∧ phdrBytes ≤ phentsize)
  let phoff ← load img.bytes 32 8
  check (phoff ≤ img.size)
  check (phnum * phentsize ≤ img.size - phoff)
  pure ⟨phoff, phnum, phentsize⟩

/-- The window of a segment, in 64-bit arithmetic. -/
def windowOf (vaddr memsz filesz offset flags : ℕ) : Segment :=
  let mapBase := slPageFloor vaddr
  let mapEnd := slPageCeil ((vaddr + memsz) % 2 ^ 64)
  { vaddr, memsz, filesz, offset, flags, mapBase
    mapSize := (mapEnd + 2 ^ 64 - mapBase) % 2 ^ 64
    pageOff := vaddr - mapBase }

/-- One program header of the collection loop. -/
def collect (img : Image) (eh : Header) (segs : List Segment) (i : ℕ) :
    Traced Access (List Segment) := do
  let type ← load img.bytes (eh.phdr i) 4
  if type ≠ ptLoad then pure segs else do
  let memsz ← load img.bytes (eh.phdr i + 40) 8
  if memsz = 0 then pure segs else do
  let offset ← load img.bytes (eh.phdr i + 8) 8
  check (offset ≤ img.size)
  let filesz ← load img.bytes (eh.phdr i + 32) 8
  check (filesz ≤ img.size - offset)
  check (segs.length < slMaxSegs)
  check (filesz ≤ memsz)
  let vaddr ← load img.bytes (eh.phdr i + 16) 8
  let flags ← load img.bytes (eh.phdr i + 4) 4
  let seg := windowOf vaddr memsz filesz offset flags
  check (seg.mapSize ≠ 0 ∧ seg.mapSize ≤ slSegSlotSize)
  check (seg.mapBase ≤ (seg.mapBase + seg.mapSize) % 2 ^ 64)
  pure (segs ++ [seg])

def copyBytes (seg : Segment) : Traced Access Unit :=
  if seg.filesz = 0 then pure () else do
  emit (.read seg.offset seg.filesz)
  emit (.fill seg.mapSize seg.pageOff seg.filesz)

def zeroRest (seg : Segment) : Traced Access Unit :=
  if seg.memsz ≤ seg.filesz then pure () else
  emit (.fill seg.mapSize (seg.pageOff + seg.filesz) (seg.memsz - seg.filesz))

def copySegment (seg : Segment) : Traced Access Unit := do
  copyBytes seg
  zeroRest seg

/-- Whether a program header of the given type is found, and where; the walk stops at it. -/
def findPhdr (img : Image) (type : ℕ) (at_ : ℕ → ℕ) : List ℕ → Traced Access (Option ℕ)
  | [] => pure none
  | i :: rest => do
    let t ← load img.bytes (at_ i) 4
    if t = type then pure (some i) else findPhdr img type at_ rest

/-- `elf_image_has_interp` walks the table by the entry size that the header declares. -/
def elfImageHasInterp (img : Image) (eh : Header) : Traced Access (Option ℕ) :=
  findPhdr img ptInterp (fun i => eh.phoff + i * eh.phentsize) (List.range eh.phnum)

/-- The relocation table that a dynamic section names. -/
structure RelaTable where
  vaddr : ℕ
  bytes : ℕ
  ent : ℕ
  deriving DecidableEq

/-- Where entry `k` of a dynamic section is read, as a 64-bit offset from the image. -/
def dynAt (dyn k : ℕ) : ℕ := (dyn + k * dynBytes) % 2 ^ 64

/-- The loop of `elf_find_rela` over the remaining entries, up to `DT_NULL`. -/
def findRelaLoop (img : Image) (dyn : ℕ) : ℕ → ℕ → RelaTable → Traced Access RelaTable
  | 0, _, t => pure t
  | n + 1, k, t => do
    let tag ← load img.bytes (dynAt dyn k) 8
    if tag = dtNull then pure t
    else if tag = dtRela then do
      let v ← load img.bytes (dynAt dyn k + 8) 8
      findRelaLoop img dyn n (k + 1) { t with vaddr := v }
    else if tag = dtRelasz then do
      let v ← load img.bytes (dynAt dyn k + 8) 8
      findRelaLoop img dyn n (k + 1) { t with bytes := v }
    else if tag = dtRelaent then do
      let v ← load img.bytes (dynAt dyn k + 8) 8
      findRelaLoop img dyn n (k + 1) { t with ent := v }
    else findRelaLoop img dyn n (k + 1) t

def elfFindRela (img : Image) (dyn maxEntries : ℕ) : Traced Access (Option RelaTable) := do
  let t ← findRelaLoop img dyn maxEntries 0 ⟨0, 0, relaBytes⟩
  pure (if t.bytes = 0 ∨ t.ent < relaBytes then none else some t)

/-- The file offset of a virtual address, by the first loadable header that holds it. -/
def slVaddrToFoff (img : Image) (eh : Header) (vaddr : ℕ) : List ℕ → Traced Access ℕ
  | [] => pure (2 ^ 64 - 1)
  | i :: rest => do
    let type ← load img.bytes (eh.phdr i) 4
    if type ≠ ptLoad then slVaddrToFoff img eh vaddr rest else do
    let pvaddr ← load img.bytes (eh.phdr i + 16) 8
    let filesz ← load img.bytes (eh.phdr i + 32) 8
    if vaddr < pvaddr ∨ (pvaddr + filesz) % 2 ^ 64 ≤ vaddr then
      slVaddrToFoff img eh vaddr rest
    else do
    let offset ← load img.bytes (eh.phdr i + 8) 8
    pure ((offset + (vaddr - pvaddr)) % 2 ^ 64)

/-- The segments as the loader can write them: the window of slot `i`. -/
def segView (i : ℕ) (seg : Segment) : SegView where
  vaddr := UInt64.ofNat seg.vaddr
  bytes := UInt64.ofNat seg.memsz
  host := UInt64.ofNat (slSegVaddrBase + i * slSegSlotSize + (seg.vaddr - seg.mapBase))

/-- The memory in which the relocation pass finds the image. -/
def Image.mapped (img : Image) : Mem := fun a => img.bytes (a - UInt64.ofNat slElfVaddr).toNat

/-- The relocation of an image without an interpreter, by its first dynamic section. -/
def relocate (img : Image) (eh : Header) (segs : List Segment) (bias : UInt64) :
    Traced Access Unit := do
  let dynamic ← findPhdr img ptDynamic eh.phdr (List.range eh.phnum)
  match dynamic with
  | none => pure ()
  | some i => do
    let dyn ← load img.bytes (eh.phdr i + 8) 8
    let filesz ← load img.bytes (eh.phdr i + 32) 8
    let found ← elfFindRela img dyn (filesz / dynBytes)
    match found with
    | none => pure ()
    | some t => do
      let foff ← slVaddrToFoff img eh t.vaddr (List.range eh.phnum)
      check (foff ≠ 2 ^ 64 - 1)
      check (foff ≤ img.size ∧ t.bytes ≤ img.size - foff)
      let _ ← elfApplyRelative (segs.mapIdx segView) bias (UInt64.ofNat slElfVaddr) img.mapped
        foff t.bytes t.ent
      pure ()

/-- The loader from the mapped image on. `made`: the kernel calls that build the child succeed. -/
def slLoadCore (img : Image) (bias : UInt64) (made : Bool) : Traced Access Unit := do
  let eh ← checkHeader img
  let segs ← (List.range eh.phnum).foldlM (collect img eh) []
  check (segs ≠ [])
  check (made = true)
  segs.foldlM (fun _ seg => copySegment seg) ()
  let interp ← elfImageHasInterp img eh
  if interp.isSome then pure () else relocate img eh segs bias

end IrisOS.Elf
