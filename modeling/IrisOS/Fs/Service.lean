import IrisOS.Lib.LittleEndian
import Mathlib.Data.List.Range

/-! The file service (`fs/main.c`): a superblock, a directory sector and one sector for each file.
Sector writes are atomic; each block operation may fail, and the machine may stop after it. -/
namespace IrisOS.Fs
open Lib

def fsMagic0 : ℕ := 0x53464953495253
def fsVersion : ℕ := 1
def fsMaxFiles : ℕ := 16
def fsSector : ℕ := 512
def fsDirLba : ℕ := 1
def fsDataLba : ℕ := 16
def fsNameBytes : ℕ := 16
def fsScratchOff : ℕ := 496
def fsScratchToken : ℕ := 0x4B4F2D544D462D53

abbrev Sector := ℕ → UInt8

abbrev Disk := ℕ → Sector

/-! ## Sectors -/

/-- The magic and the version of an IRIS filesystem. -/
def IsSuper (d : Sector) : Prop :=
  loadLe d 8 = fsMagic0 ∧ loadLe (fun j => d (8 + j)) 4 = fsVersion

instance (d : Sector) : Decidable (IsSuper d) := inferInstanceAs (Decidable (_ ∧ _))

def hasToken (d : Sector) : Bool := loadLe (fun j => d (fsScratchOff + j)) 8 = fsScratchToken

/-- A superblock over a zeroed buffer: the fields of `sb`, and the token carried across. -/
def superSector (sb : Sector) : Sector := fun a =>
  if a < 24 then sb a
  else if fsScratchOff ≤ a ∧ a < fsScratchOff + 8 then byteOf fsScratchToken (a - fsScratchOff)
  else 0

def newSuper : Sector := fun a =>
  if a < 8 then byteOf fsMagic0 a
  else if a < 12 then byteOf fsVersion (a - 8)
  else if a < 16 then byteOf 1 (a - 12)
  else 0

def nextSuper (sb : Sector) : Sector := fun a =>
  if 12 ≤ a ∧ a < 16 then byteOf (loadLe (fun j => sb (12 + j)) 4 + 1) (a - 12) else sb a

def entryName (d : Sector) (i : ℕ) : List UInt8 :=
  (List.range fsNameBytes).map fun k => d (32 * i + k)

/-- The size of a directory entry; 0 is a free one. -/
def entrySize (d : Sector) (i : ℕ) : ℕ := loadLe (fun j => d (32 * i + 16 + j)) 4

def setEntry (d : Sector) (i : ℕ) (name : ℕ → UInt8) (len : ℕ) : Sector := fun a =>
  if a / 32 = i ∧ a % 32 < 16 then name (a % 32)
  else if a / 32 = i ∧ a % 32 < 20 then byteOf len (a % 32 - 16)
  else d a

def namePack (w₀ w₁ : UInt64) (k : ℕ) : UInt8 :=
  if k < 8 then byteOf w₀.toNat k else byteOf w₁.toNat (k - 8)

/-- The entry of that name, or the first free one when it is wanted. -/
def dirFind (d : Sector) (name : List UInt8) (wantFree : Bool) : Option ℕ :=
  ((List.range fsMaxFiles).find? fun i => entrySize d i ≠ 0 ∧ entryName d i = name).or
    (if wantFree then (List.range fsMaxFiles).find? fun i => entrySize d i = 0 else none)

/-! ## Requests -/

/-- A sector write is answered OK, answered as failed, or the machine stops; the last two leave it
written or not. -/
inductive Fate
  | ok
  | failed (landed : Bool)
  | crash (landed : Bool)
  deriving DecidableEq

def Fate.landed : Fate → Bool
  | ok => true
  | failed landed => landed
  | crash landed => landed

def Fate.crashed : Fate → Bool
  | crash _ => true
  | _ => false

/-- A client's write: its name, its bytes and whether it was answered OK. -/
structure Written where
  name : List UInt8
  data : List UInt8
  ok : Bool
  deriving DecidableEq

/-- The service and its disk. The log has the writes of the clients, the latest first. -/
structure State where
  disk : Disk
  mounted : Bool := false
  log : List Written := []

/-- The block operations of a mount, in their order. -/
structure MountIo where
  read : Bool := true
  buffer : Bool := true
  super : Fate := .ok
  buffer' : Bool := true
  dir : Fate := .ok
  deriving DecidableEq

def MountIo.superLands (io : MountIo) : Bool := io.buffer && io.super.landed

/-- The directory was written after it, and reached the disk. -/
def MountIo.dirLands (io : MountIo) : Bool :=
  (io.buffer && io.super = .ok && io.buffer') && io.dir.landed

def State.store (s : State) (lands : Bool) (lba : ℕ) (sector : Sector) : State :=
  if lands then { s with disk := Function.update s.disk lba sector } else s

/-- A mount, which begins with the service not mounted. -/
def mount (s : State) (io : MountIo) : State :=
  if io.read = false then { s with mounted := false }
  else if IsSuper (s.disk 0) then
    let s₁ := s.store io.superLands 0 (superSector (nextSuper (s.disk 0)))
    { s₁ with mounted := io.buffer && io.super = .ok }
  else if hasToken (s.disk 0) then
    let s₁ := s.store io.superLands 0 (superSector newSuper)
    let s₂ := s₁.store io.dirLands fsDirLba fun _ => 0
    { s₂ with mounted := (io.buffer && io.super = .ok && io.buffer') && io.dir = .ok }
  else { s with mounted := false }

/-- The block operations of a write, in their order. -/
structure WriteIo where
  find : Bool := true
  buffer : Bool := true
  data : Fate := .ok
  read : Bool := true
  buffer' : Bool := true
  dir : Fate := .ok
  deriving DecidableEq

def WriteIo.dataLands (io : WriteIo) : Bool := io.buffer && io.data.landed

/-- The directory is written only after the contents were answered OK. -/
def WriteIo.dirTried (io : WriteIo) : Bool :=
  io.buffer && io.data = .ok && io.read && io.buffer'

def WriteIo.dirLands (io : WriteIo) : Bool := io.dirTried && io.dir.landed

def WriteIo.crashed (io : WriteIo) : Bool :=
  (io.buffer && io.data.crashed) || (io.dirTried && io.dir.crashed)

/-- The write request of a client: the words of its name, its length and the shared buffer. -/
structure WriteReq where
  w₀ : UInt64
  w₁ : UInt64
  len : UInt32
  buf : ℕ → UInt8

namespace WriteReq

def name (q : WriteReq) : List UInt8 := (List.range fsNameBytes).map (namePack q.w₀ q.w₁)

def data (q : WriteReq) : List UInt8 := (List.range q.len.toNat).map q.buf

/-- The contents over a zeroed buffer. -/
def sector (q : WriteReq) : Sector := fun a => if a < q.len.toNat then q.buf a else 0

end WriteReq

def target (s : State) (q : WriteReq) (io : WriteIo) : Option ℕ :=
  if 0 < q.len.toNat ∧ q.len.toNat ≤ fsSector ∧ io.find = true then
    dirFind (s.disk fsDirLba) q.name true
  else none

def logged (s : State) (q : WriteReq) (ok : Bool) : State :=
  { s with log := ⟨q.name, q.data, ok⟩ :: s.log }

/-- The contents first, the directory second. -/
def write (s : State) (q : WriteReq) (io : WriteIo) : State :=
  if s.mounted = false then logged s q false
  else match target s q io with
    | none => logged s q false
    | some i =>
      let s₁ := s.store io.dataLands (fsDataLba + i) q.sector
      let s₂ := s₁.store io.dirLands fsDirLba
        (setEntry (s.disk fsDirLba) i (namePack q.w₀ q.w₁) q.len.toNat)
      logged { s₂ with mounted := !io.crashed } q (io.dirTried && io.dir = .ok)

/-- A read: the size and the bytes of the file, when the request is answered OK. -/
def read (s : State) (w₀ w₁ : UInt64) (dirRead dataRead : Bool) : Option (ℕ × List UInt8) :=
  if s.mounted = false ∨ dirRead = false then none
  else
    let d := s.disk fsDirLba
    match dirFind d ((List.range fsNameBytes).map (namePack w₀ w₁)) false with
    | none => none
    | some i =>
      if 0 < entrySize d i ∧ entrySize d i ≤ fsSector ∧ dataRead = true then
        some (entrySize d i, (List.range fsSector).map (s.disk (fsDataLba + i)))
      else none

/-- What happens to the service. Reads leave it as it is; a crash may come between requests. -/
inductive Op
  | mount (io : MountIo)
  | write (q : WriteReq) (io : WriteIo)
  | crash

def step (s : State) : Op → State
  | .mount io => mount s io
  | .write q io => write s q io
  | .crash => { s with mounted := false }

end IrisOS.Fs
