import IrisOS.Vfs.Revocation

/-! The data of the pager service (`pager_proto.h`, `pager/main.c`), and what its system calls act
on: the contents of its page frames and their mappings in the targets. -/
namespace IrisOS.Pager
open Lib Vfs Function

abbrev pgrMaxTargets : ℕ := 16
abbrev pgrMaxBackings : ℕ := 4
abbrev pgrMaxRegions : ℕ := 16
abbrev pgrCacheCap : ℕ := 8
abbrev pgrPrivCap : ℕ := 8

abbrev Target := Fin pgrMaxTargets
abbrev BackingIdx := Fin pgrMaxBackings
abbrev RegionIdx := Fin pgrMaxRegions
abbrev CacheSlot := Fin pgrCacheCap
abbrev PrivSlot := Fin pgrPrivCap

def pageSz : ℕ := 4096

def pgrModeRoShared : UInt32 := 0
def pgrModePrivateWritable : UInt32 := 1

def pgrProtR : UInt32 := 1
def pgrProtW : UInt32 := 2
def pgrProtX : UInt32 := 4

/-- The markers of the pager's replies; `sys` is the error of a system call. -/
inductive PgrError
  | badop | info | nofault | noRegion | staleGen | shortRead | cacheFull | mode | access | range
  | noback | privfull | grant | sys
  deriving DecidableEq

/-- A registered file: a grant of the pager's session and the identity the VFS issued for it. -/
structure Backing where
  used : Bool := false
  grantIdx : UInt32 := 0
  backingId : UInt64 := 0
  generation : UInt64 := 0
  fileSize : UInt64 := 0
  deriving DecidableEq

/-- A registered region; `file` remembers the file it was registered against. -/
structure Region where
  used : Bool := false
  targetIdx : Target := 0
  backingIdx : BackingIdx := 0
  prot : UInt32 := 0
  mode : UInt32 := 0
  startVa : UInt64 := 0
  memLen : UInt64 := 0
  fileOff : UInt64 := 0
  fileLen : UInt64 := 0
  backingGen : UInt64 := 0
  cacheRefmask : CacheSlot → Bool := fun _ => false
  privOwnmask : PrivSlot → Bool := fun _ => false
  file : UInt64 := 0
  deriving DecidableEq

namespace Region

def withRef (rg : Region) (c : CacheSlot) : Region :=
  { rg with cacheRefmask := update rg.cacheRefmask c true }

def withPriv (rg : Region) (j : PrivSlot) : Region :=
  { rg with privOwnmask := update rg.privOwnmask j true }

def released (rg : Region) : Region :=
  { rg with cacheRefmask := fun _ => false, privOwnmask := fun _ => false }

theorem ref_withRef {rg : Region} {c c' : CacheSlot} :
    (rg.withRef c).cacheRefmask c' = true ↔ rg.cacheRefmask c' = true ∨ c' = c := by
  unfold withRef
  by_cases h : c' = c
  · subst h
    simp
  · simp [h]

theorem priv_withPriv {rg : Region} {j j' : PrivSlot} :
    (rg.withPriv j).privOwnmask j' = true ↔ rg.privOwnmask j' = true ∨ j' = j := by
  unfold withPriv
  by_cases h : j' = j
  · subst h
    simp
  · simp [h]

end Region

/-- An entry of the page cache; `fill` remembers how many file bytes it was filled with. -/
structure CacheEntry where
  valid : Bool := false
  backingId : UInt64 := 0
  generation : UInt64 := 0
  pageOff : UInt64 := 0
  refcount : ℕ := 0
  fill : ℕ := 0
  deriving DecidableEq

/-- The page of a file that a cache entry is for. -/
abbrev FilePage := UInt64 × UInt64 × UInt64

def CacheEntry.key (e : CacheEntry) : FilePage := (e.backingId, e.generation, e.pageOff)

/-- A page frame of the pager. -/
inductive Page
  | cache (c : CacheSlot)
  | priv (j : PrivSlot)
  deriving DecidableEq

/-- A fault record, as far as the pager reads it. -/
structure FaultRec where
  vector : UInt32 := 14
  task : UInt32 := 1
  seq : UInt32 := 1
  error : UInt32 := 0
  cr2 : UInt64
  deriving DecidableEq

/-- A page of a target, with the region and the file page it was mapped for. -/
structure Mapping where
  target : Target
  va : UInt64
  page : Page
  writable : Bool
  region : RegionIdx
  filePage : FilePage
  deriving DecidableEq

/-- The pager, the contents of its frames and the mappings of them that no unmap has ended. -/
structure World where
  back : BackingIdx → Backing := fun _ => {}
  reg : RegionIdx → Region := fun _ => {}
  cache : CacheSlot → CacheEntry := fun _ => {}
  privUsed : PrivSlot → Bool := fun _ => false
  frameMade : Page → Bool := fun _ => false
  held : Target → Option FaultRec := fun _ => none
  frames : Page → ℕ → UInt8 := fun _ _ => 0
  maps : List Mapping := []

/-- The VFS instance that the pager is a session of. -/
structure Instance where
  exports : List VfsExport
  mem : UInt64 → UInt8
  epoch : UInt64
  session : Session

/-- The dispatcher after the requests it has served. -/
def Instance.vfs (I : Instance) (served : List Input) : VfsEpState :=
  runFrom Vfs.step (grantsInit I.exports I.mem I.epoch) served

/-- The bytes of the file that an identity stands for. -/
def Instance.file (I : Instance) (backingId : UInt64) : List UInt8 :=
  match (grantsInit I.exports I.mem I.epoch).exports.find? fun e =>
      e.ready && e.backingId == backingId with
  | some e => contents I.mem e
  | none => []

/-- What the calls of one operation meet: faults, the kernel's answers, what the VFS has served
(nothing when a request fails), and what a target that can write to a page leaves in it. -/
structure Env where
  arrivals : List (UInt64 × FaultRec) := []
  retypeOk : Bool := true
  scratchOk : Bool := true
  unmapOk : Bool := true
  mapOk : Bool := true
  replyOk : Bool := true
  calls : ℕ → Option (List Input)
  scribble : ℕ → UInt8 := fun _ => 0

namespace World

def setBack (w : World) (b : BackingIdx) (v : Backing) : World :=
  { w with back := update w.back b v }

def setReg (w : World) (ri : RegionIdx) (v : Region) : World :=
  { w with reg := update w.reg ri v }

def setCache (w : World) (c : CacheSlot) (v : CacheEntry) : World :=
  { w with cache := update w.cache c v }

def setPrivUsed (w : World) (j : PrivSlot) (b : Bool) : World :=
  { w with privUsed := update w.privUsed j b }

def setFrame (w : World) (pg : Page) (v : ℕ → UInt8) : World :=
  { w with frames := update w.frames pg v }

def setHeld (w : World) (t : Target) (r : Option FaultRec) : World :=
  { w with held := update w.held t r }

def setMade (w : World) (pg : Page) : World :=
  { w with frameMade := update w.frameMade pg true }

theorem reg_setReg (w : World) (ri ri' : RegionIdx) (v : Region) :
    (w.setReg ri v).reg ri' = if ri' = ri then v else w.reg ri' := update_apply _ _ _ _

theorem cache_setCache (w : World) (c c' : CacheSlot) (v : CacheEntry) :
    (w.setCache c v).cache c' = if c' = c then v else w.cache c' := update_apply _ _ _ _

def addMap (w : World) (m : Mapping) : World := { w with maps := m :: w.maps }

def exposed (w : World) (pg : Page) : Bool := w.maps.any fun m => m.page = pg && m.writable

end World

end IrisOS.Pager
