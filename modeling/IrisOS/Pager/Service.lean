import IrisOS.Pager.Basic

/-! The operations of the pager (`pager/main.c`). An operation that fails keeps what it has done so
far, as the source does. -/
namespace IrisOS.Pager
open Vfs

/-- An operation's result: the world it leaves and its error, if any. -/
abbrev Done := World × Option PgrError

/-! ## Reading through the VFS -/

/-- A request of the pager to the VFS, on its session capability. -/
def Instance.request (I : Instance) (label : UInt64) (words : Fin 4 → UInt64) (wordCount : ℕ) :
    Input :=
  ⟨{ label := label, words := words, wordCount := wordCount
     senderBadge := irisBadgeFilegrantBase + I.session.val.toUInt64 }, none⟩

/-- `GRANT_QUERY_IDENTITY`: the identity and the rights of a grant. -/
def grantQuery (I : Instance) (grantIdx : UInt32) (call : Option (List Input)) :
    Option (UInt64 × UInt64 × UInt64) :=
  match call with
  | none => none
  | some served =>
    let rep := answer (I.vfs served) (I.request 0x0113 ![grantIdx.toUInt64, 0, 0, 0] 1)
    if rep.label = .ok then some (rep.words 1, rep.words 2, rep.words 3) else none

/-- The reply to one `GRANT_READ_AT`. -/
def readReplyAt (I : Instance) (grantIdx : UInt32) (served : List Input) (off : UInt64)
    (len : ℕ) : Reply :=
  answer (I.vfs served) (I.request 0x0112 ![grantIdx.toUInt64, off, len.toUInt64, 0] 3)

/-- The loop of `pg_read_file`, after `k` calls. Every round but the last adds a byte. -/
def readLoop (I : Instance) (grantIdx : UInt32) (off : UInt64) (want : ℕ)
    (calls : ℕ → Option (List Input)) : ℕ → ℕ → List UInt8 → List UInt8 × Option PgrError
  | 0, _, acc => (acc, none)
  | fuel + 1, k, acc =>
    if acc.length < want then
      match calls k with
      | none => (acc, some .sys)
      | some served =>
        let rep := readReplyAt I grantIdx served (off + acc.length.toUInt64)
          (min (want - acc.length) vfsEpDataMax)
        if rep.label = .ok then
          let n := (rep.words 1).toUInt32.toNat
          if n = 0 then (acc, none)
          else readLoop I grantIdx off want calls fuel (k + 1)
            (acc ++ rep.payload.take (min n (want - acc.length)))
        else (acc, some .grant)
    else (acc, none)

def readFile (I : Instance) (grantIdx : UInt32) (off : UInt64) (want : ℕ)
    (calls : ℕ → Option (List Input)) : List UInt8 × Option PgrError :=
  readLoop I grantIdx off want calls want 0 []

/-- The frame behind a page, retyped on first use. -/
def pageFrame (w : World) (pg : Page) (env : Env) : World × Bool :=
  if w.frameMade pg then (w, true)
  else if env.retypeOk then (w.setMade pg, true)
  else (w, false)

/-- The bytes that go into a page, and the error that cut them short. -/
def fillBytes (I : Instance) (bk : Backing) (off : UInt64) (fb : ℕ) (env : Env) :
    List UInt8 × Option PgrError :=
  if fb > 0 then readFile I bk.grantIdx off fb env.calls else ([], none)

/-- Fill a page with file bytes and zeros after them. -/
def fillPage (I : Instance) (w : World) (pg : Page) (bk : Backing) (off : UInt64) (fb : ℕ)
    (env : Env) : Done :=
  let (w, made) := pageFrame w pg env
  if !made then (w, some .sys)
  else if !env.scratchOk then (w, some .sys)
  else
    let fb := min fb pageSz
    let r := fillBytes I bk off fb env
    let w := w.setFrame pg fun i => r.1.getD i 0
    match r.2 with
    | some e => (w, some e)
    | none =>
      if r.1.length < fb then (w, some .shortRead)
      else if env.unmapOk then (w, none)
      else (w, some .sys)

/-! ## The cache -/

def cacheFind (w : World) (bk : Backing) (off : UInt64) : Option CacheSlot :=
  (List.finRange pgrCacheCap).find? fun c =>
    (w.cache c).valid && (w.cache c).key = (bk.backingId, bk.generation, off)

/-- A slot that may be used: one that is not valid, else the first that no region refers to. -/
def cacheAlloc (w : World) : World × Option CacheSlot :=
  match (List.finRange pgrCacheCap).find? fun c => !(w.cache c).valid with
  | some c => (w, some c)
  | none =>
    match (List.finRange pgrCacheCap).find? fun c => (w.cache c).refcount = 0 with
    | some c => (w.setCache c { w.cache c with valid := false }, some c)
    | none => (w, none)

/-! ## Faults -/

/-- Receive until a fault of the target is there; those of others with one held are dropped. -/
def receiveFaults (w : World) (t : Target) : List (UInt64 × FaultRec) → World × Bool
  | [] => (w, false)
  | (badge, rec) :: rest =>
    if h : 0 < badge.toNat ∧ badge.toNat ≤ pgrMaxTargets then
      let who : Target := ⟨badge.toNat - 1, by omega⟩
      if (w.held who).isSome then receiveFaults w t rest
      else if who = t then (w.setHeld who (some rec), true)
      else receiveFaults (w.setHeld who (some rec)) t rest
    else receiveFaults w t rest

def waitFault (w : World) (t : Target) (env : Env) : World × Bool :=
  if (w.held t).isSome then (w, true) else receiveFaults w t env.arrivals

def faultAnswer (w : World) (t : Target) (env : Env) : Done :=
  if (w.held t).isSome then (w.setHeld t none, if env.replyOk then none else some .sys)
  else (w, some .nofault)

/-! ## Resolving a fault -/

/-- The region of a target that an address lies in. -/
def findRegion (w : World) (t : Target) (va : UInt64) : Option RegionIdx :=
  (List.finRange pgrMaxRegions).find? fun ri =>
    (w.reg ri).used && (w.reg ri).targetIdx = t && (w.reg ri).startVa ≤ va &&
      va < (w.reg ri).startVa + (w.reg ri).memLen

/-- The number of file bytes in the page of a region at an offset. -/
def fileBytes (rg : Region) (regionOff : UInt64) : ℕ :=
  if regionOff ≥ rg.fileLen then 0 else min (rg.fileLen - regionOff).toNat pageSz

/-- Where a fault lands: the target, its region, the page address and the page's file offset. -/
structure Place where
  target : Target
  region : RegionIdx
  va : UInt64
  fileOff : UInt64
  bytes : ℕ
  deriving DecidableEq

def takeCache (w : World) (ri : RegionIdx) (c : CacheSlot) : World :=
  let rg := w.reg ri
  if rg.cacheRefmask c then w
  else (w.setReg ri (rg.withRef c)).setCache c
    { w.cache c with refcount := (w.cache c).refcount + 1 }

def takePriv (w : World) (ri : RegionIdx) (j : PrivSlot) : World :=
  (w.setPrivUsed j true).setReg ri ((w.reg ri).withPriv j)

/-- Map a cache page read-only and take a reference for the region. -/
def mapCache (w : World) (p : Place) (bk : Backing) (c : CacheSlot) (env : Env) : Done :=
  let (w, made) := pageFrame w (.cache c) env
  if !made then (w, some .sys)
  else if !env.mapOk then (w, some .sys)
  else faultAnswer ((takeCache w p.region c).addMap ⟨p.target, p.va, .cache c, false, p.region,
    (bk.backingId, bk.generation, p.fileOff)⟩) p.target env

/-- A fault in a read-only region: a hit in the cache, or a fresh fill. -/
def resolveShared (I : Instance) (w : World) (p : Place) (bk : Backing) (env : Env) : Done :=
  match cacheFind w bk p.fileOff with
  | some c => mapCache w p bk c env
  | none =>
    match cacheAlloc w with
    | (w, none) => (w, some .cacheFull)
    | (w, some c) =>
      match fillPage I w (.cache c) bk p.fileOff p.bytes env with
      | (w, some e) => (w, some e)
      | (w, none) =>
        mapCache (w.setCache c ⟨true, bk.backingId, bk.generation, p.fileOff, 0, p.bytes⟩) p bk c
          env

/-- What a target that can still write to a page does between its fill and its map. -/
def scribbled (w : World) (pg : Page) (env : Env) : World :=
  if w.exposed pg then w.setFrame pg env.scribble else w

/-- A fault in a private region: a fresh page. -/
def resolvePrivate (I : Instance) (w : World) (p : Place) (bk : Backing) (env : Env) : Done :=
  match (List.finRange pgrPrivCap).find? fun j => !w.privUsed j with
  | none => (w, some .privfull)
  | some j =>
    match fillPage I w (.priv j) bk p.fileOff p.bytes env with
    | (w, some e) => (w, some e)
    | (w, none) =>
      let (w, made) := pageFrame (scribbled w (.priv j) env) (.priv j) env
      if !made then (w, some .sys)
      else if !env.mapOk then (w, some .sys)
      else faultAnswer ((takePriv w p.region j).addMap ⟨p.target, p.va, .priv j, true, p.region,
        (bk.backingId, bk.generation, p.fileOff)⟩) p.target env

def placeOf (w : World) (t : Target) (ri : RegionIdx) (va : UInt64) : Place :=
  let rg := w.reg ri
  ⟨t, ri, va, rg.fileOff + (va - rg.startVa), fileBytes rg (va - rg.startVa)⟩

def resolveFault (I : Instance) (w : World) (t : Target) (rec : FaultRec) (env : Env) : Done :=
  if rec.vector ≠ 14 ∨ rec.seq = 0 ∨ rec.task = 0 then (w, some .info)
  else
    let va := rec.cr2 &&& ~~~0xFFF
    match findRegion w t va with
    | none => (w, some .noRegion)
    | some ri =>
      let rg := w.reg ri
      let bk := w.back rg.backingIdx
      if !bk.used || bk.generation ≠ rg.backingGen then (w, some .staleGen)
      else if rec.error &&& 2 ≠ 0 ∧ rg.mode = pgrModeRoShared then (w, some .access)
      else if rg.mode = pgrModeRoShared then resolveShared I w (placeOf w t ri va) bk env
      else if rg.mode = pgrModePrivateWritable then resolvePrivate I w (placeOf w t ri va) bk env
      else (w, some .mode)

def resolveRegion (I : Instance) (w : World) (t : Target) (env : Env) : Done :=
  let (w, there) := waitFault w t env
  if !there then (w, some .nofault)
  else match w.held t with
    | none => (w, some .nofault)
    | some rec => resolveFault I w t rec env

/-! ## Control operations -/

/-- Give back what a region refers to. -/
def regionRelease (w : World) (ri : RegionIdx) : World :=
  let rg := w.reg ri
  { w with
    cache := fun c => if rg.cacheRefmask c then
      { w.cache c with refcount := (w.cache c).refcount - 1 } else w.cache c
    privUsed := fun j => if rg.privOwnmask j then false else w.privUsed j
    reg := Function.update w.reg ri rg.released }

structure BackingReq where
  backingIdx : ℕ
  grantIdx : UInt32
  backingId : UInt64
  generation : UInt64
  fileSize : UInt64

def registerBacking (I : Instance) (w : World) (rq : BackingReq) (env : Env) : Done :=
  if h : rq.backingIdx < pgrMaxBackings then
    if rq.grantIdx.toNat ≥ vfsGrantsPerSession then (w, some .range)
    else match grantQuery I rq.grantIdx (env.calls 0) with
      | none => (w, some .grant)
      | some (bid, gen, rights) =>
        if bid ≠ rq.backingId ∨ gen ≠ rq.generation then (w, some .grant)
        else if !hasRight rights.toUInt32 vfsFileRightRead then (w, some .grant)
        else (w.setBack ⟨_, h⟩ ⟨true, rq.grantIdx, rq.backingId, rq.generation, rq.fileSize⟩, none)
  else (w, some .badop)

structure RegionReq where
  regionIdx : ℕ
  targetIdx : ℕ
  backingIdx : ℕ
  prot : UInt32
  mode : UInt32
  startVa : UInt64
  memoryLength : UInt64
  fileOffset : UInt64
  fileLength : UInt64
  backingGeneration : UInt64

def overlaps (w : World) (ri : RegionIdx) (t : Target) (a₀ a₁ : UInt64) : Bool :=
  (List.finRange pgrMaxRegions).any fun i =>
    i ≠ ri && (w.reg i).used && (w.reg i).targetIdx = t &&
      a₀ < (w.reg i).startVa + (w.reg i).memLen && (w.reg i).startVa < a₁

/-- The addresses, lengths and protections of a region request are refused. -/
def badRegion (rq : RegionReq) (fileSize : UInt64) : Bool :=
  let vend := rq.startVa + rq.memoryLength
  let fend := rq.fileOffset + rq.fileLength
  rq.startVa &&& 0xFFF ≠ 0 || rq.memoryLength = 0 || rq.memoryLength &&& 0xFFF ≠ 0 ||
    rq.startVa < 0x0000008000000000 || vend < rq.startVa || vend > 0x0000800000000000 ||
    rq.fileOffset &&& 0xFFF ≠ 0 || fend < rq.fileOffset || fend > fileSize ||
    rq.fileLength > rq.memoryLength ||
    (rq.prot &&& pgrProtW ≠ 0 && rq.mode = pgrModeRoShared) ||
    (rq.prot &&& pgrProtW ≠ 0 && rq.prot &&& pgrProtX ≠ 0) ||
    rq.prot &&& ~~~(pgrProtR ||| pgrProtW ||| pgrProtX) ≠ 0 || rq.prot &&& pgrProtR = 0

def registerRegion (w : World) (rq : RegionReq) : Done :=
  if h : rq.regionIdx < pgrMaxRegions ∧ rq.targetIdx < pgrMaxTargets ∧
      rq.backingIdx < pgrMaxBackings then
    if rq.mode ≠ pgrModeRoShared ∧ rq.mode ≠ pgrModePrivateWritable then (w, some .mode)
    else
      let ri : RegionIdx := ⟨_, h.1⟩
      let b := w.back ⟨_, h.2.2⟩
      if !b.used || b.generation ≠ rq.backingGeneration then (w, some .noback)
      else if badRegion rq b.fileSize then (w, some .range)
      else if overlaps w ri ⟨_, h.2.1⟩ rq.startVa (rq.startVa + rq.memoryLength) then
        (w, some .range)
      else
        let w := if (w.reg ri).used then regionRelease w ri else w
        (w.setReg ri
          { used := true, targetIdx := ⟨_, h.2.1⟩, backingIdx := ⟨_, h.2.2⟩, prot := rq.prot
            mode := rq.mode, startVa := rq.startVa, memLen := rq.memoryLength
            fileOff := rq.fileOffset, fileLen := rq.fileLength
            backingGen := rq.backingGeneration, file := b.backingId }, none)
  else (w, some .badop)

def dropRegion (w : World) (ri : RegionIdx) : World :=
  let w := regionRelease w ri
  w.setReg ri { w.reg ri with used := false }

def unregisterRegion (w : World) (ridx : ℕ) : Done :=
  if h : ridx < pgrMaxRegions then
    if (w.reg ⟨ridx, h⟩).used then (dropRegion w ⟨ridx, h⟩, none) else (w, none)
  else (w, some .badop)

def revokeBacking (w : World) (bidx : ℕ) : Done :=
  if h : bidx < pgrMaxBackings then
    let b := w.back ⟨bidx, h⟩
    if b.used then
      ({ w.setBack ⟨bidx, h⟩ { b with generation := b.generation + 1, used := false } with
          cache := fun c =>
            if (w.cache c).valid && (w.cache c).backingId = b.backingId &&
                (w.cache c).refcount = 0 then
              { w.cache c with valid := false }
            else w.cache c }, none)
    else (w, none)
  else (w, some .badop)

def targetReset (w : World) (tidx : ℕ) : Done :=
  if h : tidx < pgrMaxTargets then
    ((List.finRange pgrMaxRegions).foldl (fun w ri =>
      if (w.reg ri).used && (w.reg ri).targetIdx = ⟨tidx, h⟩ then dropRegion w ri else w) w, none)
  else (w, some .badop)

/-- A fault served without a region: the frame mapped is none of the pager's pages. -/
def serveRaw (w : World) (tidx : ℕ) (refused : Option PgrError) (env : Env) : Done :=
  if h : tidx < pgrMaxTargets then
    let (w, there) := waitFault w ⟨tidx, h⟩ env
    if !there then (w, some .nofault)
    else match refused with
      | some e => (w, some e)
      | none => faultAnswer w ⟨tidx, h⟩ env
  else (w, some .badop)

/-! ## The service -/

/-- Control requests, a target's write to a page, and the end of a mapping. -/
inductive Event
  | mapRegion (tidx : ℕ) (env : Env)
  | registerBacking (rq : BackingReq) (env : Env)
  | registerRegion (rq : RegionReq)
  | unregisterRegion (ridx : ℕ)
  | revokeBacking (bidx : ℕ)
  | targetReset (tidx : ℕ)
  | raw (tidx : ℕ) (refused : Option PgrError) (env : Env)
  | write (pg : Page) (v : ℕ → UInt8)
  | unmap (t : Target) (va : UInt64)

/-- A request or another event, with its error. -/
def serve (I : Instance) (w : World) : Event → Done
  | .mapRegion tidx env =>
    if h : tidx < pgrMaxTargets then resolveRegion I w ⟨tidx, h⟩ env else (w, some .badop)
  | .registerBacking rq env => registerBacking I w rq env
  | .registerRegion rq => registerRegion w rq
  | .unregisterRegion ridx => unregisterRegion w ridx
  | .revokeBacking bidx => revokeBacking w bidx
  | .targetReset tidx => targetReset w tidx
  | .raw tidx refused env => serveRaw w tidx refused env
  | .write pg v => (if w.exposed pg then w.setFrame pg v else w, none)
  | .unmap t va => ({ w with maps := w.maps.filter fun m => !(m.target = t && m.va = va) }, none)

def act (I : Instance) (w : World) (e : Event) : World := (serve I w e).1

end IrisOS.Pager
