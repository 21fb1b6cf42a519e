import IrisOS.Vfs.Protocol

/-! The endpoint dispatcher of the VFS service, with the file-grant layer (`vfs_ep.h`,
`vfs_ep.c`). A handler that fails leaves the state alone, and its error becomes the reply. -/
namespace IrisOS.Vfs

/-- One exported file. -/
structure VfsExport where
  name : List UInt8 := []
  data : List UInt8 := []
  size : UInt32 := 0
  ready : Bool := false
  isMapped : Bool := false
  virtBase : UInt64 := 0
  backingId : UInt64 := 0
  generation : UInt64 := 0
  deriving DecidableEq

/-- One file grant: authority over one backing at one generation. -/
structure VfsGrant where
  used : Bool := false
  exportSlot : UInt8 := 0
  rights : Rights := 0
  backingId : UInt64 := 0
  generation : UInt64 := 0
  deriving DecidableEq

/-- The grant table. -/
structure VfsGrantTable where
  g : Session → GrantIdx → VfsGrant := fun _ _ => {}
  genSeq : UInt32 := 0
  epoch : UInt64 := 0

/-- The dispatcher's state, with the memory that mapped exports are read from. -/
@[ext] structure VfsEpState where
  exports : List VfsExport
  grants : VfsGrantTable
  mem : UInt64 → UInt8

/-- What a handler returns: the state it leaves and its reply, or the error to answer with. -/
abbrev Handled := Except IrisError (VfsEpState × Reply)

/-! ## Paths and exports -/

/-- The path in the bulk payload, unless it is malformed. -/
def reqPath (req : Request) (reqBuf : Option (List UInt8)) : Option (List UInt8) :=
  match reqBuf with
  | none => none
  | some buf =>
    if req.bufLen = 0 then none
    else if req.bufLen > vfsEpPathMax then none
    else if buf.getD (req.bufLen - 1) 0 ≠ 0 then none
    else if buf.getD 0 0 = 0 then none
    else some buf

def findExport (exports : List VfsExport) (path : List UInt8) : Option ℕ :=
  exports.findIdx? fun e => e.ready && nameEqual e.name path

def exportAtIndex (exports : List VfsExport) (index : UInt64) : Option VfsExport :=
  (exports.filter (·.ready))[index.toNat]?

/-- Byte `i` of an export: `vfs_ep_export_bytes(exp)[i]`. -/
def exportByte (mem : UInt64 → UInt8) (exp : VfsExport) (i : ℕ) : UInt8 :=
  if exp.isMapped then mem (exp.virtBase + i.toUInt64) else exp.data.getD i 0

def contents (mem : UInt64 → UInt8) (exp : VfsExport) : List UInt8 :=
  (List.range exp.size.toNat).map (exportByte mem exp)

/-! ## Operations by name -/

def handleList (st : VfsEpState) (req : Request) : Handled :=
  if req.wordCount < 1 then .error .invalidArg
  else match exportAtIndex st.exports (req.words 0) with
    | none => .error .notFound
    | some exp =>
      let name := (cString exp.name).take (vfsEpPathMax - 1)
      .ok (st, replyOk ![0, exp.size.toUInt64, name.length.toUInt64, 0] 3 (name ++ [0]))

/-- The export a path names, with the errors of the operations by name. -/
def resolvePath (st : VfsEpState) (req : Request) (reqBuf : Option (List UInt8)) :
    Except IrisError ℕ :=
  match reqPath req reqBuf with
  | none => .error .invalidArg
  | some path =>
    match findExport st.exports path with
    | none => .error .notFound
    | some x => .ok x

def VfsEpState.exportOf (st : VfsEpState) (x : ℕ) : VfsExport := st.exports.getD x {}

def handleStat (st : VfsEpState) (req : Request) (reqBuf : Option (List UInt8)) : Handled :=
  match resolvePath st req reqBuf with
  | .error e => .error e
  | .ok x => .ok (st, replyOk ![0, (st.exportOf x).size.toUInt64, 0, 0] 2)

def readLen (size : UInt32) (offset len : UInt64) : UInt64 :=
  let len := if len > vfsEpDataMax.toUInt64 then vfsEpDataMax.toUInt64 else len
  if offset < size.toUInt64 then
    let available := size.toUInt64 - offset
    if len < available then len else available
  else 0

/-- The read body that the named and the granted path share. -/
def readReply (mem : UInt64 → UInt8) (exp : VfsExport) (offset len : UInt64) : Reply :=
  let bytes := readLen exp.size offset len
  replyOk ![0, bytes, exp.size.toUInt64, 0] 3
    ((List.range bytes.toNat).map fun i => exportByte mem exp (offset.toNat + i))

def handleReadAt (st : VfsEpState) (req : Request) (reqBuf : Option (List UInt8)) : Handled :=
  if req.wordCount < 2 then .error .invalidArg
  else match resolvePath st req reqBuf with
    | .error e => .error e
    | .ok x => .ok (st, readReply st.mem (st.exportOf x) (req.words 0) (req.words 1))

def handleStatus (st : VfsEpState) (req : Request) : Handled :=
  if req.bufLen > 0 then .error .invalidArg
  else
    let ready := st.exports.filter (·.ready)
    .ok (st, replyOk ![0, ready.length.toUInt64,
      ready.foldl (fun n e => n + e.size.toUInt64) 0, 0] 3)

/-! ## The grant layer -/

/-- A generation: the instance epoch over the running sequence. -/
def packGeneration (epoch : UInt64) (seq : UInt32) : UInt64 := (epoch <<< 16) ||| seq.toUInt64

def packBackingId (epoch : UInt64) (i : ℕ) : UInt64 :=
  (0xB1000000 : UInt64) ||| (epoch <<< 8) ||| i.toUInt64

/-- Give every ready export its identity and start with an empty grant table. -/
def grantsInit (exports : List VfsExport) (mem : UInt64 → UInt8) (epoch : UInt64) :
    VfsEpState where
  exports := exports.mapIdx fun i e =>
    if e.ready then
      { e with backingId := packBackingId epoch i, generation := packGeneration epoch 1 }
    else e
  grants := { genSeq := 1, epoch := epoch }
  mem := mem

namespace VfsEpState

def grant (st : VfsEpState) (s : Session) (i : GrantIdx) : VfsGrant := st.grants.g s i

def setGrant (st : VfsEpState) (s : Session) (i : GrantIdx) (v : VfsGrant) : VfsEpState :=
  { st with
    grants := { st.grants with
      g := Function.update st.grants.g s (Function.update (st.grants.g s) i v) } }

end VfsEpState

/-- The grant a session request refers to. -/
def grantRef (st : VfsEpState) (req : Request) : Except IrisError (Session × GrantIdx) :=
  match irisBadgeFilegrantSession req.senderBadge with
  | none => .error .accessDenied
  | some s =>
    if req.wordCount < 1 then .error .invalidArg
    else if h : (req.words 0).toNat < vfsGrantsPerSession then
      if (st.grant s ⟨_, h⟩).used then .ok (s, ⟨_, h⟩) else .error .notFound
    else .error .notFound

/-- The export of a grant, while the grant's snapshot is the export's current identity. -/
def grantLive (st : VfsEpState) (g : VfsGrant) : Except IrisError VfsExport :=
  match st.exports[g.exportSlot.toNat]? with
  | none => .error .closed
  | some exp =>
    if !exp.ready || exp.backingId != g.backingId || exp.generation != g.generation then
      .error .closed
    else .ok exp

/-- The first unused grant of a session. -/
def grantAlloc (st : VfsEpState) (s : Session) : Option GrantIdx :=
  (List.finRange vfsGrantsPerSession).find? fun i => !(st.grant s i).used

/-- A requested rights mask is empty or has unknown bits. -/
def badMask (rights : UInt64) : Bool :=
  rights = 0 || rights &&& ~~~vfsFileRightAll.toUInt64 ≠ 0

def handleGrantOpen (st : VfsEpState) (req : Request) (reqBuf : Option (List UInt8)) : Handled :=
  if req.senderBadge ≠ irisBadgeFilegrantAdmin then .error .accessDenied
  else if req.wordCount < 2 then .error .invalidArg
  else if h : (req.words 0).toNat < vfsGrantSessions then
    if badMask (req.words 1) then .error .invalidArg
    else match resolvePath st req reqBuf with
      | .error e => .error e
      | .ok x =>
        match grantAlloc st ⟨_, h⟩ with
        | none => .error .tableFull
        | some i =>
          let exp := st.exportOf x
          let g : VfsGrant := ⟨true, x.toUInt8, (req.words 1).toUInt32, exp.backingId,
            exp.generation⟩
          .ok (st.setGrant ⟨_, h⟩ i g,
            replyOk ![0, i.val.toUInt64, g.backingId, g.generation] 4)
  else .error .invalidArg

/-- The replies of the two introspection operations. -/
def statReply (exp : VfsExport) (g : VfsGrant) (queryOnly : Bool) : Reply :=
  if queryOnly then replyOk ![0, g.backingId, g.generation, g.rights.toUInt64] 4
  else replyOk ![0, exp.size.toUInt64, g.backingId, g.generation] 4

def handleGrantStat (st : VfsEpState) (req : Request) (queryOnly : Bool) : Handled :=
  match grantRef st req with
  | .error e => .error e
  | .ok (s, i) =>
    let g := st.grant s i
    if !queryOnly && !hasRight g.rights vfsFileRightStat then .error .accessDenied
    else match grantLive st g with
      | .error e => .error e
      | .ok exp => .ok (st, statReply exp g queryOnly)

def handleGrantReadAt (st : VfsEpState) (req : Request) : Handled :=
  match grantRef st req with
  | .error e => .error e
  | .ok (s, i) =>
    let g := st.grant s i
    if req.wordCount < 3 then .error .invalidArg
    else if !hasRight g.rights vfsFileRightRead then .error .accessDenied
    else match grantLive st g with
      | .error e => .error e
      | .ok exp => .ok (st, readReply st.mem exp (req.words 1) (req.words 2))

def handleGrantDerive (st : VfsEpState) (req : Request) : Handled :=
  match grantRef st req with
  | .error e => .error e
  | .ok (s, i) =>
    let g := st.grant s i
    let rights := req.words 1
    if req.wordCount < 2 then .error .invalidArg
    else if badMask rights then .error .invalidArg
    else if !hasRight g.rights vfsFileRightDuplicate then .error .accessDenied
    else if rights &&& ~~~g.rights.toUInt64 ≠ 0 then .error .accessDenied
    else match grantLive st g with
      | .error e => .error e
      | .ok _ =>
        match grantAlloc st s with
        | none => .error .tableFull
        | some j =>
          .ok (st.setGrant s j ⟨true, g.exportSlot, rights.toUInt32, g.backingId, g.generation⟩,
            replyOk ![0, j.val.toUInt64, 0, 0] 2)

namespace VfsEpState

/-- The generation that the next revoke issues. -/
def nextGeneration (st : VfsEpState) : UInt64 :=
  packGeneration st.grants.epoch (st.grants.genSeq + 1)

def backingBump (st : VfsEpState) (x : ℕ) : VfsEpState :=
  { st with
    exports := st.exports.modify x fun e => { e with generation := st.nextGeneration }
    grants := { st.grants with genSeq := st.grants.genSeq + 1 } }

def resetSession (st : VfsEpState) (s : Session) : VfsEpState :=
  { st with
    grants := { st.grants with g := Function.update st.grants.g s fun _ => {} } }

end VfsEpState

/-- The export a revoke is for: by name for the administrator, through a grant for a session. -/
def revokeTarget (st : VfsEpState) (req : Request) (reqBuf : Option (List UInt8)) :
    Except IrisError ℕ :=
  if req.senderBadge = irisBadgeFilegrantAdmin then resolvePath st req reqBuf
  else match grantRef st req with
    | .error e => .error e
    | .ok (s, i) =>
      let g := st.grant s i
      if !hasRight g.rights vfsFileRightRevoke then .error .accessDenied
      else match grantLive st g with
        | .error e => .error e
        | .ok _ => .ok g.exportSlot.toNat

def handleGrantRevoke (st : VfsEpState) (req : Request) (reqBuf : Option (List UInt8)) :
    Handled :=
  match revokeTarget st req reqBuf with
  | .error e => .error e
  | .ok x => .ok (st.backingBump x, replyOk ![0, st.nextGeneration, 0, 0] 2)

def handleSessionReset (st : VfsEpState) (req : Request) : Handled :=
  if req.senderBadge ≠ irisBadgeFilegrantAdmin then .error .accessDenied
  else if req.wordCount < 1 then .error .invalidArg
  else if h : (req.words 0).toNat < vfsGrantSessions then
    .ok (st.resetSession ⟨_, h⟩, replyOk ![0, 0, 0, 0] 1)
  else .error .invalidArg

/-! ## Dispatch -/

def handlePing (st : VfsEpState) (req : Request) : Handled :=
  .ok (st, replyOk ![0, req.senderBadge, 0, 0] 2)

/-- What a session badge may ask for. -/
def dispatchSession (st : VfsEpState) (req : Request) (reqBuf : Option (List UInt8)) : Handled :=
  match req.op with
  | .grantStat => handleGrantStat st req false
  | .grantReadAt => handleGrantReadAt st req
  | .grantQueryIdentity => handleGrantStat st req true
  | .grantDerive => handleGrantDerive st req
  | .grantRevoke => handleGrantRevoke st req reqBuf
  | .ping => handlePing st req
  | _ => .error .accessDenied

/-- What every other badge may ask for. -/
def dispatchCommon (st : VfsEpState) (req : Request) (reqBuf : Option (List UInt8)) : Handled :=
  match req.op with
  | .list => handleList st req
  | .stat => handleStat st req reqBuf
  | .readAt => handleReadAt st req reqBuf
  | .status => handleStatus st req
  | .grantOpen => handleGrantOpen st req reqBuf
  | .grantRevoke => handleGrantRevoke st req reqBuf
  | .grantSessionReset => handleSessionReset st req
  | .grantStat | .grantReadAt | .grantQueryIdentity | .grantDerive => .error .accessDenied
  | .ping => handlePing st req
  | _ => .error .notSupported

def handle (st : VfsEpState) (req : Request) (reqBuf : Option (List UInt8)) : Handled :=
  if req.bufLen > 0 ∧ reqBuf = none then .error .invalidArg
  else if (irisBadgeFilegrantSession req.senderBadge).isSome then dispatchSession st req reqBuf
  else dispatchCommon st req reqBuf

/-- `vfs_ep_dispatch`: exactly one reply for every request. -/
def dispatch (st : VfsEpState) (req : Request) (reqBuf : Option (List UInt8)) :
    VfsEpState × Reply :=
  match handle st req reqBuf with
  | .ok r => r
  | .error e => (st, replyErr e)

end IrisOS.Vfs
