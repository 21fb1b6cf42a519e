import IrisOS.Vfs.Grants

/-! The VFS service: open files, whose capabilities carry a table index as badge, and the loop that
hands each message to the file half and then to the dispatcher (`vfs.c`). -/
namespace IrisOS.Vfs

def vfsServiceExports : ℕ := 32

/-- An entry of the open-file table. -/
structure OpenFile where
  used : Bool := false
  exportIdx : ℕ := 0
  rights : Rights := 0
  offset : UInt64 := 0
  deriving DecidableEq

/-- The state of the service. The kernel delivers into the page replies are composed in if one is
registered, else into the request buffer. -/
structure VfsState where
  ep : VfsEpState
  files : FileId → OpenFile := fun _ => {}
  registered : Bool
  reqBuf : List UInt8 := []
  replyBuf : List UInt8 := []

/-- The message, what the receiving buffer holds, whether the kernel mints, and whether there is a
caller. -/
structure Received where
  req : Request
  page : List UInt8 := []
  mintOk : Bool := true
  hasReply : Bool := true
  deriving DecidableEq

def overwrite (dst src : List UInt8) (n : ℕ) : List UInt8 :=
  (List.range n).map (src.getD · 0) ++ dst.drop n

namespace VfsState

def receive (st : VfsState) (r : Received) : VfsState :=
  if st.registered then { st with replyBuf := r.page } else { st with reqBuf := r.page }

def setFile (st : VfsState) (f : FileId) (v : OpenFile) : VfsState :=
  { st with files := Function.update st.files f v }

def setReplyBuf (st : VfsState) (buf : List UInt8) : VfsState := { st with replyBuf := buf }

def exportOf (st : VfsState) (x : ℕ) : VfsExport := st.ep.exportOf x

end VfsState

/-- How many bytes of a file of that size can be read at an offset. -/
def fileBytesLen (size : UInt32) (off : UInt64) (n : UInt32) : UInt32 :=
  if off ≥ size.toUInt64 then 0
  else
    let n := if n.toUInt64 > size.toUInt64 - off then (size.toUInt64 - off).toUInt32 else n
    if n > vfsEpDataMax.toUInt32 then vfsEpDataMax.toUInt32 else n

/-- The rights a `FILE_OPEN` asks for: stat and read by default. -/
def wantedRights (req : Request) : Rights :=
  let want := (req.words 0).toUInt32
  (if want = 0 then vfsFileRightStat ||| vfsFileRightRead else want) &&& vfsFileRightAll

/-- The export a `FILE_OPEN` names, from the reply buffer with its last byte overwritten by NUL. -/
def openTarget (st : VfsState) (req : Request) : Option ℕ :=
  st.ep.exports.findIdx? fun e =>
    e.ready && vfsNameEq e.name (st.replyBuf.set (req.bufLen - 1) 0)

def freeFile (st : VfsState) : Option FileId :=
  (List.finRange irisVfsFiles).find? fun f => !(st.files f).used

def fileOpen (st : VfsState) (r : Received) : VfsState × Reply :=
  if r.req.bufLen = 0 ∨ r.req.bufLen > vfsEpPathMax then (st, replyErr .notFound)
  else
    let st' := st.setReplyBuf (st.replyBuf.set (r.req.bufLen - 1) 0)
    match openTarget st r.req with
    | none => (st', replyErr .notFound)
    | some x =>
      match freeFile st with
      | none => (st', replyErr .noMemory)
      | some f =>
        if r.mintOk then
          (st'.setFile f ⟨true, x, wantedRights r.req, 0⟩,
            { label := .ok, words := ![0, (st.exportOf x).size.toUInt64, 0, 0], wordCount := 2,
              cap := some (irisBadgeVfsFileOf f) })
        else (st', replyErr .noMemory)

def fileStat (st : VfsState) (f : FileId) : VfsState × Reply :=
  let file := st.files f
  if hasRight file.rights vfsFileRightStat then
    (st, replyOk ![0, (st.exportOf file.exportIdx).size.toUInt64, file.offset,
      file.rights.toUInt64] 4)
  else (st, replyErr .accessDenied)

/-- Where a seek starts from; `none` when `whence` is none of the three. -/
def seekBase (st : VfsState) (f : FileId) (whence : UInt64) : Option UInt64 :=
  if whence = 0 then some 0
  else if whence = 1 then some (st.files f).offset
  else if whence = 2 then some (st.exportOf (st.files f).exportIdx).size.toUInt64
  else none

def fileSeek (st : VfsState) (f : FileId) (req : Request) : VfsState × Reply :=
  match seekBase st f (req.words 1) with
  | none => (st, replyErr .invalidArg)
  | some base =>
    let want := base + req.words 0
    if want < base then (st, replyErr .invalidArg)
    else (st.setFile f { st.files f with offset := want }, replyOk ![0, want, 0, 0] 2)

def fileClose (st : VfsState) (f : FileId) : VfsState × Reply :=
  (st.setFile f { st.files f with used := false }, replyOk ![0, 0, 0, 0] 1)

/-- How many bytes a `FILE_READ` asks for: a message full by default. -/
def wantedLen (req : Request) : UInt32 :=
  let want := (req.words 0).toUInt32
  if want = 0 ∨ want > vfsEpDataMax.toUInt32 then vfsEpDataMax.toUInt32 else want

def fileRead (st : VfsState) (f : FileId) (req : Request) : VfsState × Reply :=
  let file := st.files f
  if hasRight file.rights vfsFileRightRead then
    let exp := st.exportOf file.exportIdx
    let got := fileBytesLen exp.size file.offset (wantedLen req)
    let bytes := (List.range got.toNat).map fun i =>
      exportByte st.ep.mem exp (file.offset.toNat + i)
    let offset := file.offset + got.toUInt64
    ((st.setFile f { file with offset := offset }).setReplyBuf
        (overwrite st.replyBuf bytes got.toNat),
      replyOk ![0, got.toUInt64, exp.size.toUInt64, offset] 4 bytes)
  else (st, replyErr .accessDenied)

/-- An operation on an open file; `none` when the file half does not serve it. -/
def fileOp (st : VfsState) (f : FileId) (req : Request) : Option (VfsState × Reply) :=
  match req.op with
  | .ping => some (st, replyOk ![0, req.senderBadge, 0, 0] 2)
  | .fileStat => some (fileStat st f)
  | .fileSeek => some (fileSeek st f req)
  | .fileClose => some (fileClose st f)
  | .fileRead => some (fileRead st f req)
  | _ => none

/-- An operation on a file capability, whose file may not be open any more. -/
def fileInvoke (st : VfsState) (f : FileId) (req : Request) : Option (VfsState × Reply) :=
  (fileOp st f req).map fun p => if (st.files f).used then p else (st, replyErr .notFound)

/-- `vfs_file_serve`: the file half, before the dispatcher. -/
def vfsFileServe (st : VfsState) (r : Received) : Option (VfsState × Reply) :=
  if r.req.op = .fileOpen then some (fileOpen st r)
  else match irisBadgeVfsFile r.req.senderBadge with
    | none => none
    | some f => fileInvoke st f r.req

/-- The request buffer as the dispatcher sees it. -/
def copyOut (st : VfsState) (r : Received) : VfsState :=
  if st.registered ∧ r.req.bufLen > 0 then
    { st with reqBuf := overwrite st.reqBuf st.replyBuf (min r.req.bufLen vfsEpDataMax) }
  else st

/-- What the service hands to the dispatcher. -/
def forwarded (st : VfsState) (r : Received) : Input :=
  ⟨r.req, if r.req.bufLen > 0 then some (copyOut st r).reqBuf else none⟩

/-- `vfs_ep_serve`: the dispatcher, and the reply if there is one to send. -/
def vfsEpServe (st : VfsState) (r : Received) : VfsState × Option Reply :=
  let rep := answer st.ep (forwarded st r)
  ({ copyOut st r with
      ep := step st.ep (forwarded st r)
      replyBuf := overwrite st.replyBuf rep.payload rep.payload.length },
    if r.hasReply then some rep else none)

def serve (st : VfsState) (r : Received) : VfsState × Option Reply :=
  match vfsFileServe (st.receive r) r with
  | some (st', rep) => (st', some rep)
  | none => vfsEpServe (st.receive r) r

def turn (st : VfsState) (r : Received) : VfsState := (serve st r).1

def reply (st : VfsState) (r : Received) : Option Reply := (serve st r).2

def boot (exports : List VfsExport) (mem : UInt64 → UInt8) (epoch : UInt64)
    (registered : Bool) : VfsState where
  ep := grantsInit exports mem epoch
  registered := registered

end IrisOS.Vfs
