import IrisOS.Vfs.Files

/-! File descriptors of the C library (`fd.c`). A descriptor is a CSpace slot that holds a file
capability of the VFS service. -/
namespace IrisOS.Fd
open Vfs

def fdLo : ℕ := 40
def fdHi : ℕ := 63

/-- Why a call failed; `iris` carries the error word of a reply, `kernel` is a kernel refusal. -/
inductive Errno
  | einval | eio | enametoolong | emfile | ebadf | espipe | eacces | kernel
  | iris (word : UInt64)
  deriving DecidableEq

/-- What a call returns: a number and the bytes it delivered. -/
abbrev Result := Except Errno (ℕ × List UInt8)

/-- The badges of the capabilities in the program's slots and of its own to the service. -/
structure World where
  vfs : VfsState
  epBadge : UInt64
  slots : ℕ → Option UInt64

/-- What a descriptor is. -/
inductive Resolved
  | eof
  | console
  | slot (s : ℕ)
  | bad
  deriving DecidableEq

def fdResolve (fd : ℤ) : Resolved :=
  if fd = 0 then .eof
  else if fd = 1 ∨ fd = 2 then .console
  else if fdLo ≤ fd ∧ fd ≤ fdHi then .slot fd.toNat
  else .bad

namespace World

def fdAlloc (w : World) : Option ℕ :=
  (List.range' fdLo (fdHi + 1 - fdLo)).find? fun s => (w.slots s).isNone

def setSlot (w : World) (s : ℕ) (cap : Option UInt64) : World :=
  { w with slots := Function.update w.slots s cap }

def fileMsg (badge : UInt64) (page : List UInt8) (label w₀ w₁ : UInt64) : Received where
  req := { label := label, words := ![w₀, w₁, 0, 0], wordCount := 2, senderBadge := badge }
  page := page

/-- A call on the capability in a slot, with what the receiving buffer holds then. -/
def fdCall (w : World) (page : List UInt8) (s : ℕ) (label w₀ w₁ : UInt64) :
    World × Except Errno Reply :=
  match w.slots s with
  | none => (w, .error .kernel)
  | some badge =>
    let r := fileMsg badge page label w₀ w₁
    ({ w with vfs := turn w.vfs r },
      match reply w.vfs r with
      | none => .error .kernel
      | some rep => if rep.label = .ok then .ok rep else .error (.iris (rep.words 0)))

def openMsg (w : World) (path : List UInt8) (mintOk : Bool) : Received where
  req :=
    { label := 0x0120
      words := ![(vfsFileRightStat ||| vfsFileRightRead ||| vfsFileRightDuplicate).toUInt64, 0, 0, 0]
      wordCount := 1, bufLen := path.length + 1, senderBadge := w.epBadge }
  page := path ++ [0]
  mintOk := mintOk

/-- Where the capability of an `open` lands, if the kernel installs it, and its descriptor. -/
def openReply (w : World) (slot : ℕ) (capOk : Bool) : Option Reply → World × Result
  | none => (w, .error .kernel)
  | some rep =>
    if rep.label ≠ .ok then (w, .error (.iris (rep.words 0)))
    else match rep.cap with
      | none => (w, .error .eio)
      | some cap => if capOk then (w.setSlot slot (some cap), .ok (slot, [])) else (w, .error .eio)

def openPath (w : World) (path : List UInt8) (mintOk capOk : Bool) : World × Result :=
  if (cString path).length = 0 then (w, .error .einval)
  else if (cString path).length + 1 > vfsEpPathMax then (w, .error .enametoolong)
  else match w.fdAlloc with
    | none => (w, .error .emfile)
    | some slot =>
      let r := w.openMsg (cString path) mintOk
      openReply { w with vfs := turn w.vfs r } slot capOk (reply w.vfs r)

def read (w : World) (page : List UInt8) (fd : ℤ) (n : ℕ) : World × Result :=
  match fdResolve fd with
  | .eof => (w, .ok (0, []))
  | .console => (w, .ok (0, []))
  | .bad => (w, .error .ebadf)
  | .slot s =>
    if n = 0 then (w, .ok (0, []))
    else
      let n := min n vfsEpDataMax
      let r := w.fdCall page s 0x0121 n.toUInt64 0
      (r.1, r.2.bind fun rep =>
        let got := (rep.words 1).toUInt32.toNat
        if got > n then .error .eio else .ok (got, rep.payload.take got))

def lseek (w : World) (page : List UInt8) (fd : ℤ) (off : UInt64) (whence : ℤ) :
    World × Result :=
  match fdResolve fd with
  | .eof => (w, .error .espipe)
  | .console => (w, .error .espipe)
  | .bad => (w, .error .ebadf)
  | .slot s =>
    if whence < 0 ∨ whence > 2 then (w, .error .einval)
    else
      let r := w.fdCall page s 0x0122 off whence.toNat.toUInt64
      (r.1, r.2.map fun rep => ((rep.words 1).toNat, []))

/-- Telling the service, then deleting the slot. -/
def closeSlot (w : World) (page : List UInt8) (s : ℕ) : World :=
  (w.fdCall page s 0x0124 0 0).1.setSlot s none

def close (w : World) (page : List UInt8) (fd : ℤ) : World × Result :=
  match fdResolve fd with
  | .eof => (w, .ok (0, []))
  | .console => (w, .ok (0, []))
  | .bad => (w, .error .ebadf)
  | .slot s => (w.closeSlot page s, .ok (0, []))

/-- `CSpace_Mint` of one slot into another, which has to be empty; the badge is the same. -/
def mint (w : World) (s dst : ℕ) (mintOk : Bool) : Option World :=
  match w.slots s with
  | none => none
  | some badge =>
    if mintOk ∧ w.slots dst = none then some (w.setSlot dst (some badge)) else none

def dup (w : World) (fd : ℤ) (mintOk : Bool) : World × Result :=
  match fdResolve fd with
  | .slot s =>
    match w.fdAlloc with
    | none => (w, .error .emfile)
    | some dst =>
      match w.mint s dst mintOk with
      | none => (w, .error .kernel)
      | some w' => (w', .ok (dst, []))
  | _ => (w, .error .ebadf)

def dup2 (w : World) (page : List UInt8) (fd dst : ℤ) (mintOk : Bool) : World × Result :=
  match fdResolve fd, fdResolve dst with
  | .slot s, .slot t =>
    if s = t then (w, .ok (t, []))
    else
      let w' := w.closeSlot page t
      match w'.mint s t mintOk with
      | none => (w', .error .eacces)
      | some w'' => (w'', .ok (t, []))
  | _, _ => (w, .error .ebadf)

end World

/-- The calls of a program, with what the kernel decides during them. -/
inductive Op
  | openPath (path : List UInt8) (mintOk capOk : Bool)
  | read (fd : ℤ) (n : ℕ)
  | lseek (fd : ℤ) (off : UInt64) (whence : ℤ)
  | close (fd : ℤ)
  | dup (fd : ℤ) (mintOk : Bool)
  | dup2 (fd dst : ℤ) (mintOk : Bool)

/-- One call, with what the service's receiving buffer holds during it. -/
structure Call where
  op : Op
  page : List UInt8 := []

def step (w : World) (c : Call) : World × Result :=
  match c.op with
  | .openPath path mintOk capOk => w.openPath path mintOk capOk
  | .read fd n => w.read c.page fd n
  | .lseek fd off whence => w.lseek c.page fd off whence
  | .close fd => w.close c.page fd
  | .dup fd mintOk => w.dup fd mintOk
  | .dup2 fd dst mintOk => w.dup2 c.page fd dst mintOk

end IrisOS.Fd
