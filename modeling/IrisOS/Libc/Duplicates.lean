import IrisOS.Libc.Descriptors

/-! Duplicated descriptors as names of one open file. The library follows the abstract model in
every run that closes a descriptor only when no other one names its file: `close` makes the service
give up the file itself. -/
namespace IrisOS.Fd
open Vfs Function UInt64 World

/-- An open file: its contents and the offset its descriptors share. -/
structure SpecFile where
  bytes : List UInt8
  offset : UInt64

/-- Which open file each slot names. -/
structure Spec where
  names : ℕ → Option ℕ
  files : ℕ → SpecFile
  fresh : ℕ

namespace Spec

def start : Spec := ⟨fun _ => none, fun _ => ⟨[], 0⟩, 0⟩

def setName (sp : Spec) (s : ℕ) (name : Option ℕ) : Spec :=
  { sp with names := update sp.names s name }

def setOffset (sp : Spec) (i : ℕ) (off : UInt64) : Spec :=
  { sp with files := update sp.files i { sp.files i with offset := off } }

/-- A file with those contents, opened under a new name. -/
def opened (sp : Spec) (s : ℕ) (bytes : List UInt8) : Spec where
  names := update sp.names s (some sp.fresh)
  files := update sp.files sp.fresh ⟨bytes, 0⟩
  fresh := sp.fresh + 1

def fileOf (sp : Spec) (fd : ℤ) : Option ℕ :=
  match fdResolve fd with
  | .slot s => sp.names s
  | _ => none

def readBytes (file : SpecFile) (n : ℕ) : List UInt8 :=
  (file.bytes.drop file.offset.toNat).take (min n vfsEpDataMax)

/-- Where a seek starts from: the beginning, the offset or the end. -/
def seekBase (file : SpecFile) (whence : ℤ) : UInt64 :=
  if whence = 0 then 0 else if whence = 1 then file.offset else file.bytes.length.toUInt64

/-- Where a seek of an open file goes, unless the sum leaves the 64 bits. -/
def seekTo (file : SpecFile) (off : UInt64) (whence : ℤ) : Option UInt64 :=
  if whence < 0 ∨ whence > 2 then none
  else if seekBase file whence + off < seekBase file whence then none
  else some (seekBase file whence + off)

def Failed (sp : Spec) (r : Result) (sp' : Spec) : Prop := (∃ e, r = .error e) ∧ sp' = sp

/-- What a call answers and changes, where `opens` says which contents a path stands for. Opening
and duplicating may fail for want of resources. -/
def Step (opens : List UInt8 → List UInt8 → Prop) (sp : Spec) (op : Op) (r : Result) (sp' : Spec) :
    Prop :=
  match op with
  | .openPath path _ _ => sp.Failed r sp' ∨
      ∃ s bytes, opens path bytes ∧ sp.names s = none ∧ r = .ok (s, []) ∧ sp' = sp.opened s bytes
  | .read fd n => match sp.fileOf fd with
      | none => sp' = sp
      | some i =>
        let got := readBytes (sp.files i) n
        r = .ok (got.length, got) ∧
          sp' = sp.setOffset i ((sp.files i).offset + got.length.toUInt64)
  | .lseek fd off whence => match sp.fileOf fd with
      | none => sp' = sp
      | some i => match seekTo (sp.files i) off whence with
        | none => sp.Failed r sp'
        | some pos => r = .ok (pos.toNat, []) ∧ sp' = sp.setOffset i pos
  | .close fd => match fdResolve fd with
      | .slot s => r = .ok (0, []) ∧ sp' = sp.setName s none
      | _ => sp' = sp
  | .dup fd _ => sp.Failed r sp' ∨
      ∃ i s, sp.fileOf fd = some i ∧ sp.names s = none ∧ r = .ok (s, []) ∧
        sp' = sp.setName s (some i)
  | .dup2 fd dst _ => match fdResolve fd, fdResolve dst with
      | .slot s, .slot t => s = t ∧ sp' = sp ∨ s ≠ t ∧
          ((∃ e, r = .error e) ∧ sp' = sp.setName t none ∨
            ∃ i, sp.names s = some i ∧ r = .ok (t, []) ∧ sp' = sp.setName t (some i))
      | _, _ => sp.Failed r sp'

variable {sp sp' : Spec} {opens : List UInt8 → List UInt8 → Prop} {r : Result}

theorem Step.opened {path : List UInt8} {mintOk capOk : Bool}
    (h : Step opens sp (.openPath path mintOk capOk) r sp') (s : ℕ) (hr : r = .ok (s, [])) :
    ∃ bytes, opens path bytes ∧ sp' = sp.opened s bytes := by
  rcases h with ⟨⟨e, he⟩, -⟩ | ⟨t, bytes, hopens, -, ht, hsp⟩
  · cases he.symm.trans hr
  · cases ht.symm.trans hr
    exact ⟨bytes, hopens, hsp⟩

theorem Step.duplicated {fd : ℤ} {mintOk : Bool} (h : Step opens sp (.dup fd mintOk) r sp') (s : ℕ)
    (hr : r = .ok (s, [])) : ∃ i, sp.fileOf fd = some i ∧ sp' = sp.setName s (some i) := by
  rcases h with ⟨⟨e, he⟩, -⟩ | ⟨i, t, hi, -, ht, hsp⟩
  · cases he.symm.trans hr
  · cases ht.symm.trans hr
    exact ⟨i, hi, hsp⟩

/-- The slot names nothing, or is the only one to name its file. -/
def Sole (sp : Spec) (s : ℕ) : Prop := ∀ i t, sp.names s = some i → sp.names t = some i → t = s

/-- The call closes no descriptor whose file has another one. -/
def ClosesLast (sp : Spec) : Op → Prop
  | .close fd => ∀ s, fdResolve fd = .slot s → sp.Sole s
  | .dup2 fd dst _ => ∀ s t, fdResolve fd = .slot s → fdResolve dst = .slot t → s ≠ t → sp.Sole t
  | _ => True

end Spec

/-- The contents of the first export of that name, as C strings, that is ready. -/
def directory (ep : VfsEpState) (path : List UInt8) : Option (List UInt8) :=
  (ep.exports.find? fun e => e.ready && cString e.name = cString path).map (contents ep.mem)

/-- A path is opened as the directory has it, if the service receives into the buffer in which it
looks for the path. -/
def OpensAs (st : VfsState) (path bytes : List UInt8) : Prop :=
  st.registered = true → directory st.ep path = some bytes

/-- As long as each call closes only last names, the library answers as the abstract descriptors do.
-/
def Follows : World → Spec → List Call → Prop
  | _, _, [] => True
  | w, sp, c :: cs => sp.ClosesLast c.op →
      ∃ sp', sp.Step (OpensAs w.vfs) c.op (step w c).2 sp' ∧ Follows (step w c).1 sp' cs

theorem Follows.next {w : World} {sp : Spec} {c : Call} {cs : List Call}
    (h : Follows w sp (c :: cs)) (hlast : sp.ClosesLast c.op) :
    ∃ sp', sp.Step (OpensAs w.vfs) c.op (step w c).2 sp' ∧ Follows (step w c).1 sp' cs := h hlast

/-- A table entry of the service that is open on a file as the abstract model has it. -/
structure Entry (st : VfsState) (f : FileId) (file : SpecFile) : Prop where
  used : (st.files f).used = true
  readable : hasRight (st.files f).rights vfsFileRightRead = true
  offset : (st.files f).offset = file.offset
  bytes : contents st.ep.mem (st.exportOf (st.files f).exportIdx) = file.bytes

/-- The slots hold the capabilities of the entries their files are kept in. -/
structure Coupled (w : World) (sp : Spec) (place : ℕ → FileId) : Prop where
  slots : ∀ s, w.slots s = (sp.names s).map fun i => irisBadgeVfsFileOf (place i)
  entry : ∀ s i, sp.names s = some i → Entry w.vfs (place i) (sp.files i)
  apart : ∀ s t i j, sp.names s = some i → sp.names t = some j → place i = place j → i = j
  fresh : ∀ s i, sp.names s = some i → i < sp.fresh

variable {w : World} {sp : Spec} {place : ℕ → FileId} {page : List UInt8} {f : FileId}
  {file : SpecFile} {s : ℕ}

theorem Entry.congr {st st' : VfsState} (h : Entry st f file)
    (hep : st'.ep = st.ep) (hf : st'.files f = st.files f) : Entry st' f file := by
  obtain ⟨hused, hread, hoff, hbytes⟩ := h
  constructor <;> simp_all [VfsState.exportOf]

theorem coupled_start (st : VfsState) (badge : UInt64) :
    Coupled ⟨st, badge, fun _ => none⟩ .start fun _ => 0 :=
  ⟨fun _ => rfl, nofun, nofun, nofun⟩

theorem irisBadgeVfsFile_of (f : FileId) : irisBadgeVfsFile (irisBadgeVfsFileOf f) = some f := by
  revert f
  decide

theorem fdCall_eq {label w₀ w₁ : UInt64} {r : Received}
    (hr : r = fileMsg (irisBadgeVfsFileOf f) page label w₀ w₁) {p : VfsState × Reply}
    (hslot : w.slots s = some (irisBadgeVfsFileOf f)) (hused : (w.vfs.files f).used = true)
    (hop : r.req.op ≠ .fileOpen) (hp : fileOp (w.vfs.receive r) f r.req = some p) :
    w.fdCall page s label w₀ w₁ = ({ w with vfs := p.1 },
      if p.2.label = .ok then .ok p.2 else .error (.iris (p.2.words 0))) := by
  have hinvoke : fileInvoke (w.vfs.receive r) f r.req = some p := by
    rw [fileInvoke, hp, Option.map_some, files_receive, hused, if_pos rfl]
  subst hr
  obtain ⟨hturn, hreply⟩ := turn_of_fileInvoke hop (irisBadgeVfsFile_of f) hinvoke
  simp only [fdCall, hslot, hturn, hreply]

namespace Coupled
variable {i : ℕ} {st : VfsState}

theorem frame (h : Coupled w sp place) (hep : st.ep = w.vfs.ep)
    (hfiles : ∀ t j, sp.names t = some j → st.files (place j) = w.vfs.files (place j)) :
    Coupled { w with vfs := st } sp place := by
  exact ⟨h.slots, fun t j ht => (h.entry t j ht).congr hep (hfiles t j ht), h.apart, h.fresh⟩

theorem moved (h : Coupled w sp place) (hs : sp.names s = some i) {off : UInt64}
    (hep : st.ep = w.vfs.ep) (hfiles : st.files = update w.vfs.files (place i)
      { w.vfs.files (place i) with offset := off }) :
    Coupled { w with vfs := st } (sp.setOffset i off) place := by
  refine ⟨h.slots, fun t j ht => ?_, h.apart, h.fresh⟩
  obtain ⟨hused, hread, hoff, hbytes⟩ := h.entry t j ht
  by_cases hji : j = i
  · subst hji
    constructor <;>
      simp_all [Spec.setOffset, VfsState.exportOf]
  · have hne : place j ≠ place i := fun he => hji (h.apart t s j i ht hs he)
    constructor <;>
      simp_all [Spec.setOffset, VfsState.exportOf]

end Coupled

theorem toNat_fileBytesLen (size : UInt32) (off : UInt64) {n : UInt32} (hn : n.toNat ≤ 256) :
    (fileBytesLen size off n).toNat = min n.toNat (size.toNat - off.toNat) := by
  have hsize : size.toUInt64.toNat = size.toNat := UInt32.toNat_toUInt64 size
  have hmax : vfsEpDataMax.toUInt32.toNat = 256 := rfl
  unfold fileBytesLen
  split
  · rename_i hoff
    have := le_iff_toNat_le.mp hoff
    rw [UInt32.toNat_zero]
    omega
  rename_i hoff
  have hsub := UInt64.toNat_sub_of_le _ _ (UInt64.le_of_lt (UInt64.not_le.mp hoff))
  generalize hm : (if n.toUInt64 > size.toUInt64 - off then (size.toUInt64 - off).toUInt32 else n) =
    m
  have hm' : m.toNat = min n.toNat (size.toNat - off.toNat) := by
    rw [← hm]
    split
    · rename_i hgt
      have := lt_iff_toNat_lt.mp hgt
      simp only [hsub, UInt32.toNat_toUInt64] at this
      rw [toNat_toUInt32, hsub, hsize]
      omega
    · rename_i hle
      have := UInt64.le_iff_toNat_le.mp (UInt64.not_lt.mp hle)
      simp only [hsub, UInt32.toNat_toUInt64] at this
      omega
  rw [if_neg, hm']
  intro hgt
  have := UInt32.lt_iff_toNat_lt.mp hgt
  omega

theorem wantedLen_read {badge : UInt64} (hpos : 0 < n) (hn : n ≤ 256) :
    (wantedLen (World.fileMsg badge page 0x0121 n.toUInt64 0).req).toNat = n := by
  have hword : ((fileMsg badge page 0x0121 n.toUInt64 0).req.words 0).toUInt32.toNat = n := by
    change (n.toUInt64).toUInt32.toNat = n
    rw [toNat_toUInt32, Nat.toUInt64, toNat_ofNat']
    omega
  unfold wantedLen
  rw [if_neg, hword]
  rintro (hzero | hgt)
  · rw [hzero, UInt32.toNat_zero] at hword
    omega
  · have := UInt32.lt_iff_toNat_lt.mp hgt
    have hmax : vfsEpDataMax.toUInt32.toNat = 256 := rfl
    omega

theorem Entry.receive (h : Entry st f file) (r : Received) : Entry (st.receive r) f file :=
  h.congr ep_receive (by rw [files_receive])

theorem Entry.fileRead (h : Entry st f file)
    {req : Request} {k : ℕ} (hlen : (wantedLen req).toNat = k) (hk : k ≤ 256) {l : List UInt8}
    (hl : l = (file.bytes.drop file.offset.toNat).take k) :
    (fileRead st f req).2.label = .ok ∧ ((fileRead st f req).2.words 1).toUInt32.toNat = l.length ∧
      (fileRead st f req).2.payload = l ∧ (fileRead st f req).1.ep = st.ep ∧
      (fileRead st f req).1.files = update st.files f
        { st.files f with offset := file.offset + l.length.toUInt64 } := by
  obtain ⟨size, hsize⟩ : ∃ size, size = (st.exportOf (st.files f).exportIdx).size := ⟨_, rfl⟩
  have hbytes : file.bytes.length = size.toNat := by simp [← h.bytes, contents, hsize]
  obtain ⟨got, hgot⟩ : ∃ got, got = fileBytesLen size file.offset (wantedLen req) := ⟨_, rfl⟩
  have hgotNat : got.toNat = l.length := by
    rw [hgot, toNat_fileBytesLen _ _ (by omega), hlen, hl, List.length_take, List.length_drop,
      hbytes]
  have hpayload : (file.bytes.drop file.offset.toNat).take got.toNat = l := by
    rw [hgotNat, hl, List.length_take, List.take_eq_take_iff]
    omega
  have hword : got.toUInt64 = l.length.toUInt64 := by
    apply UInt64.toNat_inj.mp
    rw [UInt32.toNat_toUInt64, hgotNat, Nat.toUInt64, UInt64.toNat_ofNat']
    have := got.toNat_lt
    omega
  have hreply := reply_fileRead st f req
  simp only [fileReadReply, h.readable, if_true, h.bytes, h.offset, ← hsize, ← hgot, hpayload]
    at hreply
  refine ⟨by rw [hreply]; rfl, ?_, by rw [hreply]; rfl, (kept_fileRead st f req).ep, ?_⟩
  · rw [hreply]
    change got.toUInt64.toUInt32.toNat = l.length
    rw [UInt32.toUInt32_toUInt64, hgotNat]
  · unfold Vfs.fileRead
    simp only [h.readable, if_true, h.offset, ← hsize, ← hgot, hword]
    rfl

namespace Entry
variable {fd : ℤ} (h : Entry w.vfs f file)
include h

/-- A read on a descriptor of an open file delivers its next bytes and moves its offset. -/
theorem read (hslot : w.slots s = some (irisBadgeVfsFileOf f)) (hfd : fdResolve fd = .slot s)
    (page : List UInt8) (n : ℕ) : ∃ st, w.read page fd n = ({ w with vfs := st },
        .ok ((Spec.readBytes file n).length, Spec.readBytes file n)) ∧ st.ep = w.vfs.ep ∧
      st.files = update w.vfs.files f { w.vfs.files f with
        offset := file.offset + (Spec.readBytes file n).length.toUInt64 } := by
  simp only [World.read, hfd]
  split_ifs with hzero
  · subst hzero
    have hnil : Spec.readBytes file 0 = [] := by simp [Spec.readBytes]
    rw [hnil]
    exact ⟨w.vfs, rfl, rfl, by simp [← h.offset]⟩
  obtain ⟨k, hk⟩ : ∃ k, k = min n vfsEpDataMax := ⟨_, rfl⟩
  have hbound : 0 < k ∧ k ≤ 256 := by rw [hk]; simp only [vfsEpDataMax]; omega
  rw [← hk]
  obtain ⟨r, hr⟩ : ∃ r, r = fileMsg (irisBadgeVfsFileOf f) page 0x0121 k.toUInt64 0 := ⟨_, rfl⟩
  have hop : r.req.op = .fileRead := by rw [hr]; rfl
  have hp : fileOp (w.vfs.receive r) f r.req
      = some (Vfs.fileRead (w.vfs.receive r) f r.req) := by rw [fileOp, hop]
  have hlen : (wantedLen r.req).toNat = k := by rw [hr]; exact wantedLen_read hbound.1 hbound.2
  obtain ⟨hlabel, hgot, hpayload, hep, hfiles⟩ := (h.receive r).fileRead hlen hbound.2 rfl
  have hcall := fdCall_eq hr hslot h.used (by rw [hop]; decide) hp
  have hread : Spec.readBytes file n = (file.bytes.drop file.offset.toNat).take k := by
    rw [Spec.readBytes, hk]
  rw [hcall, if_pos hlabel, hread]
  have hshort := List.length_take_le k (file.bytes.drop file.offset.toNat)
  refine ⟨_, Prod.ext rfl ?_, hep.trans ep_receive, hfiles.trans (by rw [files_receive])⟩
  simp only [Except.bind, hgot, hpayload]
  rw [if_neg (by omega), List.take_length]

theorem seekBase_eq (r : Received) {whence : ℤ} (hwhence : ¬ (whence < 0 ∨ whence > 2)) :
    seekBase (w.vfs.receive r) f whence.toNat.toUInt64 = some (Spec.seekBase file whence) := by
  have hentry := h.receive r
  have hlen : file.bytes.length.toUInt64 = ((w.vfs.receive r).exportOf
      ((w.vfs.receive r).files f).exportIdx).size.toUInt64 := by
    rw [← hentry.bytes, contents, List.length_map, List.length_range]
    apply UInt64.toNat_inj.mp
    rw [UInt32.toNat_toUInt64, Nat.toUInt64, UInt64.toNat_ofNat']
    have := ((w.vfs.receive r).exportOf ((w.vfs.receive r).files f).exportIdx).size.toNat_lt
    omega
  obtain rfl | rfl | rfl : whence = 0 ∨ whence = 1 ∨ whence = 2 := by omega
  · rfl
  · exact congrArg some hentry.offset
  · exact congrArg some hlen.symm

theorem lseek (hslot : w.slots s = some (irisBadgeVfsFileOf f)) (hfd : fdResolve fd = .slot s)
    (page : List UInt8) (off : UInt64) (whence : ℤ) :
    match Spec.seekTo file off whence with
    | none => ∃ st e, w.lseek page fd off whence = ({ w with vfs := st }, .error e) ∧
        st.ep = w.vfs.ep ∧ st.files = w.vfs.files
    | some pos => ∃ st, w.lseek page fd off whence = ({ w with vfs := st }, .ok (pos.toNat, [])) ∧
        st.ep = w.vfs.ep ∧
        st.files = update w.vfs.files f { w.vfs.files f with offset := pos } := by
  simp only [World.lseek, hfd, Spec.seekTo]
  by_cases hwhence : whence < 0 ∨ whence > 2
  · rw [if_pos hwhence, if_pos hwhence]
    exact ⟨w.vfs, _, rfl, rfl, rfl⟩
  rw [if_neg hwhence, if_neg hwhence]
  obtain ⟨r, hr⟩ : ∃ r, r = World.fileMsg (irisBadgeVfsFileOf f) page 0x0122 off
    whence.toNat.toUInt64 := ⟨_, rfl⟩
  have hop : r.req.op = .fileSeek := by rw [hr]; rfl
  have hp : fileOp (w.vfs.receive r) f r.req
      = some (fileSeek (w.vfs.receive r) f r.req) := by rw [fileOp, hop]
  have hcall := fdCall_eq hr hslot h.used (by rw [hop]; decide) hp
  have hbase : seekBase (w.vfs.receive r) f (r.req.words 1)
      = some (Spec.seekBase file whence) := by
    rw [hr]
    exact h.seekBase_eq _ hwhence
  have hoff : r.req.words 0 = off := by rw [hr]; rfl
  rw [hcall]
  by_cases hover : Spec.seekBase file whence + off < Spec.seekBase file whence
  · have hseek : fileSeek (w.vfs.receive r) f r.req
        = (w.vfs.receive r, replyErr .invalidArg) := by simp [fileSeek, hbase, hoff, hover]
    rw [hseek, if_pos hover]
    exact ⟨_, _, rfl, ep_receive, files_receive⟩
  have hseek : fileSeek (w.vfs.receive r) f r.req
      = ((w.vfs.receive r).setFile f { (w.vfs.receive r).files f with
          offset := Spec.seekBase file whence + off },
        replyOk ![0, Spec.seekBase file whence + off, 0, 0] 2) := by
    simp [fileSeek, hbase, hoff, hover]
  rw [hseek, if_neg hover]
  exact ⟨_, rfl, ep_receive, by simp only [VfsState.setFile, files_receive]⟩

end Entry

namespace Coupled
variable {i : ℕ} {fd : ℤ}

section

variable (h : Coupled w sp place)
include h

theorem slot_eq (hs : sp.names s = some i) :
    w.slots s = some (irisBadgeVfsFileOf (place i)) := by rw [h.slots, hs]; rfl

theorem slot_none (hs : sp.names s = none) : w.slots s = none := by
  rw [h.slots, hs]
  rfl

theorem read (hs : sp.names s = some i)
    (hfd : fdResolve fd = .slot s) (page : List UInt8) :
    (w.read page fd n).2 = .ok ((Spec.readBytes (sp.files i) n).length,
        Spec.readBytes (sp.files i) n) ∧
      Coupled (w.read page fd n).1 (sp.setOffset i ((sp.files i).offset +
        (Spec.readBytes (sp.files i) n).length.toUInt64)) place := by
  obtain ⟨st, hread, hep, hfiles⟩ := (h.entry s i hs).read (h.slot_eq hs) hfd page n
  rw [hread]
  exact ⟨rfl, h.moved hs hep hfiles⟩

theorem lseek (hs : sp.names s = some i) {fd whence : ℤ}
    (hfd : fdResolve fd = .slot s) (page : List UInt8) (off : UInt64) :
    ∃ sp', (match Spec.seekTo (sp.files i) off whence with
      | none => sp.Failed (w.lseek page fd off whence).2 sp'
      | some pos => (w.lseek page fd off whence).2 = .ok (pos.toNat, []) ∧
          sp' = sp.setOffset i pos) ∧ Coupled (w.lseek page fd off whence).1 sp' place := by
  have hseek := (h.entry s i hs).lseek (h.slot_eq hs) hfd page off whence
  cases hto : Spec.seekTo (sp.files i) off whence with
  | none =>
    obtain ⟨st, e, hfail, hep, hfiles⟩ := hto ▸ hseek
    rw [hfail]
    exact ⟨sp, ⟨⟨e, rfl⟩, rfl⟩, h.frame hep fun _ _ _ => by rw [hfiles]⟩
  | some pos =>
    obtain ⟨st, hok, hep, hfiles⟩ := hto ▸ hseek
    rw [hok]
    exact ⟨_, ⟨rfl, rfl⟩, h.moved hs hep hfiles⟩

theorem closeSlot (hsole : sp.Sole s) (page : List UInt8) :
    Coupled (w.closeSlot page s) (sp.setName s none) place := by
  have hdrop : ∀ {w' : World}, w'.slots = w.slots → w'.vfs.ep = w.vfs.ep →
      (∀ t j, t ≠ s → sp.names t = some j → w'.vfs.files (place j) = w.vfs.files (place j)) →
      Coupled (w'.setSlot s none) (sp.setName s none) place := by
    intro w' hslots hep hfiles
    have hnames : ∀ t j, (sp.setName s none).names t = some j → t ≠ s ∧ sp.names t = some j := by
      intro t j ht
      by_cases hts : t = s
      · simp [Spec.setName, hts] at ht
      · exact ⟨hts, by simpa [Spec.setName, hts] using ht⟩
    refine ⟨fun t => ?_, fun t j ht => ?_, fun t u i j ht hu => ?_, fun t j ht => ?_⟩
    · by_cases hts : t = s
      · simp [setSlot, Spec.setName, hts]
      · simpa [setSlot, Spec.setName, hts, hslots] using h.slots t
    · obtain ⟨hts, ht⟩ := hnames t j ht
      exact (h.entry t j ht).congr hep (hfiles t j hts ht)
    · exact h.apart t u i j (hnames t i ht).2 (hnames u j hu).2
    · exact h.fresh t j (hnames t j ht).2
  unfold World.closeSlot
  cases hs : sp.names s with
  | none =>
    rw [fdCall, h.slot_none hs]
    exact hdrop rfl rfl fun _ _ _ _ => rfl
  | some i =>
    obtain ⟨r, hr⟩ : ∃ r, r = fileMsg (irisBadgeVfsFileOf (place i)) page 0x0124 0 0 :=
      ⟨_, rfl⟩
    have hop : r.req.op = .fileClose := by rw [hr]; rfl
    have hp : fileOp (w.vfs.receive r) (place i) r.req
        = some (fileClose (w.vfs.receive r) (place i)) := by rw [fileOp, hop]
    rw [fdCall_eq hr (h.slot_eq hs) (h.entry s i hs).used (by rw [hop]; decide) hp]
    refine hdrop rfl ep_receive fun t j hts ht => ?_
    have hne : place j ≠ place i := fun he =>
      hts (hsole i t hs (h.apart t s j i ht hs he ▸ ht))
    exact (update_of_ne hne ..).trans (by rw [files_receive])

theorem named (hs : sp.names s = some i) (t : ℕ) :
    Coupled (w.setSlot t (some (irisBadgeVfsFileOf (place i)))) (sp.setName t (some i)) place := by
  have hnames : ∀ u j, (sp.setName t (some i)).names u = some j → ∃ u', sp.names u' = some j := by
    intro u j hu
    by_cases hut : u = t
    · exact ⟨s, by simpa [Spec.setName, hut, hs] using hu⟩
    · exact ⟨u, by simpa [Spec.setName, hut] using hu⟩
  refine ⟨fun u => ?_, fun u j hu => ?_, fun u v i j hu hv => ?_, fun u j hu => ?_⟩
  · by_cases hut : u = t
    · simp [setSlot, Spec.setName, hut]
    · simpa [setSlot, Spec.setName, hut] using h.slots u
  · obtain ⟨u', hu⟩ := hnames u j hu
    exact h.entry u' j hu
  · obtain ⟨u', hu⟩ := hnames u i hu
    obtain ⟨v', hv⟩ := hnames v j hv
    exact h.apart u' v' i j hu hv
  · obtain ⟨u', hu⟩ := hnames u j hu
    exact h.fresh u' j hu

theorem opened {bytes : List UInt8} {t : ℕ}
    (hep : st.ep = w.vfs.ep) (hfree : (w.vfs.files f).used = false)
    (hothers : ∀ f', f' ≠ f → st.files f' = w.vfs.files f') (hentry : Entry st f ⟨bytes, 0⟩) :
    Coupled (World.setSlot { w with vfs := st } t (some (irisBadgeVfsFileOf f)))
      (sp.opened t bytes) (update place sp.fresh f) := by
  have hold : ∀ u j, sp.names u = some j → j ≠ sp.fresh ∧ place j ≠ f := by
    intro u j hu
    refine ⟨(h.fresh u j hu).ne, ?_⟩
    rintro rfl
    rw [(h.entry u j hu).used] at hfree
    cases hfree
  have hnames : ∀ u j, (sp.opened t bytes).names u = some j →
      (u = t ∧ j = sp.fresh) ∨ sp.names u = some j := by
    intro u j hu
    by_cases hut : u = t
    · exact .inl ⟨hut, by simpa [Spec.opened, hut, eq_comm] using hu⟩
    · exact .inr (by simpa [Spec.opened, hut] using hu)
  refine ⟨fun u => ?_, fun u j hu => ?_, fun u v i j hu hv => ?_, fun u j hu => ?_⟩
  · by_cases hut : u = t
    · simp [setSlot, Spec.opened, hut]
    · have hslot := h.slots u
      cases hu : sp.names u with
      | none => simpa [setSlot, Spec.opened, hut, hu] using hslot
      | some j => simpa [setSlot, Spec.opened, hut, hu, (hold u j hu).1] using hslot
  · rcases hnames u j hu with ⟨-, rfl⟩ | hu
    · simpa [Spec.opened, setSlot] using hentry
    · have : Entry st (place j) (sp.files j) :=
        (h.entry u j hu).congr hep (hothers _ (hold u j hu).2)
      simpa [Spec.opened, setSlot, (hold u j hu).1] using this
  · rcases hnames u i hu with ⟨-, rfl⟩ | hu <;> rcases hnames v j hv with ⟨-, rfl⟩ | hv
    · exact fun _ => rfl
    · intro he
      simp only [update_self, update_of_ne (hold v j hv).1] at he
      exact absurd he.symm (hold v j hv).2
    · intro he
      simp only [update_self, update_of_ne (hold u i hu).1] at he
      exact absurd he (hold u i hu).2
    · rw [update_of_ne (hold u i hu).1, update_of_ne (hold v j hv).1]
      exact h.apart u v i j hu hv
  · rcases hnames u j hu with ⟨-, rfl⟩ | hu
    · exact Nat.lt_succ_self _
    · exact Nat.lt_succ_of_lt (h.fresh u j hu)

end

end Coupled

/-- The library follows the abstract descriptors in one call. -/
def StepFollows (w : World) (sp : Spec) (c : Call) : Prop :=
  ∃ sp' place', sp.Step (OpensAs w.vfs) c.op (step w c).2 sp' ∧ Coupled (step w c).1 sp' place'

theorem fdAlloc_names (h : Coupled w sp place) (hs : w.fdAlloc = some s) : sp.names s = none := by
  have hempty : w.slots s = none := by simpa using List.find?_some hs
  rw [h.slots s] at hempty
  simpa using hempty

/-- The message of an `open` names the export that the directory has under the path. -/
theorem opensAs_openTarget (w : World) (path : List UInt8) (mintOk : Bool) {r : Received}
    (hr : r = w.openMsg (cString path) mintOk) {x : ℕ}
    (hx : openTarget (w.vfs.receive r) r.req = some x) :
    OpensAs w.vfs path (contents w.vfs.ep.mem (w.vfs.exportOf x)) := by
  intro hreg
  have hbuf : (w.vfs.receive r).replyBuf.set (r.req.bufLen - 1) 0 = cString path ++ [0] := by
    simp [VfsState.receive, hreg, hr, openMsg]
  have hnames : ∀ e : VfsExport, (e.ready && vfsNameEq e.name (cString path ++ [0])) =
      (e.ready && cString e.name = cString path) := by
    intro e
    rw [Bool.eq_iff_iff, Bool.and_eq_true, Bool.and_eq_true, vfsNameEq_iff, cString_terminated,
      decide_eq_true_iff]
  rw [openTarget, hbuf, ep_receive, List.findIdx?_eq_some_iff_getElem] at hx
  obtain ⟨hlt, hfound, hfirst⟩ := hx
  rw [directory, Option.map_eq_some_iff]
  refine ⟨w.vfs.ep.exports[x], List.find?_eq_some_iff_getElem.mpr ⟨?_, x, hlt, rfl, ?_⟩, ?_⟩
  · rwa [← hnames]
  · intro j hj
    rw [← hnames, Bool.not_eq_true']
    exact Bool.eq_false_iff.mpr (hfirst j hj)
  · simp [VfsState.exportOf, VfsEpState.exportOf, hlt]

theorem follows_openPath (h : Coupled w sp place) (path page : List UInt8) (mintOk capOk : Bool) :
    StepFollows w sp ⟨.openPath path mintOk capOk, page⟩ := by
  simp only [StepFollows, step, openPath]
  split_ifs with hnil hlong
  · exact ⟨sp, place, .inl ⟨⟨_, rfl⟩, rfl⟩, h⟩
  · exact ⟨sp, place, .inl ⟨⟨_, rfl⟩, rfl⟩, h⟩
  cases hslot : w.fdAlloc with
  | none => exact ⟨sp, place, .inl ⟨⟨_, rfl⟩, rfl⟩, h⟩
  | some slot =>
    obtain ⟨r, hr⟩ : ∃ r, r = w.openMsg (cString path) mintOk := ⟨_, rfl⟩
    have hright : hasRight (wantedRights r.req) vfsFileRightRead = true := by
      have hword : r.req.words 0 = 7 := by rw [hr]; rfl
      rw [wantedRights, hword]
      decide
    have hop : r.req.op = .fileOpen := by rw [hr]; rfl
    obtain ⟨hturn, hreply⟩ := reply_of_fileOpen w.vfs hop
    have hep : (turn w.vfs r).ep = w.vfs.ep := by rw [hturn, ep_fileOpen, ep_receive]
    simp only [← hr]
    rw [hreply]
    rcases fileOpen_cases w.vfs hop with ⟨hfiles, hcap, -⟩ | ⟨f, x, hopens, hfiles, hcap⟩
    · have hkept : Coupled { w with vfs := turn w.vfs r } sp place :=
        h.frame hep fun _ _ _ => by rw [hturn, hfiles]
      simp only [openReply, hcap]
      split_ifs with hlabel
      · exact ⟨sp, place, .inl ⟨⟨_, rfl⟩, rfl⟩, hkept⟩
      · exact ⟨sp, place, .inl ⟨⟨_, rfl⟩, rfl⟩, hkept⟩
    · have hfree := hopens.unused
      have hothers : ∀ f', f' ≠ f → (turn w.vfs r).files f' = w.vfs.files f' := fun f' hf => by
        rw [hturn, hfiles, update_of_ne hf]
      have hkept : Coupled { w with vfs := turn w.vfs r } sp place := by
        refine h.frame hep fun t j ht => hothers _ fun he => ?_
        rw [← he, (h.entry t j ht).used] at hfree
        cases hfree
      have hentry : Entry (turn w.vfs r) f ⟨contents w.vfs.ep.mem (w.vfs.exportOf x), 0⟩ := by
        have hf : (turn w.vfs r).files f = ⟨true, x, wantedRights r.req, 0⟩ := by
          rw [hturn, hfiles, update_self]
        exact ⟨by rw [hf], by rw [hf]; exact hright, by rw [hf],
          by rw [hf, VfsState.exportOf, hep]; rfl⟩
      simp only [openReply, hcap]
      split_ifs with hlabel hinstalled
      · exact ⟨sp, place, .inl ⟨⟨_, rfl⟩, rfl⟩, hkept⟩
      · exact ⟨_, _, .inr ⟨slot, _, opensAs_openTarget w path mintOk hr hopens.target,
          fdAlloc_names h hslot, rfl, rfl⟩,
          h.opened hep hfree hothers hentry⟩
      · exact ⟨sp, place, .inl ⟨⟨_, rfl⟩, rfl⟩, hkept⟩

theorem fileOf_eq_some {i : ℕ} (hf : sp.fileOf fd = some i) :
    ∃ s, fdResolve fd = .slot s ∧ sp.names s = some i := by
  unfold Spec.fileOf at hf
  split at hf
  · exact ⟨_, ‹_›, hf⟩
  · cases hf

section

variable (h : Coupled w sp place)
include h

theorem Coupled.fdCall_none (hf : sp.fileOf fd = none)
    (hfd : fdResolve fd = .slot s) (page : List UInt8) (label w₀ w₁ : UInt64) :
    w.fdCall page s label w₀ w₁ = (w, .error .kernel) := by
  rw [Spec.fileOf, hfd] at hf
  rw [fdCall, h.slot_none hf]

theorem follows_read (fd : ℤ) (n : ℕ) (page : List UInt8) :
    StepFollows w sp ⟨.read fd n, page⟩ := by
  simp only [StepFollows, Spec.Step, step]
  cases hf : sp.fileOf fd with
  | none =>
    refine ⟨sp, place, rfl, ?_⟩
    unfold World.read
    split
    · exact h
    · exact h
    · exact h
    rename_i s hfd
    split_ifs
    · exact h
    · dsimp only
      rw [h.fdCall_none hf hfd]
      exact h
  | some i =>
    obtain ⟨s, hfd, hs⟩ := fileOf_eq_some hf
    obtain ⟨hres, hnext⟩ := h.read (n := n) hs hfd page
    exact ⟨_, place, ⟨hres, rfl⟩, hnext⟩

theorem follows_lseek (fd whence : ℤ) (off : UInt64)
    (page : List UInt8) : StepFollows w sp ⟨.lseek fd off whence, page⟩ := by
  simp only [StepFollows, Spec.Step, step]
  cases hf : sp.fileOf fd with
  | none =>
    refine ⟨sp, place, rfl, ?_⟩
    unfold lseek
    split
    · exact h
    · exact h
    · exact h
    rename_i s hfd
    split_ifs
    · exact h
    · dsimp only
      rw [h.fdCall_none hf hfd]
      exact h
  | some i =>
    obtain ⟨s, hfd, hs⟩ := fileOf_eq_some hf
    obtain ⟨sp', hres, hnext⟩ := h.lseek hs hfd page off
    exact ⟨sp', place, hres, hnext⟩

theorem follows_close (hlast : sp.ClosesLast (.close fd)) : StepFollows w sp ⟨.close fd, page⟩ := by
  simp only [StepFollows, Spec.Step, step, close]
  cases hfd : fdResolve fd with
  | slot s => exact ⟨_, place, ⟨rfl, rfl⟩, h.closeSlot (hlast s hfd) page⟩
  | eof => exact ⟨sp, place, rfl, h⟩
  | console => exact ⟨sp, place, rfl, h⟩
  | bad => exact ⟨sp, place, rfl, h⟩

theorem Coupled.mint {s t : ℕ} {w' : World}
    (hmint : w.mint s t mintOk = some w') :
    ∃ i, sp.names s = some i ∧ Coupled w' (sp.setName t (some i)) place := by
  cases hs : sp.names s with
  | none => simp [World.mint, h.slot_none hs] at hmint
  | some i =>
    rw [World.mint, h.slot_eq hs] at hmint
    simp only [Option.ite_none_right_eq_some, Option.some.injEq] at hmint
    exact ⟨i, rfl, hmint.2 ▸ h.named hs t⟩

theorem follows_dup (fd : ℤ) (mintOk : Bool) (page : List UInt8) :
    StepFollows w sp ⟨.dup fd mintOk, page⟩ := by
  have hfail : ∀ e, ∃ sp' place', sp.Step (OpensAs w.vfs) (.dup fd mintOk) (.error e) sp' ∧
      Coupled w sp' place' := fun e => ⟨sp, place, .inl ⟨⟨e, rfl⟩, rfl⟩, h⟩
  simp only [StepFollows, step, dup]
  cases hfd : fdResolve fd with
  | eof => exact hfail _
  | console => exact hfail _
  | bad => exact hfail _
  | slot s =>
    cases hslot : w.fdAlloc with
    | none => exact hfail _
    | some t =>
      cases hmint : w.mint s t mintOk with
      | none =>
        simp only [hmint]
        exact hfail _
      | some w' =>
        obtain ⟨i, hs, hnext⟩ := h.mint hmint
        simp only [hmint]
        refine ⟨_, place, .inr ⟨i, t, ?_, fdAlloc_names h hslot, rfl, rfl⟩, hnext⟩
        rw [Spec.fileOf, hfd]
        exact hs

theorem follows_dup2 {fd dst : ℤ}
    (hlast : sp.ClosesLast (.dup2 fd dst mintOk)) :
    StepFollows w sp ⟨.dup2 fd dst mintOk, page⟩ := by
  simp only [StepFollows, Spec.Step, step, dup2]
  by_cases hboth : ∃ s t, fdResolve fd = .slot s ∧ fdResolve dst = .slot t
  · obtain ⟨s, t, hs, ht⟩ := hboth
    simp only [hs, ht]
    split_ifs with hst
    · exact ⟨sp, place, .inl ⟨hst, rfl⟩, h⟩
    have hclosed := h.closeSlot (hlast s t hs ht hst) page
    cases hmint : (w.closeSlot page t).mint s t mintOk with
    | none => exact ⟨_, place, .inr ⟨hst, .inl ⟨⟨_, rfl⟩, rfl⟩⟩, hclosed⟩
    | some w' =>
      obtain ⟨i, hi, hnext⟩ := hclosed.mint hmint
      have hagain : (sp.setName t none).setName t (some i) = sp.setName t (some i) := by
        simp [Spec.setName]
      rw [hagain] at hnext
      refine ⟨_, place, .inr ⟨hst, .inr ⟨i, ?_, rfl, rfl⟩⟩, hnext⟩
      simpa [Spec.setName, hst] using hi
  · refine ⟨sp, place, ?_⟩
    cases hs : fdResolve fd <;> cases ht : fdResolve dst <;>
      first
      | exact (hboth ⟨_, _, hs, ht⟩).elim
      | exact ⟨⟨⟨.ebadf, rfl⟩, rfl⟩, h⟩

theorem stepFollows {c : Call} (hlast : sp.ClosesLast c.op) : StepFollows w sp c := by
  obtain ⟨op, page⟩ := c
  cases op with
  | openPath path mintOk capOk => exact follows_openPath h path page mintOk capOk
  | read fd n => exact follows_read h fd n page
  | lseek fd off whence => exact follows_lseek h fd whence off page
  | close fd => exact follows_close h hlast
  | dup fd mintOk => exact follows_dup h fd mintOk page
  | dup2 fd dst mintOk => exact follows_dup2 h hlast

theorem Coupled.follows (cs : List Call) : Follows w sp cs := by
  induction cs generalizing w sp place with
  | nil => trivial
  | cons c cs ih =>
    intro hlast
    obtain ⟨sp', place', hstep, hnext⟩ := stepFollows h hlast
    exact ⟨sp', hstep, ih hnext⟩

end

/-- In every run that closes only last names, descriptors are independent names of open files. -/
theorem descriptors_name_open_files (st : VfsState) (badge : UInt64) (cs : List Call) :
    Follows ⟨st, badge, fun _ => none⟩ .start cs :=
  (coupled_start st badge).follows cs

/-- The program opens "a" and duplicates it, and opens and closes "b". -/
def dupRun : List Call :=
  [⟨.openPath [97] true true, []⟩, ⟨.dup 40 true, []⟩, ⟨.openPath [98] true true, []⟩,
    ⟨.close 42, []⟩]

/-- After that both descriptors of "a" name one file, whose offset they share. -/
theorem descriptors_name_open_files_dupRun :
    let w := dupRun.foldl (fun w c => (step w c).1) ⟨boot twoExports noMem 0 true, 0x200, fun _ => none⟩
    (∃ sp, sp.names 40 = some 0 ∧ sp.names 41 = some 0 ∧ sp.names 42 = none ∧
      sp.files 0 = ⟨[1, 2, 3], 0⟩ ∧ Follows w sp [⟨.read 41 2, []⟩, ⟨.read 40 9, []⟩]) ∧
    (step w ⟨.read 41 2, []⟩).2 = .ok (2, [1, 2]) ∧
    (step (step w ⟨.read 41 2, []⟩).1 ⟨.read 40 9, []⟩).2 = .ok (1, [3]) := by
  refine ⟨?_, by decide +kernel, by decide +kernel⟩
  have hrun := descriptors_name_open_files (boot twoExports noMem 0 true) 0x200
    (dupRun ++ [⟨.read 41 2, []⟩, ⟨.read 40 9, []⟩])
  obtain ⟨sp₁, h₁, hrun⟩ := hrun.next trivial
  obtain ⟨a, ha, rfl⟩ := h₁.opened 40 (by decide +kernel)
  have hdir : directory (boot twoExports noMem 0 true).ep [97] = some [1, 2, 3] := by decide +kernel
  obtain rfl := Option.some.inj (hdir.symm.trans (ha rfl))
  obtain ⟨sp₂, h₂, hrun⟩ := hrun.next trivial
  obtain ⟨i, hi, rfl⟩ := h₂.duplicated 41 (by decide +kernel)
  obtain rfl : 0 = i := Option.some.inj hi
  obtain ⟨sp₃, h₃, hrun⟩ := hrun.next trivial
  obtain ⟨b, -, rfl⟩ := h₃.opened 42 (by decide +kernel)
  -- No other slot names the second file.
  obtain ⟨sp₄, h₄, hrun⟩ := hrun.next fun s hs i t hi ht => by
    obtain rfl : 42 = s := by simpa [fdResolve, fdLo, fdHi] using hs
    obtain rfl : 1 = i := Option.some.inj hi
    by_contra hne
    simp only [Spec.opened, Spec.setName, Spec.start, update_apply, hne, if_false] at ht
    split_ifs at ht <;> cases ht
  obtain ⟨-, rfl⟩ := h₄
  exact ⟨_, rfl, rfl, rfl, rfl, hrun⟩

/-- Closing the duplicate closes the original, which reads another file once its table entry is used
again. -/
theorem close_of_duplicate_closes_the_original :
    let w₀ : World := ⟨boot twoExports noMem 0 true, 0x200, fun _ => none⟩
    let w₁ := (step w₀ ⟨.openPath [97] true true, []⟩).1
    let w₂ := (step w₁ ⟨.dup 40 true, []⟩).1
    let w₃ := (step w₂ ⟨.close 41, []⟩).1
    (step w₂ ⟨.read 40 9, []⟩).2 = .ok (3, [1, 2, 3]) ∧
      (step w₃ ⟨.read 40 9, []⟩).2 = .error (.iris IrisError.notFound.word) ∧
      (step (step w₃ ⟨.openPath [98] true true, []⟩).1 ⟨.read 40 9, []⟩).2 = .ok (2, [7, 8]) := by
  decide +kernel

end IrisOS.Fd
