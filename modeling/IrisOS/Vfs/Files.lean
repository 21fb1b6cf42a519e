import IrisOS.Vfs.Confinement

/-! File capabilities. Their badge is an index into the open-file table, whose entries are used
again, and the endpoint also serves requests by name; away from these, a capability stands for its
file. -/
namespace IrisOS.Vfs
open Lib Function Option

/-! ## What opens and closes a file -/

/-- A request opens a file: it names an export, there is a free entry, and the capability can be
minted. -/
structure OpensFile (st : VfsState) (r : Received) (f : FileId) (x : ℕ) (rights : Rights) :
    Prop where
  op : r.req.op = .fileOpen
  path : 0 < r.req.bufLen ∧ r.req.bufLen ≤ vfsEpPathMax
  target : openTarget (st.receive r) r.req = some x
  entry : freeFile st = some f
  mints : r.mintOk = true
  rights : wantedRights r.req = rights

/-- A request closes a file. -/
structure ClosesFile (st : VfsState) (r : Received) (f : FileId) : Prop where
  badge : irisBadgeVfsFile r.req.senderBadge = some f
  op : r.req.op = .fileClose
  used : (st.files f).used = true

/-- The entry is open, on that export and with those rights. -/
structure Names (st : VfsState) (f : FileId) (x : ℕ) (rights : Rights) : Prop where
  used : (st.files f).used = true
  target : (st.files f).exportIdx = x
  rights : (st.files f).rights = rights

section
variable {st : VfsState} {r : Received} {f : FileId} {x : ℕ} {rights : Rights} {req : Request}

theorem reply_of_fileOpen (st : VfsState) (hop : r.req.op = .fileOpen) :
    turn st r = (fileOpen (st.receive r) r).1 ∧ reply st r = some (fileOpen (st.receive r) r).2 := by
  have hserve : vfsFileServe (st.receive r) r = some (fileOpen (st.receive r) r) := if_pos hop
  unfold turn reply serve
  rw [hserve]
  exact ⟨rfl, rfl⟩

@[simp] theorem freeFile_receive : freeFile (st.receive r) = freeFile st := by
  rw [freeFile, freeFile, files_receive]

/-- The entry a file is opened into was not in use. -/
theorem OpensFile.unused (h : OpensFile st r f x rights) : (st.files f).used = false := by
  simpa using List.find?_some h.entry

/-- An open records the file, or leaves the table as it was. -/
theorem fileOpen_cases (st : VfsState) (hop : r.req.op = .fileOpen) :
    ((fileOpen (st.receive r) r).1.files = st.files ∧ (fileOpen (st.receive r) r).2.cap = none ∧
        ∀ f x rights, ¬ OpensFile st r f x rights) ∨
      ∃ f x, OpensFile st r f x (wantedRights r.req) ∧
        (fileOpen (st.receive r) r).1.files = update st.files f ⟨true, x, wantedRights r.req, 0⟩ ∧
        (fileOpen (st.receive r) r).2.cap = some (irisBadgeVfsFileOf f) := by
  unfold fileOpen
  rw [freeFile_receive]
  by_cases hpath : r.req.bufLen = 0 ∨ r.req.bufLen > vfsEpPathMax
  · rw [if_pos hpath]
    exact .inl ⟨files_receive, rfl, fun _ _ _ h => by have := h.path; omega⟩
  rw [if_neg hpath]
  cases hx : openTarget (st.receive r) r.req with
  | none => exact .inl ⟨files_receive, rfl, fun _ _ _ h => by cases hx.symm.trans h.target⟩
  | some x =>
    cases hf : freeFile st with
    | none => exact .inl ⟨files_receive, rfl, fun _ _ _ h => by cases hf.symm.trans h.entry⟩
    | some f =>
      dsimp only
      split_ifs with hmint
      · refine .inr ⟨f, x, ⟨hop, by omega, hx, hf, hmint, rfl⟩, ?_, rfl⟩
        exact congrArg (update · f _) files_receive
      · exact .inl ⟨files_receive, rfl, fun _ _ _ h => hmint h.mints⟩

theorem OpensFile.names (h : OpensFile st r f x rights) : Names (turn st r) f x rights := by
  rw [(reply_of_fileOpen st h.op).1]
  rcases fileOpen_cases st h.op with ⟨-, -, hnone⟩ | ⟨f', x', h', hfiles, -⟩
  · exact absurd h (hnone f x rights)
  obtain rfl : f' = f := some.inj (h'.entry.symm.trans h.entry)
  obtain rfl : x' = x := some.inj (h'.target.symm.trans h.target)
  rw [← h.rights]
  have hf : (fileOpen (st.receive r) r).1.files f' = ⟨true, x', wantedRights r.req, 0⟩ := by
    rw [hfiles, update_self]
  exact ⟨by rw [hf], by rw [hf], by rw [hf]⟩

theorem turn_of_dispatched (hop : r.req.op ≠ .fileOpen)
    (h : ∀ f, irisBadgeVfsFile r.req.senderBadge = some f →
      fileInvoke (st.receive r) f r.req = none) : (turn st r).files = st.files := by
  have hserve : vfsFileServe (st.receive r) r = none := by
    rw [vfsFileServe, if_neg hop]
    split
    · rfl
    · rename_i f hf
      exact h f hf
  unfold turn serve
  rw [hserve]
  unfold vfsEpServe copyOut
  dsimp only
  split <;> exact files_receive

variable {p : VfsState × Reply} {rs : List Received}

theorem turn_of_fileInvoke (hop : r.req.op ≠ .fileOpen)
    (hf : irisBadgeVfsFile r.req.senderBadge = some f)
    (h : fileInvoke (st.receive r) f r.req = some p) : turn st r = p.1 ∧ reply st r = some p.2 := by
  have hserve : vfsFileServe (st.receive r) r = some p := by
    rw [vfsFileServe, if_neg hop, hf]
    exact h
  unfold turn reply serve
  rw [hserve]
  exact ⟨rfl, rfl⟩

theorem used_setFile {v : OpenFile} (hv : v.used = (st.files f).used) :
    ((st.setFile f v).files f).used = (st.files f).used := by
  unfold VfsState.setFile
  rw [← hv]
  exact congrArg OpenFile.used (update_self f v st.files)

theorem used_fileSeek (st : VfsState) (f : FileId) (req : Request) :
    ((fileSeek st f req).1.files f).used = (st.files f).used := by
  unfold fileSeek
  split
  · rfl
  · dsimp only
    split
    · rfl
    · exact used_setFile rfl

theorem used_fileRead (st : VfsState) (f : FileId) (req : Request) :
    ((fileRead st f req).1.files f).used = (st.files f).used := by
  unfold fileRead
  dsimp only
  split
  · change ((st.setFile f _).files f).used = _
    exact used_setFile rfl
  · rfl

theorem used_fileStat (st : VfsState) (f : FileId) :
    ((fileStat st f).1.files f).used = (st.files f).used := by
  unfold fileStat
  dsimp only
  split <;> rfl

theorem used_fileInvoke (h : fileInvoke st f req = some p) :
    (¬ (req.op = .fileClose ∧ (st.files f).used = true) ∧
        (p.1.files f).used = (st.files f).used) ∨
      (req.op = .fileClose ∧ (st.files f).used = true ∧ (p.1.files f).used = false) := by
  obtain ⟨q, hq, rfl⟩ := map_eq_some_iff.mp h
  split_ifs with hu
  swap
  · exact .inl ⟨fun hc => hu hc.2, rfl⟩
  unfold fileOp at hq
  split at hq
  · cases hq; exact .inl ⟨by simp [*], rfl⟩
  · cases hq; exact .inl ⟨by simp [*], used_fileStat st f⟩
  · cases hq; exact .inl ⟨by simp [*], used_fileSeek st f req⟩
  · rename_i hop
    cases hq
    refine .inr ⟨hop, hu, ?_⟩
    exact congrArg OpenFile.used (update_self f _ st.files)
  · cases hq; exact .inl ⟨by simp [*], used_fileRead st f req⟩
  · cases hq

/-- A turn closes an entry that no file is opened into, or leaves it open as it was. -/
theorem entry_turn (hopen : ¬ ∃ x rights, OpensFile st r f x rights) :
    (ClosesFile st r f ∧ ((turn st r).files f).used = false) ∨
      (¬ ClosesFile st r f ∧ ((turn st r).files f).used = (st.files f).used ∧
        ((turn st r).files f).exportIdx = (st.files f).exportIdx ∧
        ((turn st r).files f).rights = (st.files f).rights) := by
  by_cases hop : r.req.op = .fileOpen
  · have hnc : ¬ ClosesFile st r f := fun hc => nomatch hop.symm.trans hc.op
    refine .inr ⟨hnc, ?_⟩
    rw [(reply_of_fileOpen st hop).1]
    rcases fileOpen_cases st hop with ⟨hfiles, -⟩ | ⟨f', x', hopens, hfiles, -⟩
    · rw [hfiles]
      exact ⟨rfl, rfl, rfl⟩
    have hne : f ≠ f' := by
      rintro rfl
      exact hopen ⟨x', _, hopens⟩
    rw [hfiles, update_of_ne hne]
    exact ⟨rfl, rfl, rfl⟩
  by_cases hinv : ∃ f' p, irisBadgeVfsFile r.req.senderBadge = some f' ∧
      fileInvoke (st.receive r) f' r.req = some p
  · obtain ⟨f', p, hf', hp⟩ := hinv
    obtain ⟨hturn, -⟩ := turn_of_fileInvoke hop hf' hp
    have hkept := kept_fileInvoke (r := r) hp
    rw [hturn]
    by_cases hff : f = f'
    · subst hff
      have hinvoke := used_fileInvoke hp
      rw [files_receive] at hinvoke
      rcases hinvoke with ⟨hnot, hused⟩ | ⟨hclose, hopened, hused⟩
      · refine .inr ⟨fun hc => hnot ⟨hc.op, hc.used⟩, ?_⟩
        rw [hused, hkept.target, hkept.rights, files_receive]
        exact ⟨rfl, rfl, rfl⟩
      · exact .inl ⟨⟨hf', hclose, hopened⟩, hused⟩
    · refine .inr ⟨fun hc => hff (some.inj (hc.badge.symm.trans hf')), ?_⟩
      rw [hkept.others f hff, files_receive]
      exact ⟨rfl, rfl, rfl⟩
  · have hnone : ∀ f', irisBadgeVfsFile r.req.senderBadge = some f' →
        fileInvoke (st.receive r) f' r.req = none := fun f' hf' =>
      eq_none_iff_forall_ne_some.mpr fun p hp => hinv ⟨f', p, hf', hp⟩
    refine .inr ⟨fun hc => ?_, ?_⟩
    · have := hnone f hc.badge
      rw [fileInvoke, fileOp, hc.op] at this
      cases this
    · rw [turn_of_dispatched hop hnone]
      exact ⟨rfl, rfl, rfl⟩

theorem gone_run (hgone : (st.files f).used = false)
    (hkept : Meets turn (fun st r => ¬ ∃ x rights, OpensFile st r f x rights) st rs) :
    ((runFrom turn st rs).files f).used = false := by
  refine hkept.keeps (I := fun st => (st.files f).used = false) hgone fun st r hg hn => ?_
  rcases entry_turn hn with ⟨-, hused⟩ | ⟨-, hused, -, -⟩
  · exact hused
  · exact hused.trans hg

theorem names_run (hnames : Names st f x rights)
    (hkept : Meets turn (fun st r => ¬ ∃ x rights, OpensFile st r f x rights) st rs) :
    ((∃ a ∈ history turn st rs, ClosesFile a.1 a.2 f) →
        ((runFrom turn st rs).files f).used = false) ∧
      ((¬ ∃ a ∈ history turn st rs, ClosesFile a.1 a.2 f) →
        Names (runFrom turn st rs) f x rights) := by
  induction rs generalizing st with
  | nil => exact ⟨by simp [history], fun _ => hnames⟩
  | cons r rs ih =>
    simp only [history, List.mem_append, List.mem_singleton, runFrom_cons]
    rcases entry_turn hkept.1 with ⟨hclose, hused⟩ | ⟨hnc, hused, htarget, hrights⟩
    · refine ⟨fun _ => gone_run hused hkept.2, fun hno => ?_⟩
      exact absurd ⟨(st, r), .inr rfl, hclose⟩ hno
    have hnames' : Names (turn st r) f x rights :=
      ⟨hused.trans hnames.used, htarget.trans hnames.target, hrights.trans hnames.rights⟩
    obtain ⟨hgone, hstill⟩ := ih hnames' hkept.2
    refine ⟨?_, fun hno => hstill ?_⟩
    · rintro ⟨a, ha | rfl, hc⟩
      · exact hgone ⟨a, ha, hc⟩
      · exact absurd hc hnc
    · rintro ⟨a, ha, hc⟩
      exact hno ⟨a, .inl ha, hc⟩

end

/-! ## What a file capability gives -/

/-- A badge of neither the administrator nor a session gets a ping and the operations by name only.
-/
theorem answer_outsider (inp : Input) (hs : irisBadgeFilegrantSession inp.req.senderBadge = none)
    (hadmin : inp.req.senderBadge ≠ irisBadgeFilegrantAdmin) (hop : inp.req.op.byName = false)
    (hping : inp.req.op ≠ .ping) : ∃ e, ∀ st, answer st inp = replyErr e := by
  by_cases hbuf : inp.req.bufLen > 0 ∧ inp.buf = none
  · refine ⟨.invalidArg, fun st => ?_⟩
    rw [answer_eq_replyOf, handle, if_pos hbuf]
    rfl
  have hhandle : ∀ st, answer st inp = replyOf (dispatchCommon st inp.req inp.buf) := by
    intro st
    rw [answer_eq_replyOf, handle, if_neg hbuf, hs]
    rfl
  simp only [hhandle]
  unfold dispatchCommon
  cases h : inp.req.op with
  | list | stat | readAt | status | fileOpen => rw [h] at hop; cases hop
  | ping => exact absurd h hping
  | grantStat | grantReadAt | grantQueryIdentity | grantDerive => exact ⟨.accessDenied, fun _ => rfl⟩
  | fileRead | fileSeek | fileStat | fileClose | unknown => exact ⟨.notSupported, fun _ => rfl⟩
  | grantOpen =>
    refine ⟨.accessDenied, fun st => ?_⟩
    simp only [handleGrantOpen, if_pos hadmin, replyOf]
  | grantSessionReset =>
    refine ⟨.accessDenied, fun st => ?_⟩
    simp only [handleSessionReset, if_pos hadmin, replyOf]
  | grantRevoke =>
    refine ⟨.accessDenied, fun st => ?_⟩
    simp only [handleGrantRevoke, revokeTarget, if_neg hadmin, grantRef, hs, replyOf]

/-- The same bytes of an export with read, the same size with read or stat. -/
structure SeesSame (rights : Rights) (x : ℕ) (st st' : VfsEpState) : Prop where
  bytes : hasRight rights vfsFileRightRead = true →
    contents st.mem (st.exportOf x) = contents st'.mem (st'.exportOf x)
  size : hasRight rights vfsFileRightRead = true ∨ hasRight rights vfsFileRightStat = true →
    (st.exportOf x).size = (st'.exportOf x).size

/-- The request asks for the end of a file whose opening recorded neither read nor stat. -/
def SeeksEndBlind (req : Request) (rights : Rights) : Prop :=
  req.op = .fileSeek ∧ req.words 1 = 2 ∧ hasRight rights vfsFileRightRead = false ∧
    hasRight rights vfsFileRightStat = false

theorem fileBytesLen_le (size : UInt32) (off : UInt64) (n : UInt32) :
    (fileBytesLen size off n).toNat ≤ size.toNat - off.toNat := by
  have hsize : size.toUInt64.toNat = size.toNat := UInt32.toNat_toUInt64 size
  unfold fileBytesLen
  split
  · rw [UInt32.toNat_zero]
    exact Nat.zero_le _
  rename_i hoff
  have hlt := UInt64.not_le.mp hoff
  have hsub := UInt64.toNat_sub_of_le _ _ (UInt64.le_of_lt hlt)
  dsimp only
  generalize hm : (if n.toUInt64 > size.toUInt64 - off then (size.toUInt64 - off).toUInt32 else n) =
    m
  have hn : m.toNat ≤ size.toNat - off.toNat := by
    rw [← hm]
    split
    · rw [UInt64.toNat_toUInt32, hsub, hsize]
      exact Nat.mod_le _ _
    · rename_i hle
      have := UInt64.le_iff_toNat_le.mp (UInt64.not_lt.mp hle)
      rw [hsub, hsize, UInt32.toNat_toUInt64] at this
      exact this
  split
  · rename_i hgt
    have := UInt32.lt_iff_toNat_lt.mp hgt
    omega
  · exact hn

theorem fileBytes_eq (mem : UInt64 → UInt8) (exp : VfsExport) (off n : ℕ)
    (h : n ≤ exp.size.toNat - off) :
    ((List.range n).map fun i => exportByte mem exp (off + i)) =
      ((contents mem exp).drop off).take n := by
  apply List.ext_getElem
  · simp [contents, h]
  · intro k h1 h2
    simp [contents]

/-- The reply to a `FILE_READ`, from the entry and from what the export shows. -/
def fileReadReply (file : OpenFile) (size : UInt32) (bytes : List UInt8) (req : Request) : Reply :=
  if hasRight file.rights vfsFileRightRead then
    let got := fileBytesLen size file.offset (wantedLen req)
    replyOk ![0, got.toUInt64, size.toUInt64, file.offset + got.toUInt64] 4
      ((bytes.drop file.offset.toNat).take got.toNat)
  else replyErr .accessDenied

theorem reply_fileRead (st : VfsState) (f : FileId) (req : Request) :
    (fileRead st f req).2 = fileReadReply (st.files f) (st.exportOf (st.files f).exportIdx).size
      (contents st.ep.mem (st.exportOf (st.files f).exportIdx)) req := by
  unfold fileRead fileReadReply
  dsimp only
  split
  · rw [← fileBytes_eq _ _ _ _ (fileBytesLen_le _ _ _)]
  · rfl

/-- The reply to a `FILE_STAT`, from the entry and the size of the export. -/
def fileStatReply (file : OpenFile) (size : UInt32) : Reply :=
  if hasRight file.rights vfsFileRightStat then
    replyOk ![0, size.toUInt64, file.offset, file.rights.toUInt64] 4
  else replyErr .accessDenied

theorem reply_fileStat (st : VfsState) (f : FileId) :
    (fileStat st f).2 = fileStatReply (st.files f) (st.exportOf (st.files f).exportIdx).size := by
  unfold fileStat fileStatReply
  dsimp only
  split <;> rfl

section
variable {st : VfsState} {r : Received} {f : FileId} {x : ℕ} {rights : Rights}
  {exports : List VfsExport} {mem : UInt64 → UInt8}

section

variable (hnames : Names st f x rights)
include hnames

theorem reply_fileRead_withExports (req : Request)
    (hsees : SeesSame rights x st.ep (st.ep.withExports exports mem)) :
    (fileRead (st.withExports exports mem) f req).2 = (fileRead st f req).2 := by
  rw [reply_fileRead, reply_fileRead]
  change fileReadReply (st.files f) ((st.withExports exports mem).exportOf (st.files f).exportIdx).size
    (contents mem ((st.withExports exports mem).exportOf (st.files f).exportIdx)) req = _
  rw [hnames.target]
  by_cases hr : hasRight rights vfsFileRightRead = true
  · have hsize : (st.exportOf x).size = ((st.withExports exports mem).exportOf x).size :=
      hsees.size (.inl hr)
    have hbytes : contents st.ep.mem (st.exportOf x) =
        contents mem ((st.withExports exports mem).exportOf x) := hsees.bytes hr
    rw [hsize, hbytes]
  · rw [fileReadReply, fileReadReply, hnames.rights, if_neg hr, if_neg hr]

theorem reply_fileStat_withExports
    (hsees : SeesSame rights x st.ep (st.ep.withExports exports mem)) :
    (fileStat (st.withExports exports mem) f).2 = (fileStat st f).2 := by
  rw [reply_fileStat, reply_fileStat]
  change fileStatReply (st.files f)
    ((st.withExports exports mem).exportOf (st.files f).exportIdx).size = _
  rw [hnames.target]
  by_cases hr : hasRight rights vfsFileRightStat = true
  · have hsize : (st.exportOf x).size = ((st.withExports exports mem).exportOf x).size :=
      hsees.size (.inr hr)
    rw [hsize]
  · rw [fileStatReply, fileStatReply, hnames.rights, if_neg hr, if_neg hr]

theorem reply_fileSeek_withExports
    (hop : req.op = .fileSeek) (hseek : ¬ SeeksEndBlind req rights)
    (hsees : SeesSame rights x st.ep (st.ep.withExports exports mem)) :
    (fileSeek (st.withExports exports mem) f req).2 = (fileSeek st f req).2 := by
  have hbase : seekBase (st.withExports exports mem) f (req.words 1) =
      seekBase st f (req.words 1) := by
    unfold seekBase
    by_cases hend : req.words 1 = 2
    · have hright : hasRight rights vfsFileRightRead = true ∨
          hasRight rights vfsFileRightStat = true := by
        by_contra hno
        simp only [not_or, Bool.not_eq_true] at hno
        exact hseek ⟨hop, hend, hno⟩
      have hsize : (st.exportOf x).size = ((st.withExports exports mem).exportOf x).size :=
        hsees.size hright
      change (if _ then _ else if _ then _ else if _ then
        some ((st.withExports exports mem).exportOf (st.files f).exportIdx).size.toUInt64
        else none) = _
      rw [hnames.target, hsize]
      rfl
    · rw [if_neg hend, if_neg hend]
      rfl
  unfold fileSeek
  rw [hbase]
  cases seekBase st f (req.words 1) with
  | none => rfl
  | some base =>
    dsimp only
    split <;> rfl

theorem fileInvoke_withExports (hseek : ¬ SeeksEndBlind req rights)
    (hsees : SeesSame rights x st.ep (st.ep.withExports exports mem)) :
    (fileInvoke (st.withExports exports mem) f req).map Prod.snd =
      (fileInvoke st f req).map Prod.snd := by
  have hop : (fileOp (st.withExports exports mem) f req).map Prod.snd =
      (fileOp st f req).map Prod.snd := by
    unfold fileOp
    cases h : req.op with
    | fileStat => exact congrArg some (reply_fileStat_withExports hnames hsees)
    | fileSeek => exact congrArg some (reply_fileSeek_withExports hnames h hseek hsees)
    | fileRead => exact congrArg some (reply_fileRead_withExports hnames req hsees)
    | _ => rfl
  have hused : ((st.withExports exports mem).files f).used = true := hnames.used
  unfold fileInvoke
  simp only [hused, hnames.used, if_true, map_map]
  exact hop

end

theorem refused_of_gone (hgone : (st.files f).used = false)
    (hf : irisBadgeVfsFile r.req.senderBadge = some f) (hop : r.req.op.byName = false) :
    ∀ rep ∈ reply st r, rep.label = .err := by
  have hopen : r.req.op ≠ .fileOpen := fun h => by rw [h] at hop; cases hop
  intro rep hrep
  cases hinv : fileInvoke (st.receive r) f r.req with
  | some p =>
    rw [(turn_of_fileInvoke hopen hf hinv).2] at hrep
    cases hrep
    obtain ⟨q, -, rfl⟩ := map_eq_some_iff.mp hinv
    rw [files_receive, hgone]
    rfl
  | none =>
    have hserve : vfsFileServe (st.receive r) r = none := by
      rw [vfsFileServe, if_neg hopen, hf]
      exact hinv
    have hping : r.req.op ≠ .ping := fun h => by
      rw [fileInvoke, fileOp, h] at hinv
      cases hinv
    obtain ⟨e, he⟩ := answer_outsider (forwarded (st.receive r) r) (session_of_file hf)
      (ne_admin_of_file hf) hop hping
    rw [reply_of_not_served hserve, he] at hrep
    split at hrep
    · cases hrep
      rfl
    · cases hrep

theorem reply_withExports (hnames : Names st f x rights)
    (hf : irisBadgeVfsFile r.req.senderBadge = some f) (hop : r.req.op.byName = false)
    (hseek : ¬ SeeksEndBlind r.req rights)
    (hsees : SeesSame rights x st.ep (st.ep.withExports exports mem)) :
    reply (st.withExports exports mem) r = reply st r := by
  have hopen : r.req.op ≠ .fileOpen := fun h => by rw [h] at hop; cases hop
  have hnames' : Names (st.receive r) f x rights := by
    obtain ⟨h1, h2, h3⟩ := hnames
    exact ⟨by rwa [files_receive], by rwa [files_receive], by rwa [files_receive]⟩
  have hsees' : SeesSame rights x (st.receive r).ep
      ((st.receive r).ep.withExports exports mem) := by rwa [ep_receive]
  have hcongr := fileInvoke_withExports hnames' hseek hsees'
  have hserve : ∀ st' : VfsState, vfsFileServe st' r = fileInvoke st' f r.req := fun st' => by
    rw [vfsFileServe, if_neg hopen, hf]
  cases hinv : fileInvoke (st.receive r) f r.req with
  | some p =>
    rw [hinv, map_some, map_eq_some_iff] at hcongr
    obtain ⟨p', hp', hsnd⟩ := hcongr
    rw [← VfsState.receive_withExports] at hp'
    rw [(turn_of_fileInvoke hopen hf hinv).2, (turn_of_fileInvoke hopen hf hp').2, hsnd]
  | none =>
    rw [hinv, map_none, map_eq_none_iff, ← VfsState.receive_withExports] at hcongr
    have hping : r.req.op ≠ .ping := fun h => by
      rw [fileInvoke, fileOp, h] at hinv
      cases hinv
    obtain ⟨e, he⟩ := answer_outsider (forwarded (st.receive r) r) (session_of_file hf)
      (ne_admin_of_file hf) hop hping
    rw [reply_of_not_served ((hserve _).trans hinv), reply_of_not_served ((hserve _).trans hcongr),
      VfsState.receive_withExports, VfsState.forwarded_withExports, he, he]

end

/-- What a holder gets is determined by what its recorded rights show of the export it named, and
nothing after a close; as long as no open reuses the entry, it asks for nothing by name, and does
not seek from the end without a right. -/
theorem file_capability_names_one_file (exports : List VfsExport) (mem : UInt64 → UInt8)
    (epoch : UInt64) (registered : Bool) (before after : List Received) (o r : Received)
    (f : FileId) (x : ℕ) (rights : Rights)
    (hopen : OpensFile (runFrom turn (boot exports mem epoch registered) before) o f x rights)
    (hkept : Meets turn (fun st r => ¬ ∃ x rights, OpensFile st r f x rights)
      (turn (runFrom turn (boot exports mem epoch registered) before) o) after)
    (hf : irisBadgeVfsFile r.req.senderBadge = some f) (hop : r.req.op.byName = false)
    (hseek : ¬ SeeksEndBlind r.req rights) :
    let st₁ := turn (runFrom turn (boot exports mem epoch registered) before) o
    let st := runFrom turn st₁ after
    ((∃ a ∈ history turn st₁ after, ClosesFile a.1 a.2 f) → ∀ rep ∈ reply st r, rep.label = .err) ∧
    ((¬ ∃ a ∈ history turn st₁ after, ClosesFile a.1 a.2 f) → ∀ exports' mem',
      SeesSame rights x st.ep (st.ep.withExports exports' mem') →
        reply (st.withExports exports' mem') r = reply st r) := by
  obtain ⟨hgone, hstill⟩ := names_run hopen.names hkept
  exact ⟨fun hc => refused_of_gone (hgone hc) hf hop,
    fun hn _ _ hsees => reply_withExports (hstill hn) hf hop hseek hsees⟩

def twoExports : List VfsExport :=
  oneExport ++ [{ name := [98], data := [7, 8], size := 2, ready := true }]

def openNamed (name : UInt8) (rights : UInt64) : Received :=
  { req := { label := 0x0120, words := ![rights, 0, 0, 0], wordCount := 1, bufLen := 2,
             senderBadge := 0x200 }
    page := [name, 0] }

def onFirstFile (label w₀ w₁ : UInt64) : Received :=
  { req := { label := label, words := ![w₀, w₁, 0, 0], wordCount := 2, senderBadge := 0x2000 } }

/-- The holder of the first file capability reads "b" by name. -/
def readByName : Received :=
  { req := { label := 0x0103, words := ![0, 9, 0, 0], wordCount := 2, bufLen := 2,
             senderBadge := 0x2000 }
    page := [98, 0] }

/-- What a read through the first file capability answers does not change with "b". -/
theorem read_of_first_file_ignores_the_second :
    let st := runFrom turn (turn (boot twoExports noMem 0 true) (openNamed 97 3))
      [openNamed 98 3]
    (reply st (onFirstFile 0x0121 9 0)).map Reply.payload = some [1, 2, 3] ∧
      reply (st.withExports (grantsInit oneExport noMem 0).exports noMem)
        (onFirstFile 0x0121 9 0) = reply st (onFirstFile 0x0121 9 0) := by
  have hopen : OpensFile (runFrom turn (boot twoExports noMem 0 true) []) (openNamed 97 3) 0 0 3 :=
    ⟨by decide, by decide, by decide +kernel, by decide, rfl, by decide⟩
  have hother : ¬ ∃ x rights,
      OpensFile (turn (boot twoExports noMem 0 true) (openNamed 97 3)) (openNamed 98 3) 0 x rights :=
    fun ⟨x, rights, h⟩ => absurd h.entry (by decide +kernel)
  refine ⟨by decide +kernel, ?_⟩
  refine (file_capability_names_one_file twoExports noMem 0 true [] [openNamed 98 3]
    (openNamed 97 3) (onFirstFile 0x0121 9 0) 0 0 3 hopen ⟨hother, trivial⟩ (by decide)
    (by decide) (fun h => by cases h.1)).2 ?_ _ _ ⟨fun _ => by decide +kernel, fun _ => by
      decide +kernel⟩
  rintro ⟨a, ha, hc⟩
  rw [history, List.mem_append, List.mem_singleton] at ha
  rcases ha with ha | rfl
  · cases ha
  · cases hc.op

/-- A capability of a closed file reads the next file in its entry, a holder reads another export by
name, and a seek from the end gives away a size. -/
theorem file_capability_reaches_another_file :
    let st := boot twoExports noMem 0 true
    OpensFile st (openNamed 97 3) 0 0 3 ∧
      (reply (turn st (openNamed 97 3)) (onFirstFile 0x0124 0 0)).map Reply.label = some .ok ∧
      (reply (runFrom turn st [openNamed 97 3, onFirstFile 0x0124 0 0, openNamed 98 3])
        (onFirstFile 0x0121 9 0)).map Reply.payload = some [7, 8] ∧
      (reply (runFrom turn st [openNamed 97 3]) readByName).map Reply.payload = some [7, 8] ∧
      (reply (runFrom turn st [openNamed 97 4]) (onFirstFile 0x0122 0 2)).map (·.words 1) =
        some 3 := by
  refine ⟨⟨by decide, by decide, by decide +kernel, by decide, rfl, by decide⟩, ?_⟩
  decide +kernel

end IrisOS.Vfs
