import IrisOS.Vfs.Service

/-! What sessions and holders of file capabilities can learn: a reply depends on an export only
where there is a right to it, which exchanging the rest of the export table shows. -/
namespace IrisOS.Vfs
open Lib

/-! ## The service runs the dispatcher -/

section
variable {st : VfsState} {r : Received}

@[simp] theorem ep_receive : (st.receive r).ep = st.ep := by
  unfold VfsState.receive
  split <;> rfl

@[simp] theorem files_receive : (st.receive r).files = st.files := by
  unfold VfsState.receive
  split <;> rfl

/-- Everything is as it was, but for the offset of one open file and whether it is open. -/
structure Kept (f : FileId) (st st' : VfsState) : Prop where
  ep : st'.ep = st.ep
  others : ∀ f', f' ≠ f → st'.files f' = st.files f'
  target : (st'.files f).exportIdx = (st.files f).exportIdx
  rights : (st'.files f).rights = (st.files f).rights

theorem Kept.refl (f : FileId) (st : VfsState) : Kept f st st := ⟨rfl, fun _ _ => rfl, rfl, rfl⟩

variable {f : FileId} {p : VfsState × Reply}

theorem Kept.setReplyBuf {st' : VfsState} (h : Kept f st st') (buf : List UInt8) :
    Kept f st (st'.setReplyBuf buf) := ⟨h.ep, h.others, h.target, h.rights⟩

theorem kept_setFile {v : OpenFile} (hx : v.exportIdx = (st.files f).exportIdx)
    (hr : v.rights = (st.files f).rights) : Kept f st (st.setFile f v) := by
  refine ⟨rfl, fun f' hf => Function.update_of_ne hf _ _, ?_, ?_⟩
  · exact (congrArg _ (Function.update_self f v st.files)).trans hx
  · exact (congrArg _ (Function.update_self f v st.files)).trans hr

theorem kept_fileSeek (st : VfsState) (f : FileId) (req : Request) :
    Kept f st (fileSeek st f req).1 := by
  unfold fileSeek
  split
  · exact .refl f st
  · dsimp only
    split
    · exact .refl f st
    · exact kept_setFile rfl rfl

theorem kept_fileStat (st : VfsState) (f : FileId) : Kept f st (fileStat st f).1 := by
  unfold fileStat
  dsimp only
  split <;> exact .refl f st

theorem kept_fileRead (st : VfsState) (f : FileId) (req : Request) :
    Kept f st (fileRead st f req).1 := by
  unfold fileRead
  dsimp only
  split
  · apply Kept.setReplyBuf
    exact kept_setFile rfl rfl
  · exact .refl f st

theorem kept_fileInvoke (h : fileInvoke st f r.req = some p) : Kept f st p.1 := by
  obtain ⟨q, hq, rfl⟩ := Option.map_eq_some_iff.mp h
  split
  · unfold fileOp at hq
    split at hq
    · cases hq; exact .refl f st
    · cases hq; exact kept_fileStat st f
    · cases hq; exact kept_fileSeek st f r.req
    · cases hq; exact kept_setFile rfl rfl
    · cases hq; exact kept_fileRead st f r.req
    · cases hq
  · exact .refl f st

theorem ep_fileOpen (st : VfsState) (r : Received) : (fileOpen st r).1.ep = st.ep := by
  unfold fileOpen
  split
  · rfl
  split
  · rfl
  split
  · rfl
  split <;> rfl

theorem ep_vfsFileServe (h : vfsFileServe st r = some p) : p.1.ep = st.ep := by
  unfold vfsFileServe at h
  split at h
  · cases h
    exact ep_fileOpen st r
  · split at h
    · cases h
    · exact (kept_fileInvoke h).ep

/-- What a turn passes on to the dispatcher. -/
def passed (st : VfsState) (r : Received) : Option Input :=
  match vfsFileServe (st.receive r) r with
  | some _ => none
  | none => some (forwarded (st.receive r) r)

theorem ep_turn (st : VfsState) (r : Received) :
    (turn st r).ep = runFrom step st.ep (passed st r).toList := by
  unfold turn serve passed
  cases h : vfsFileServe (st.receive r) r with
  | some p => exact (ep_vfsFileServe h).trans ep_receive
  | none =>
    change step (st.receive r).ep _ = step st.ep _
    rw [ep_receive]

/-- The requests that reach the dispatcher in a run of the service. -/
def inputs : VfsState → List Received → List Input
  | _, [] => []
  | st, r :: rs => (passed st r).toList ++ inputs (turn st r) rs

theorem ep_run (st : VfsState) (rs : List Received) :
    (runFrom turn st rs).ep = runFrom step st.ep (inputs st rs) := by
  induction rs generalizing st with
  | nil => rfl
  | cons r rs ih => rw [runFrom_cons, ih, ep_turn, inputs, runFrom_append]

end

/-! ## What a session can learn -/

def exportView (mem : UInt64 → UInt8) (e : VfsExport) :
    Bool × UInt32 × UInt64 × UInt64 × List UInt8 :=
  (e.ready, e.size, e.backingId, e.generation, contents mem e)

def VfsEpState.withExports (st : VfsEpState) (exports : List VfsExport) (mem : UInt64 → UInt8) :
    VfsEpState :=
  { st with exports := exports, mem := mem }

/-- Two states show the same of some of the exports. -/
def AgreeOn (X : Set ℕ) (st st' : VfsEpState) : Prop :=
  ∀ x ∈ X, st.exports[x]?.map (exportView st.mem) = st'.exports[x]?.map (exportView st'.mem)

def replyOf : Handled → Reply
  | .ok r => r.2
  | .error e => replyErr e

theorem answer_eq_replyOf (st : VfsEpState) (inp : Input) :
    answer st inp = replyOf (handle st inp.req inp.buf) := by
  unfold answer dispatch replyOf
  cases handle st inp.req inp.buf <;> rfl

theorem readReply_eq (mem : UInt64 → UInt8) (exp : VfsExport) (offset len : UInt64) :
    readReply mem exp offset len =
      replyOk ![0, readLen exp.size offset len, exp.size.toUInt64, 0] 3
        (((contents mem exp).drop offset.toNat).take (min len.toNat vfsEpDataMax)) := by
  rw [← payload_readReply]
  rfl

section
variable {st st' : VfsEpState} {inp : Input} {s : Session} {g : VfsGrant}

theorem grantLive_agree (h : AgreeOn {g.exportSlot.toNat} st st') :
    (grantLive st g = .error .closed ∧ grantLive st' g = .error .closed) ∨
      ∃ exp exp', grantLive st g = .ok exp ∧ grantLive st' g = .ok exp' ∧
        exp.size = exp'.size ∧ contents st.mem exp = contents st'.mem exp' := by
  have hview := h _ rfl
  unfold grantLive
  cases hexp : st.exports[g.exportSlot.toNat]? with
  | none =>
    rw [hexp, Option.map_none, eq_comm, Option.map_eq_none_iff] at hview
    rw [hview]
    exact .inl ⟨rfl, rfl⟩
  | some exp =>
    rw [hexp, Option.map_some, eq_comm, Option.map_eq_some_iff] at hview
    obtain ⟨exp', hexp', hv⟩ := hview
    simp only [exportView, Prod.mk.injEq] at hv
    obtain ⟨hready, hsize, hback, hgen, hcont⟩ := hv
    rw [hexp']
    simp only [hready, hback, hgen]
    split_ifs
    · exact .inl ⟨rfl, rfl⟩
    · exact .inr ⟨exp, exp', rfl, rfl, hsize.symm, hcont.symm⟩

/-- The same grants, and the same of the exports those of the session are on. -/
structure SameFor (s : Session) (st st' : VfsEpState) : Prop where
  grants : st'.grants = st.grants
  views : ∀ i, (st.grant s i).used = true → AgreeOn {(st.grant s i).exportSlot.toNat} st st'

section

variable (h : SameFor s st st')
include h

theorem SameFor.grant : st'.grant = st.grant := by
  unfold VfsEpState.grant
  rw [h.grants]

theorem SameFor.grantRef (req : Request) : grantRef st' req = Vfs.grantRef st req := by
  unfold Vfs.grantRef
  rw [h.grant]

section

variable (hs : irisBadgeFilegrantSession inp.req.senderBadge = some s)
include hs

theorem SameFor.live {s' : Session} {i : GrantIdx}
    (ref : Vfs.grantRef st inp.req = .ok (s', i)) :
    AgreeOn {(st.grant s' i).exportSlot.toNat} st st' := by
  obtain ⟨hs', -, hused⟩ := grantRef_ok ref
  obtain rfl : s = s' := Option.some.inj (hs.symm.trans hs')
  exact h.views i hused

theorem SameFor.grantStat (q : Bool) :
    replyOf (handleGrantStat st inp.req q) = replyOf (handleGrantStat st' inp.req q) := by
  unfold handleGrantStat
  rw [h.grantRef]
  split
  · rfl
  rename_i ref
  dsimp only
  rw [h.grant]
  split
  · rfl
  rcases grantLive_agree (h.live hs ref) with ⟨h1, h2⟩ | ⟨exp, exp', h1, h2, hsize, -⟩
  · rw [h1, h2]
  · rw [h1, h2]
    simp only [replyOf, statReply, hsize]

theorem SameFor.grantReadAt :
    replyOf (handleGrantReadAt st inp.req) = replyOf (handleGrantReadAt st' inp.req) := by
  unfold handleGrantReadAt
  rw [h.grantRef]
  split
  · rfl
  rename_i ref
  dsimp only
  rw [h.grant]
  split
  · rfl
  split
  · rfl
  rcases grantLive_agree (h.live hs ref) with ⟨h1, h2⟩ | ⟨exp, exp', h1, h2, hsize, hcont⟩
  · rw [h1, h2]
  · rw [h1, h2]
    simp only [replyOf, readReply_eq, hsize, hcont]

theorem SameFor.grantDerive :
    replyOf (handleGrantDerive st inp.req) = replyOf (handleGrantDerive st' inp.req) := by
  have halloc : grantAlloc st' = grantAlloc st := by
    unfold grantAlloc
    rw [h.grant]
  unfold handleGrantDerive
  rw [h.grantRef, halloc]
  split
  · rfl
  rename_i ref
  dsimp only
  rw [h.grant]
  split
  · rfl
  split
  · rfl
  split
  · rfl
  split
  · rfl
  rcases grantLive_agree (h.live hs ref) with ⟨h1, h2⟩ | ⟨exp, exp', h1, h2, -, -⟩
  · rw [h1, h2]
  · rw [h1, h2]
    cases grantAlloc st _ <;> simp only [replyOf]

theorem SameFor.grantRevoke :
    replyOf (handleGrantRevoke st inp.req inp.buf) =
      replyOf (handleGrantRevoke st' inp.req inp.buf) := by
  have hgen : st'.nextGeneration = st.nextGeneration := by
    unfold VfsEpState.nextGeneration
    rw [h.grants]
  have htarget : revokeTarget st' inp.req inp.buf = revokeTarget st inp.req inp.buf := by
    unfold revokeTarget
    rw [if_neg (ne_admin_of_session hs), if_neg (ne_admin_of_session hs), h.grantRef]
    split
    · rfl
    rename_i ref
    dsimp only
    rw [h.grant]
    split
    · rfl
    rcases grantLive_agree (h.live hs ref) with ⟨h1, h2⟩ | ⟨exp, exp', h1, h2, -, -⟩
    · rw [h1, h2]
    · rw [h1, h2]
  unfold handleGrantRevoke
  rw [htarget, hgen]
  cases revokeTarget st inp.req inp.buf <;> simp only [replyOf]

theorem SameFor.answer : Vfs.answer st inp = Vfs.answer st' inp := by
  rw [answer_eq_replyOf, answer_eq_replyOf]
  unfold handle
  split
  · rfl
  rw [hs]
  simp only [Option.isSome_some, if_true]
  unfold dispatchSession
  split
  · exact h.grantStat hs false
  · exact h.grantReadAt hs
  · exact h.grantStat hs true
  · exact h.grantDerive hs
  · exact h.grantRevoke hs
  · rfl
  · rfl

end

end

theorem not_byName_of_session (hs : irisBadgeFilegrantSession inp.req.senderBadge = some s)
    (hok : (Vfs.answer st inp).label = .ok) : inp.req.op.byName = false := by
  have h := dispatch_outcome st inp
  generalize step st inp = st', Vfs.answer st inp = rep at h hok
  cases h with
  | refused e => cases hok
  | named outside => rw [outside] at hs; cases hs
  | inspected q op => rw [op]; cases q <;> rfl
  | pinged op | read op | derived op | revoked op | opened op | reset op => rw [op]; rfl

theorem cap_answer (st : VfsEpState) (inp : Input) : (Vfs.answer st inp).cap = none := by
  have h := dispatch_outcome st inp
  generalize step st inp = st', Vfs.answer st inp = rep at h
  cases h with
  | named _ _ bare => exact bare
  | inspected q => cases q <;> rfl
  | refused | pinged | read | derived | revoked | opened | reset => rfl

end

namespace VfsState

def withExports (st : VfsState) (exports : List VfsExport) (mem : UInt64 → UInt8) : VfsState :=
  { st with ep := st.ep.withExports exports mem }

variable {st : VfsState} {r : Received} {exports : List VfsExport} {mem : UInt64 → UInt8}

theorem receive_withExports :
    (st.withExports exports mem).receive r = (st.receive r).withExports exports mem := by
  unfold receive
  change (if st.registered = true then _ else _) = _
  split <;> rfl

theorem copyOut_withExports :
    copyOut (st.withExports exports mem) r = (copyOut st r).withExports exports mem := by
  unfold copyOut
  by_cases h : st.registered = true ∧ r.req.bufLen > 0
  · rw [if_pos h, if_pos (show (st.withExports exports mem).registered = true ∧ _ from h)]
    rfl
  · rw [if_neg h, if_neg (show ¬ ((st.withExports exports mem).registered = true ∧ _) from h)]

theorem forwarded_withExports : forwarded (st.withExports exports mem) r = forwarded st r := by
  unfold forwarded
  rw [copyOut_withExports]
  rfl

end VfsState

theorem reply_of_not_served {st : VfsState} (h : vfsFileServe (st.receive r) r = none) :
    reply st r = if r.hasReply then some (answer st.ep (forwarded (st.receive r) r)) else none := by
  unfold reply serve
  rw [h]
  change (if r.hasReply = true then some (answer (st.receive r).ep _) else none) = _
  rw [ep_receive]

theorem vfsFileServe_of_session {st : VfsState} {s : Session}
    (hs : irisBadgeFilegrantSession r.req.senderBadge = some s) (hop : r.req.op ≠ .fileOpen) :
    vfsFileServe st r = none := by
  rw [vfsFileServe, if_neg hop, file_of_session hs]

/-- The exports the administrator has opened in a session since its last reset. -/
def openedIn (h : List Served) (s : Session) : Set ℕ :=
  {x | ∃ r₀, grantSystem.OpenedSince s x h r₀}

/-- The reply to a session badge does not depend on exports that were not opened in the session,
hands over no capability, and no operation by name succeeds. This leaves out `FILE_OPEN`. -/
theorem session_is_confined (exports : List VfsExport) (mem : UInt64 → UInt8) (epoch : UInt64)
    (registered : Bool) (hlen : exports.length = vfsServiceExports) (turns : List Received)
    (r : Received) (s : Session) (hs : irisBadgeFilegrantSession r.req.senderBadge = some s)
    (hop : r.req.op ≠ .fileOpen) :
    let st₀ := boot exports mem epoch registered
    let st := runFrom turn st₀ turns
    (∀ exports' mem', AgreeOn (openedIn (history step st₀.ep (inputs st₀ turns)) s) st.ep
        (st.ep.withExports exports' mem') → reply (st.withExports exports' mem') r = reply st r) ∧
      ∀ rep ∈ reply st r, rep.cap = none ∧ (rep.label = .ok → r.req.op.byName = false) := by
  intro st₀ st
  have hserve : ∀ st' : VfsState, vfsFileServe (st'.receive r) r = none :=
    fun st' => vfsFileServe_of_session hs hop
  have hfwd : ∀ st', irisBadgeFilegrantSession (forwarded st' r).req.senderBadge = some s :=
    fun _ => hs
  refine ⟨fun exports' mem' hagree => ?_, fun rep hrep => ?_⟩
  · have hsame : SameFor s st.ep (st.ep.withExports exports' mem') := by
      refine ⟨rfl, fun i hused => ?_⟩
      have hep : st.ep = runFrom step (grantsInit exports mem epoch) (inputs st₀ turns) :=
        ep_run st₀ turns
      rw [hep] at hused
      obtain ⟨-, r₀, ho, -⟩ := lawful_run exports mem epoch
        (hlen.trans_le (by decide)) (inputs st₀ turns) hused
      rintro x rfl
      refine hagree _ ⟨r₀, ?_⟩
      rw [hep]
      exact ho
    rw [reply_of_not_served (hserve _), reply_of_not_served (hserve _),
      VfsState.receive_withExports, VfsState.forwarded_withExports]
    rw [hsame.answer (hfwd _)]
    rfl
  · rw [reply_of_not_served (hserve _)] at hrep
    split at hrep
    · cases hrep
      exact ⟨cap_answer _ _, fun hok => not_byName_of_session (hfwd _) hok⟩
    · cases hrep

/-- The export table of a service with one export, named "a". -/
def serviceExports : List VfsExport := oneExport ++ List.replicate 31 ({ } : VfsExport)

/-- Session 0 sends a request with the payload "a". -/
def sessionAsks (label : UInt64) : Received :=
  { req := { label := label, words := ![0, 9, 0, 0], wordCount := 2, bufLen := 2,
             senderBadge := 0x0F10 }
    page := [97, 0] }

/-- A session that reads "a" by name gets nothing, and the same nothing when there is no "a". -/
theorem read_by_name_in_session_is_confined :
    let st := runFrom turn (boot serviceExports noMem 0 true) [sessionAsks 0x0102]
    (reply st (sessionAsks 0x0103)).map Reply.label = some .err ∧
      reply (st.withExports [] noMem) (sessionAsks 0x0103) = reply st (sessionAsks 0x0103) := by
  refine ⟨by decide +kernel, ?_⟩
  refine (session_is_confined serviceExports noMem 0 true (by decide) [sessionAsks 0x0102]
    (sessionAsks 0x0103) 0 (by decide) (by decide)).1 [] noMem ?_
  rintro x ⟨r₀, after, a, before, heq, ⟨i, ho⟩, -⟩
  have hmem : a ∈ history step (boot serviceExports noMem 0 true).ep
      (inputs (boot serviceExports noMem 0 true) [sessionAsks 0x0102]) := by
    rw [heq]
    simp
  obtain rfl : a = (_, _) := List.mem_singleton.mp hmem
  cases ho.op

/-- A session opens "a" as a file without a grant: it learns its size and gets its bytes. -/
theorem session_opens_file_by_name :
    let st := boot serviceExports noMem 0 true
    openedIn (history step st.ep (inputs st [])) 0 = ∅ ∧
      irisBadgeFilegrantSession (sessionAsks 0x0120).req.senderBadge = some 0 ∧
      (reply st (sessionAsks 0x0120)).map (fun rep => (rep.label, rep.words 1, rep.cap)) =
        some (.ok, 3, some 0x2000) ∧
      reply (st.withExports [] noMem) (sessionAsks 0x0120) ≠ reply st (sessionAsks 0x0120) ∧
      (reply (turn st (sessionAsks 0x0120))
        { req := { label := 0x0121, senderBadge := 0x2000 } }).map Reply.payload =
          some [1, 2, 3] := by
  refine ⟨?_, by decide, by decide +kernel, by decide +kernel, by decide +kernel⟩
  apply Set.eq_empty_of_forall_notMem
  rintro x ⟨r₀, after, a, before, heq, -⟩
  exact absurd heq (by simp [inputs, history])

end IrisOS.Vfs
