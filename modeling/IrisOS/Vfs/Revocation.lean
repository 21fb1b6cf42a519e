import IrisOS.Vfs.Grants

/-! Revocation of grants. A grant is good while it carries its export's generation; generations are
packed into a word that their sequence outgrows, so a revoke may issue one again. -/
namespace IrisOS.Vfs
open Lib

/-- The export that a revoke finds in the grant or under the path it is sent with. -/
def revokedBy (st : VfsEpState) (inp : Input) : Option ℕ :=
  if inp.req.op = .grantRevoke ∧ ¬ (inp.req.bufLen > 0 ∧ inp.buf = none) then
    (revokeTarget st inp.req inp.buf).toOption
  else none

/-- The operations that go through a grant. -/
def Opcode.throughGrant : Opcode → Bool
  | .grantStat | .grantQueryIdentity | .grantReadAt | .grantDerive | .grantRevoke => true
  | _ => false

/-- A revoke issues no generation that a grant on the same export carries. -/
def Fresh (st : VfsEpState) (inp : Input) : Prop :=
  match revokedBy st inp with
  | none => True
  | some x => ∀ s i, (st.grant s i).used = true → (st.grant s i).exportSlot.toNat = x →
      (st.grant s i).generation ≠ st.nextGeneration

instance (st : VfsEpState) (inp : Input) : Decidable (Fresh st inp) := by
  unfold Fresh
  split <;> infer_instance

section
variable {st : VfsEpState} {inp : Input} {s : Session} {i : GrantIdx} {x : ℕ}

theorem handle_grantRevoke (hop : inp.req.op = .grantRevoke)
    (hbuf : ¬ (inp.req.bufLen > 0 ∧ inp.buf = none)) :
    handle st inp.req inp.buf = handleGrantRevoke st inp.req inp.buf := by
  unfold handle
  split_ifs
  · rw [dispatchSession, hop]
  · rw [dispatchCommon, hop]

/-- A revoke is answered well if and only if it finds an export. -/
theorem revokedBy_eq : revokedBy st inp =
    if inp.req.op = .grantRevoke ∧ (answer st inp).label = .ok then
      (revokeTarget st inp.req inp.buf).toOption
    else none := by
  by_cases hop : inp.req.op = .grantRevoke
  swap
  · rw [revokedBy, if_neg fun h => hop h.1, if_neg fun h => hop h.1]
  by_cases hbuf : inp.req.bufLen > 0 ∧ inp.buf = none
  · have herr : (answer st inp).label = .err := by
      rw [answer, dispatch, handle, if_pos hbuf]
      rfl
    rw [revokedBy, if_neg fun h => h.2 hbuf, if_neg fun h => by cases herr.symm.trans h.2]
  · have hanswer : (answer st inp).label = .ok ↔
        ∃ x, revokeTarget st inp.req inp.buf = .ok x := by
      rw [answer, dispatch, handle_grantRevoke hop hbuf, handleGrantRevoke]
      cases revokeTarget st inp.req inp.buf <;> simp [replyErr, replyOk]
    rw [revokedBy, if_pos ⟨hop, hbuf⟩]
    cases htarget : revokeTarget st inp.req inp.buf with
    | ok x => rw [if_pos ⟨hop, hanswer.mpr ⟨x, htarget⟩⟩]
    | error e => simp [hanswer, htarget, Except.toOption]

theorem Fresh.ne (h : Fresh st inp) (hx : revokedBy st inp = some x)
    (hused : (st.grant s i).used = true) (hslot : (st.grant s i).exportSlot.toNat = x) :
    (st.grant s i).generation ≠ st.nextGeneration := by
  unfold Fresh at h
  rw [hx] at h
  exact h s i hused hslot

theorem revokedBy_eq_none (h : ¬ (inp.req.op = .grantRevoke ∧ (answer st inp).label = .ok)) :
    revokedBy st inp = none := revokedBy_eq.trans (if_neg h)

theorem exports_step (st : VfsEpState) (inp : Input) (x : ℕ) :
    (step st inp).exports[x]? = if revokedBy st inp = some x then
      st.exports[x]?.map fun e => { e with generation := st.nextGeneration }
    else st.exports[x]? := by
  have h := dispatch_outcome st inp
  generalize hst : step st inp = st', hrep : answer st inp = rep at h
  cases h with
  | @revoked y op target =>
    have hy : revokedBy st inp = some y := by
      rw [revokedBy_eq, if_pos ⟨op, by rw [hrep]; rfl⟩, target]
      rfl
    rw [hy, exports_backingBump, List.getElem?_modify]
    by_cases hxy : y = x <;> simp [hxy]
  | refused e =>
    rw [revokedBy_eq_none fun hok => by rw [hrep] at hok; cases hok.2]
    rfl
  | named _ op _ =>
    rw [revokedBy_eq_none fun hok => by rw [hok.1] at op; cases op]
    rfl
  | inspected q op _ _ _ =>
    rw [revokedBy_eq_none fun hok => by rw [hok.1] at op; cases q <;> cases op]
    rfl
  | pinged op | read op | derived op | opened op | reset op =>
    rw [revokedBy_eq_none fun hok => by rw [hok.1] at op; cases op]
    rfl

theorem grant_step (hused : (st.grant s i).used = true)
    (hkept : ¬ ResetsSession (st, inp) s) : (step st inp).grant s i = st.grant s i := by
  have h := dispatch_outcome st inp
  generalize hst : step st inp = st', hrep : answer st inp = rep at h
  cases h with
  | derived _ _ _ _ _ free | opened _ _ _ _ free =>
    have hfree := used_of_grantAlloc free
    refine grant_setGrant.trans (if_neg ?_)
    rintro ⟨rfl, rfl⟩
    rw [hused] at hfree
    cases hfree
  | reset op admin hs =>
    refine grant_resetSession.trans (if_neg ?_)
    rintro rfl
    exact hkept ⟨admin, op, by rw [hrep]; rfl, hs⟩
  | refused | pinged | named | inspected | read | revoked => rfl

/-- The grant is there, and its export has another generation. -/
structure Stale (st : VfsEpState) (s : Session) (i : GrantIdx) (x : ℕ) : Prop where
  used : (st.grant s i).used = true
  slot : (st.grant s i).exportSlot.toNat = x
  moved : ∀ exp, st.exports[x]? = some exp → exp.generation ≠ (st.grant s i).generation

theorem stale_of_revoke (hused : (st.grant s i).used = true)
    (hslot : (st.grant s i).exportSlot.toNat = x) (hx : revokedBy st inp = some x)
    (hfresh : Fresh st inp) : Stale (step st inp) s i x := by
  have hg : (step st inp).grant s i = st.grant s i := by
    refine grant_step hused (not_resets fun hop => ?_)
    rw [revokedBy_eq_none (by rw [hop]; simp)] at hx
    cases hx
  refine ⟨hg ▸ hused, hg ▸ hslot, fun exp hexp => ?_⟩
  rw [exports_step, if_pos hx, Option.map_eq_some_iff] at hexp
  obtain ⟨e, -, rfl⟩ := hexp
  rw [hg]
  exact (hfresh.ne hx hused hslot).symm

theorem Stale.step (h : Stale st s i x) (hfresh : Fresh st inp)
    (hkept : ¬ ResetsSession (st, inp) s) : Stale (Vfs.step st inp) s i x := by
  by_cases hx : revokedBy st inp = some x
  · exact stale_of_revoke h.used h.slot hx hfresh
  have hg := grant_step h.used hkept
  refine ⟨hg ▸ h.used, hg ▸ h.slot, fun exp hexp => ?_⟩
  rw [exports_step, if_neg hx] at hexp
  rw [hg]
  exact h.moved exp hexp

theorem Stale.closed (h : Stale st s i x)
    (hs : irisBadgeFilegrantSession inp.req.senderBadge = some s)
    (hi : (inp.req.words 0).toNat = i.val) (hop : inp.req.op.throughGrant = true) :
    (answer st inp).label = .err := by
  have hdead : ∀ {s' i' exp}, grantRef st inp.req = .ok (s', i') →
      grantLive st (st.grant s' i') ≠ .ok exp := by
    intro s' i' exp ref live
    obtain ⟨hs', hi', -⟩ := grantRef_ok ref
    obtain rfl : s = s' := Option.some.inj (hs.symm.trans hs')
    obtain rfl : i = i' := Fin.ext (hi.symm.trans hi')
    obtain ⟨hexp, -, -, hgen⟩ := grantLive_ok live
    exact h.moved exp (h.slot ▸ hexp) hgen
  rcases hok : (answer st inp).label with _ | _
  · have hout := dispatch_outcome st inp
    generalize hst : Vfs.step st inp = st', hrep : answer st inp = rep at hout hok
    cases hout with
    | refused e => cases hok
    | named outside => rw [outside] at hs; cases hs
    | inspected _ _ ref _ live | read _ ref _ live | derived _ ref _ _ live _ =>
      exact absurd live (hdead ref)
    | revoked op =>
      obtain ⟨i', exp, ht, -⟩ := revoke_through hs op (by rw [hrep]; rfl)
      obtain rfl : i = i' := Fin.ext (hi.symm.trans ht.place)
      exact absurd ht.current (h.moved exp (h.slot ▸ ht.entry))
    | pinged op | opened op | reset op => rw [op] at hop; cases hop
  · rfl

end

/-- Once an export is revoked nothing succeeds through a grant that was on it, as long as no revoke
issues a generation that a grant on it carries. -/
theorem revoked_grant_stays_closed (exports : List VfsExport) (mem : UInt64 → UInt8)
    (epoch : UInt64) (before after : List Input) (r q : Input) (s : Session) (i : GrantIdx) (x : ℕ)
    (hused : ((runFrom step (grantsInit exports mem epoch) before).grant s i).used = true)
    (hslot : ((runFrom step (grantsInit exports mem epoch) before).grant s i).exportSlot.toNat = x)
    (hrev : revokedBy (runFrom step (grantsInit exports mem epoch) before) r = some x)
    (hfresh : Meets step Fresh (runFrom step (grantsInit exports mem epoch) before) (r :: after))
    (hkept : Meets step (fun st inp => ¬ ResetsSession (st, inp) s)
      (step (runFrom step (grantsInit exports mem epoch) before) r) after)
    (hs : irisBadgeFilegrantSession q.req.senderBadge = some s)
    (hi : (q.req.words 0).toNat = i.val) (hop : q.req.op.throughGrant = true) :
    (answer (runFrom step (grantsInit exports mem epoch) (before ++ r :: after)) q).label =
      .err := by
  generalize hst : runFrom step (grantsInit exports mem epoch) before = st at *
  have hstale : Stale (step st r) s i x := stale_of_revoke hused hslot hrev hfresh.1
  have hrun : Stale (runFrom step (step st r) after) s i x :=
    (hfresh.2.and hkept).keeps (I := fun st => Stale st s i x) hstale
      fun _ _ h hc => h.step hc.1 hc.2
  rw [runFrom_append, hst]
  exact hrun.closed hs hi hop

def revokeA : Input :=
  ⟨{ label := 0x0115, bufLen := 2, senderBadge := irisBadgeFilegrantAdmin }, some [97, 0]⟩

theorem stat_after_revoke_is_closed :
    let st := runFrom step (grantsInit oneExport noMem 1) [openA 15]
    (st.grant 0 0).used = true ∧ revokedBy st revokeA = some 0 ∧
      (answer (runFrom step (grantsInit oneExport noMem 1) [openA 15, revokeA, openA 2])
        (ask 0x0111 0 0 0)).label = .err :=
  ⟨by decide +kernel, by decide +kernel,
    revoked_grant_stays_closed oneExport noMem 1 [openA 15] [openA 2] revokeA (ask 0x0111 0 0 0)
      0 0 0 (by decide +kernel) (by decide +kernel) (by decide +kernel) (by decide +kernel)
      ⟨not_resets (by decide), trivial⟩ (by decide) (by decide) (by decide)⟩

/-! ## A generation that comes back -/

section
variable {st : VfsEpState} {e : VfsExport}

theorem step_revokeA (hexp : st.exports = [e]) (hname : e.name = [97]) (hready : e.ready = true) :
    step st revokeA = st.backingBump 0 := by
  have hfind : findExport st.exports [97, 0] = some 0 := by
    rw [hexp, findExport, List.findIdx?_cons, hname, hready]
    rfl
  have hpath : resolvePath st revokeA.req revokeA.buf = .ok 0 := by
    rw [resolvePath, show reqPath revokeA.req revokeA.buf = some [97, 0] from rfl]
    simp only [hfind]
  have hhandle : handle st revokeA.req revokeA.buf = handleGrantRevoke st revokeA.req revokeA.buf :=
    rfl
  have htarget : revokeTarget st revokeA.req revokeA.buf = .ok 0 := hpath
  rw [step, dispatch, hhandle, handleGrantRevoke, htarget]

theorem run_revokeA (n : ℕ) (hexp : st.exports = [e]) (hname : e.name = [97])
    (hready : e.ready = true) :
    runFrom step st (List.replicate (n + 1) revokeA) =
      { st with
        exports := [{ e with
          generation := packGeneration st.grants.epoch (st.grants.genSeq + .ofNat (n + 1)) }]
        grants := { st.grants with genSeq := st.grants.genSeq + .ofNat (n + 1) } } := by
  induction n generalizing st e with
  | zero =>
    rw [List.replicate_one, runFrom_cons, runFrom_nil, step_revokeA hexp hname hready]
    unfold VfsEpState.backingBump
    rw [hexp]
    rfl
  | succ n ih =>
    have hbump : (st.backingBump 0).exports = [{ e with generation := st.nextGeneration }] := by
      rw [exports_backingBump, hexp]
      rfl
    have hseq : (st.backingBump 0).grants.genSeq + .ofNat (n + 1) =
        st.grants.genSeq + .ofNat (n + 1 + 1) := by
      change st.grants.genSeq + 1 + UInt32.ofNat (n + 1) = _
      rw [UInt32.add_assoc, UInt32.ofNat_add (n + 1) 1, UInt32.add_comm 1]
      rfl
    rw [List.replicate_succ, runFrom_cons, step_revokeA hexp hname hready,
      ih hbump hname hready, hseq]
    rfl

end

/-- With epoch 1 the 65536th revoke issues the first grant's generation again. -/
theorem revoked_grant_comes_back :
    let st := runFrom step (grantsInit oneExport noMem 1) [openA 15]
    (st.grant 0 0).used = true ∧ (st.grant 0 0).exportSlot = 0 ∧ revokedBy st revokeA = some 0 ∧
      (answer (step st revokeA) (ask 0x0111 0 0 0)).label = .err ∧
      (answer (runFrom step (grantsInit oneExport noMem 1)
        ([openA 15] ++ revokeA :: List.replicate 65535 revokeA)) (ask 0x0111 0 0 0)).label =
          .ok := by
  have hexp : (runFrom step (grantsInit oneExport noMem 1) [openA 15]).exports =
      [(grantsInit oneExport noMem 1).exportOf 0] := rfl
  rw [runFrom_append, ← List.replicate_succ, run_revokeA 65535 hexp rfl rfl]
  decide +kernel

end IrisOS.Vfs
