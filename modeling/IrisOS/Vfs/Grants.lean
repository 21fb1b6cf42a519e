import IrisOS.Lib.Lineage
import IrisOS.Lib.Steps
import IrisOS.Vfs.Dispatch

/-! What a request can do to the grant layer: where the grants of a session come from, and what a
session gets through them. -/
namespace IrisOS.Vfs
open Lib

/-- A request with its bulk payload, which may not have been delivered. -/
structure Input where
  req : Request
  buf : Option (List UInt8) := none
  deriving DecidableEq

def step (st : VfsEpState) (inp : Input) : VfsEpState := (dispatch st inp.req inp.buf).1

def answer (st : VfsEpState) (inp : Input) : Reply := (dispatch st inp.req inp.buf).2

/-! ## What one request does -/

/-- The outcomes of a request: what the dispatcher checked, the state it leaves and its reply. -/
inductive Outcome (st : VfsEpState) (inp : Input) : VfsEpState → Reply → Prop
  | refused (e : IrisError) : Outcome st inp st (replyErr e)
  | pinged (op : inp.req.op = .ping) :
      Outcome st inp st (replyOk ![0, inp.req.senderBadge, 0, 0] 2)
  | named {rep} (outside : irisBadgeFilegrantSession inp.req.senderBadge = none)
      (op : inp.req.op.byName = true) (bare : rep.cap = none) : Outcome st inp st rep
  | inspected {s i exp} (q : Bool)
      (op : inp.req.op = if q then .grantQueryIdentity else .grantStat)
      (ref : grantRef st inp.req = .ok (s, i))
      (right : q = false → hasRight (st.grant s i).rights vfsFileRightStat = true)
      (live : grantLive st (st.grant s i) = .ok exp) :
      Outcome st inp st (statReply exp (st.grant s i) q)
  | read {s i exp} (op : inp.req.op = .grantReadAt) (ref : grantRef st inp.req = .ok (s, i))
      (right : hasRight (st.grant s i).rights vfsFileRightRead = true)
      (live : grantLive st (st.grant s i) = .ok exp) :
      Outcome st inp st (readReply st.mem exp (inp.req.words 1) (inp.req.words 2))
  | derived {s i j exp} (op : inp.req.op = .grantDerive)
      (ref : grantRef st inp.req = .ok (s, i))
      (less : Within (inp.req.words 1).toUInt32 (st.grant s i).rights)
      (right : hasRight (st.grant s i).rights vfsFileRightDuplicate = true)
      (live : grantLive st (st.grant s i) = .ok exp) (free : grantAlloc st s = some j) :
      Outcome st inp
        (st.setGrant s j ⟨true, (st.grant s i).exportSlot, (inp.req.words 1).toUInt32,
          (st.grant s i).backingId, (st.grant s i).generation⟩)
        (replyOk ![0, j.val.toUInt64, 0, 0] 2)
  | revoked {x} (op : inp.req.op = .grantRevoke)
      (target : revokeTarget st inp.req inp.buf = .ok x) :
      Outcome st inp (st.backingBump x) (replyOk ![0, st.nextGeneration, 0, 0] 2)
  | opened {s i x} (op : inp.req.op = .grantOpen)
      (admin : inp.req.senderBadge = irisBadgeFilegrantAdmin)
      (row : (inp.req.words 0).toNat = s.val)
      (path : resolvePath st inp.req inp.buf = .ok x) (free : grantAlloc st s = some i) :
      Outcome st inp
        (st.setGrant s i ⟨true, x.toUInt8, (inp.req.words 1).toUInt32,
          (st.exportOf x).backingId, (st.exportOf x).generation⟩)
        (replyOk ![0, i.val.toUInt64, (st.exportOf x).backingId, (st.exportOf x).generation] 4)
  | reset {s} (op : inp.req.op = .grantSessionReset)
      (admin : inp.req.senderBadge = irisBadgeFilegrantAdmin)
      (row : (inp.req.words 0).toNat = s.val) :
      Outcome st inp (st.resetSession s) (replyOk ![0, 0, 0, 0] 1)

section
variable {st : VfsEpState} {inp : Input} {r : VfsEpState × Reply}

theorem outcome_grantOpen (hop : inp.req.op = .grantOpen)
    (h : handleGrantOpen st inp.req inp.buf = .ok r) : Outcome st inp r.1 r.2 := by
  unfold handleGrantOpen at h
  split at h
  · cases h
  rename_i hadmin
  split at h
  · cases h
  split at h
  swap
  · cases h
  split at h
  · cases h
  split at h
  · cases h
  rename_i path
  split at h
  · cases h
  rename_i free
  cases h
  exact .opened hop (not_not.mp hadmin) rfl path free

theorem outcome_grantStat (q : Bool)
    (hop : inp.req.op = if q then .grantQueryIdentity else .grantStat)
    (h : handleGrantStat st inp.req q = .ok r) : Outcome st inp r.1 r.2 := by
  unfold handleGrantStat at h
  split at h
  · cases h
  rename_i ref
  dsimp only at h
  split at h
  · cases h
  rename_i right
  split at h
  · cases h
  rename_i live
  cases h
  refine .inspected q hop ref (fun hq => ?_) live
  simpa [hq] using right

theorem outcome_grantReadAt (hop : inp.req.op = .grantReadAt)
    (h : handleGrantReadAt st inp.req = .ok r) : Outcome st inp r.1 r.2 := by
  unfold handleGrantReadAt at h
  split at h
  · cases h
  rename_i ref
  dsimp only at h
  split at h
  · cases h
  split at h
  · cases h
  rename_i right
  split at h
  · cases h
  rename_i live
  cases h
  exact .read hop ref (by simpa using right) live

theorem outcome_grantDerive (hop : inp.req.op = .grantDerive)
    (h : handleGrantDerive st inp.req = .ok r) : Outcome st inp r.1 r.2 := by
  unfold handleGrantDerive at h
  split at h
  · cases h
  rename_i ref
  dsimp only at h
  split at h
  · cases h
  split at h
  · cases h
  split at h
  · cases h
  rename_i right
  split at h
  · cases h
  rename_i less
  split at h
  · cases h
  rename_i live
  split at h
  · cases h
  rename_i free
  cases h
  exact .derived hop ref (within_of_no_excess (not_not.mp less)) (by simpa using right) live free

theorem outcome_grantRevoke (hop : inp.req.op = .grantRevoke)
    (h : handleGrantRevoke st inp.req inp.buf = .ok r) : Outcome st inp r.1 r.2 := by
  unfold handleGrantRevoke at h
  split at h
  · cases h
  rename_i target
  cases h
  exact .revoked hop target

theorem outcome_sessionReset (hop : inp.req.op = .grantSessionReset)
    (h : handleSessionReset st inp.req = .ok r) : Outcome st inp r.1 r.2 := by
  unfold handleSessionReset at h
  split at h
  · cases h
  rename_i hadmin
  split at h
  · cases h
  split at h
  · cases h
    exact .reset hop (not_not.mp hadmin) rfl
  · cases h

theorem byName_ok (h : handleList st inp.req = .ok r ∨ handleStat st inp.req inp.buf = .ok r ∨
    handleReadAt st inp.req inp.buf = .ok r ∨ handleStatus st inp.req = .ok r) :
    r.1 = st ∧ r.2.cap = none := by
  rcases h with h | h | h | h
  · unfold handleList at h
    split at h
    · cases h
    split at h
    · cases h
    · cases h; exact ⟨rfl, rfl⟩
  · unfold handleStat at h
    split at h
    · cases h
    · cases h; exact ⟨rfl, rfl⟩
  · unfold handleReadAt at h
    split at h
    · cases h
    split at h
    · cases h
    · cases h; exact ⟨rfl, rfl⟩
  · unfold handleStatus at h
    split at h
    · cases h
    · cases h; exact ⟨rfl, rfl⟩

theorem outcome_byName (hs : irisBadgeFilegrantSession inp.req.senderBadge = none)
    (hop : inp.req.op.byName = true)
    (h : handleList st inp.req = .ok r ∨ handleStat st inp.req inp.buf = .ok r ∨
      handleReadAt st inp.req inp.buf = .ok r ∨ handleStatus st inp.req = .ok r) :
    Outcome st inp r.1 r.2 := by
  obtain ⟨hst, hcap⟩ := byName_ok h
  rw [hst]
  exact .named hs hop hcap

theorem outcome_dispatchSession (h : dispatchSession st inp.req inp.buf = .ok r) :
    Outcome st inp r.1 r.2 := by
  unfold dispatchSession at h
  split at h
  case h_1 hop => exact outcome_grantStat false hop h
  case h_2 hop => exact outcome_grantReadAt hop h
  case h_3 hop => exact outcome_grantStat true hop h
  case h_4 hop => exact outcome_grantDerive hop h
  case h_5 hop => exact outcome_grantRevoke hop h
  case h_6 hop => cases h; exact .pinged hop
  case h_7 => cases h

theorem outcome_dispatchCommon (hs : irisBadgeFilegrantSession inp.req.senderBadge = none)
    (h : dispatchCommon st inp.req inp.buf = .ok r) : Outcome st inp r.1 r.2 := by
  unfold dispatchCommon at h
  split at h
  case h_1 hop => exact outcome_byName hs (by rw [hop]; rfl) (.inl h)
  case h_2 hop => exact outcome_byName hs (by rw [hop]; rfl) (.inr (.inl h))
  case h_3 hop => exact outcome_byName hs (by rw [hop]; rfl) (.inr (.inr (.inl h)))
  case h_4 hop => exact outcome_byName hs (by rw [hop]; rfl) (.inr (.inr (.inr h)))
  case h_5 hop => exact outcome_grantOpen hop h
  case h_6 hop => exact outcome_grantRevoke hop h
  case h_7 hop => exact outcome_sessionReset hop h
  case h_12 hop => cases h; exact .pinged hop
  all_goals cases h

end

theorem dispatch_outcome (st : VfsEpState) (inp : Input) :
    Outcome st inp (step st inp) (answer st inp) := by
  unfold step answer dispatch
  cases h : handle st inp.req inp.buf with
  | error e => exact .refused e
  | ok r =>
    unfold handle at h
    split at h
    · cases h
    split at h
    · exact outcome_dispatchSession h
    · rename_i hs
      exact outcome_dispatchCommon (by simpa using hs) h

/-! ## What the checks establish -/

section
variable {st : VfsEpState} {req : Request} {s s' : Session} {i i' : GrantIdx} {g v : VfsGrant}
  {exp : VfsExport} {x : ℕ} {buf : Option (List UInt8)}

theorem grantRef_ok (h : grantRef st req = .ok (s, i)) :
    irisBadgeFilegrantSession req.senderBadge = some s ∧ (req.words 0).toNat = i.val ∧
      (st.grant s i).used = true := by
  unfold grantRef at h
  split at h
  · cases h
  rename_i hs
  split at h
  · cases h
  split at h
  · split at h
    · rename_i hused
      cases h
      exact ⟨hs, rfl, hused⟩
    · cases h
  · cases h

theorem grantLive_ok (h : grantLive st g = .ok exp) :
    st.exports[g.exportSlot.toNat]? = some exp ∧ exp.ready = true ∧
      exp.backingId = g.backingId ∧ exp.generation = g.generation := by
  unfold grantLive at h
  split at h
  · cases h
  rename_i hexp
  split at h
  · cases h
  rename_i hlive
  cases h
  simp only [Bool.or_eq_true, Bool.not_eq_true', bne_iff_ne, ne_eq, not_or, not_not,
    Bool.not_eq_false] at hlive
  exact ⟨hexp, hlive.1.1, hlive.1.2, hlive.2⟩

theorem resolvePath_lt (h : resolvePath st req buf = .ok x) : x < st.exports.length := by
  unfold resolvePath at h
  split at h
  · cases h
  split at h
  · cases h
  rename_i hx
  cases h
  exact (List.findIdx?_eq_some_iff_getElem.mp hx).1

theorem grant_setGrant :
    (st.setGrant s i v).grant s' i' = if s' = s ∧ i' = i then v else st.grant s' i' := by
  unfold VfsEpState.setGrant VfsEpState.grant
  by_cases hs : s' = s
  · subst hs
    by_cases hi : i' = i
    · subst hi
      simp
    · simp [hi]
  · simp [hs]

theorem grant_resetSession :
    (st.resetSession s).grant s' i = if s' = s then {} else st.grant s' i := by
  unfold VfsEpState.resetSession VfsEpState.grant
  by_cases hs : s' = s
  · subst hs
    simp
  · simp [hs]

theorem exports_backingBump :
    (st.backingBump x).exports =
      st.exports.modify x fun e => { e with generation := st.nextGeneration } := rfl

theorem used_of_grantAlloc (h : grantAlloc st s = some i) : (st.grant s i).used = false := by
  simpa using List.find?_some h

theorem toNat_grantIdx (i : GrantIdx) : i.val.toUInt64.toNat = i.val := by
  have := i.isLt
  simp only [vfsGrantsPerSession] at this
  simp only [Nat.toUInt64_eq, UInt64.toNat_ofNat']
  omega

end

@[simp] theorem length_exports_step (st : VfsEpState) (inp : Input) :
    (step st inp).exports.length = st.exports.length := by
  have h := dispatch_outcome st inp
  generalize step st inp = st', answer st inp = rep at h
  cases h <;> simp [VfsEpState.setGrant, VfsEpState.resetSession, exports_backingBump]

/-! ## Where grants come from -/

/-- A request of a run, with the state it arrived in. -/
abbrev Served := VfsEpState × Input

/-- The administrator opened a grant on an export into a session. -/
structure OpensGrant (a : Served) (s : Session) (i : GrantIdx) (x : ℕ) (r : Rights) : Prop where
  admin : a.2.req.senderBadge = irisBadgeFilegrantAdmin
  op : a.2.req.op = .grantOpen
  ok : (answer a.1 a.2).label = .ok
  row : (a.2.req.words 0).toNat = s.val
  rights : (a.2.req.words 1).toUInt32 = r
  path : resolvePath a.1 a.2.req a.2.buf = .ok x
  place : ((answer a.1 a.2).words 1).toNat = i.val

/-- A session derived one of its grants from another. -/
structure DerivesGrant (a : Served) (s : Session) (i j : GrantIdx) (r : Rights) : Prop where
  session : irisBadgeFilegrantSession a.2.req.senderBadge = some s
  op : a.2.req.op = .grantDerive
  ok : (answer a.1 a.2).label = .ok
  source : (a.2.req.words 0).toNat = i.val
  rights : (a.2.req.words 1).toUInt32 = r
  place : ((answer a.1 a.2).words 1).toNat = j.val

/-- The administrator reset a session. -/
structure ResetsSession (a : Served) (s : Session) : Prop where
  admin : a.2.req.senderBadge = irisBadgeFilegrantAdmin
  op : a.2.req.op = .grantSessionReset
  ok : (answer a.1 a.2).label = .ok
  row : (a.2.req.words 0).toNat = s.val

/-- The grant layer as a system of authorities with a lineage. -/
def grantSystem : GrantSystem Served Session GrantIdx ℕ Rights where
  opens := OpensGrant
  derives := DerivesGrant
  resets := ResetsSession
  le := Within
  le_refl := within_refl
  le_trans := within_trans

/-- The used grants: the export each is on and its rights. -/
def VfsEpState.row (st : VfsEpState) (s : Session) (i : GrantIdx) : Option (ℕ × Rights) :=
  if (st.grant s i).used then some ((st.grant s i).exportSlot.toNat, (st.grant s i).rights)
  else none

section
variable {st : VfsEpState} {s : Session} {i : GrantIdx} {x : ℕ} {r : Rights}

theorem row_eq_some : st.row s i = some (x, r) ↔
    (st.grant s i).used = true ∧ (st.grant s i).exportSlot.toNat = x ∧
      (st.grant s i).rights = r := by
  unfold VfsEpState.row
  split_ifs with h <;> simp [h]

theorem row_setGrant_of_ne {s' : Session} {i' : GrantIdx} {v : VfsGrant}
    (h : ¬ (s' = s ∧ i' = i)) : (st.setGrant s i v).row s' i' = st.row s' i' := by
  unfold VfsEpState.row
  rw [grant_setGrant, if_neg h]

theorem row_resetSession_of_ne {s' : Session} (h : s' ≠ s) :
    (st.resetSession s).row s' i = st.row s' i := by
  unfold VfsEpState.row
  rw [grant_resetSession, if_neg h]

theorem not_resets {a : Served} (h : a.2.req.op ≠ .grantSessionReset) :
    ¬ ResetsSession a s := fun hr => h hr.op

end

theorem explains_step (st : VfsEpState) (inp : Input) (hlen : st.exports.length ≤ 256) :
    grantSystem.Explains (st, inp) st.row (step st inp).row := by
  have h := dispatch_outcome st inp
  intro s' i' x' r' hrow
  generalize hst : step st inp = st', hrep : answer st inp = rep at h
  rw [hst] at hrow
  cases h with
  | refused e =>
    refine .inl ⟨hrow, fun hr => ?_⟩
    have := hr.ok
    rw [hrep] at this
    cases this
  | pinged op | read op | revoked op => exact .inl ⟨hrow, not_resets (by rw [op]; decide)⟩
  | named _ op _ =>
    exact .inl ⟨hrow, not_resets fun hop => by rw [hop] at op; cases op⟩
  | inspected q op _ _ _ =>
    exact .inl ⟨hrow, not_resets (by rw [op]; cases q <;> decide)⟩
  | @derived s i j exp op ref less _ _ _ =>
    have hnr : ¬ ResetsSession (st, inp) s' := not_resets (by rw [op]; decide)
    by_cases hsi : s' = s ∧ i' = j
    · obtain ⟨rfl, rfl⟩ := hsi
      obtain ⟨hs, hi, hused⟩ := grantRef_ok ref
      obtain ⟨-, rfl, rfl⟩ := row_eq_some.mp hrow
      rw [grant_setGrant, if_pos ⟨rfl, rfl⟩]
      refine .inr (.inr ⟨i, (st.grant s' i).rights, row_eq_some.mpr ⟨hused, rfl, rfl⟩, ?_, less,
        hnr⟩)
      exact ⟨hs, op, by rw [hrep]; rfl, hi, rfl, by rw [hrep]; exact toNat_grantIdx i'⟩
    · rw [row_setGrant_of_ne hsi] at hrow
      exact .inl ⟨hrow, hnr⟩
  | @opened s i x op admin hs path _ =>
    have hnr : ¬ ResetsSession (st, inp) s' := not_resets (by rw [op]; decide)
    by_cases hsi : s' = s ∧ i' = i
    · obtain ⟨rfl, rfl⟩ := hsi
      obtain ⟨-, rfl, rfl⟩ := row_eq_some.mp hrow
      rw [grant_setGrant, if_pos ⟨rfl, rfl⟩]
      have hx : x.toUInt8.toNat = x := by
        have := resolvePath_lt path
        simp only [Nat.toUInt8_eq, UInt8.toNat_ofNat']
        omega
      rw [hx]
      exact .inr (.inl ⟨admin, op, by rw [hrep]; rfl, hs, rfl, path, by
        rw [hrep]; exact toNat_grantIdx i'⟩)
    · rw [row_setGrant_of_ne hsi] at hrow
      exact .inl ⟨hrow, hnr⟩
  | @reset s op _ hs =>
    by_cases hss : s' = s
    · have hused := (row_eq_some.mp hrow).1
      rw [grant_resetSession, if_pos hss] at hused
      cases hused
    · refine .inl ⟨?_, fun hr => hss (Fin.ext (hr.row.symm.trans hs))⟩
      rwa [row_resetSession_of_ne hss] at hrow

theorem allTraced_run (exports : List VfsExport) (mem : UInt64 → UInt8) (epoch : UInt64)
    (hlen : exports.length ≤ 256) (ins : List Input) :
    grantSystem.AllTraced (runFrom step (grantsInit exports mem epoch) ins).row
      (history step (grantsInit exports mem epoch) ins) := by
  have hlen0 : (grantsInit exports mem epoch).exports.length ≤ 256 := by
    simpa [grantsInit] using hlen
  have htraced0 : grantSystem.AllTraced (grantsInit exports mem epoch).row [] := nofun
  refine (history_keeps (I := fun h st => st.exports.length ≤ 256 ∧ grantSystem.AllTraced st.row h)
    ⟨hlen0, htraced0⟩ (fun h st inp hI => ?_) ins).2
  exact ⟨by simpa using hI.1, hI.2.step (explains_step st inp hI.1)⟩

/-! ## What a session gets -/

theorem toNat_ite_lt (a b : UInt64) : (if a < b then a else b).toNat = min a.toNat b.toNat := by
  split_ifs with h
  · have := UInt64.lt_iff_toNat_lt.mp h
    omega
  · have := UInt64.lt_iff_toNat_lt.not.mp h
    omega

theorem toNat_readLen (size : UInt32) (offset len : UInt64) :
    (readLen size offset len).toNat =
      min (min len.toNat vfsEpDataMax) (size.toNat - offset.toNat) := by
  have hmax : vfsEpDataMax.toUInt64.toNat = vfsEpDataMax := rfl
  have hsize : size.toUInt64.toNat = size.toNat := UInt32.toNat_toUInt64 size
  unfold readLen
  rcases UInt64.lt_or_le offset size.toUInt64 with hoff | hoff
  · have hsub := UInt64.toNat_sub_of_le _ _ (UInt64.le_of_lt hoff)
    rw [if_pos hoff, toNat_ite_lt, toNat_ite_lt, hsub, hmax, hsize, min_comm len.toNat]
  · have hle := UInt64.le_iff_toNat_le.mp hoff
    rw [if_neg (UInt64.not_lt.mpr hoff), UInt64.toNat_zero]
    omega

theorem payload_readReply (mem : UInt64 → UInt8) (exp : VfsExport) (offset len : UInt64) :
    (readReply mem exp offset len).payload =
      ((contents mem exp).drop offset.toNat).take (min len.toNat vfsEpDataMax) := by
  unfold readReply replyOk contents
  apply List.ext_getElem
  · simp [toNat_readLen]
  · intro k h1 h2
    simp

theorem grants_of_other_session {st : VfsEpState} {inp : Input} {s s' : Session}
    (hs : irisBadgeFilegrantSession inp.req.senderBadge = some s') (hne : s' ≠ s) :
    (step st inp).grant s = st.grant s := by
  have h := dispatch_outcome st inp
  have hadmin := ne_admin_of_session hs
  generalize step st inp = st', answer st inp = rep at h
  cases h with
  | derived _ ref _ _ _ _ =>
    obtain rfl : s' = _ := Option.some.inj (hs.symm.trans (grantRef_ok ref).1)
    funext i
    rw [grant_setGrant, if_neg fun hsi => hne hsi.1.symm]
  | opened _ admin | reset _ admin => exact absurd admin hadmin
  | refused | pinged | named | inspected | read | revoked => rfl

/-- The request went through a grant of its session with the right, whose export is what it was. -/
structure Through (st : VfsEpState) (inp : Input) (s : Session) (i : GrantIdx) (right : Rights)
    (exp : VfsExport) : Prop where
  place : (inp.req.words 0).toNat = i.val
  used : (st.grant s i).used = true
  right : hasRight (st.grant s i).rights right = true
  entry : st.exports[(st.grant s i).exportSlot.toNat]? = some exp
  current : exp.generation = (st.grant s i).generation

section
variable {st : VfsEpState} {inp : Input} {s s' : Session} {i : GrantIdx} {right : Rights}
  {exp : VfsExport}

section

variable (hs : irisBadgeFilegrantSession inp.req.senderBadge = some s)
include hs

theorem through
    (ref : grantRef st inp.req = .ok (s', i)) (hr : hasRight (st.grant s' i).rights right = true)
    (live : grantLive st (st.grant s' i) = .ok exp) : s' = s ∧ Through st inp s i right exp := by
  obtain ⟨hs', hi, hused⟩ := grantRef_ok ref
  obtain rfl : s = s' := Option.some.inj (hs.symm.trans hs')
  obtain ⟨hexp, -, -, hgen⟩ := grantLive_ok live
  exact ⟨rfl, hi, hused, hr, hexp, hgen⟩

theorem stat_through
    (hop : inp.req.op = .grantStat) (hok : (answer st inp).label = .ok) :
    ∃ i exp, Through st inp s i vfsFileRightStat exp ∧
      answer st inp = replyOk ![0, exp.size.toUInt64, (st.grant s i).backingId,
        (st.grant s i).generation] 4 := by
  have h := dispatch_outcome st inp
  generalize step st inp = st', answer st inp = rep at h hok
  cases h with
  | inspected q op ref hr live =>
    obtain rfl : q = false := by
      cases q with
      | false => rfl
      | true => rw [hop] at op; cases op
    obtain ⟨rfl, ht⟩ := through hs ref (hr rfl) live
    exact ⟨_, _, ht, rfl⟩
  | refused e => cases hok
  | named outside => rw [outside] at hs; cases hs
  | pinged op | read op | derived op | revoked op | opened op | reset op =>
    rw [hop] at op; cases op

theorem read_through
    (hop : inp.req.op = .grantReadAt) (hok : (answer st inp).label = .ok) :
    ∃ i exp, Through st inp s i vfsFileRightRead exp ∧
      answer st inp = readReply st.mem exp (inp.req.words 1) (inp.req.words 2) := by
  have h := dispatch_outcome st inp
  generalize step st inp = st', answer st inp = rep at h hok
  cases h with
  | read op ref hr live =>
    obtain ⟨rfl, ht⟩ := through hs ref hr live
    exact ⟨_, _, ht, rfl⟩
  | refused e => cases hok
  | named outside => rw [outside] at hs; cases hs
  | inspected q op => rw [hop] at op; cases q <;> cases op
  | pinged op | derived op | revoked op | opened op | reset op => rw [hop] at op; cases op

theorem revoke_through
    (hop : inp.req.op = .grantRevoke) (hok : (answer st inp).label = .ok) :
    ∃ i exp, Through st inp s i vfsFileRightRevoke exp ∧
      step st inp = st.backingBump (st.grant s i).exportSlot.toNat := by
  have h := dispatch_outcome st inp
  generalize step st inp = st', answer st inp = rep at h hok
  cases h with
  | revoked op target =>
    unfold revokeTarget at target
    rw [if_neg (ne_admin_of_session hs)] at target
    split at target
    · cases target
    rename_i ref
    dsimp only at target
    split at target
    · cases target
    rename_i hr
    split at target
    · cases target
    rename_i live
    cases target
    obtain ⟨rfl, ht⟩ := through hs ref (by simpa using hr) live
    exact ⟨_, _, ht, rfl⟩
  | refused e => cases hok
  | named outside => rw [outside] at hs; cases hs
  | inspected q op => rw [hop] at op; cases q <;> cases op
  | pinged op | read op | derived op | opened op | reset op => rw [hop] at op; cases op

end

end

/-- The grant goes back to an opening of its export since the last reset, with at least its rights.
-/
def Lawful (h : List Served) (st : VfsEpState) (s : Session) (i : GrantIdx) : Prop :=
  grantSystem.Traced s (st.grant s i).exportSlot.toNat h i (st.grant s i).rights ∧
    ∃ r₀, grantSystem.OpenedSince s (st.grant s i).exportSlot.toNat h r₀ ∧
      Within (st.grant s i).rights r₀

theorem lawful_run (exports : List VfsExport) (mem : UInt64 → UInt8) (epoch : UInt64)
    (hlen : exports.length ≤ 256) (ins : List Input) {s : Session} {i : GrantIdx}
    (hused : ((runFrom step (grantsInit exports mem epoch) ins).grant s i).used = true) :
    Lawful (history step (grantsInit exports mem epoch) ins)
      (runFrom step (grantsInit exports mem epoch) ins) s i := by
  have ht := allTraced_run exports mem epoch hlen ins s i _ _ (row_eq_some.mpr ⟨hused, rfl, rfl⟩)
  exact ⟨ht, ht.origin⟩

/-- Every used grant has a lawful origin, sessions leave each other's rows alone, and reach exports
only through grants with the right. -/
theorem grants_have_lawful_origin (exports : List VfsExport) (mem : UInt64 → UInt8)
    (epoch : UInt64) (hlen : exports.length ≤ 256) (ins : List Input) :
    let st := runFrom step (grantsInit exports mem epoch) ins
    let h := history step (grantsInit exports mem epoch) ins
    (∀ s i, (st.grant s i).used = true → Lawful h st s i) ∧
    (∀ inp s s', irisBadgeFilegrantSession inp.req.senderBadge = some s' → s' ≠ s →
      (step st inp).grant s = st.grant s) ∧
    ∀ inp s, irisBadgeFilegrantSession inp.req.senderBadge = some s →
      (answer st inp).label = .ok →
      (inp.req.op = .grantStat → ∃ i exp, Through st inp s i vfsFileRightStat exp ∧
        Lawful h st s i ∧ (answer st inp).words 1 = exp.size.toUInt64) ∧
      (inp.req.op = .grantReadAt → ∃ i exp, Through st inp s i vfsFileRightRead exp ∧
        Lawful h st s i ∧ (answer st inp).payload =
          ((contents st.mem exp).drop (inp.req.words 1).toNat).take
            (min (inp.req.words 2).toNat vfsEpDataMax)) ∧
      (inp.req.op = .grantRevoke → ∃ i exp, Through st inp s i vfsFileRightRevoke exp ∧
        Lawful h st s i ∧ step st inp = st.backingBump (st.grant s i).exportSlot.toNat) := by
  intro st h
  have hlawful : ∀ s i, (st.grant s i).used = true → Lawful h st s i :=
    fun s i hused => lawful_run exports mem epoch hlen ins hused
  refine ⟨hlawful, fun inp s s' hs hne => grants_of_other_session hs hne, ?_⟩
  intro inp s hs hok
  refine ⟨fun hop => ?_, fun hop => ?_, fun hop => ?_⟩
  · obtain ⟨i, exp, ht, ha⟩ := stat_through hs hop hok
    exact ⟨i, exp, ht, hlawful s i ht.used, by rw [ha]; rfl⟩
  · obtain ⟨i, exp, ht, ha⟩ := read_through hs hop hok
    exact ⟨i, exp, ht, hlawful s i ht.used, by rw [ha]; exact payload_readReply _ _ _ _⟩
  · obtain ⟨i, exp, ht, hst⟩ := revoke_through hs hop hok
    exact ⟨i, exp, ht, hlawful s i ht.used, hst⟩

def oneExport : List VfsExport := [{ name := [97], data := [1, 2, 3], size := 3, ready := true }]

def noMem : UInt64 → UInt8 := fun _ => 0

def openA (rights : UInt64) : Input :=
  ⟨{ label := 0x0110, words := ![0, rights, 0, 0], wordCount := 2, bufLen := 2,
     senderBadge := irisBadgeFilegrantAdmin }, some [97, 0]⟩

/-- Session 0 asks for an operation through one of its grants. -/
def ask (label i w₁ w₂ : UInt64) : Input :=
  ⟨{ label := label, words := ![i, w₁, w₂, 0], wordCount := 3, senderBadge := 0x0F10 }, none⟩

theorem read_of_derived_grant_is_lawful :
    let ins := [openA 15, ask 0x0114 0 2 0]
    let st := runFrom step (grantsInit oneExport noMem 0) ins
    oneExport.length ≤ 256 ∧ (answer st (ask 0x0112 1 1 9)).label = .ok ∧
      ∃ i exp, Through st (ask 0x0112 1 1 9) 0 i vfsFileRightRead exp ∧
        Lawful (history step (grantsInit oneExport noMem 0) ins) st 0 i ∧
        (answer st (ask 0x0112 1 1 9)).payload = ((contents noMem exp).drop 1).take 9 :=
  ⟨by decide, by decide +kernel, ((grants_have_lawful_origin oneExport noMem 0 (by decide)
    [openA 15, ask 0x0114 0 2 0]).2.2 (ask 0x0112 1 1 9) 0 (by decide)
      (by decide +kernel)).2.1 (by decide)⟩

end IrisOS.Vfs
