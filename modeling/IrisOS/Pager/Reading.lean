import IrisOS.Pager.Service

/-! What the pager reads through the VFS: an identity stands for one file, and the reading loop
collects its bytes as long as the grant is on that file. -/
namespace IrisOS.Pager
open Lib Vfs List

/-! ## The file of an identity -/

/-- An export without its generation. -/
def ungenerated (e : VfsExport) : VfsExport := { e with generation := 0 }

theorem contents_ungenerated (mem : UInt64 → UInt8) (e : VfsExport) :
    contents mem (ungenerated e) = contents mem e := rfl

theorem mem_step (st : VfsEpState) (inp : Input) : (step st inp).mem = st.mem := by
  have h := dispatch_outcome st inp
  generalize step st inp = st', answer st inp = rep at h
  cases h <;> rfl

theorem ungenerated_step (st : VfsEpState) (inp : Input) (x : ℕ) :
    (step st inp).exports[x]?.map ungenerated = st.exports[x]?.map ungenerated := by
  rw [exports_step]
  split
  · rw [Option.map_map]
    rfl
  · rfl

theorem vfs_run (I : Instance) (served : List Input) :
    (I.vfs served).mem = I.mem ∧ ∀ x : ℕ, (I.vfs served).exports[x]?.map ungenerated =
      (grantsInit I.exports I.mem I.epoch).exports[x]?.map ungenerated := by
  refine runFrom_keeps (I := fun st : VfsEpState => st.mem = I.mem ∧ ∀ x : ℕ,
    st.exports[x]?.map ungenerated =
      (grantsInit I.exports I.mem I.epoch).exports[x]?.map ungenerated) ⟨rfl, fun _ => rfl⟩
    (fun st inp ih => ?_) served
  exact ⟨(mem_step st inp).trans ih.1, fun x => (ungenerated_step st inp x).trans (ih.2 x)⟩

theorem toNat_packBackingId (epoch : UInt64) {i : ℕ} (hi : i < 256) :
    (packBackingId epoch i).toNat % 2 ^ 8 = i := by
  have hshift : (epoch <<< 8).toNat % 2 ^ 8 = 0 := by
    rw [UInt64.toNat_shiftLeft, Nat.shiftLeft_eq]
    simp only [UInt64.reduceToNat, Nat.reduceMod, Nat.reducePow]
    omega
  have hi' : i.toUInt64.toNat = i := by
    rw [Nat.toUInt64_eq, UInt64.toNat_ofNat']
    omega
  unfold packBackingId
  rw [UInt64.toNat_or, UInt64.toNat_or, Nat.or_mod_two_pow, Nat.or_mod_two_pow, hshift, hi',
    Nat.mod_eq_of_lt hi]
  simp

theorem place_of_backingId {I : Instance} (hlen : I.exports.length ≤ 256) {x : ℕ} {e : VfsExport}
    (he : (grantsInit I.exports I.mem I.epoch).exports[x]? = some e) (hready : e.ready = true) :
    e.backingId.toNat % 2 ^ 8 = x := by
  obtain ⟨hx, heq⟩ := List.getElem?_eq_some_iff.mp he
  have hx' : x < I.exports.length := by simpa [grantsInit] using hx
  simp only [grantsInit, getElem_mapIdx] at heq
  split at heq
  · subst heq
    exact toNat_packBackingId I.epoch (by omega)
  · subst heq
    contradiction

variable {served : List Input}

theorem contents_of_live {I : Instance} (hlen : I.exports.length ≤ 256)
    {g : VfsGrant} {exp : VfsExport} (h : grantLive (I.vfs served) g = .ok exp) :
    contents (I.vfs served).mem exp = I.file g.backingId := by
  obtain ⟨hexp, hready, hid, -⟩ := grantLive_ok h
  obtain ⟨hmem, hexports⟩ := vfs_run I served
  -- the export as it was at the start
  have hold := hexports g.exportSlot.toNat
  rw [hexp, Option.map_some, eq_comm, Option.map_eq_some_iff] at hold
  obtain ⟨e0, he0, hsame⟩ := hold
  have hready0 : e0.ready = true := (congrArg VfsExport.ready hsame).trans hready
  have hid0 : e0.backingId = g.backingId := (congrArg VfsExport.backingId hsame).trans hid
  have hcontents : contents I.mem e0 = contents I.mem exp := by
    rw [← contents_ungenerated, hsame, contents_ungenerated]
  rw [hmem, ← hcontents]
  unfold Instance.file
  split
  · rename_i e hfind
    have he := find?_some hfind
    simp only [Bool.and_eq_true, beq_iff_eq] at he
    obtain ⟨y, hy⟩ := mem_iff_getElem?.mp (mem_of_find?_eq_some hfind)
    have hplace : y = g.exportSlot.toNat := by
      rw [← place_of_backingId hlen hy he.1, ← place_of_backingId hlen he0 hready0, he.2, hid0]
    rw [hplace, he0] at hy
    cases hy
    rfl
  · rename_i hnone
    have := find?_eq_none.mp hnone e0 (mem_of_getElem? he0)
    simp [hready0, hid0] at this

/-! ## The reading loop -/

/-- The grant of the pager's session that a backing refers to is on the backing's file, or is no
grant. -/
def GrantsFile (I : Instance) (bk : Backing) (served : List Input) : Prop :=
  ∀ i : GrantIdx, i.val = bk.grantIdx.toNat → ((I.vfs served).grant I.session i).used = true →
    ((I.vfs served).grant I.session i).backingId = bk.backingId

theorem session_of_request (I : Instance) (label : UInt64) (words : Fin 4 → UInt64) (n : ℕ) :
    irisBadgeFilegrantSession (I.request label words n).req.senderBadge = some I.session := by
  have hlt := I.session.isLt
  simp only [vfsGrantSessions] at hlt
  refine badgeIndex_eq_some.mpr ?_
  simp only [Instance.request, UInt64.toNat_add, Nat.toUInt64_eq, UInt64.toNat_ofNat',
    irisBadgeFilegrantBase, UInt64.reduceToNat]
  omega

/-- The bytes of a page: so many of the file from the offset on, and zeros after them. -/
def pageBytes (I : Instance) (backingId : UInt64) (off fb : ℕ) (i : ℕ) : UInt8 :=
  if i < fb then (I.file backingId).getD (off + i) 0 else 0

theorem append_isPrefix {α : Type*} {acc b l : List α} (hacc : acc <+: l)
    (hb : b <+: l.drop acc.length) : acc ++ b <+: l := by
  obtain ⟨rest, rfl⟩ := hacc
  rw [drop_left] at hb
  exact (prefix_append_right_inj acc).mpr hb

section
variable {I : Instance} (hlen : I.exports.length ≤ 256) {bk : Backing}
include hlen

variable {off : UInt64}

theorem readReplyAt_spec (hg : GrantsFile I bk served) {n : ℕ} (hn : n ≤ vfsEpDataMax)
    (hok : (readReplyAt I bk.grantIdx served off n).label = .ok) :
    (readReplyAt I bk.grantIdx served off n).payload =
      ((I.file bk.backingId).drop off.toNat).take n := by
  have hs := session_of_request I 0x0112 ![bk.grantIdx.toUInt64, off, n.toUInt64, 0] 3
  unfold readReplyAt at hok ⊢
  have h := dispatch_outcome (I.vfs served)
    (I.request 0x0112 ![bk.grantIdx.toUInt64, off, n.toUInt64, 0] 3)
  have hop : (I.request 0x0112 ![bk.grantIdx.toUInt64, off, n.toUInt64, 0] 3).req.op =
    .grantReadAt := rfl
  generalize step _ _ = st', answer _ _ = rep at h hok
  cases h with
  | @read s i exp op ref right live =>
    obtain ⟨hs', hi, hused⟩ := grantRef_ok ref
    obtain rfl : I.session = s := Option.some.inj (hs.symm.trans hs')
    have hfile := hg i (hi.symm.trans (UInt32.toNat_toUInt64 bk.grantIdx)) hused
    have hn' : n.toUInt64.toNat = n := by
      rw [Nat.toUInt64_eq, UInt64.toNat_ofNat']
      unfold vfsEpDataMax at hn
      omega
    rw [payload_readReply, contents_of_live hlen live, hfile]
    change take (min n.toUInt64.toNat vfsEpDataMax) _ = _
    rw [hn', min_eq_left hn]
    rfl
  | refused e => cases hok
  | named outside => rw [outside] at hs; cases hs
  | inspected q op => rw [hop] at op; cases q <;> cases op
  | pinged op | derived op | revoked op | opened op | reset op => rw [hop] at op; cases op

theorem readLoop_spec {want : ℕ} {calls : ℕ → Option (List Input)}
    (hoff : off.toNat + want ≤ 2 ^ 64)
    (hcalls : ∀ k served, calls k = some served → GrantsFile I bk served) (fuel k : ℕ)
    {acc : List UInt8} (hacc : acc <+: (I.file bk.backingId).drop off.toNat)
    (hle : acc.length ≤ want) :
    (readLoop I bk.grantIdx off want calls fuel k acc).1 <+: (I.file bk.backingId).drop off.toNat ∧
      (readLoop I bk.grantIdx off want calls fuel k acc).1.length ≤ want := by
  induction fuel generalizing k acc with
  | zero => exact ⟨hacc, hle⟩
  | succ fuel ih =>
    unfold readLoop
    split
    swap
    · exact ⟨hacc, hle⟩
    split
    · exact ⟨hacc, hle⟩
    rename_i served hserved
    dsimp only
    split
    swap
    · exact ⟨hacc, hle⟩
    rename_i hok
    split
    · exact ⟨hacc, hle⟩
    have hpos : (off + acc.length.toUInt64).toNat = off.toNat + acc.length := by
      rw [UInt64.toNat_add, Nat.toUInt64_eq, UInt64.toNat_ofNat']
      omega
    refine ih (k + 1) (append_isPrefix hacc ?_) ?_
    · rw [readReplyAt_spec hlen (hcalls k served hserved) (min_le_right _ _) hok, hpos,
        ← drop_drop]
      exact (List.take_prefix _ _).trans (List.take_prefix _ _)
    · rw [length_append, length_take]
      omega

theorem fillBytes_spec {fb : ℕ} {env : Env} (hoff : 0 < fb → off.toNat + fb ≤ 2 ^ 64)
    (hcalls : 0 < fb → ∀ k served, env.calls k = some served → GrantsFile I bk served)
    (hfull : fb ≤ (fillBytes I bk off fb env).1.length) :
    (fun i => (fillBytes I bk off fb env).1.getD i 0) = pageBytes I bk.backingId off.toNat fb := by
  unfold fillBytes at hfull ⊢
  funext i
  unfold pageBytes
  split at hfull
  · rename_i hpos
    rw [if_pos hpos]
    unfold readFile at hfull ⊢
    obtain ⟨hpre, hle⟩ := readLoop_spec hlen (hoff hpos) (hcalls hpos) fb 0
      ( List.nil_prefix) (Nat.zero_le _)
    split
    · rename_i hi
      obtain ⟨rest, hrest⟩ := hpre
      rw [getD_eq_getElem?_getD, getD_eq_getElem?_getD, ← getElem?_drop, ← hrest,
        getElem?_append_left (by omega)]
    · rw [getD_eq_getElem?_getD, getElem?_eq_none (by omega)]
      rfl
  · rename_i hpos
    rw [if_neg hpos, if_neg (by omega)]
    rfl

end

end IrisOS.Pager
