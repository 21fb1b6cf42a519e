import IrisOS.Pager.Service

/-! Ownership of the pager's pages. As long as no region is released while a page of it is mapped,
its books cover every mapping, and no page that somebody can see is filled or mapped again, but as a
cache page of the same file page. -/
namespace IrisOS.Pager
open Lib Vfs Function List

/-! ## What a step does -/

/-- The page address of the fault that is taken up for a target. -/
def faultVa (w : World) (t : Target) (env : Env) : Option UInt64 :=
  ((waitFault w t env).1.held t).map fun rec => rec.cr2 &&& ~~~0xFFF

/-- The place of the fault taken up for a target, unless it is refused before. -/
def faultPlace (w : World) (t : Target) (env : Env) : Option Place :=
  match (waitFault w t env).1.held t with
  | none => none
  | some rec =>
    if rec.vector ≠ 14 ∨ rec.seq = 0 ∨ rec.task = 0 then none
    else
      let va := rec.cr2 &&& ~~~0xFFF
      match findRegion w t va with
      | none => none
      | some ri =>
        let rg := w.reg ri
        let bk := w.back rg.backingIdx
        if !bk.used || bk.generation ≠ rg.backingGen then none
        else if rec.error &&& 2 ≠ 0 ∧ rg.mode = pgrModeRoShared then none
        else some (placeOf w t ri va)

variable {p : Place}

theorem faultPlace_spec {w : World} {t : Target} {env : Env} (h : faultPlace w t env = some p) :
    (w.reg p.region).used = true ∧ (w.reg p.region).targetIdx = t ∧
      (w.reg p.region).startVa ≤ p.va ∧
      p.va < (w.reg p.region).startVa + (w.reg p.region).memLen ∧
      faultVa w t env = some p.va ∧ p = placeOf w t p.region p.va := by
  unfold faultPlace at h
  split at h
  · cases h
  rename_i rec hrec
  split at h
  · cases h
  dsimp only at h
  split at h
  · cases h
  rename_i ri hri
  split at h
  · cases h
  split at h
  · cases h
  cases h
  have hin := find?_some hri
  simp only [Bool.and_eq_true, decide_eq_true_eq] at hin
  refine ⟨hin.1.1.1, hin.1.1.2, hin.1.2, hin.2, ?_, rfl⟩
  unfold faultVa
  rw [hrec]
  rfl

theorem waitFault_fst (w : World) (t : Target) (env : Env) :
    ∃ held, (waitFault w t env).1 = { w with held := held } := by
  unfold waitFault
  split
  · exact ⟨w.held, rfl⟩
  rename_i hnone
  clear hnone
  generalize env.arrivals = arrivals
  induction arrivals generalizing w with
  | nil => exact ⟨w.held, rfl⟩
  | cons a rest ih =>
    unfold receiveFaults
    split
    swap
    · exact ih w
    dsimp only
    split
    · exact ih w
    split
    · exact ⟨_, rfl⟩
    · exact ih (w.setHeld _ _)

theorem faultAnswer_fst (w : World) (t : Target) (env : Env) :
    ∃ held, (faultAnswer w t env).1 = { w with held := held } := by
  unfold faultAnswer
  split
  · exact ⟨_, rfl⟩
  · exact ⟨w.held, rfl⟩

def Place.backing (p : Place) (w : World) : Backing := w.back (w.reg p.region).backingIdx

/-- A region request passes every check. -/
def acceptsRegion (w : World) (rq : RegionReq) : Bool :=
  if hr : rq.regionIdx < pgrMaxRegions then
    if ht : rq.targetIdx < pgrMaxTargets then
      if hb : rq.backingIdx < pgrMaxBackings then
        let b := w.back ⟨_, hb⟩
        (rq.mode = pgrModeRoShared || rq.mode = pgrModePrivateWritable) && b.used &&
          b.generation = rq.backingGeneration && !badRegion rq b.fileSize &&
          !overlaps w ⟨_, hr⟩ ⟨_, ht⟩ rq.startVa (rq.startVa + rq.memoryLength)
      else false
    else false
  else false

/-- A step releases a region: it replaces or unregisters it, or resets its target. -/
def releases (w : World) (ri : RegionIdx) : Event → Bool
  | .registerRegion rq => acceptsRegion w rq && ri.val = rq.regionIdx && (w.reg ri).used
  | .unregisterRegion ridx => ri.val = ridx && (w.reg ri).used
  | .targetReset tidx => (w.reg ri).used && (w.reg ri).targetIdx.val = tidx
  | _ => false

theorem bounded_of_not_badRegion {rq : RegionReq} {fileSize : UInt64}
    (h : badRegion rq fileSize = false) : rq.fileOffset.toNat + rq.fileLength.toNat < 2 ^ 64 := by
  unfold badRegion at h
  simp only [Bool.or_eq_false_iff, decide_eq_false_iff_not] at h
  have hend : ¬ rq.fileOffset + rq.fileLength < rq.fileOffset := by tauto
  rw [UInt64.lt_iff_toNat_lt, UInt64.toNat_add] at hend
  have h2 := rq.fileLength.toNat_lt
  omega

/-- What a step does. A refused step, or a fault without a region, changes held faults only. -/
inductive Moves (I : Instance) (w : World) : Event → World → Prop
  | held {e : Event} (held : Target → Option FaultRec) : Moves I w e { w with held := held }
  | shared {t : Target} {env : Env} {p : Place} (held : Target → Option FaultRec)
      (place : faultPlace w t env = some p) (mode : (w.reg p.region).mode = pgrModeRoShared) :
      Moves I w (.mapRegion t.val env)
        (resolveShared I { w with held := held } p (p.backing w) env).1
  | fresh {t : Target} {env : Env} {p : Place} (held : Target → Option FaultRec)
      (place : faultPlace w t env = some p)
      (mode : (w.reg p.region).mode = pgrModePrivateWritable) :
      Moves I w (.mapRegion t.val env)
        (resolvePrivate I { w with held := held } p (p.backing w) env).1
  | back {rq : BackingReq} {env : Env} (b : BackingIdx) (v : Backing) :
      Moves I w (.registerBacking rq env) (w.setBack b v)
  | region {rq : RegionReq} {ri : RegionIdx} {v : Region} (ok : acceptsRegion w rq = true)
      (idx : ri.val = rq.regionIdx)
      (clean : (∀ c, v.cacheRefmask c = false) ∧ ∀ j, v.privOwnmask j = false)
      (bounded : v.fileOff.toNat + v.fileLen.toNat < 2 ^ 64) :
      Moves I w (.registerRegion rq)
        ((if (w.reg ri).used then regionRelease w ri else w).setReg ri v)
  | drops {e : Event} {ris : List RegionIdx} (released : ∀ ri ∈ ris, releases w ri e = true) :
      Moves I w e (ris.foldl dropRegion w)
  | revoke {bidx : ℕ} (b : BackingIdx) (v : Backing) (stale : CacheSlot → Bool)
      (idle : ∀ c, stale c = true → (w.cache c).refcount = 0) :
      Moves I w (.revokeBacking bidx) { w.setBack b v with
        cache := fun c => if stale c then { w.cache c with valid := false } else w.cache c }
  | write {pg : Page} {v : ℕ → UInt8} (exposed : w.exposed pg = true) :
      Moves I w (.write pg v) (w.setFrame pg v)
  | unmap {t : Target} {va : UInt64} (p : Mapping → Bool) :
      Moves I w (.unmap t va) { w with maps := w.maps.filter p }

section
variable (I : Instance) (w : World)

theorem resolveRegion_moves (t : Target) (env : Env) :
    Moves I w (.mapRegion t.val env) (resolveRegion I w t env).1 := by
  obtain ⟨held, hheld⟩ := waitFault_fst w t env
  have hshared := @Moves.shared I w t env
  have hfresh := @Moves.fresh I w t env
  unfold resolveRegion
  unfold faultPlace at hshared hfresh
  dsimp only
  rw [hheld] at hshared hfresh ⊢
  split
  · exact .held held
  split
  · exact .held held
  rename_i rec hrec
  rw [hrec] at hshared hfresh
  dsimp only at hshared hfresh
  unfold resolveFault
  split
  · exact .held held
  rename_i hinfo
  rw [if_neg hinfo] at hshared hfresh
  dsimp only
  have hfind : findRegion { w with held := held } t (rec.cr2 &&& ~~~0xFFF) =
    findRegion w t (rec.cr2 &&& ~~~0xFFF) := rfl
  rw [hfind]
  split
  · exact .held held
  rename_i ri hri
  rw [hri] at hshared hfresh
  dsimp only at hshared hfresh
  split
  · exact .held held
  rename_i hstale
  rw [if_neg hstale] at hshared hfresh
  split
  · exact .held held
  rename_i haccess
  rw [if_neg haccess] at hshared hfresh
  split
  · rename_i hmode
    exact hshared held rfl hmode
  split
  · rename_i hmode
    exact hfresh held rfl hmode
  · exact .held held

theorem registerRegion_moves (rq : RegionReq) :
    Moves I w (.registerRegion rq) (registerRegion w rq).1 := by
  unfold registerRegion
  split
  swap
  · exact .held w.held
  rename_i hidx
  split
  · exact .held w.held
  rename_i hmode
  dsimp only
  split
  · exact .held w.held
  rename_i hback
  split
  · exact .held w.held
  rename_i hbad
  split
  · exact .held w.held
  rename_i hover
  refine .region ?_ rfl ⟨fun _ => rfl, fun _ => rfl⟩
    (bounded_of_not_badRegion (Bool.not_eq_true _ ▸ hbad))
  rw [acceptsRegion, dif_pos hidx.1, dif_pos hidx.2.1, dif_pos hidx.2.2]
  have hmode' : rq.mode = pgrModeRoShared ∨ rq.mode = pgrModePrivateWritable := by tauto
  simp_all

theorem reg_dropRegion_of_ne {w : World} {ri ri' : RegionIdx} (hne : ri' ≠ ri) :
    (dropRegion w ri).reg ri' = w.reg ri' := by
  unfold dropRegion
  rw [World.reg_setReg, if_neg hne]
  exact update_of_ne hne _ _

theorem foldl_dropRegion (t : Target) {ris : List RegionIdx} (hnodup : ris.Nodup) :
    ris.foldl (fun w ri =>
        if (w.reg ri).used && (w.reg ri).targetIdx = t then dropRegion w ri else w) w =
      (ris.filter fun ri => (w.reg ri).used && (w.reg ri).targetIdx = t).foldl dropRegion w := by
  induction ris generalizing w with
  | nil => rfl
  | cons ri ris ih =>
    obtain ⟨hnot, hnodup⟩ := nodup_cons.mp hnodup
    rw [foldl_cons, filter_cons]
    split
    · rw [ih _ hnodup, foldl_cons]
      congr 1
      refine filter_congr fun ri' hri' => ?_
      rw [reg_dropRegion_of_ne (by rintro rfl; exact hnot hri')]
    · exact ih w hnodup

theorem act_moves (e : Event) : Moves I w e (act I w e) := by
  unfold act serve
  cases e with
  | mapRegion tidx env =>
    dsimp only
    split
    · rename_i ht
      exact resolveRegion_moves I w ⟨tidx, ht⟩ env
    · exact .held w.held
  | registerBacking rq env =>
    dsimp only [registerBacking]
    split
    swap
    · exact .held w.held
    split
    · exact .held w.held
    split
    · exact .held w.held
    split
    · exact .held w.held
    split
    · exact .held w.held
    · exact .back _ _
  | registerRegion rq => exact registerRegion_moves I w rq
  | unregisterRegion ridx =>
    dsimp only [unregisterRegion]
    split
    swap
    · exact .held w.held
    rename_i hr
    split
    · rename_i hused
      exact @Moves.drops I w _ [⟨ridx, hr⟩] (by simp [releases, hused])
    · exact .held w.held
  | revokeBacking bidx =>
    dsimp only [revokeBacking]
    split
    swap
    · exact .held w.held
    split
    · exact .revoke _ _ _ fun c hc => by simp_all
    · exact .held w.held
  | targetReset tidx =>
    dsimp only [targetReset]
    split
    swap
    · exact .held w.held
    rename_i ht
    rw [foldl_dropRegion w ⟨tidx, ht⟩ (nodup_finRange _)]
    refine .drops fun ri hri => ?_
    simp only [mem_filter, Bool.and_eq_true, decide_eq_true_eq] at hri
    simp [releases, hri.2]
  | raw tidx refused env =>
    dsimp only [serveRaw]
    split
    swap
    · exact .held w.held
    rename_i ht
    obtain ⟨held, hheld⟩ := waitFault_fst w ⟨tidx, ht⟩ env
    rw [hheld]
    split
    · exact .held held
    split
    · exact .held held
    · obtain ⟨held', hheld'⟩ := faultAnswer_fst { w with held := held } ⟨tidx, ht⟩ env
      rw [hheld']
      exact .held held'
  | write pg v =>
    dsimp only
    split
    · rename_i hexp
      exact .write hexp
    · exact .held w.held
  | unmap t va => exact .unmap _

end

/-! ## Ownership -/

def refs (reg : RegionIdx → Region) (c : CacheSlot) : Finset RegionIdx :=
  Finset.univ.filter fun ri => (reg ri).cacheRefmask c = true

/-- The region of a mapping accounts for its page. -/
structure Covers (w : World) (m : Mapping) : Prop where
  cache : ∀ c, m.page = .cache c → (w.reg m.region).cacheRefmask c = true ∧
    (w.cache c).key = m.filePage ∧ m.writable = false
  priv : ∀ j, m.page = .priv j → (w.reg m.region).privOwnmask j = true

/-- The books of the pager agree with each other and cover every mapping. -/
structure Owned (w : World) : Prop where
  covers : ∀ m ∈ w.maps, Covers w m
  counts : ∀ c, (w.cache c).refcount = (refs w.reg c).card
  valid : ∀ c ri, (w.reg ri).cacheRefmask c = true → (w.cache c).valid = true
  pool : ∀ j ri, (w.reg ri).privOwnmask j = true → w.privUsed j = true
  single : ∀ j ri ri', (w.reg ri).privOwnmask j = true → (w.reg ri').privOwnmask j = true → ri = ri'
  idle : ∀ ri, (w.reg ri).used = false →
    (∀ c, (w.reg ri).cacheRefmask c = false) ∧ ∀ j, (w.reg ri).privOwnmask j = false

section
variable {w w' : World} {ri : RegionIdx} {c : CacheSlot} {j : PrivSlot} {v : Region}

theorem mem_refs {reg : RegionIdx → Region} : ri ∈ refs reg c ↔ (reg ri).cacheRefmask c = true := by
  simp [refs]

section

variable (h : Owned w)
include h

theorem Owned.unreferenced (hc : (w.cache c).refcount = 0) (ri : RegionIdx) :
    (w.reg ri).cacheRefmask c = false := by
  rw [h.counts, Finset.card_eq_zero] at hc
  have : ri ∉ refs w.reg c := by simp [hc]
  simpa [mem_refs] using this

theorem Owned.unmapped_cache (hc : ∀ ri, (w.reg ri).cacheRefmask c = false) :
    ∀ m ∈ w.maps, m.page ≠ .cache c := by
  intro m hm hpage
  have hcov := ((h.covers m hm).cache c hpage).1
  rw [hc] at hcov
  cases hcov

theorem Owned.unmapped_priv (hj : w.privUsed j = false) : ∀ m ∈ w.maps, m.page ≠ .priv j := by
  intro m hm hpage
  rw [h.pool j _ ((h.covers m hm).priv j hpage)] at hj
  cases hj

theorem Owned.congr (hreg : w'.reg = w.reg) (hcache : w'.cache = w.cache)
    (hpool : w'.privUsed = w.privUsed) (hmaps : w'.maps = w.maps) : Owned w' := by
  cases w
  cases hreg
  cases hcache
  cases hpool
  cases hmaps
  exact ⟨fun m hm => ⟨(h.covers m hm).cache, (h.covers m hm).priv⟩, h.counts, h.valid, h.pool,
    h.single, h.idle⟩

theorem Owned.unmap (p : Mapping → Bool) : Owned { w with maps := w.maps.filter p } :=
  ⟨fun m hm => ⟨(h.covers m (mem_filter.mp hm).1).cache,
    (h.covers m (mem_filter.mp hm).1).priv⟩, h.counts, h.valid, h.pool, h.single, h.idle⟩

theorem Owned.setCache (hc : ∀ ri, (w.reg ri).cacheRefmask c = false)
    {v : CacheEntry} (hv : v.refcount = 0) : Owned (w.setCache c v) := by
  have hsame : ∀ c' ri, (w.reg ri).cacheRefmask c' = true → (w.setCache c v).cache c' = w.cache c' := by
    intro c' ri hr
    refine update_of_ne ?_ _ _
    rintro rfl
    rw [hc] at hr
    cases hr
  have hrefs : refs w.reg c = ∅ := by
    apply Finset.eq_empty_of_forall_notMem
    intro ri hri
    rw [mem_refs, hc] at hri
    cases hri
  refine ⟨fun m hm => ⟨fun c' hpage => ?_, (h.covers m hm).priv⟩, fun c' => ?_, fun c' ri hr => ?_,
    h.pool, h.single, h.idle⟩
  · have hcov := (h.covers m hm).cache c' hpage
    rw [hsame c' _ hcov.1]
    exact hcov
  · by_cases hcc : c' = c
    · subst hcc
      change (update w.cache c' v c').refcount = (refs w.reg c').card
      rw [update_self, hv, hrefs]
      rfl
    · change (update w.cache c v c').refcount = _
      rw [update_of_ne hcc]
      exact h.counts c'
  · rw [hsame c' ri hr]
    exact h.valid c' ri hr

end

theorem refs_setReg (w : World) (ri : RegionIdx) (v : Region) (c : CacheSlot) :
    refs (w.setReg ri v).reg c =
      if v.cacheRefmask c = true then insert ri (refs w.reg c) else (refs w.reg c).erase ri := by
  ext ri'
  rw [mem_refs, World.reg_setReg]
  split_ifs with h1 h2 h2
  · simp [h1, h2]
  · simp [h1, h2]
  · simp [h1, mem_refs]
  · simp [h1, mem_refs]

theorem Owned.addMap (h : Owned w) {m : Mapping} (hm : Covers w m) : Owned (w.addMap m) := by
  refine ⟨fun m' hm' => ?_, h.counts, h.valid, h.pool, h.single, h.idle⟩
  rcases mem_cons.mp hm' with rfl | hm'
  · exact ⟨hm.cache, hm.priv⟩
  · exact ⟨(h.covers m' hm').cache, (h.covers m' hm').priv⟩

theorem reg_takeCache (w : World) (ri ri' : RegionIdx) (c : CacheSlot) :
    ((takeCache w ri c).reg ri').privOwnmask = (w.reg ri').privOwnmask ∧
      ((takeCache w ri c).reg ri').used = (w.reg ri').used ∧
      ∀ c', ((takeCache w ri c).reg ri').cacheRefmask c' = true ↔
        (w.reg ri').cacheRefmask c' = true ∨ (ri' = ri ∧ c' = c) := by
  unfold takeCache
  dsimp only
  split
  · rename_i hmask
    refine ⟨rfl, rfl, fun c' => ⟨.inl, ?_⟩⟩
    rintro (h | ⟨rfl, rfl⟩)
    · exact h
    · exact hmask
  · change ((w.setReg ri _).reg ri').privOwnmask = _ ∧ ((w.setReg ri _).reg ri').used = _ ∧
      ∀ c', ((w.setReg ri _).reg ri').cacheRefmask c' = true ↔ _
    rw [World.reg_setReg]
    split_ifs with hri
    · subst hri
      exact ⟨rfl, rfl, fun c' => by simp [Region.ref_withRef]⟩
    · exact ⟨rfl, rfl, fun c' => by simp [hri]⟩

theorem takeCache_frame (w : World) (ri : RegionIdx) (c : CacheSlot) :
    (takeCache w ri c).maps = w.maps ∧ (takeCache w ri c).privUsed = w.privUsed ∧
      (takeCache w ri c).frames = w.frames := by
  unfold takeCache
  dsimp only
  split <;> exact ⟨rfl, rfl, rfl⟩

theorem cache_takeCache (w : World) (ri : RegionIdx) (c c' : CacheSlot) :
    ((takeCache w ri c).cache c').key = (w.cache c').key ∧
      ((takeCache w ri c).cache c').valid = (w.cache c').valid ∧
      ((takeCache w ri c).cache c').fill = (w.cache c').fill := by
  unfold takeCache
  dsimp only
  split
  · exact ⟨rfl, rfl, rfl⟩
  rw [World.cache_setCache]
  split_ifs with hcc
  · subst hcc
    exact ⟨rfl, rfl, rfl⟩
  · exact ⟨rfl, rfl, rfl⟩

theorem counts_takeCache (h : Owned w) (c' : CacheSlot) :
    ((takeCache w ri c).cache c').refcount = (refs (takeCache w ri c).reg c').card := by
  unfold takeCache
  dsimp only
  split
  · exact h.counts c'
  have hnot : ri ∉ refs w.reg c := by rwa [mem_refs]
  rw [World.cache_setCache]
  change _ = (refs (w.setReg ri _).reg c').card
  rw [refs_setReg]
  split_ifs with hcc hbit hbit
  · subst hcc
    rw [Finset.card_insert_of_notMem hnot, ← h.counts]
  · exact absurd (Region.ref_withRef.mpr (.inr hcc)) hbit
  · have hmem : ri ∈ refs w.reg c' := mem_refs.mpr ((Region.ref_withRef.mp hbit).resolve_right hcc)
    rw [Finset.insert_eq_of_mem hmem, ← h.counts]
    rfl
  · have hnot' : ri ∉ refs w.reg c' := fun hm =>
      hbit (Region.ref_withRef.mpr (.inl (mem_refs.mp hm)))
    rw [Finset.erase_eq_of_notMem hnot', ← h.counts]
    rfl

theorem Owned.takeCache (h : Owned w) (hused : (w.reg ri).used = true)
    (hvalid : (w.cache c).valid = true) : Owned (takeCache w ri c) := by
  have hreg := reg_takeCache w ri
  obtain ⟨hmaps, hpool, -⟩ := takeCache_frame w ri c
  refine ⟨fun m hm => ⟨fun c' hpage => ?_, fun j hpage => ?_⟩, fun c' => counts_takeCache h c',
    fun c' ri' hr => ?_, fun j ri' hr => ?_, fun j ri1 ri2 h1 h2 => ?_, fun ri' hun => ?_⟩
  · obtain ⟨h1, h2, h3⟩ := (h.covers m (hmaps ▸ hm)).cache c' hpage
    exact ⟨((hreg _ c).2.2 c').mpr (.inl h1), (cache_takeCache w ri c c').1.trans h2, h3⟩
  · rw [(hreg _ c).1]
    exact (h.covers m (hmaps ▸ hm)).priv j hpage
  · rw [(cache_takeCache w ri c c').2.1]
    rcases ((hreg ri' c).2.2 c').mp hr with hr | ⟨-, rfl⟩
    · exact h.valid c' ri' hr
    · exact hvalid
  · rw [(hreg ri' c).1] at hr
    rw [hpool]
    exact h.pool j ri' hr
  · rw [(hreg _ c).1] at h1 h2
    exact h.single j ri1 ri2 h1 h2
  · rw [(hreg ri' c).2.1] at hun
    refine ⟨fun c' => ?_, fun j => ?_⟩
    · refine Bool.eq_false_iff.mpr fun hr => ?_
      rcases ((hreg ri' c).2.2 c').mp hr with hr | ⟨rfl, -⟩
      · rw [(h.idle ri' hun).1 c'] at hr
        cases hr
      · rw [hused] at hun
        cases hun
    · rw [(hreg ri' c).1]
      exact (h.idle ri' hun).2 j

theorem Owned.takePriv (h : Owned w) (hused : (w.reg ri).used = true)
    (hfree : w.privUsed j = false) : Owned (takePriv w ri j) := by
  have hown : ∀ ri' j', ((Pager.takePriv w ri j).reg ri').privOwnmask j' = true ↔
      (w.reg ri').privOwnmask j' = true ∨ (ri' = ri ∧ j' = j) := by
    intro ri' j'
    change (((w.setPrivUsed j true).setReg ri _).reg ri').privOwnmask j' = true ↔ _
    rw [World.reg_setReg]
    split_ifs with hri
    · subst hri
      simp [Region.priv_withPriv]
    · simp only [hri, false_and, or_false]
      rfl
  have hrest : ∀ ri', ((Pager.takePriv w ri j).reg ri').cacheRefmask = (w.reg ri').cacheRefmask ∧
      ((Pager.takePriv w ri j).reg ri').used = (w.reg ri').used := by
    intro ri'
    change (((w.setPrivUsed j true).setReg ri _).reg ri').cacheRefmask = _ ∧
      (((w.setPrivUsed j true).setReg ri _).reg ri').used = _
    rw [World.reg_setReg]
    split_ifs with hri
    · subst hri
      exact ⟨rfl, rfl⟩
    · exact ⟨rfl, rfl⟩
  have hnobody : ∀ ri', (w.reg ri').privOwnmask j ≠ true := by
    intro ri' hr
    rw [h.pool j ri' hr] at hfree
    cases hfree
  refine ⟨fun m hm => ⟨fun c' hpage => ?_, fun j' hpage => ?_⟩, fun c' => ?_,
    fun c' ri' hr => ?_, fun j' ri' hr => ?_, fun j' ri1 ri2 h1 h2 => ?_, fun ri' hun => ?_⟩
  · rw [(hrest _).1]
    exact (h.covers m hm).cache c' hpage
  · exact (hown _ _).mpr (.inl ((h.covers m hm).priv j' hpage))
  · refine (h.counts c').trans (congrArg Finset.card ?_)
    ext ri'
    rw [mem_refs, mem_refs, (hrest ri').1]
  · rw [(hrest ri').1] at hr
    exact h.valid c' ri' hr
  · change update w.privUsed j true j' = true
    rw [update_apply]
    split_ifs with hj
    · rfl
    · exact h.pool j' ri' (((hown ri' j').mp hr).resolve_right fun hc => hj hc.2)
  · rcases (hown ri1 j').mp h1 with o1 | ⟨e1, hj1⟩
    · rcases (hown ri2 j').mp h2 with o2 | ⟨-, hj2⟩
      · exact h.single j' ri1 ri2 o1 o2
      · exact absurd (hj2 ▸ o1) (hnobody ri1)
    · rcases (hown ri2 j').mp h2 with o2 | ⟨e2, -⟩
      · exact absurd (hj1 ▸ o2) (hnobody ri2)
      · exact e1.trans e2.symm
  · rw [(hrest ri').2] at hun
    rw [(hrest ri').1]
    refine ⟨(h.idle ri' hun).1, fun j' => Bool.eq_false_iff.mpr fun hr => ?_⟩
    rcases (hown ri' j').mp hr with hr | ⟨rfl, -⟩
    · rw [(h.idle ri' hun).2 j'] at hr
      cases hr
    · rw [hused] at hun
      cases hun

theorem reg_regionRelease_self (w : World) (ri : RegionIdx) :
    (regionRelease w ri).reg ri = (w.reg ri).released := update_self ..

theorem cache_regionRelease (w : World) (ri : RegionIdx) (c : CacheSlot) :
    ((regionRelease w ri).cache c).key = (w.cache c).key ∧
      ((regionRelease w ri).cache c).valid = (w.cache c).valid ∧
      ((regionRelease w ri).cache c).fill = (w.cache c).fill := by
  unfold regionRelease
  dsimp only
  split <;> exact ⟨rfl, rfl, rfl⟩

theorem Owned.release (h : Owned w) (hfree : ∀ m ∈ w.maps, m.region ≠ ri) :
    Owned (regionRelease w ri) := by
  have hother : ∀ ri', ri' ≠ ri → (regionRelease w ri).reg ri' = w.reg ri' := fun ri' hne =>
    update_of_ne hne ..
  have hself := reg_regionRelease_self w ri
  have hkey := cache_regionRelease w ri
  refine ⟨fun m hm => ⟨fun c' hpage => ?_, fun j' hpage => ?_⟩, fun c' => ?_,
    fun c' ri' hr => ?_, fun j' ri' hr => ?_, fun j' ri1 ri2 h1 h2 => ?_, fun ri' hun => ?_⟩
  · rw [hother _ (hfree m hm), (hkey c').1]
    exact (h.covers m hm).cache c' hpage
  · rw [hother _ (hfree m hm)]
    exact (h.covers m hm).priv j' hpage
  · have hrefs : refs (regionRelease w ri).reg c' = (refs w.reg c').erase ri := by
      change refs (w.setReg ri (w.reg ri).released).reg c' = _
      rw [refs_setReg]
      exact if_neg (by simp [Region.released])
    rw [hrefs]
    unfold regionRelease
    dsimp only
    split
    · rename_i hbit
      rw [Finset.card_erase_of_mem (mem_refs.mpr hbit), ← h.counts]
    · rename_i hbit
      rw [Finset.erase_eq_of_notMem (by rwa [mem_refs]), ← h.counts]
  · rw [(hkey c').2.1]
    by_cases hri : ri' = ri
    · subst hri
      rw [hself] at hr
      cases hr
    · rw [hother ri' hri] at hr
      exact h.valid c' ri' hr
  · by_cases hri : ri' = ri
    · subst hri
      rw [hself] at hr
      cases hr
    · rw [hother ri' hri] at hr
      change (if (w.reg ri).privOwnmask j' = true then false else w.privUsed j') = true
      rw [if_neg fun hown => hri (h.single j' ri' ri hr hown)]
      exact h.pool j' ri' hr
  · by_cases hr1 : ri1 = ri
    · subst hr1
      rw [hself] at h1
      cases h1
    by_cases hr2 : ri2 = ri
    · subst hr2
      rw [hself] at h2
      cases h2
    rw [hother _ hr1] at h1
    rw [hother _ hr2] at h2
    exact h.single j' ri1 ri2 h1 h2
  · by_cases hri : ri' = ri
    · subst hri
      rw [hself]
      exact ⟨fun _ => rfl, fun _ => rfl⟩
    · rw [hother ri' hri] at hun ⊢
      exact h.idle ri' hun

theorem Owned.setReg (h : Owned w) (hfree : ∀ m ∈ w.maps, m.region ≠ ri)
    (hold : (∀ c, (w.reg ri).cacheRefmask c = false) ∧ ∀ j, (w.reg ri).privOwnmask j = false)
    (hnew : (∀ c, v.cacheRefmask c = false) ∧ ∀ j, v.privOwnmask j = false) :
    Owned (w.setReg ri v) := by
  have hmask : ∀ ri', ((w.setReg ri v).reg ri').cacheRefmask = (w.reg ri').cacheRefmask ∧
      ((w.setReg ri v).reg ri').privOwnmask = (w.reg ri').privOwnmask := by
    intro ri'
    rw [World.reg_setReg]
    split_ifs with hri
    · subst hri
      exact ⟨funext fun c => (hnew.1 c).trans (hold.1 c).symm,
        funext fun j => (hnew.2 j).trans (hold.2 j).symm⟩
    · exact ⟨rfl, rfl⟩
  refine ⟨fun m hm => ⟨fun c' hpage => ?_, fun j' hpage => ?_⟩, fun c' => ?_,
    fun c' ri' hr => ?_, fun j' ri' hr => ?_, fun j' ri1 ri2 h1 h2 => ?_, fun ri' hun => ?_⟩
  · rw [(hmask _).1]
    exact (h.covers m hm).cache c' hpage
  · rw [(hmask _).2]
    exact (h.covers m hm).priv j' hpage
  · refine (h.counts c').trans (congrArg Finset.card ?_)
    ext ri'
    rw [mem_refs, mem_refs, (hmask ri').1]
  · rw [(hmask ri').1] at hr
    exact h.valid c' ri' hr
  · rw [(hmask ri').2] at hr
    exact h.pool j' ri' hr
  · rw [(hmask _).2] at h1 h2
    exact h.single j' ri1 ri2 h1 h2
  · rw [(hmask ri').1, (hmask ri').2]
    by_cases hri : ri' = ri
    · subst hri
      exact hold
    · rw [World.reg_setReg, if_neg hri] at hun
      exact h.idle ri' hun

theorem Owned.no_maps (h : Owned w) (hun : (w.reg ri).used = false) :
    ∀ m ∈ w.maps, m.region ≠ ri := by
  rintro m hm rfl
  obtain ⟨hc, hp⟩ := h.idle m.region hun
  cases hpage : m.page with
  | cache c =>
    have := ((h.covers m hm).cache c hpage).1
    rw [hc] at this
    cases this
  | priv j =>
    have := (h.covers m hm).priv j hpage
    rw [hp] at this
    cases this

end

/-! ## What an operation may do to the pages that are mapped -/

/-- Two mappings of one read-only cache page, for the same page of the same file. -/
structure Shares (m m' : Mapping) : Prop where
  cache : ∃ c, m.page = .cache c
  readOnly : m.writable = false ∧ m'.writable = false
  same : m.filePage = m'.filePage

/-- The books agree, mappings and what they show are kept, and a mapped page is mapped anew only as
a shared cache page. -/
structure Safe (w w' : World) : Prop where
  owned : Owned w'
  grows : ∀ m ∈ w.maps, m ∈ w'.maps
  frames : ∀ m ∈ w.maps, w'.frames m.page = w.frames m.page
  news : ∀ m' ∈ w'.maps, m' ∈ w.maps ∨ ∀ m ∈ w.maps, m.page = m'.page → Shares m m'

section
variable {w w' w'' : World} {I : Instance} {env : Env}

theorem Safe.trans (h : Safe w w') (h' : Safe w' w'') : Safe w w'' := by
  refine ⟨h'.owned, fun m hm => h'.grows m (h.grows m hm),
    fun m hm => (h'.frames m (h.grows m hm)).trans (h.frames m hm), fun m' hm' => ?_⟩
  rcases h'.news m' hm' with hold | hnew
  · exact h.news m' hold
  · exact .inr fun m hm => hnew m (h.grows m hm)

theorem Safe.of_maps (ho : Owned w') (hmaps : w'.maps = w.maps)
    (hframes : ∀ m ∈ w.maps, w'.frames m.page = w.frames m.page) : Safe w w' :=
  ⟨ho, fun _ hm => hmaps ▸ hm, hframes, fun _ hm => .inl (hmaps ▸ hm)⟩

theorem Safe.refl (h : Owned w) : Safe w w := .of_maps h rfl fun _ _ => rfl

theorem safe_held (h : Owned w) (held : Target → Option FaultRec) :
    Safe w { w with held := held } := .of_maps (h.congr rfl rfl rfl rfl) rfl fun _ _ => rfl

/-- Nothing but frames and held faults has changed. -/
structure SameBooks (w w' : World) : Prop where
  back : w'.back = w.back
  reg : w'.reg = w.reg
  cache : w'.cache = w.cache
  pool : w'.privUsed = w.privUsed
  maps : w'.maps = w.maps

theorem SameBooks.owned (hs : SameBooks w w') (h : Owned w) : Owned w' :=
  h.congr hs.reg hs.cache hs.pool hs.maps

theorem sameBooks_pageFrame (w : World) (pg : Page) (env : Env) :
    SameBooks w (pageFrame w pg env).1 := by
  unfold pageFrame
  split
  · exact ⟨rfl, rfl, rfl, rfl, rfl⟩
  · split <;> exact ⟨rfl, rfl, rfl, rfl, rfl⟩

theorem frames_pageFrame (w : World) (pg : Page) (env : Env) :
    (pageFrame w pg env).1.frames = w.frames := by
  unfold pageFrame
  split
  · rfl
  · split <;> rfl

theorem safe_pageFrame (h : Owned w) (pg : Page) (env : Env) : Safe w (pageFrame w pg env).1 :=
  .of_maps ((sameBooks_pageFrame w pg env).owned h) (sameBooks_pageFrame w pg env).maps
    fun _ _ => by rw [frames_pageFrame]

theorem fillPage_frame (I : Instance) (w : World) (pg : Page) (bk : Backing) (off : UInt64) (fb : ℕ)
    (env : Env) : SameBooks w (fillPage I w pg bk off fb env).1 ∧
      ∀ pg', pg' ≠ pg → (fillPage I w pg bk off fb env).1.frames pg' = w.frames pg' := by
  obtain ⟨h1, h2, h3, h4, h5⟩ := sameBooks_pageFrame w pg env
  have hf := frames_pageFrame w pg env
  have hset : ∀ v, SameBooks w ((pageFrame w pg env).1.setFrame pg v) ∧
      ∀ pg', pg' ≠ pg → ((pageFrame w pg env).1.setFrame pg v).frames pg' = w.frames pg' := fun v =>
    ⟨⟨h1, h2, h3, h4, h5⟩, fun pg' hne => (update_of_ne hne _ _).trans (congrFun hf pg')⟩
  unfold fillPage
  dsimp only
  split
  · exact ⟨⟨h1, h2, h3, h4, h5⟩, fun pg' _ => congrFun hf pg'⟩
  split
  · exact ⟨⟨h1, h2, h3, h4, h5⟩, fun pg' _ => congrFun hf pg'⟩
  split
  · exact hset _
  split
  · exact hset _
  split <;> exact hset _

theorem safe_fillPage (I : Instance) (env : Env) (h : Owned w) {pg : Page}
    (hfree : ∀ m ∈ w.maps, m.page ≠ pg) (bk : Backing) (off : UInt64) (fb : ℕ) :
    Safe w (fillPage I w pg bk off fb env).1 := by
  obtain ⟨hbooks, hframes⟩ := fillPage_frame I w pg bk off fb env
  exact .of_maps (hbooks.owned h) hbooks.maps fun m hm => hframes _ (hfree m hm)

theorem cacheAlloc_spec (h : Owned w) {c : CacheSlot} (hc : cacheAlloc w = (w', some c)) :
    Safe w w' ∧ (∀ ri, (w'.reg ri).cacheRefmask c = false) ∧ w'.reg = w.reg ∧ w'.maps = w.maps := by
  unfold cacheAlloc at hc
  split at hc
  · rename_i c' hfind
    have hinvalid : (w.cache c').valid = false := by simpa using find?_some hfind
    cases hc
    refine ⟨.refl h, fun ri => Bool.eq_false_iff.mpr fun hr => ?_, rfl, rfl⟩
    rw [h.valid _ ri hr] at hinvalid
    cases hinvalid
  split at hc
  · rename_i c' hfind
    have hzero : (w.cache c').refcount = 0 := by simpa using find?_some hfind
    have hfree := h.unreferenced hzero
    cases hc
    exact ⟨.of_maps (h.setCache hfree hzero) rfl fun _ _ => rfl, hfree, rfl, rfl⟩
  · cases hc

theorem safe_cacheAlloc_none (h : Owned w) (hc : cacheAlloc w = (w', none)) : Safe w w' := by
  unfold cacheAlloc at hc
  split at hc
  · cases hc
  split at hc
  · cases hc
  · cases hc
    exact .refl h

/-- A page is mapped that nobody has, or only as the same shared one, and the fault is answered. -/
theorem Safe.answered (h : Safe w w') {m : Mapping} {t : Target} (ho : Owned w'')
    (hmaps : w''.maps = w'.maps) (hframes : w''.frames = w'.frames) (hm : Covers w'' m)
    (hnew : ∀ m' ∈ w'.maps, m'.page = m.page → Shares m' m) :
    Safe w (faultAnswer (w''.addMap m) t env).1 := by
  have hadd : Safe w' (w''.addMap m) := by
    refine ⟨ho.addMap hm, fun m' hm' => mem_cons_of_mem _ (hmaps.symm ▸ hm'),
      fun m' _ => congrFun hframes m'.page, fun m' hm' => ?_⟩
    rcases mem_cons.mp hm' with rfl | hold
    · exact .inr hnew
    · exact .inl (hmaps ▸ hold)
  obtain ⟨held, hheld⟩ := faultAnswer_fst (w''.addMap m) t env
  rw [hheld]
  exact (h.trans hadd).trans (safe_held hadd.owned held)

variable {bk : Backing} {ri : RegionIdx}

section

variable (h : Owned w) (hused : (w.reg p.region).used = true)
include h hused

theorem safe_mapCache {c : CacheSlot} (hvalid : (w.cache c).valid = true)
    (hkey : (w.cache c).key = (bk.backingId, bk.generation, p.fileOff)) :
    Safe w (mapCache w p bk c env).1 := by
  have hbooks := sameBooks_pageFrame w (.cache c) env
  have hframe := safe_pageFrame h (.cache c) env
  unfold mapCache
  dsimp only
  split
  · exact hframe
  split
  · exact hframe
  generalize (pageFrame w (.cache c) env).1 = w1 at hbooks hframe
  have hused1 : (w1.reg p.region).used = true := by rwa [hbooks.reg]
  have hvalid1 : (w1.cache c).valid = true := by rwa [hbooks.cache]
  have hkey1 : (w1.cache c).key = (bk.backingId, bk.generation, p.fileOff) := by rwa [hbooks.cache]
  have htake := hframe.owned.takeCache hused1 hvalid1
  obtain ⟨hmaps, -, hframes⟩ := takeCache_frame w1 p.region c
  refine hframe.answered htake hmaps hframes ⟨fun c' hc' => ?_, nofun⟩ fun m hm hpage => ?_
  · cases hc'
    exact ⟨((reg_takeCache w1 p.region p.region c).2.2 c).mpr (.inr ⟨rfl, rfl⟩),
      (cache_takeCache w1 p.region c c).1.trans hkey1, rfl⟩
  · obtain ⟨-, hk, hw⟩ := (hframe.owned.covers m hm).cache c hpage
    exact ⟨⟨c, hpage⟩, ⟨hw, rfl⟩, hk.symm.trans hkey1⟩

theorem safe_resolveShared : Safe w (resolveShared I w p bk env).1 := by
  unfold resolveShared
  split
  · rename_i c hfind
    have hhit := find?_some hfind
    simp only [Bool.and_eq_true, decide_eq_true_eq] at hhit
    exact safe_mapCache h hused hhit.1 hhit.2
  split
  · rename_i halloc
    exact safe_cacheAlloc_none h halloc
  rename_i w1 c halloc
  obtain ⟨hsafe, hfree, hreg, hmaps⟩ := cacheAlloc_spec h halloc
  have hfill := safe_fillPage I env hsafe.owned (hsafe.owned.unmapped_cache hfree) bk p.fileOff
    p.bytes
  obtain ⟨hbooks, -⟩ := fillPage_frame I w1 (.cache c) bk p.fileOff p.bytes env
  split
  · rename_i hres
    rw [hres] at hfill
    exact hsafe.trans hfill
  rename_i w2 hres
  rw [hres] at hfill hbooks
  have hfree2 : ∀ ri, (w2.reg ri).cacheRefmask c = false := by
    intro ri
    rw [hbooks.reg]
    exact hfree ri
  have hset : Safe w2 (w2.setCache c ⟨true, bk.backingId, bk.generation, p.fileOff, 0, p.bytes⟩) :=
    .of_maps (hfill.owned.setCache hfree2 rfl) rfl fun _ _ => rfl
  refine ((hsafe.trans hfill).trans hset).trans (safe_mapCache hset.owned ?_ ?_ ?_)
  · change (w2.reg p.region).used = true
    rwa [hbooks.reg, hreg]
  · rw [World.cache_setCache, if_pos rfl]
  · rw [World.cache_setCache, if_pos rfl]
    rfl

theorem safe_resolvePrivate : Safe w (resolvePrivate I w p bk env).1 := by
  unfold resolvePrivate
  split
  · exact .refl h
  rename_i j hfind
  have hfree : w.privUsed j = false := by simpa using find?_some hfind
  have hunmapped := h.unmapped_priv hfree
  have hfill := safe_fillPage I env h hunmapped bk p.fileOff p.bytes
  obtain ⟨hbooks, -⟩ := fillPage_frame I w (.priv j) bk p.fileOff p.bytes env
  split
  · rename_i hres
    rw [hres] at hfill
    exact hfill
  rename_i w1 hres
  rw [hres] at hfill hbooks
  have hfree1 : ∀ m ∈ w1.maps, m.page ≠ .priv j := by rwa [hbooks.maps]
  -- Nobody has the page, so nothing is written to it between the fill and the map.
  have hhidden : w1.exposed (.priv j) = false := by
    simp only [World.exposed, any_eq_false, Bool.and_eq_true, decide_eq_true_eq, not_and]
    exact fun m hm hpage => absurd hpage (hfree1 m hm)
  have hsame : scribbled w1 (.priv j) env = w1 := if_neg (by simp [hhidden])
  rw [hsame]
  dsimp only
  have hbooks2 := sameBooks_pageFrame w1 (.priv j) env
  have hframe := safe_pageFrame hfill.owned (.priv j) env
  split
  · exact hfill.trans hframe
  split
  · exact hfill.trans hframe
  generalize (pageFrame w1 (.priv j) env).1 = w2 at hbooks2 hframe
  have hused2 : (w2.reg p.region).used = true := by rwa [hbooks2.reg, hbooks.reg]
  have hpool2 : w2.privUsed j = false := by rwa [hbooks2.pool, hbooks.pool]
  refine (hfill.trans hframe).answered (hframe.owned.takePriv hused2 hpool2) rfl rfl
    ⟨nofun, fun j' hj' => ?_⟩ fun m hm hpage => absurd hpage (hfree1 m (hbooks2.maps ▸ hm))
  cases hj'
  change (((w2.setPrivUsed j true).setReg p.region _).reg p.region).privOwnmask j = true
  rw [World.reg_setReg, if_pos rfl]
  exact Region.priv_withPriv.mpr (.inr rfl)

end

theorem safe_release (h : Owned w) (hfree : ∀ m ∈ w.maps, m.region ≠ ri)
    (hv : (∀ c, v.cacheRefmask c = false) ∧ ∀ j, v.privOwnmask j = false) :
    Safe w ((regionRelease w ri).setReg ri v) := by
  refine .of_maps ((h.release hfree).setReg hfree ?_ hv) rfl fun _ _ => rfl
  rw [reg_regionRelease_self]
  exact ⟨fun _ => rfl, fun _ => rfl⟩

theorem safe_dropRegion (h : Owned w) (hfree : ∀ m ∈ w.maps, m.region ≠ ri) :
    Safe w (dropRegion w ri) := by
  refine safe_release h hfree ?_
  dsimp only
  rw [reg_regionRelease_self]
  exact ⟨fun _ => rfl, fun _ => rfl⟩

theorem safe_drops (h : Owned w) {ris : List RegionIdx}
    (hfree : ∀ ri ∈ ris, ∀ m ∈ w.maps, m.region ≠ ri) : Safe w (ris.foldl dropRegion w) := by
  induction ris generalizing w with
  | nil => exact .refl h
  | cons ri ris ih =>
    have hsafe := safe_dropRegion h (hfree ri mem_cons_self)
    exact hsafe.trans (ih hsafe.owned fun ri' hri' => hfree ri' (mem_cons_of_mem _ hri'))

theorem safe_region (h : Owned w) (hfree : (w.reg ri).used = true → ∀ m ∈ w.maps, m.region ≠ ri)
    (hv : (∀ c, v.cacheRefmask c = false) ∧ ∀ j, v.privOwnmask j = false) :
    Safe w ((if (w.reg ri).used then regionRelease w ri else w).setReg ri v) := by
  by_cases hused : (w.reg ri).used = true
  · rw [if_pos hused]
    exact safe_release h (hfree hused) hv
  · rw [if_neg hused]
    have hun : (w.reg ri).used = false := by simpa using hused
    exact .of_maps (h.setReg (h.no_maps hun) (h.idle _ hun) hv) rfl fun _ _ => rfl

theorem safe_revoke (h : Owned w) (b : BackingIdx) (v : Backing) {stale : CacheSlot → Bool}
    (hidle : ∀ c, stale c = true → (w.cache c).refcount = 0) :
    Safe w { w.setBack b v with
      cache := fun c => if stale c then { w.cache c with valid := false } else w.cache c } := by
  refine .of_maps ⟨fun m hm => ⟨fun c hpage => ?_, (h.covers m hm).priv⟩, fun c => ?_,
    fun c ri hr => ?_, h.pool, h.single, h.idle⟩ rfl fun _ _ => rfl
  · obtain ⟨h1, h2, h3⟩ := (h.covers m hm).cache c hpage
    refine ⟨h1, ?_, h3⟩
    dsimp only
    split <;> exact h2
  · dsimp only
    split <;> exact h.counts c
  have hfresh : stale c ≠ true := fun hs =>
    Bool.noConfusion ((h.unreferenced (hidle c hs) ri).symm.trans hr)
  dsimp only
  rw [if_neg hfresh]
  exact h.valid c ri hr

end

/-! ## Runs -/

/-- A step releases no region that a page is still mapped for. -/
def Unseen (w : World) (e : Event) : Prop :=
  ∀ ri, releases w ri e = true → ∀ m ∈ w.maps, m.region ≠ ri

instance (w : World) (e : Event) : Decidable (Unseen w e) := by
  unfold Unseen
  infer_instance

theorem safe_act {w : World} (h : Owned w) (hun : Unseen w e)
    (hwrite : ∀ pg v, e ≠ .write pg v) (hunmap : ∀ t va, e ≠ .unmap t va) : Safe w (act I w e) := by
  have hmoves := act_moves I w e
  generalize act I w e = w' at hmoves ⊢
  cases hmoves with
  | held held => exact safe_held h held
  | shared held place mode =>
    exact (safe_held h held).trans
      (safe_resolveShared (safe_held h held).owned (faultPlace_spec place).1)
  | fresh held place mode =>
    exact (safe_held h held).trans
      (safe_resolvePrivate (safe_held h held).owned (faultPlace_spec place).1)
  | back b v => exact .of_maps (h.congr rfl rfl rfl rfl) rfl fun _ _ => rfl
  | region ok idx clean bounded =>
    exact safe_region h (fun hused => hun _ (by simp [releases, ok, idx, hused])) clean
  | drops released => exact safe_drops h fun ri hri => hun ri (released ri hri)
  | revoke b v stale idle => exact safe_revoke h b v idle
  | write exposed => exact absurd rfl (hwrite _ _)
  | unmap p => exact absurd rfl (hunmap _ _)

theorem owned_act {w : World} (h : Owned w) (hun : Unseen w e) : Owned (act I w e) := by
  by_cases hwrite : ∃ pg v, e = .write pg v
  · obtain ⟨pg, v, rfl⟩ := hwrite
    change Owned (if w.exposed pg = true then w.setFrame pg v else w)
    split
    · exact h.congr rfl rfl rfl rfl
    · exact h
  by_cases hunmap : ∃ t va, e = .unmap t va
  · obtain ⟨t, va, rfl⟩ := hunmap
    exact h.unmap _
  exact (safe_act h hun (fun pg v he => hwrite ⟨pg, v, he⟩) fun t va he => hunmap ⟨t, va, he⟩).owned

theorem owned_start : Owned {} where
  covers := nofun
  counts _ := by simp [refs]
  valid := nofun
  pool := nofun
  single := nofun
  idle _ _ := ⟨fun _ => rfl, fun _ => rfl⟩

/-- If no region is released while its pages are mapped, no mapped page is written to, and none is
mapped anew but as a read-only cache page of the same file page. -/
theorem seen_pages_are_not_recycled (I : Instance) (es : List Event) (e : Event)
    (hes : Meets (act I) Unseen {} (es ++ [e])) :
    let w := runFrom (act I) {} es
    (∀ m ∈ w.maps, (∀ pg v, e ≠ .write pg v) → (act I w e).frames m.page = w.frames m.page) ∧
      ∀ m' ∈ (act I w e).maps, m' ∉ w.maps → ∀ m ∈ w.maps, m.page = m'.page → Shares m m' := by
  intro w
  obtain ⟨hrun, hlast⟩ := meets_append.mp hes
  have howned : Owned w := hrun.keeps owned_start fun _ _ h hun => owned_act h hun
  have hun : Unseen w e := hlast.1
  by_cases hunmap : ∃ t va, e = .unmap t va
  · obtain ⟨t, va, rfl⟩ := hunmap
    refine ⟨fun _ _ _ => rfl, fun m' hm' hnew => absurd (mem_filter.mp hm').1 hnew⟩
  by_cases hwrite : ∃ pg v, e = .write pg v
  · obtain ⟨pg, v, rfl⟩ := hwrite
    refine ⟨fun _ _ hno => absurd rfl (hno pg v), fun m' hm' hnew => ?_⟩
    have hmaps : (act I w (.write pg v)).maps = w.maps := by
      change (if w.exposed pg = true then w.setFrame pg v else w).maps = w.maps
      split <;> rfl
    exact absurd (hmaps ▸ hm') hnew
  have hsafe := safe_act (I := I) howned hun (fun pg v he => hwrite ⟨pg, v, he⟩)
    fun t va he => hunmap ⟨t, va, he⟩
  exact ⟨fun m hm _ => hsafe.frames m hm, fun m' hm' hnew => (hsafe.news m' hm').resolve_left hnew⟩

/-- A pager with session 0 of a VFS that exports "a". -/
def pagerOfA : Instance := ⟨oneExport, noMem, 0, 0⟩

/-- The pager registers "a", opened with all rights, as its backing 0. -/
def backA : Event :=
  .registerBacking ⟨0, 0, 0xB1000000, 1, 3⟩ { calls := fun _ => some [openA 15] }

def regionOfA (ridx tidx : ℕ) (prot mode : UInt32) (fileLen : UInt64) : Event :=
  .registerRegion ⟨ridx, tidx, 0, prot, mode, 0x8000000000, 4096, 0, fileLen, 1⟩

def faultOf (t : Target) : Event :=
  .mapRegion t { arrivals := [(t.val.toUInt64 + 1, { cr2 := 0x8000000000 })]
                 calls := fun _ => some [openA 15] }

/-- Two targets share the cache page of "a"; each region is given back after its unmap. -/
theorem shared_page_of_a_is_kept :
    let es := [backA, regionOfA 0 0 1 0 3, faultOf 0, regionOfA 1 1 1 0 3, faultOf 1,
      .unmap 0 0x8000000000, .unregisterRegion 0]
    let w := runFrom (act pagerOfA) {} es
    Meets (act pagerOfA) Unseen {} (es ++ [regionOfA 0 0 1 0 3]) ∧ w.maps.length = 1 ∧
      ∀ m ∈ w.maps, (act pagerOfA w (regionOfA 0 0 1 0 3)).frames m.page = w.frames m.page :=
  ⟨by decide +kernel, by decide +kernel, fun m hm =>
    (seen_pages_are_not_recycled pagerOfA [backA, regionOfA 0 0 1 0 3, faultOf 0,
      regionOfA 1 1 1 0 3, faultOf 1, .unmap 0 0x8000000000, .unregisterRegion 0]
      (regionOfA 0 0 1 0 3) (by decide +kernel)).1 m hm nofun⟩

/-- In such runs the count of a cache page is that of the regions that use it, a private page is
that of one region, and every mapping is in the books of its region. -/
theorem page_books_balance (I : Instance) (es : List Event) (hes : Meets (act I) Unseen {} es) :
    let w := runFrom (act I) {} es
    (∀ c, (w.cache c).refcount = (refs w.reg c).card) ∧
      (∀ c ri, (w.reg ri).cacheRefmask c = true → (w.cache c).valid = true) ∧
      (∀ j ri ri', (w.reg ri).privOwnmask j = true → (w.reg ri').privOwnmask j = true → ri = ri') ∧
      (∀ ri, (w.reg ri).used = false → ∀ m ∈ w.maps, m.region ≠ ri) ∧
      ∀ m ∈ w.maps, Covers w m := by
  intro w
  have howned : Owned w := hes.keeps owned_start fun _ _ h hun => owned_act h hun
  exact ⟨howned.counts, howned.valid, howned.single, fun _ => howned.no_maps, howned.covers⟩

theorem page_books_of_a :
    let w := runFrom (act pagerOfA) {} [backA, regionOfA 0 0 1 0 3, faultOf 0]
    (w.cache 0).refcount = (refs w.reg 0).card :=
  (page_books_balance pagerOfA _ (by decide +kernel)).1 0

/-- The page of an unregistered private region goes to another target while it is mapped, and both
can write to it. -/
theorem private_page_is_recycled_while_mapped :
    let w := runFrom (act pagerOfA) {} [backA, regionOfA 0 0 3 1 3, faultOf 0, .unregisterRegion 0,
      regionOfA 1 1 3 1 1]
    let w' := act pagerOfA w (faultOf 1)
    (w.maps.map fun m => (m.target, m.page, m.writable)) = [(0, .priv 0, true)] ∧
      (w'.maps.map fun m => (m.target, m.page, m.writable)) =
        [(1, .priv 0, true), (0, .priv 0, true)] ∧
      w.frames (.priv 0) 2 = 3 ∧ w'.frames (.priv 0) 2 = 0 := by
  decide +kernel

end IrisOS.Pager
