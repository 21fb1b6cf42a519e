import IrisOS.Pager.Isolation
import IrisOS.Pager.Reading

/-! The pager serves the right bytes: a valid cache entry holds those of its file page, and a mapped
page holds what its region says, unless what is under it belongs to somebody else. -/
namespace IrisOS.Pager
open Lib Vfs Function

/-! ## What the cache holds -/

/-- Valid entries hold their bytes, cache pages are read-only, and regions end within file offsets.
-/
structure Truthful (I : Instance) (w : World) : Prop where
  entries : ∀ c, (w.cache c).valid = true → w.frames (.cache c) =
    pageBytes I (w.cache c).backingId (w.cache c).pageOff.toNat (w.cache c).fill
  readOnly : ∀ m ∈ w.maps, ∀ c, m.page = .cache c → m.writable = false
  bounded : ∀ ri, (w.reg ri).used = true →
    (w.reg ri).fileOff.toNat + (w.reg ri).fileLen.toNat < 2 ^ 64

/-- A step that fills no cache page: the valid entries were valid, and what is new is in order. -/
structure Keeps (w w' : World) : Prop where
  entries : ∀ c, (w'.cache c).valid = true → (w.cache c).valid = true ∧
    (w'.cache c).backingId = (w.cache c).backingId ∧ (w'.cache c).pageOff = (w.cache c).pageOff ∧
      (w'.cache c).fill = (w.cache c).fill
  frames : ∀ c, w'.frames (.cache c) = w.frames (.cache c)
  maps : ∀ m ∈ w'.maps, m ∈ w.maps ∨ ∀ c, m.page = .cache c → m.writable = false
  regs : ∀ ri, (w'.reg ri).used = true →
    (w'.reg ri).fileOff.toNat + (w'.reg ri).fileLen.toNat < 2 ^ 64 ∨
      (w.reg ri).used = true ∧ (w'.reg ri).fileOff = (w.reg ri).fileOff ∧
        (w'.reg ri).fileLen = (w.reg ri).fileLen

section
variable {I : Instance} {w w' : World} {env : Env} {m : Mapping}

theorem Truthful.keeps (h : Truthful I w) (hk : Keeps w w') : Truthful I w' where
  entries c hc := by
    obtain ⟨hvalid, hid, hoff, hfill⟩ := hk.entries c hc
    rw [hk.frames, hid, hoff, hfill]
    exact h.entries c hvalid
  readOnly m hm c hpage := (hk.maps m hm).elim (fun hold => h.readOnly m hold c hpage)
    fun hnew => hnew c hpage
  bounded ri hused := by
    obtain hnew | ⟨hold, hoff, hlen⟩ := hk.regs ri hused
    · exact hnew
    · rw [hoff, hlen]
      exact h.bounded ri hold

theorem Keeps.of_eq (hcache : w'.cache = w.cache) (hreg : w'.reg = w.reg) (hmaps : w'.maps = w.maps)
    (hframes : ∀ c, w'.frames (.cache c) = w.frames (.cache c)) : Keeps w w' where
  entries c hc := by
    rw [hcache] at hc ⊢
    exact ⟨hc, rfl, rfl, rfl⟩
  frames := hframes
  maps m hm := .inl (hmaps ▸ hm)
  regs ri hused := by
    rw [hreg] at hused ⊢
    exact .inr ⟨hused, rfl, rfl⟩

theorem Keeps.refl (w : World) : Keeps w w := .of_eq rfl rfl rfl fun _ => rfl

/-- Only the page references of entries and the masks of a region have changed. -/
theorem keeps_masks {ri : RegionIdx} {v : Region} (hframes : w'.frames = w.frames)
    (hmaps : w'.maps = w.maps) (hcache : ∀ c, (w'.cache c).key = (w.cache c).key ∧
      (w'.cache c).valid = (w.cache c).valid ∧ (w'.cache c).fill = (w.cache c).fill)
    (hreg : w'.reg = update w.reg ri v) (hv : v.used = (w.reg ri).used ∧
      v.fileOff = (w.reg ri).fileOff ∧ v.fileLen = (w.reg ri).fileLen) : Keeps w w' where
  entries c hc := by
    obtain ⟨hkey, hvalid, hfill⟩ := hcache c
    exact ⟨hvalid ▸ hc, congrArg Prod.fst hkey, congrArg (·.2.2) hkey, hfill⟩
  frames c := congrFun hframes _
  maps m hm := .inl (hmaps ▸ hm)
  regs ri' hused := by
    rw [hreg] at hused ⊢
    by_cases hri : ri' = ri
    · subst hri
      rw [update_self] at hused ⊢
      exact .inr ⟨hv.1 ▸ hused, hv.2⟩
    · rw [update_of_ne hri] at hused ⊢
      exact .inr ⟨hused, rfl, rfl⟩

theorem keeps_regionRelease (w : World) (ri : RegionIdx) : Keeps w (regionRelease w ri) :=
  keeps_masks rfl rfl (cache_regionRelease w ri) rfl ⟨rfl, rfl, rfl⟩

theorem keeps_setReg (w : World) (ri : RegionIdx) {v : Region}
    (hv : v.used = true → v.fileOff.toNat + v.fileLen.toNat < 2 ^ 64) : Keeps w (w.setReg ri v) where
  entries c hc := ⟨hc, rfl, rfl, rfl⟩
  frames _ := rfl
  maps m hm := .inl hm
  regs ri' hused := by
    rw [World.reg_setReg] at hused ⊢
    split at hused
    · rename_i hri
      rw [if_pos hri]
      exact .inl (hv hused)
    · rename_i hri
      rw [if_neg hri]
      exact .inr ⟨hused, rfl, rfl⟩

theorem Truthful.dropRegion (h : Truthful I w) (ri : RegionIdx) :
    Truthful I (Pager.dropRegion w ri) :=
  (h.keeps (keeps_regionRelease w ri)).keeps (keeps_setReg _ ri nofun)

theorem keeps_held (w : World) (held : Target → Option FaultRec) :
    Keeps w { w with held := held } := .of_eq rfl rfl rfl fun _ => rfl

theorem keeps_pageFrame (w : World) (pg : Page) (env : Env) : Keeps w (pageFrame w pg env).1 := by
  have hs := sameBooks_pageFrame w pg env
  exact .of_eq hs.cache hs.reg hs.maps fun c => by rw [frames_pageFrame]

theorem keeps_takeCache (w : World) (ri : RegionIdx) (c : CacheSlot) :
    Keeps w (takeCache w ri c) := by
  have hcache := cache_takeCache w ri c
  unfold takeCache at hcache ⊢
  dsimp only at hcache ⊢
  split
  · exact .refl w
  · rename_i hmask
    rw [if_neg hmask] at hcache
    exact keeps_masks rfl rfl hcache rfl ⟨rfl, rfl, rfl⟩

theorem keeps_takePriv (w : World) (ri : RegionIdx) (j : PrivSlot) : Keeps w (takePriv w ri j) :=
  keeps_masks rfl rfl (fun _ => ⟨rfl, rfl, rfl⟩) rfl ⟨rfl, rfl, rfl⟩

theorem keeps_addMap (w : World) (hm : ∀ c, m.page = .cache c → m.writable = false) :
    Keeps w (w.addMap m) := by
  refine ⟨fun c hc => ⟨hc, rfl, rfl, rfl⟩, fun _ => rfl, fun m' hm' => ?_,
    fun ri hused => .inr ⟨hused, rfl, rfl⟩⟩
  obtain rfl | hold := List.mem_cons.mp hm'
  · exact .inr hm
  · exact .inl hold

end

/-! ## Serving a fault -/

/-- The cache is still truthful, and the page mapped, if any, holds so many bytes of the file. -/
structure Filled (I : Instance) (w w' : World) (p : Place) (bk : Backing) : Prop where
  truthful : Truthful I w'
  news : ∀ m, w'.maps = m :: w.maps → m.target = p.target ∧ m.va = p.va ∧ m.region = p.region ∧
    w'.frames m.page = pageBytes I bk.backingId p.fileOff.toNat p.bytes

/-- The private page that the next private fault takes. -/
def freePriv (w : World) : Option PrivSlot := (List.finRange pgrPrivCap).find? fun j => !w.privUsed j

section
variable {I : Instance} {w w' : World} {p : Place} {bk : Backing} {env : Env} {off : UInt64}
  {pg : Page}

theorem Filled.unmapped (h : Truthful I w') (hmaps : w'.maps = w.maps) : Filled I w w' p bk :=
  ⟨h, fun _ hm => absurd (hmaps.symm.trans hm).symm (List.cons_ne_self _ _)⟩

theorem Filled.answered (h : Truthful I w')
    (hm : m.target = p.target ∧ m.va = p.va ∧ m.region = p.region)
    (hcache : ∀ c, m.page = .cache c → m.writable = false)
    (hbytes : w'.frames m.page = pageBytes I bk.backingId p.fileOff.toNat p.bytes) :
    Filled I w (faultAnswer (w'.addMap m) p.target env).1 p bk := by
  obtain ⟨held, hheld⟩ := faultAnswer_fst (w'.addMap m) p.target env
  have hadd := (h.keeps (keeps_addMap w' hcache)).keeps (keeps_held _ held)
  rw [hheld]
  refine ⟨hadd, fun m' hm' => ?_⟩
  obtain rfl : m' = m := (List.cons.inj hm').1.symm
  exact ⟨hm.1, hm.2.1, hm.2.2, hbytes⟩

theorem fillPage_ok (hlen : I.exports.length ≤ 256) {fb : ℕ}
    (hfb : fb ≤ pageSz) (hoff : 0 < fb → off.toNat + fb ≤ 2 ^ 64)
    (hcalls : 0 < fb → ∀ k served, env.calls k = some served → GrantsFile I bk served)
    (h : fillPage I w pg bk off fb env = (w', none)) :
    w'.frames pg = pageBytes I bk.backingId off.toNat fb := by
  unfold fillPage at h
  rw [min_eq_left hfb] at h
  dsimp only at h
  split at h
  · cases h
  split at h
  · cases h
  split at h
  · cases h
  split at h
  · cases h
  rename_i hshort
  split at h
  swap
  · cases h
  cases h
  exact (update_self _ _ _).trans
    (fillBytes_spec hlen hoff hcalls (Nat.le_of_not_lt hshort))

theorem filled_mapCache (h : Truthful I w) (hmaps : w.maps = w'.maps) {c : CacheSlot}
    (hbytes : w.frames (.cache c) = pageBytes I bk.backingId p.fileOff.toNat p.bytes) :
    Filled I w' (mapCache w p bk c env).1 p bk := by
  have hframe := h.keeps (keeps_pageFrame w (.cache c) env)
  have hmaps' := (sameBooks_pageFrame w (.cache c) env).maps.trans hmaps
  have hbytes' := (congrFun (frames_pageFrame w (.cache c) env) (.cache c)).trans hbytes
  unfold mapCache
  generalize pageFrame w (.cache c) env = made at hframe hmaps' hbytes'
  dsimp only
  split
  · exact .unmapped hframe hmaps'
  split
  · exact .unmapped hframe hmaps'
  have htake := keeps_takeCache made.1 p.region c
  exact .answered (hframe.keeps htake) ⟨rfl, rfl, rfl⟩ (fun _ _ => rfl)
    ((htake.frames c).trans hbytes')

theorem cacheFind_some {c : CacheSlot} (h : cacheFind w bk off = some c) :
    (w.cache c).valid = true ∧ (w.cache c).backingId = bk.backingId ∧ (w.cache c).pageOff = off := by
  have hc := List.find?_some h
  simp only [Bool.and_eq_true, decide_eq_true_eq, CacheEntry.key, Prod.mk.injEq] at hc
  exact ⟨hc.1, hc.2.1, hc.2.2.2⟩

theorem keeps_cacheAlloc (w : World) : Keeps w (cacheAlloc w).1 ∧ (cacheAlloc w).1.maps = w.maps ∧
    ∀ c, (cacheAlloc w).2 = some c → ((cacheAlloc w).1.cache c).valid = false := by
  unfold cacheAlloc
  split
  · rename_i c hfind
    refine ⟨.refl w, rfl, fun c' hc' => ?_⟩
    cases hc'
    simpa using List.find?_some hfind
  split
  swap
  · exact ⟨.refl w, rfl, nofun⟩
  refine ⟨⟨fun c' hc' => ?_, fun _ => rfl, fun m hm => .inl hm,
    fun ri hused => .inr ⟨hused, rfl, rfl⟩⟩, rfl, fun c' hc' => ?_⟩
  · rw [World.cache_setCache] at hc' ⊢
    split at hc'
    · cases hc'
    · rename_i hne
      rw [if_neg hne]
      exact ⟨hc', rfl, rfl, rfl⟩
  · cases hc'
    rw [World.cache_setCache, if_pos rfl]

section

variable (hlen : I.exports.length ≤ 256) (h : Truthful I w) (hfb : p.bytes ≤ pageSz)
  (hoff : 0 < p.bytes → p.fileOff.toNat + p.bytes ≤ 2 ^ 64)
include hlen h hfb hoff

theorem filled_resolveShared
    (hhit : ∀ c, cacheFind w bk p.fileOff = some c → (w.cache c).fill = p.bytes)
    (hcalls : cacheFind w bk p.fileOff = none → 0 < p.bytes →
      ∀ k served, env.calls k = some served → GrantsFile I bk served) :
    Filled I w (resolveShared I w p bk env).1 p bk := by
  unfold resolveShared
  split
  · rename_i c hc
    obtain ⟨hvalid, hid, hpage⟩ := cacheFind_some hc
    have hbytes := h.entries c hvalid
    rw [hid, hpage, hhit c hc] at hbytes
    exact filled_mapCache h rfl hbytes
  rename_i hmiss
  obtain ⟨hkeeps, hmaps, hinvalid⟩ := keeps_cacheAlloc w
  generalize cacheAlloc w = alloc at hkeeps hmaps hinvalid
  obtain ⟨w1, slot⟩ := alloc
  have h1 := h.keeps hkeeps
  cases slot with
  | none => exact .unmapped h1 hmaps
  | some c =>
    dsimp only
    obtain ⟨hs, hothers⟩ := fillPage_frame I w1 (.cache c) bk p.fileOff p.bytes env
    have hfill := @fillPage_ok I w1
    generalize hw2 : fillPage I w1 (.cache c) bk p.fileOff p.bytes env = filled at hs hothers
    obtain ⟨w2, err⟩ := filled
    -- the slot is not valid, so its page may have changed
    have hframes : ∀ c', (w1.cache c').valid = true → w2.frames (.cache c') = w1.frames (.cache c') :=
      fun c' hc' => hothers _ fun heq => by
        rw [Page.cache.inj heq, hinvalid c rfl] at hc'
        cases hc'
    have hro : ∀ m ∈ w2.maps, ∀ c, m.page = .cache c → m.writable = false :=
      fun m hm => h1.readOnly m (hs.maps ▸ hm)
    have hbounded : ∀ ri, (w2.reg ri).used = true →
        (w2.reg ri).fileOff.toNat + (w2.reg ri).fileLen.toNat < 2 ^ 64 := by
      rw [hs.reg]
      exact h1.bounded
    cases err with
    | some e =>
      refine .unmapped ⟨fun c' hc' => ?_, hro, hbounded⟩ (hs.maps.trans hmaps)
      rw [hs.cache] at hc' ⊢
      rw [hframes c' hc']
      exact h1.entries c' hc'
    | none =>
      have hbytes := hfill hlen hfb hoff (hcalls hmiss) hw2
      have h2 : Truthful I (w2.setCache c ⟨true, bk.backingId, bk.generation, p.fileOff, 0,
          p.bytes⟩) := by
        refine ⟨fun c' hc' => ?_, hro, hbounded⟩
        rw [World.cache_setCache] at hc' ⊢
        split at hc'
        · rename_i heq
          rw [if_pos heq, heq]
          exact hbytes
        · rename_i hne
          rw [if_neg hne]
          rw [hs.cache] at hc' ⊢
          exact (hframes c' hc').trans (h1.entries c' hc')
      exact filled_mapCache h2 (hs.maps.trans hmaps) hbytes

theorem filled_resolvePrivate
    (hcalls : 0 < p.bytes → ∀ k served, env.calls k = some served → GrantsFile I bk served)
    (hfresh : ∀ j, freePriv w = some j → w.exposed (.priv j) = false) :
    Filled I w (resolvePrivate I w p bk env).1 p bk := by
  unfold resolvePrivate
  split
  · exact .unmapped h rfl
  rename_i j hj
  have hunexposed := hfresh j hj
  obtain ⟨hs, hothers⟩ := fillPage_frame I w (.priv j) bk p.fileOff p.bytes env
  have hfill := @fillPage_ok I w
  generalize hw2 : fillPage I w (.priv j) bk p.fileOff p.bytes env = filled at hs hothers
  obtain ⟨w2, err⟩ := filled
  have h2 : Truthful I w2 := h.keeps (.of_eq hs.cache hs.reg hs.maps fun c => hothers _ nofun)
  cases err with
  | some e => exact .unmapped h2 hs.maps
  | none =>
    have hbytes := hfill hlen hfb hoff hcalls hw2
    have hquiet : scribbled w2 (.priv j) env = w2 := by
      unfold scribbled World.exposed
      rw [hs.maps]
      exact if_neg (Bool.not_eq_true _ ▸ hunexposed)
    have hframe := h2.keeps (keeps_pageFrame w2 (.priv j) env)
    have hmaps := (sameBooks_pageFrame w2 (.priv j) env).maps.trans hs.maps
    have hbytes' := (congrFun (frames_pageFrame w2 (.priv j) env) (.priv j)).trans hbytes
    dsimp only
    rw [hquiet]
    generalize pageFrame w2 (.priv j) env = made at hframe hmaps hbytes'
    split
    · exact .unmapped hframe hmaps
    split
    · exact .unmapped hframe hmaps
    have htake := keeps_takePriv made.1 p.region j
    exact .answered (hframe.keeps htake) ⟨rfl, rfl, rfl⟩ nofun hbytes'

end

end

/-- Byte `i` of a region's page: its file, up to the region's file length, and zeros after it. -/
def regionBytes (I : Instance) (rg : Region) (off i : ℕ) : UInt8 :=
  if off + i < rg.fileLen.toNat then (I.file rg.file).getD (rg.fileOff.toNat + off + i) 0 else 0

section
variable {I : Instance} {rg : Region}

theorem fileBytes_le (rg : Region) (off : UInt64) : fileBytes rg off ≤ pageSz := by
  unfold fileBytes
  split
  · exact Nat.zero_le _
  · exact min_le_right _ _

theorem fileBytes_pos (h : 0 < fileBytes rg off) :
    off.toNat < rg.fileLen.toNat ∧
      fileBytes rg off = min (rg.fileLen.toNat - off.toNat) pageSz := by
  unfold fileBytes at h ⊢
  split at h
  · exact absurd h (lt_irrefl 0)
  · rename_i hlt
    have hlt' : off < rg.fileLen := UInt64.not_le.mp hlt
    rw [if_neg hlt, UInt64.toNat_sub_of_le _ _ (UInt64.le_of_lt hlt')]
    exact ⟨UInt64.lt_iff_toNat_lt.mp hlt', rfl⟩

theorem toNat_fileOff (hb : rg.fileOff.toNat + rg.fileLen.toNat < 2 ^ 64)
    (h : off.toNat < rg.fileLen.toNat) :
    (rg.fileOff + off).toNat = rg.fileOff.toNat + off.toNat := by
  rw [UInt64.toNat_add]
  omega

theorem pageBytes_eq_regionBytes (hb : rg.fileOff.toNat + rg.fileLen.toNat < 2 ^ 64) (off : UInt64)
    {i : ℕ} (hi : i < pageSz) :
    pageBytes I rg.file (rg.fileOff + off).toNat (fileBytes rg off) i =
      regionBytes I rg off.toNat i := by
  unfold pageBytes regionBytes
  obtain hzero | hpos := Nat.eq_zero_or_pos (fileBytes rg off)
  · have hle : rg.fileLen.toNat ≤ off.toNat := by
      by_contra hlt
      unfold fileBytes at hzero
      rw [if_neg (fun hge => hlt (UInt64.le_iff_toNat_le.mp hge)),
        UInt64.toNat_sub_of_le _ _ (UInt64.le_iff_toNat_le.mpr (by omega))] at hzero
      omega
    rw [if_neg (by omega), if_neg (by omega)]
  · obtain ⟨hlt, hfb⟩ := fileBytes_pos hpos
    have hiff : i < fileBytes rg off ↔ off.toNat + i < rg.fileLen.toNat := by
      omega
    rw [toNat_fileOff hb hlt]
    simp only [hiff]

end

/-! ## Runs -/

/-- The backing is the file the region was registered against, a cached page has as many bytes, the
grant is on that file, and nobody else writes to a private page. -/
structure Faithful (I : Instance) (w : World) (env : Env) (p : Place) : Prop where
  file : (p.backing w).backingId = (w.reg p.region).file
  hit : (w.reg p.region).mode = pgrModeRoShared →
    ∀ c, cacheFind w (p.backing w) p.fileOff = some c → (w.cache c).fill = p.bytes
  reads : ((w.reg p.region).mode = pgrModeRoShared →
      cacheFind w (p.backing w) p.fileOff = none) → 0 < p.bytes →
    ∀ k served, env.calls k = some served → GrantsFile I (p.backing w) served
  fresh : (w.reg p.region).mode = pgrModePrivateWritable →
    ∀ j, freePriv w = some j → w.exposed (.priv j) = false

/-- Every fault that a step takes up and does not refuse is read faithfully. -/
def ReadsFaithfully (I : Instance) (w : World) (e : Event) : Prop :=
  ∀ (t : Target) (env : Env), e = .mapRegion t.val env →
    ∀ p, faultPlace w t env = some p → Faithful I w env p

section
variable {I : Instance} {w : World}

theorem faultPlace_bytes (h : Truthful I w) {t : Target} {env : Env} {p : Place}
    (hp : faultPlace w t env = some p) :
    p.bytes ≤ pageSz ∧ (0 < p.bytes → p.fileOff.toNat + p.bytes ≤ 2 ^ 64) := by
  obtain ⟨hused, -, -, -, -, heq⟩ := faultPlace_spec hp
  have hb := h.bounded _ hused
  rw [heq]
  refine ⟨fileBytes_le _ _, fun hpos => ?_⟩
  obtain ⟨hlt, hfb⟩ := fileBytes_pos hpos
  have hoff := toNat_fileOff hb hlt
  change ((w.reg p.region).fileOff + _).toNat + fileBytes _ _ ≤ _
  omega

theorem Truthful.write (h : Truthful I w) (hexp : w.exposed pg = true) (v : ℕ → UInt8) :
    Truthful I (w.setFrame pg v) := by
  refine h.keeps (.of_eq rfl rfl rfl fun c => update_of_ne ?_ _ _)
  rintro rfl
  obtain ⟨m, hm, hpage⟩ := List.any_eq_true.mp hexp
  simp only [Bool.and_eq_true, decide_eq_true_eq] at hpage
  rw [h.readOnly m hm c hpage.1] at hpage
  exact Bool.noConfusion hpage.2

theorem Truthful.drops (h : Truthful I w) (ris : List RegionIdx) :
    Truthful I (ris.foldl Pager.dropRegion w) ∧ (ris.foldl Pager.dropRegion w).maps = w.maps := by
  induction ris generalizing w with
  | nil => exact ⟨h, rfl⟩
  | cons ri ris ih => exact ih (h.dropRegion ri)

/-- A step leaves the cache truthful and maps a page with the bytes of its place. -/
theorem act_truthful (hlen : I.exports.length ≤ 256) (h : Truthful I w) {e : Event}
    (hfaith : ReadsFaithfully I w e) :
    Truthful I (act I w e) ∧ ∀ m, (act I w e).maps = m :: w.maps → ∃ t env p,
      e = .mapRegion t.val env ∧ faultPlace w t env = some p ∧ m.target = p.target ∧ m.va = p.va ∧
        m.region = p.region ∧ (act I w e).frames m.page =
          pageBytes I (w.reg p.region).file p.fileOff.toNat p.bytes := by
  have hmoves := act_moves I w e
  generalize act I w e = w' at hmoves ⊢
  have hnone : w'.maps.length ≤ w.maps.length → ∀ m, w'.maps ≠ m :: w.maps := by
    intro hle m hm
    rw [hm, List.length_cons] at hle
    omega
  have hserved : ∀ {t env p}, e = .mapRegion t.val env → faultPlace w t env = some p →
      (p.backing w).backingId = (w.reg p.region).file → Filled I w w' p (p.backing w) →
      Truthful I w' ∧ ∀ m, w'.maps = m :: w.maps → ∃ t env p, e = .mapRegion t.val env ∧
        faultPlace w t env = some p ∧ m.target = p.target ∧ m.va = p.va ∧ m.region = p.region ∧
          w'.frames m.page = pageBytes I (w.reg p.region).file p.fileOff.toNat p.bytes := by
    intro t env p he place hfile hfilled
    refine ⟨hfilled.truthful, fun m hm => ⟨t, env, p, he, place, ?_⟩⟩
    rw [← hfile]
    exact hfilled.news m hm
  cases hmoves with
  | held held => exact ⟨h.keeps (keeps_held w held), fun m hm => absurd hm (hnone le_rfl m)⟩
  | @shared t env p held place mode =>
    have hf := hfaith t env rfl p place
    have hfilled : Filled I { w with held := held } _ p (p.backing w) :=
      filled_resolveShared hlen (h.keeps (keeps_held w held)) (faultPlace_bytes h place).1
        (faultPlace_bytes h place).2 (hf.hit mode) fun hnone => hf.reads fun _ => hnone
    exact hserved rfl place hf.file ⟨hfilled.truthful, hfilled.news⟩
  | @fresh t env p held place mode =>
    have hf := hfaith t env rfl p place
    have hne : (w.reg p.region).mode ≠ pgrModeRoShared := by
      rw [mode]
      decide
    have hfilled : Filled I { w with held := held } _ p (p.backing w) :=
      filled_resolvePrivate hlen (h.keeps (keeps_held w held)) (faultPlace_bytes h place).1
        (faultPlace_bytes h place).2 (hf.reads fun hro => absurd hro hne) (hf.fresh mode)
    exact hserved rfl place hf.file ⟨hfilled.truthful, hfilled.news⟩
  | back b v =>
    exact ⟨h.keeps (.of_eq rfl rfl rfl fun _ => rfl), fun m hm => absurd hm (hnone le_rfl m)⟩
  | @region rq ri v ok idx clean bounded =>
    by_cases hused : (w.reg ri).used = true
    · rw [if_pos hused] at hnone ⊢
      exact ⟨(h.keeps (keeps_regionRelease w ri)).keeps (keeps_setReg _ _ fun _ => bounded),
        fun m hm => absurd hm (hnone le_rfl m)⟩
    · rw [if_neg hused] at hnone ⊢
      exact ⟨h.keeps (keeps_setReg _ _ fun _ => bounded), fun m hm => absurd hm (hnone le_rfl m)⟩
  | @drops _ ris released =>
    obtain ⟨htruth, hmaps⟩ := h.drops ris
    exact ⟨htruth, fun m hm => absurd hm (hnone (congrArg List.length hmaps).le m)⟩
  | revoke b v stale idle =>
    refine ⟨h.keeps ⟨fun c hc => ?_, fun _ => rfl, fun m hm => .inl hm,
      fun ri hused => .inr ⟨hused, rfl, rfl⟩⟩, fun m hm => absurd hm (hnone le_rfl m)⟩
    dsimp only at hc ⊢
    split at hc
    · cases hc
    · rename_i hkeep
      rw [if_neg hkeep]
      exact ⟨hc, rfl, rfl, rfl⟩
  | write exposed => exact ⟨h.write exposed _, fun m hm => absurd hm (hnone le_rfl m)⟩
  | unmap p =>
    exact ⟨⟨h.entries, fun m hm => h.readOnly m (List.mem_of_mem_filter hm), h.bounded⟩,
      fun m hm => absurd hm (hnone (List.length_filter_le _ _) m)⟩

end

theorem truthful_start (I : Instance) : Truthful I {} := ⟨nofun, nofun, nofun⟩

/-- In every run whose faults are read faithfully, a page that a step maps holds the bytes of the
file its region was registered against, and zeros after them. -/
theorem mapped_page_holds_region_bytes (I : Instance) (hlen : I.exports.length ≤ 256)
    (es : List Event) (e : Event) (hes : Meets (act I) (ReadsFaithfully I) {} (es ++ [e]))
    (m : Mapping) :
    let w := runFrom (act I) {} es
    let rg := w.reg m.region
    (act I w e).maps = m :: w.maps →
      (∃ env, e = .mapRegion m.target.val env ∧ faultVa w m.target env = some m.va) ∧
      rg.used = true ∧ rg.targetIdx = m.target ∧ rg.startVa ≤ m.va ∧ m.va < rg.startVa + rg.memLen ∧
      ∀ i < pageSz, (act I w e).frames m.page i = regionBytes I rg (m.va - rg.startVa).toNat i := by
  intro w rg hmaps
  obtain ⟨hrun, hlast⟩ := meets_append.mp hes
  have htruth : Truthful I w :=
    hrun.keeps (truthful_start I) fun _ _ h hfaith => (act_truthful hlen h hfaith).1
  obtain ⟨t, env, p, rfl, hp, htarget, hva, hregion, hbytes⟩ :=
    (act_truthful hlen htruth hlast.1).2 m hmaps
  obtain ⟨hused, htgt, hlo, hhi, hfault, hplace⟩ := faultPlace_spec hp
  have hpt : p.target = t := congrArg Place.target hplace
  have ht : m.target = t := htarget.trans hpt
  subst ht
  have hrg : rg = w.reg p.region := congrArg w.reg hregion
  rw [hrg, hva]
  refine ⟨⟨env, rfl, hfault⟩, hused, htgt, hlo, hhi, fun i hi => ?_⟩
  rw [hbytes, ← pageBytes_eq_regionBytes (htruth.bounded _ hused) _ hi]
  rw [hplace]
  rfl

/-- A pager with session 0 of a VFS that exports "a" and "b". -/
def pagerOfAB : Instance :=
  ⟨oneExport ++ [{ name := [98], data := [7, 8], size := 2, ready := true }], noMem, 0, 0⟩

/-- The administrator opens the export with the one-letter name into session 0. -/
def openInto (name : UInt8) : Input :=
  ⟨{ label := 0x0110, words := ![0, 15, 0, 0], wordCount := 2, bufLen := 2,
     senderBadge := irisBadgeFilegrantAdmin }, some [name, 0]⟩

/-- The administrator resets session 0. -/
def resetInto : Input :=
  ⟨{ label := 0x0116, words := ![0, 0, 0, 0], wordCount := 1,
     senderBadge := irisBadgeFilegrantAdmin }, none⟩

/-- A fault at the start of a region after some requests; a writer leaves nines. -/
def faultAfter (t : Target) (served : List Input) : Event :=
  .mapRegion t { arrivals := [(t.val.toUInt64 + 1, { cr2 := 0x8000000000 })]
                 calls := fun _ => some served
                 scribble := fun _ => 9 }

theorem first_fault_on_a_is_faithful :
    ReadsFaithfully pagerOfA (runFrom (act pagerOfA) {} [backA, regionOfA 0 0 1 0 3])
      (faultOf 0) := by
  intro t env he p hp
  obtain ⟨ht, rfl⟩ := Event.mapRegion.inj he
  obtain rfl : t = 0 := Fin.ext ht.symm
  have hplace : faultPlace (runFrom (act pagerOfA) {} [backA, regionOfA 0 0 1 0 3]) 0
      { arrivals := [((0 : Target).val.toUInt64 + 1, { cr2 := 0x8000000000 })]
        calls := fun _ => some [openA 15] } = some ⟨0, 0, 0x8000000000, 0, 3⟩ := by
    decide +kernel
  cases hplace.symm.trans hp
  have hmiss : cacheFind (runFrom (act pagerOfA) {} [backA, regionOfA 0 0 1 0 3])
      ⟨true, 0, 0xB1000000, 1, 3⟩ 0 = none := by
    decide +kernel
  refine ⟨by decide +kernel, fun _ c hc => ?_, fun _ _ k served hserved => ?_, fun hmode => ?_⟩
  · cases hmiss.symm.trans hc
  · cases hserved
    unfold GrantsFile
    decide +kernel
  · revert hmode
    decide +kernel

theorem first_fault_on_a_maps_its_bytes :
    let w := runFrom (act pagerOfA) {} [backA, regionOfA 0 0 1 0 3]
    pagerOfA.exports.length ≤ 256 ∧ Meets (act pagerOfA) (ReadsFaithfully pagerOfA) {}
        [backA, regionOfA 0 0 1 0 3, faultOf 0] ∧
      ∀ i < pageSz, (act pagerOfA w (faultOf 0)).frames (.cache 0) i =
        regionBytes pagerOfA (w.reg 0) 0 i := by
  have hmeets : Meets (act pagerOfA) (ReadsFaithfully pagerOfA) {}
      [backA, regionOfA 0 0 1 0 3, faultOf 0] :=
    ⟨nofun, nofun, first_fault_on_a_is_faithful, trivial⟩
  exact ⟨by decide, hmeets, (mapped_page_holds_region_bytes pagerOfA (by decide)
    [backA, regionOfA 0 0 1 0 3] (faultOf 0) hmeets
    ⟨0, 0x8000000000, .cache 0, false, 0, (0xB1000000, 1, 0)⟩ (by decide +kernel)).2.2.2.2.2⟩

/-- A cache page filled for a longer region, a backing or a grant index used again for another file,
and a private page that its last owner still writes to. -/
theorem pages_with_the_wrong_bytes :
    (let w := runFrom (act pagerOfA) {} [backA, regionOfA 0 0 1 0 3, faultOf 0, regionOfA 1 1 1 0 1]
      let w' := act pagerOfA w (faultOf 1)
      w'.maps.head?.map (fun m => (m.target, m.page)) = some (1, .cache 0) ∧
        w'.frames (.cache 0) 2 = 3 ∧ regionBytes pagerOfA (w.reg 1) 0 2 = 0) ∧
    (let served := [openA 15, openInto 98]
      let w := runFrom (act pagerOfAB) {} [backA, regionOfA 0 0 1 0 1,
        .registerBacking ⟨0, 1, 0xB1000001, 1, 2⟩ { calls := fun _ => some served }]
      let w' := act pagerOfAB w (faultAfter 0 served)
      w'.maps.map (fun m => (m.target, m.page)) = [(0, .cache 0)] ∧
        w'.frames (.cache 0) 0 = 7 ∧ regionBytes pagerOfAB (w.reg 0) 0 0 = 1) ∧
    (let w := runFrom (act pagerOfAB) {} [backA, regionOfA 0 0 1 0 1]
      let w' := act pagerOfAB w (faultAfter 0 [openA 15, resetInto, openInto 98])
      w'.maps.map (fun m => (m.target, m.page)) = [(0, .cache 0)] ∧
        w'.frames (.cache 0) 0 = 7 ∧ regionBytes pagerOfAB (w.reg 0) 0 0 = 1) ∧
    (let w := runFrom (act pagerOfA) {} [backA, regionOfA 0 0 3 1 3, faultOf 0, .unregisterRegion 0,
        regionOfA 1 1 3 1 3]
      let w' := act pagerOfA w (faultAfter 1 [openA 15])
      w'.maps.head?.map (fun m => (m.target, m.page)) = some (1, .priv 0) ∧
        w'.frames (.priv 0) 0 = 9 ∧ regionBytes pagerOfA (w.reg 1) 0 0 = 1) := by
  decide +kernel

end IrisOS.Pager
