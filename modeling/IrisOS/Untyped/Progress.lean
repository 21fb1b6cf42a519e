import IrisOS.Untyped.Publish

/-! How far the creation of objects gets, read off the request and the state before, and what it
leaves carved when it gives up. -/
namespace IrisOS.Untyped
open Lib Cap Kernel Memory

/-! ## What is there before -/

/-- How far the creation of objects gets: it is refused, it gives up when something has been carved,
or the objects are made. -/
inductive Progress
  | refused
  | halfway
  | made
  deriving DecidableEq

namespace Memory

def regionProgress (sz : Sizes) (m : Memory) (ut : ObjId) (objArg : UInt64) (type : KObjType) :
    Progress :=
  match m.hdrHost ut with
  | none => .refused
  | some h =>
    let u := if h = ut then (m.uts ut).withHeader (sz.object type) else m.uts ut
    if !(m.uts h).headerFits (sz.object type) then .refused
    else if u.pagesFit objArg then .made else .halfway

/-- A region needs room for its header and then for its pages, a batch needs room, and an ASID pool
a range of identifiers for each of its objects. -/
def progress (sz : Sizes) (m : Memory) (ut : ObjId) (r : RetypeReq) (payload : UInt64) : Progress :=
  if isRegion r.type then
    if r.type = .untyped ∨ r.type = .frame ∨ r.objArg = 4096 ∧ (m.uts ut).isDevice = false
    then m.regionProgress sz ut r.objArg r.type else .refused
  else if !(m.uts ut).batchFits payload r.count then .refused
  else if r.type = .asidPool ∧ kasidLast + 1 < m.kasidNext + r.count.toNat * kasidPoolSize
  then .halfway else .made

end Memory

/-! ## Calls that take back no carve -/

/-- The call takes back no carve, and none that it issues does. -/
def MemCall.keepsCarves : MemCall → Bool
  | .unbump _ _ _ => false
  | .publish p _ => !(p.start < p.stop : Bool)
  | _ => true

/-- The cursors of an Untyped and the next ASID. -/
def Memory.carves (m : Memory) (u : ObjId) : UInt64 × UInt64 × ℕ :=
  ((m.uts u).used, (m.uts u).usedTop, m.kasidNext)

variable {e : IrisError} {count : UInt32} {sz : Sizes}

section
variable {m t : Memory} {u : ObjId} {k : List MemCall}

theorem mem_giveBack {o : ObjId} {g : MemCall} (hg : g ∈ (m.giveBack o).2) :
    ∃ u, g = .cap (.heldRelease u) := by
  have hchild : ∀ (n : Memory) x, g ∈ (n.releaseChild x).2 → ∃ u, g = .cap (.heldRelease u) := by
    intro n x hg
    cases x with
    | none => cases hg
    | some u => exact ⟨u, List.mem_singleton.mp hg⟩
  unfold Memory.giveBack at hg
  simp only [List.mem_append, List.mem_map] at hg
  obtain (hg | hg) | ⟨u, -, rfl⟩ := hg
  · exact hchild _ _ hg
  · exact hchild _ _ hg
  · exact ⟨u, rfl⟩

theorem keepsCarves_of_unresolve {o : ObjId} {g : MemCall} (hg : g ∈ Memory.unresolve o) :
    g.keepsCarves = true := by
  simp only [Memory.unresolve, List.mem_cons, List.not_mem_nil, or_false] at hg
  obtain rfl | rfl := hg <;> rfl

theorem perform_carves (m : Memory) (u : ObjId) (f : MemCall) :
    (m.perform f).1.kasidNext = m.kasidNext ∧ (f.keepsCarves = true →
      (m.perform f).1.carves u = m.carves u ∧ ∀ g ∈ (m.perform f).2, g.keepsCarves = true) := by
  cases f with
  | cap f =>
    have hchild : ∀ (n : Memory) x, (n.releaseChild x).1.kasidNext = n.kasidNext ∧
        (n.releaseChild x).1.carves u = n.carves u := by
      intro n x
      cases x with
      | none => exact ⟨rfl, rfl⟩
      | some v =>
        refine ⟨rfl, ?_⟩
        by_cases hv : u = v
        · subst hv
          simp [Memory.carves, releaseChild, setUt, KUntyped.kuntypedReleaseChild]
        · simp [Memory.carves, releaseChild, setUt, hv]
    have hgive : ∀ (n : Memory) o, (n.giveBack o).1.kasidNext = n.kasidNext ∧
        (n.giveBack o).1.carves u = n.carves u := fun n o =>
      ⟨(hchild _ _).1.trans (hchild _ _).1, (hchild _ _).2.trans (hchild _ _).2⟩
    change (m.performCap f).1.kasidNext = _ ∧ (_ → (m.performCap f).1.carves u = _ ∧
      ∀ g ∈ (m.performCap f).2, _)
    unfold performCap
    split_ifs
    · dsimp only
      split
      · refine ⟨rfl, fun _ => ⟨rfl, fun g hg => ?_⟩⟩
        obtain ⟨_, -, rfl⟩ := List.mem_map.mp hg
        rfl
      · refine ⟨(hgive _ _).1, fun _ => ⟨(hgive _ _).2, fun g hg => ?_⟩⟩
        obtain hg | hg := List.mem_append.mp hg
        · obtain ⟨_, -, rfl⟩ := List.mem_map.mp hg
          rfl
        · obtain ⟨_, rfl⟩ := mem_giveBack hg
          rfl
    · exact ⟨rfl, fun _ => ⟨rfl, List.forall_mem_nil _⟩⟩
  | publish p i =>
    change (m.publish p i).1.kasidNext = _ ∧ (_ → (m.publish p i).1.carves u = _ ∧
      ∀ g ∈ (m.publish p i).2, _)
    have hdrop : ∀ o, ∀ g ∈ Memory.unresolve o, g.keepsCarves = true := fun o g hg =>
      keepsCarves_of_unresolve hg
    have hslot : ∀ g ∈ (p.utSlot.map fun s => Memory.unresolve s.1).getD [],
        g.keepsCarves = true := by
      cases p.utSlot with
      | none => exact List.forall_mem_nil _
      | some s => exact hdrop s.1
    unfold Memory.publish
    dsimp only
    split
    · refine ⟨rfl, fun _ => ⟨rfl, ?_⟩⟩
      simp only [List.forall_mem_append, List.forall_mem_map, List.forall_mem_singleton]
      exact ⟨⟨⟨hslot, fun _ _ => rfl⟩, hdrop _, hdrop _⟩, rfl⟩
    · split_ifs with _ hlt
      · refine ⟨rfl, fun hp => ⟨rfl, ?_⟩⟩
        simp only [List.forall_mem_append, List.forall_mem_map, List.forall_mem_singleton]
        exact ⟨fun _ _ => rfl, hp⟩
      · exact ⟨rfl, fun hp => by simp [MemCall.keepsCarves, hlt] at hp⟩
      · refine ⟨rfl, fun _ => ⟨rfl, ?_⟩⟩
        simp only [List.forall_mem_append, List.forall_mem_map, List.forall_mem_singleton]
        exact ⟨⟨⟨⟨⟨⟨fun _ _ => rfl, hslot⟩, fun _ _ => rfl⟩, fun _ _ => rfl⟩,
          List.forall_mem_nil _⟩, hdrop _, hdrop _⟩, rfl⟩
  | unbump v start stop => exact ⟨rfl, fun h => absurd h Bool.false_ne_true⟩
  | ret e => exact ⟨rfl, fun _ => ⟨rfl, List.forall_mem_nil _⟩⟩

theorem returns_carves (h : (system sz).Returns m k t) (u : ObjId) :
    t.kasidNext = m.kasidNext ∧
      ((∀ f ∈ k, f.keepsCarves = true) → t.carves u = m.carves u) := by
  induction h with
  | done | halt => exact ⟨rfl, fun _ => rfl⟩
  | @call m f k t hs htail ih =>
    obtain ⟨hnext, hkeeps⟩ := perform_carves m u f
    refine ⟨ih.1.trans hnext, fun hall => ?_⟩
    obtain ⟨hsame, hcalls⟩ := hkeeps (hall f (.head _))
    refine (ih.2 fun g hg => ?_).trans hsame
    exact (List.mem_append.mp hg).elim (hcalls g) fun hg => hall g (.tail _ hg)

theorem err_of_returns (h : (system sz).Returns m (l ++ [.ret e]) t)
    (hp : t.ker.panic = none) : t.ker.ret.err = e := by
  obtain ⟨u, -, hret⟩ := CallMachine.Returns.append_iff.mp h
  cases hhalt : (system sz).halted u with
  | true =>
    rw [CallMachine.Returns.halted_iff hhalt] at hret
    subst hret
    simp [system, hp] at hhalt
  | false =>
    rw [CallMachine.Returns.cons_iff hhalt] at hret
    cases hret
    rfl

/-- A publication that succeeds has found the Untyped in the slot that it publishes below. -/
theorem publish_accepted {p : Publication}
    (hret : (system sz).Returns m [.publish p 0] t) (hp : t.ker.panic = none)
    (hok : t.ker.ret.err = .ok) (hpos : p.objs ≠ []) {s : ObjId × ℕ} (hs : s ∈ p.utSlot) :
    (m.ker.slots (.slot s.1 s.2)).object = some p.ut := by
  have hrun : ∀ {m l}, (system sz).Returns m l t → (system sz).halted m = false := by
    intro m l hret
    by_contra hhalt
    rw [CallMachine.Returns.halted_iff (by simpa using hhalt)] at hret
    subst hret
    simp [system, hp] at hhalt
  rw [CallMachine.Returns.cons_iff (hrun hret), List.append_nil] at hret
  have hbody : (system sz).body m (.publish p 0) = m.publish p 0 := rfl
  obtain ⟨o, objs, hobjs⟩ := List.exists_cons_of_ne_nil hpos
  let r : Install := ⟨p.cn, p.slot, o, p.rights, 0, p.utSlot, some p.ut, true, p.utSlot.isNone⟩
  have hinstall : m.ker.kcnodeSlotInstallLinked p.cn (p.slot + 0) o p.rights 0 p.utSlot (some p.ut)
      true p.utSlot.isNone = m.ker.install r := rfl
  have hinstalled := install_installed m.ker r
  rw [hbody] at hret
  simp only [Memory.publish, hobjs, List.getElem?_cons_zero, hinstall] at hret
  generalize m.ker.install r = x at hret hinstalled
  split_ifs at hret with herr
  · cases hinstalled with
    | refused he => exact absurd herr he
    | undone _ _ he => exact absurd herr he
    | stopped _ href =>
      have hhalt := hrun hret
      simp [system, kobjectRetain, irisAssert, stop, not_le.mpr href] at hhalt
    | @filled τ old _ ht _ hparent =>
      obtain ⟨-, pc, hpc, hpo⟩ := fits_of_not_refused hparent s.1 s.2 hs
      cases ht with
      | exclusive =>
        rw [(Kept.takeRefs m.ker r.cn r.obj).caps] at hpc
        exact hpo _ rfl ▸ (slots_of_caps hpc).1
      | overwrite hexcl => cases hexcl
  · exact absurd ((err_of_returns hret hp).symm.trans hok) herr
  · exact absurd ((err_of_returns hret hp).symm.trans hok) herr

end

/-! ## Creation -/

theorem allocChildrenAtomic_error {u u' : KUntyped} {bytes : UInt64}
    (h : u.kuntypedAllocChildrenAtomic bytes count = (u', .error e)) : e ≠ .ok := by
  unfold KUntyped.kuntypedAllocChildrenAtomic at h
  dsimp only at h
  split_ifs at h <;> cases h <;> decide

section
variable {m : Memory} {ut : ObjId} {r : RetypeReq} {payload : UInt64}

/-- What the objects of a retype look like, by how far their creation gets. -/
def Reaches (m : Memory) (ut : ObjId) (r : RetypeReq) (c : Created) : Progress → Prop
  | .refused => ∃ e ≠ .ok, c = { mem := m, result := .error e }
  | .halfway => (∃ e ≠ .ok, c.result = .error e) ∧ (∀ f ∈ c.calls, f.keepsCarves = true) ∧
      ∃ u, (u = ut ∨ m.hdrHost ut = some u) ∧ c.mem.carves u ≠ m.carves u
  | .made => ∃ objs start stop, c.result = .ok (objs, start, stop) ∧
      (isRegion r.type = true → start = 0 ∧ stop = 0 ∧
        (c.mem.uts ut).used ≠ (m.uts ut).used) ∧
      (r.type = .asidPool → c.mem.kasidNext ≠ m.kasidNext)

theorem buildObjects_pools (ut : ObjId) (slotCount n : ℕ) (m : Memory) :
    (0 < n → kasidLast + 1 < m.kasidNext + n * kasidPoolSize →
      (m.buildObjects ut .asidPool slotCount n).2.2 = false) ∧
    ((m.buildObjects ut .asidPool slotCount n).2.2 = true →
      (m.buildObjects ut .asidPool slotCount n).1.kasidNext = m.kasidNext + n * kasidPoolSize) := by
  induction n generalizing m with
  | zero => exact ⟨nofun, fun _ => by simp [Memory.buildObjects]⟩
  | succ n ih =>
    rw [Memory.buildObjects, if_pos rfl]
    unfold kasidpoolCarveRange
    split_ifs with hlast
    · exact ⟨fun _ _ => rfl, fun h => by cases h⟩
    · obtain ⟨hnone, hall⟩ := ih (({ m with kasidNext := m.kasidNext + kasidPoolSize } :
        Memory).addObject .asidPool slotCount ut ut)
      change (_ → _ < m.kasidNext + kasidPoolSize + _ → _) at hnone
      change (_ → _ = m.kasidNext + kasidPoolSize + _) at hall
      simp only [kasidPoolSize, kasidLast] at *
      exact ⟨fun _ h => hnone (by omega) (by omega), fun h => (hall h).trans (by omega)⟩

theorem reaches_createBatch (hbatch : isRegion r.type = false) :
    Reaches m ut r (m.createBatch ut r.type payload r.objArg r.count) (m.progress sz ut r payload) := by
  have hfits := (m.uts ut).kuntypedAllocChildrenAtomic_isOk payload r.count
  rcases (m.uts ut).kuntypedAllocChildrenAtomic_spec payload r.count
    with ⟨e, he⟩ | ⟨u, b, he, hc, husedeq, -⟩
  · have hno : (m.uts ut).batchFits payload r.count = false := by
      rw [← hfits, he]
      rfl
    simp only [progress, hbatch, hno, Memory.createBatch, he]
    exact ⟨e, allocChildrenAtomic_error he, rfl⟩
  have hyes : (m.uts ut).batchFits payload r.count = true := by
    rw [← hfits, he]
    rfl
  have hlow : (m.uts ut).used.toNat < u.used.toNat := hc.pos
  have hcount : 0 < r.count.toNat := Nat.pos_of_ne_zero fun hzero => by
    rw [hzero, Nat.zero_mul] at husedeq
    omega
  obtain ⟨huts, hkasid, -⟩ := Working.retain_iterate_fields ut r.count.toNat (m.setUt ut u)
  simp only [progress, hbatch, hyes, Memory.createBatch, he, Bool.false_eq_true, if_false,
    Bool.not_true]
  set slotCount := if r.type = .cnode then r.objArg.toNat else 0
  set m1 := (fun m : Memory => m.retain ut)^[r.count.toNat] (m.setUt ut u)
  have hnext : m1.kasidNext = m.kasidNext := hkasid
  have huts' := Working.buildObjects_uts ut r.type slotCount r.count.toNat m1
  have hall := Working.buildObjects_all ut r.type slotCount r.count.toNat m1
  have hpools := buildObjects_pools ut slotCount r.count.toNat m1
  rw [hnext] at hall hpools
  by_cases hshort : r.type = .asidPool ∧
      kasidLast + 1 < m.kasidNext + r.count.toNat * kasidPoolSize
  · have hfalse := hpools.1 hcount hshort.2
    rw [← hshort.1] at hfalse
    generalize m1.buildObjects ut r.type slotCount r.count.toNat = built at huts' hfalse
    obtain ⟨m', objs, all⟩ := built
    cases hfalse
    rw [if_pos hshort]
    refine ⟨⟨_, by decide, rfl⟩, List.forall_mem_nil _, ut, .inl rfl, fun heq => ?_⟩
    have huts : m'.uts ut = u := by
      rw [show m'.uts = m1.uts from huts', huts]
      exact Function.update_self ..
    have hsame : u.used = (m.uts ut).used := huts ▸ congrArg Prod.fst heq
    simp [hsame] at hlow
  · have htrue := hall fun htype => not_lt.mp fun hlt => hshort ⟨htype, hlt⟩
    rw [if_neg hshort]
    have hmoved : r.type = .asidPool →
        (m1.buildObjects ut r.type slotCount r.count.toNat).1.kasidNext ≠ m.kasidNext := by
      intro htype
      rw [htype] at htrue ⊢
      rw [hpools.2 htrue]
      simp only [kasidPoolSize]
      omega
    generalize m1.buildObjects ut r.type slotCount r.count.toNat = built at htrue hmoved
    obtain ⟨m', objs, all⟩ := built
    cases htrue
    exact ⟨objs, b.start, b.stop, rfl, fun h => by simp [hbatch] at h, hmoved⟩

theorem carveRegion_spec (m : Memory) (ut : ObjId) (pageChild : Bool) (objArg : UInt64) :
    (m.carveRegion ut objArg pageChild).1.usedTop = (m.uts ut).usedTop ∧
    ((m.carveRegion ut objArg pageChild).2 ≠ 0 ↔
      (m.uts ut).pagesFit (if pageChild then 4096 else objArg) = true) ∧
    ((m.carveRegion ut objArg pageChild).2 ≠ 0 →
      (m.carveRegion ut objArg pageChild).1.used ≠ (m.uts ut).used) := by
  have hpages : ∀ size, ((m.uts ut).kuntypedBumpAllocPhysPage size).1.usedTop = (m.uts ut).usedTop ∧
      (((m.uts ut).kuntypedBumpAllocPhysPage size).2 ≠ 0 →
        ((m.uts ut).kuntypedBumpAllocPhysPage size).1.used ≠ (m.uts ut).used) := by
    intro size
    rcases (m.uts ut).kuntypedBumpAllocPhysPage_spec size with h | ⟨u, start, h, hc, -⟩
    · rw [h]
      exact ⟨rfl, fun hne => absurd rfl hne⟩
    · rw [h]
      refine ⟨(congrArg KUntyped.usedTop hc.eq :), fun _ heq => ?_⟩
      have heq' : u.used.toNat = (m.uts ut).used.toNat := congrArg UInt64.toNat heq
      have hstart := hc.start
      have hpos := hc.pos
      have hstop := hc.stop
      dsimp only at hstart hpos hstop
      omega
  cases pageChild with
  | false =>
    obtain ⟨htop, hused⟩ := hpages objArg
    exact ⟨htop, (m.uts ut).kuntypedBumpAllocPhysPage_ne_zero objArg, hused⟩
  | true =>
    obtain ⟨htop, hused⟩ := hpages 4096
    have hfits := (m.uts ut).kuntypedBumpAllocPhysPage_ne_zero 4096
    simp only [carveRegion, if_true, KUntyped.kuntypedAllocPageChild]
    generalize (m.uts ut).kuntypedBumpAllocPhysPage 4096 = c at htop hused hfits
    obtain ⟨u, phys⟩ := c
    by_cases hphys : phys = 0
    · simp only [hphys, if_true] at *
      exact ⟨htop, hfits, fun hne => absurd rfl hne⟩
    · simp only [if_neg hphys]
      exact ⟨htop, hfits, hused⟩

theorem placeRegion_used (hut : ut < m.ker.numObjs) {h : ObjId} {type : KObjType}
    {phys size : UInt64} {pageChild : Bool} :
    ((m.placeRegion ut h type phys size pageChild).uts ut).used = (m.uts ut).used := by
  have hinit := (Working.initUntyped_fields m hut type phys size).2.1
  have hadd : ∀ m' : Memory, ((m'.addRegion ut).uts ut).used = (m'.uts ut).used := by
    intro m'
    unfold Memory.addRegion
    split_ifs
    · change (Function.update m'.uts ut _ ut).used = _
      rw [Function.update_self]
    · rfl
  unfold Memory.placeRegion
  rw [hadd, ← hinit]
  cases pageChild <;> rfl

theorem withHeader_ne {u : KUntyped} {bytes p : UInt64}
    (h : u.kuntypedAllocChildTop bytes = (u.withHeader bytes, some p)) :
    (u.withHeader bytes).usedTop ≠ u.usedTop := by
  rcases u.kuntypedAllocChildTop_spec bytes with hnone | ⟨u', s, hsome, hc, -⟩
  · exact absurd (congrArg Prod.snd (h.symm.trans hnone)) nofun
  · rw [h] at hsome
    have hu : u.withHeader bytes = u' := congrArg Prod.fst hsome
    have hstart := hc.start
    have hstop := hc.stop
    have hpos := hc.pos
    rw [hu]
    exact fun heq => by rw [heq] at hstart; omega

theorem reaches_retypeRegion (hregion : isRegion r.type = true) (hut : ut < m.ker.numObjs)
    (hvspace : r.type = .vspace → r.objArg = 4096) :
    Reaches m ut r (m.retypeRegion sz ut r.objArg r.type (r.type = .vspace))
      (m.regionProgress sz ut r.objArg r.type) := by
  cases hh : m.hdrHost ut with
  | none =>
    simp only [regionProgress, Memory.retypeRegion, hh]
    exact ⟨_, by decide, rfl⟩
  | some h =>
    rcases (m.uts h).kuntypedAllocChildTop_eq (sz.object r.type) with ⟨hfits, p, htop⟩ | ⟨hfits, htop⟩
    · set m1 := (m.setUt h ((m.uts h).withHeader (sz.object r.type))).retain h with hm1
      have huts : m1.uts ut = if h = ut then (m.uts ut).withHeader (sz.object r.type) else m.uts ut := by
        by_cases heq : h = ut
        · subst heq
          rw [if_pos rfl]
          exact Function.update_self ..
        · rw [if_neg heq]
          exact Function.update_of_ne (Ne.symm heq) ..
      have hused : (m1.uts ut).used = (m.uts ut).used := by
        rw [huts]
        split_ifs <;> rfl
      have hpages : (if decide (r.type = .vspace) = true then 4096 else r.objArg) = r.objArg := by
        by_cases hv : r.type = .vspace <;> simp [hv, hvspace]
      obtain ⟨hkept, hphys, hmoved⟩ := carveRegion_spec m1 ut (r.type = .vspace) r.objArg
      rw [hpages, huts] at hphys
      rw [hused] at hmoved
      rcases hcarve : m1.carveRegion ut r.objArg (r.type = .vspace) with ⟨u, phys⟩
      rw [hcarve] at hkept hphys hmoved
      have heq := hcarve
      unfold carveRegion at heq
      simp only [regionProgress, Memory.retypeRegion, hh, hfits, htop, ← hm1, heq, Bool.not_true,
        Bool.false_eq_true, if_false]
      by_cases hzero : phys = 0
      · have hno : (if h = ut then (m.uts ut).withHeader (sz.object r.type)
            else m.uts ut).pagesFit r.objArg ≠ true := fun hyes => hphys.mpr hyes hzero
        rw [if_neg hno, if_pos hzero]
        refine ⟨⟨_, by decide, rfl⟩, fun f hf => ?_, h, .inr hh, fun hsame => ?_⟩
        · simp only [releaseChild, List.mem_singleton] at hf
          rw [hf]
          rfl
        · -- The header stays carved, whether its host is the Untyped or the device's budget.
          have hhost : ((m1.setUt ut u).uts h).usedTop =
              ((m.uts h).withHeader (sz.object r.type)).usedTop := by
            change (Function.update m1.uts ut u h).usedTop = _
            by_cases heq : h = ut
            · subst heq
              rw [Function.update_self]
              refine hkept.trans ?_
              rw [huts, if_pos rfl]
            · rw [Function.update_of_ne heq]
              exact congrArg KUntyped.usedTop (Function.update_self ..)
          have hsame : (Function.update (m1.setUt ut u).uts h _ h).usedTop = (m.uts h).usedTop :=
            congrArg (fun x => x.2.1) hsame
          rw [Function.update_self] at hsame
          exact withHeader_ne htop (hhost.symm.trans hsame)
      · rw [if_pos (hphys.mp hzero), if_neg hzero]
        have hnum : ut < (m1.setUt ut u).ker.numObjs :=
          hut.trans_le (Touches.hold m.ker h).moreObjs.numObjs
        refine ⟨_, _, _, rfl, fun _ => ⟨rfl, rfl, ?_⟩, fun htype => by simp [htype, isRegion] at hregion⟩
        rw [placeRegion_used hnum]
        change (Function.update m1.uts ut u ut).used ≠ _
        rw [Function.update_self]
        exact hmoved hzero
    · simp only [regionProgress, Memory.retypeRegion, hh, hfits, htop]
      exact ⟨_, by decide, rfl⟩

theorem createObjects_reaches (sz : Sizes) (r : RetypeReq) (payload : UInt64)
    (hut : ut < m.ker.numObjs) :
    Reaches m ut r (m.createObjects sz ut r payload) (m.progress sz ut r payload) := by
  have hcase := m.createObjects_cases sz ut r payload
  generalize m.createObjects sz ut r payload = c at hcase
  cases hcase with
  | refused hne hregion hram =>
    simp only [progress, hregion, if_true, if_neg hram]
    exact ⟨_, hne, rfl⟩
  | region hregion hram =>
    simp only [progress, hregion, if_true, if_pos hram]
    refine reaches_retypeRegion hregion hut fun hvspace => ?_
    rw [hvspace] at hram
    exact hram.elim nofun fun h => h.elim nofun And.left
  | batch hbatch => exact reaches_createBatch hbatch

theorem Reaches.made {c : Created} {p : Progress} {x : List ObjId × UInt64 × UInt64}
    (h : Reaches m ut r c p) (hok : c.result = .ok x) : p = .made := by
  cases p with
  | refused =>
    obtain ⟨e, -, rfl⟩ := h
    cases hok
  | halfway =>
    obtain ⟨⟨e, -, heq⟩, -⟩ := h
    cases heq.symm.trans hok
  | made => rfl

theorem Reaches.gaveUp {c : Created} {p : Progress} (h : Reaches m ut r c p)
    (he : c.result = .error e) : e ≠ .ok ∧ (∀ f ∈ c.calls, f.keepsCarves = true) ∧
      (p = .refused ∧ c = { mem := m, result := .error e } ∨
        p = .halfway ∧ ∃ u, (u = ut ∨ m.hdrHost ut = some u) ∧ c.mem.carves u ≠ m.carves u) := by
  cases p with
  | refused =>
    obtain ⟨e', hne, rfl⟩ := h
    cases he
    exact ⟨hne, nofun, .inl ⟨rfl, rfl⟩⟩
  | halfway =>
    obtain ⟨⟨e', hne, heq⟩, hcalls, hleft⟩ := h
    cases heq.symm.trans he
    exact ⟨hne, hcalls, .inr ⟨rfl, hleft⟩⟩
  | made =>
    obtain ⟨objs, start, stop, heq, -⟩ := h
    cases heq.symm.trans he

end
end IrisOS.Untyped
