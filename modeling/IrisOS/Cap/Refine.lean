import IrisOS.Cap.Graph

/-! The entry points refine the abstract capability system: each of them removes, puts in or
renames capabilities of the forest its state lays out. -/
namespace IrisOS.Cap
open Lib Kernel Function List KCSlot Equiv

/-! ## Putting a capability in -/

section
variable {σ : Kernel} {F : Forest SlotRef} {cn obj : ObjId} {idx : ℕ} {rights : Rights}
  {badge : UInt64} {unparented : Bool}

/-- The flags of a capability with and without a parent. -/
def installFlags (parent : Option (ObjId × ℕ)) (unparented : Bool) : UInt32 :=
  if parent.isNone && unparented then mdbFlagUnparented else 0

section

variable (parent : Option (ObjId × ℕ))
include parent

theorem fillSlot_slots :
    (σ.fillSlot cn idx obj rights badge parent unparented).slots =
      update σ.slots (.slot cn idx)
        { σ.slots (.slot cn idx) with
          object := some obj
          rights
          badge
          mdbCnode := some cn
          mdbFlags := installFlags parent unparented } := by
  cases parent with
  | none => cases unparented <;> rfl
  | some p => rfl

theorem fillSlot_mdb :
    (σ.fillSlot cn idx obj rights badge parent unparented).mdb = match parent with
      | some (pcn, pidx) => mdbLinkChild σ.mdb (.slot pcn pidx) (.slot cn idx)
      | none => σ.mdb.setParent (.slot cn idx) none := by
  cases parent with
  | none => rfl
  | some p => rfl

theorem fillSlot_rest :
    (σ.fillSlot cn idx obj rights badge parent unparented).objs = σ.objs ∧
    (σ.fillSlot cn idx obj rights badge parent unparented).numObjs = σ.numObjs := by
  cases parent with
  | none => exact ⟨rfl, rfl⟩
  | some p => exact ⟨rfl, rfl⟩

theorem fillSlot_occupied (x : SlotRef) :
    (σ.fillSlot cn idx obj rights badge parent unparented).occupied x =
      if x = .slot cn idx then true else σ.occupied x := by
  by_cases hx : x = .slot cn idx
  · simp [occupied, fillSlot_slots, hx]
  · simp [occupied, fillSlot_slots, hx]

theorem fillSlot_caps :
    (σ.fillSlot cn idx obj rights badge parent unparented).caps =
      update σ.caps (.slot cn idx)
        (some ⟨obj, rights, badge, installFlags parent unparented⟩) := by
  funext x
  by_cases hx : x = .slot cn idx
  · simp [caps, fillSlot_slots, hx, cap]
  · simp [caps, fillSlot_slots, hx]

end

section

variable (h : Wf σ F) (hex : σ.slotExists cn idx = true)
include h hex

theorem Wf.fill (parent : Option (ObjId × ℕ))
    {F' : Forest SlotRef}
    (hR : Represents (σ.fillSlot cn idx obj rights badge parent unparented).mdb F'.kids)
    (hmem : ∀ x, F'.Mem x ↔ x = .slot cn idx ∨ F.Mem x) :
    Wf (σ.fillSlot cn idx obj rights badge parent unparented) F' := by
  obtain ⟨hobjs, hnum⟩ : _ ∧ _ :=
    @fillSlot_rest σ cn obj idx rights badge unparented parent
  refine ⟨hR, fun x => ?_, fun x hx => ?_, fun x hx => ?_, ?_, ?_⟩
  · rw [hmem, h.mem_iff, fillSlot_occupied]
    by_cases hx : x = .slot cn idx <;> simp [hx]
  · rw [fillSlot_occupied] at hx
    have hxs : x ≠ .slot cn idx := fun e => by simp [e] at hx
    rw [fillSlot_slots, update_of_ne hxs]
    exact h.empty x (by simpa [hxs] using hx)
  · rw [fillSlot_occupied] at hx
    by_cases hxs : x = .slot cn idx
    · refine ⟨cn, idx, hxs, ?_, ?_⟩
      · simp [fillSlot_slots, hxs]
      · simpa [slotExists, isCNode, hobjs] using hex
    · obtain ⟨cn', idx', rfl, hcn, hex'⟩ := h.home x (by simpa [hxs] using hx)
      refine ⟨cn', idx', rfl, ?_, ?_⟩
      · simpa [fillSlot_slots, hxs] using hcn
      · simpa [slotExists, isCNode, hobjs] using hex'
  · rw [hobjs, hnum]
    exact h.fresh
  · rw [hobjs]
    exact h.bare

theorem Wf.fillSlot_child
    (hs : σ.occupied (.slot cn idx) = false) {pcn : ObjId} {pidx : ℕ}
    (hp : σ.occupied (.slot pcn pidx) = true) :
    Wf (σ.fillSlot cn idx obj rights badge (some (pcn, pidx)) unparented)
      (F.insert (.node (.slot pcn pidx)) (.slot cn idx) (h.not_mem hs)
        (by rintro q ⟨⟩; exact h.mem hp)) := by
  refine h.fill hex _ ?_ fun x => F.mem_insert _ _
  exact mdbLinkChild_represents h.layout (h.not_mem hs) (h.mem hp)

theorem Wf.fillSlot_root
    (hs : σ.occupied (.slot cn idx) = false) {k : ℕ} (hk : F.kids (.top k) = []) :
    Wf (σ.fillSlot cn idx obj rights badge none unparented)
      (F.insert (.top k) (.slot cn idx) (h.not_mem hs) (by simp)) := by
  refine h.fill hex _ ?_ fun x => F.mem_insert _ _
  have hempty : σ.mdb (.slot cn idx) = Links.empty :=
    h.layout.outside fun n hn => h.not_mem hs ⟨n, hn⟩
  have hsame : σ.mdb.setParent (.slot cn idx) none = σ.mdb := by
    rw [LinkHeap.setParent, update_eq_self_iff, hempty]
    rfl
  rw [fillSlot_mdb, hsame]
  change Represents σ.mdb (update F.kids _ (_ :: F.kids (.top k)))
  rw [hk]
  exact h.layout.insertTop (h.not_mem hs) hk

end

end

namespace KCSlot

/-- The capability in a slot, wherever the slot is. -/
def unplaced (s : KCSlot) : KCSlot := { s with mdbCnode := none }

def unguarded (s : KCSlot) : KCSlot := { s with guard := 0, guardBits := 0 }

end KCSlot

/-! ## Relocating a capability -/

/-- Well-formed but for the temporary of a swap, which may be in use. -/
structure WfTmp (σ : Kernel) (F : Forest SlotRef) : Prop where
  layout : Represents σ.mdb F.kids
  mem_iff : ∀ s, F.Mem s ↔ σ.occupied s = true
  empty : ∀ s, σ.occupied s = false → σ.slots s = KCSlot.empty
  home : ∀ s, s ≠ .tmp → σ.occupied s = true → ∃ cn idx, s = .slot cn idx ∧
    (σ.slots s).mdbCnode = some cn ∧ σ.slotExists cn idx = true
  fresh : ∀ o, (σ.objs o).live = true → o < σ.numObjs
  bare : ∀ o, (σ.objs o).type ≠ .cnode → (σ.objs o).slotCount = 0
  bounded : F.BoundedBy σ.capacity

theorem Wf.wfTmp {σ : Kernel} {F : Forest SlotRef} (h : Wf σ F) : WfTmp σ F :=
  ⟨h.layout, h.mem_iff, h.empty, fun s _ => h.home s, h.fresh, h.bare, h.boundedBy⟩

theorem ne_of_occupied {σ : Kernel} {src dst : SlotRef} (hsrc : σ.occupied src = true)
    (hdst : σ.occupied dst = false) : src ≠ dst := by
  rintro rfl
  rw [hsrc] at hdst
  cases hdst

namespace WfTmp
variable {σ : Kernel} {F : Forest SlotRef} {src dst : SlotRef} {dstCn : ObjId}

theorem wf (h : WfTmp σ F) (ht : σ.occupied .tmp = false) : Wf σ F := by
  exact ⟨h.layout, h.mem_iff, h.empty, fun s hs => h.home s (ne_of_occupied hs ht) hs, h.fresh,
    h.bare⟩

theorem occupied_relocate (hne : src ≠ dst) (hdst : σ.occupied dst = false) (x : SlotRef) :
    (σ.mdbRelocate src dst dstCn).occupied x = σ.occupied (Equiv.swap src dst x) := by
  unfold occupied at *
  by_cases hxs : x = src
  · subst hxs
    simp [mdbRelocate, KCSlot.empty, hdst]
  · by_cases hxd : x = dst
    · subst hxd
      simp [mdbRelocate, hne.symm]
    · simp [mdbRelocate, hxs, hxd, swap_apply_of_ne_of_ne hxs hxd]

theorem caps_relocate (hne : src ≠ dst) (hdst : σ.occupied dst = false) (x : SlotRef) :
    (σ.mdbRelocate src dst dstCn).caps x = σ.caps (Equiv.swap src dst x) := by
  have hd : (σ.slots dst).object = none := by simpa [occupied] using hdst
  by_cases hxs : x = src
  · subst hxs
    simp [caps, mdbRelocate, KCSlot.cap, KCSlot.empty, hd]
  · by_cases hxd : x = dst
    · subst hxd
      simp [caps, mdbRelocate, hne.symm, cap]
    · simp [caps, mdbRelocate, hxs, hxd, swap_apply_of_ne_of_ne hxs hxd]

theorem boundedBy_rename {N : ℕ} (h : F.BoundedBy N) (e : Equiv.Perm SlotRef) :
    (F.rename e).BoundedBy N := by
  intro l hl hm
  have := h (l.map e.symm) (hl.map e.symm.injective) fun x hx => by
    obtain ⟨y, hy, rfl⟩ := mem_map.mp hx
    exact (Forest.mem_rename e).mp (hm y hy)
  simpa using this

theorem relocate (h : WfTmp σ F) (hsrc : σ.occupied src = true) (hdst : σ.occupied dst = false)
    (hhome : dst = .tmp ∨ ∃ idx, dst = .slot dstCn idx ∧ σ.slotExists dstCn idx = true) :
    WfTmp (σ.mdbRelocate src dst dstCn) (F.rename (Equiv.swap src dst)) := by
  have hne := ne_of_occupied hsrc hdst
  have hm : ¬ F.Mem dst := fun hm => by
    rw [(h.mem_iff dst).mp hm] at hdst
    cases hdst
  refine ⟨?_, fun x => ?_, fun x hx => ?_, fun x hxt hx => ?_, h.fresh, h.bare,
    boundedBy_rename h.bounded _⟩
  · change Represents (relocateLinks σ.capacity σ.mdb src dst) _
    rw [relocateLinks_eq_rename h.layout h.bounded ((h.mem_iff src).mpr hsrc) hm]
    exact h.layout.rename _
  · rw [Forest.mem_rename, h.mem_iff, occupied_relocate hne hdst, symm_swap]
  · rw [occupied_relocate hne hdst] at hx
    by_cases hxs : x = src
    · simp [mdbRelocate, hxs]
    by_cases hxd : x = dst
    · rw [hxd, swap_apply_right, hsrc] at hx
      cases hx
    · rw [swap_apply_of_ne_of_ne hxs hxd] at hx
      simpa [mdbRelocate, hxs, hxd] using h.empty x hx
  · rw [occupied_relocate hne hdst] at hx
    by_cases hxs : x = src
    · rw [hxs, swap_apply_left, hdst] at hx
      cases hx
    by_cases hxd : x = dst
    · obtain rfl | ⟨idx, rfl, hex⟩ := hhome
      · exact (hxt hxd).elim
      · exact ⟨dstCn, idx, hxd, by simp [mdbRelocate, hxd, hne.symm], hex⟩
    · rw [swap_apply_of_ne_of_ne hxs hxd] at hx
      obtain ⟨cn, idx, rfl, hcn, hex⟩ := h.home x hxt hx
      exact ⟨cn, idx, rfl, by simpa [mdbRelocate, hxs, hxd] using hcn, hex⟩

end WfTmp

/-! ## The entry points -/

/-- The state `τ` lays out a forest that steps of the abstract system make of the forest of
`σ`. -/
def Refines (J : CapGraph → Option SlotRef → Capability → Prop) (σ : Kernel)
    (F : Forest SlotRef) (τ : Kernel) : Prop :=
  ∃ F', Wf τ F' ∧ CapSteps J ⟨F, σ.caps⟩ ⟨F', τ.caps⟩

section
variable {J : CapGraph → Option SlotRef → Capability → Prop} {σ τ υ : Kernel}
  {F : Forest SlotRef} {hooks : Hooks}

theorem Kept.caps (h : Kept σ τ) : τ.caps = σ.caps := by
  funext s
  simp [Kernel.caps, h.slots]

variable {s : SlotRef} {cn obj : ObjId} {parent : Option (ObjId × ℕ)} {expect : Option ObjId}
  {src dst : SlotRef}

theorem Wf.mem_of_caps (hw : Wf σ F) {c : Capability} (h : σ.caps s = some c) : F.Mem s := by
  refine hw.mem ?_
  obtain ⟨o, ho, -⟩ := Option.map_eq_some_iff.mp h
  simp [occupied, ho]

theorem Kept.returning (h : Kept σ τ) (e : IrisError) : Kept σ (τ.returning e) :=
  h.trans (.of_objs rfl rfl rfl rfl fun _ => ⟨rfl, rfl, rfl⟩)

theorem Kept.takeRefs (σ : Kernel) (cn obj : ObjId) : Kept σ (σ.takeRefs cn obj) := by
  unfold Kernel.takeRefs
  split
  · exact .kobjectRetain σ obj
  · exact (Kept.kobjectRetain σ obj).trans (.kobjectActiveRetain _ obj)

theorem Kept.refines (h : Kept σ τ) (hw : Wf σ F) : Refines J σ F τ := by
  refine ⟨F, h.wf hw, ?_⟩
  rw [h.caps]

theorem Effect.refines (h : Effect σ τ) (hw : Wf σ F) : Refines J σ F τ := by
  obtain ⟨F', hw', hp⟩ := h.prunes hw
  exact ⟨F', hw', hp.capSteps⟩

theorem Refines.kept (h : Refines J σ F τ) (hk : Kept τ υ) : Refines J σ F υ := by
  obtain ⟨F', hw', hs⟩ := h
  refine ⟨F', hk.wf hw', ?_⟩
  rw [hk.caps]
  exact hs

theorem takeRefs_objs (σ : Kernel) (cn obj o : ObjId) :
    ((σ.takeRefs cn obj).objs o).live = (σ.objs o).live ∧
      ((σ.takeRefs cn obj).objs o).type = (σ.objs o).type ∧
      ((σ.takeRefs cn obj).objs o).slotCount = (σ.objs o).slotCount ∧
      (σ.objs o).refcount ≤ ((σ.takeRefs cn obj).objs o).refcount := by
  unfold takeRefs kobjectRetain kobjectActiveRetain irisAssert
  by_cases ho : o = obj
  · subst ho
    split_ifs <;> simp [setObj, stop]
  · split_ifs <;> simp [setObj, stop, ho]

theorem slotExists_takeRefs (σ : Kernel) (cn obj c : ObjId) (i : ℕ) :
    (σ.takeRefs cn obj).slotExists c i = σ.slotExists c i := by
  obtain ⟨h1, h2, h3, -⟩ := takeRefs_objs σ cn obj c
  simp only [slotExists, isCNode, h1, h2, h3]

theorem panic_takeRefs (h : 1 ≤ (σ.objs obj).refcount) : (σ.takeRefs cn obj).panic = σ.panic := by
  unfold takeRefs kobjectRetain kobjectActiveRetain irisAssert
  split_ifs <;> rfl

theorem kcnodeSlotInstallLinked_ok {idx : ℕ} {rights : Rights} {badge : UInt64} {unparented : Bool}
    (hex : σ.slotExists cn idx = true) (hfree : σ.occupied (.slot cn idx) = false)
    (hobj : (σ.objs obj).live = true) (href : 1 ≤ (σ.objs obj).refcount)
    (hrights : rights ≠ rightNone) (hparent : ∀ p, parent = some p → σ.slotExists p.1 p.2 = true ∧
      σ.occupied (.slot p.1 p.2) = true ∧ (expect = none ∨ (σ.slots (.slot p.1 p.2)).object = expect)) :
    σ.kcnodeSlotInstallLinked cn idx obj rights badge parent expect true unparented =
      (((σ.takeRefs cn obj).fillSlot cn idx obj rights badge parent unparented).returning .ok, []) := by
  have hkept := Kept.takeRefs σ cn obj
  have hcn : σ.isCNode cn = true := by
    simp only [slotExists, Bool.and_eq_true] at hex
    exact hex.1
  have hpar : (parent.any fun p => !σ.slotExists p.1 p.2) = false := by
    cases parent with
    | none => rfl
    | some p => simp [(hparent p rfl).1]
  have hex' : (σ.takeRefs cn obj).slotExists cn idx = true := by rw [slotExists_takeRefs, hex]
  have hrefused : (σ.takeRefs cn obj).parentRefused (.slot cn idx) expect parent = false := by
    cases parent with
    | none => rfl
    | some p =>
      obtain ⟨-, hocc, hexp⟩ := hparent p rfl
      have hne : SlotRef.slot p.1 p.2 ≠ .slot cn idx := by
        intro e
        rw [e, hfree] at hocc
        cases hocc
      rcases hexp with rfl | hexp
      · simp [parentRefused, hkept.occupied, hocc, hne]
      · simp [parentRefused, hkept.occupied, hocc, hne, hkept.slots, hexp]
  have href' : ¬ (σ.objs obj).refcount < 1 := not_lt.mpr href
  simp [kcnodeSlotInstallLinked, hcn, hobj, hrights, hpar, href', installUnderLock,
    hex', hrefused, hkept.occupied, hfree, dropOldCalls]

/-- The arguments of `kcnode_slot_install_linked`. -/
structure Install where
  cn : ObjId
  idx : ℕ
  obj : ObjId
  rights : Rights
  badge : UInt64
  parent : Option (ObjId × ℕ)
  expect : Option ObjId
  exclusive : Bool
  unparented : Bool

def Kernel.install (σ : Kernel) (r : Install) : Kernel × List Call :=
  σ.kcnodeSlotInstallLinked r.cn r.idx r.obj r.rights r.badge r.parent r.expect r.exclusive
    r.unparented

/-- The checks before an install takes references. -/
def Kernel.TakesRefs (σ : Kernel) (r : Install) : Prop :=
  σ.isCNode r.cn = true ∧ (σ.objs r.obj).live = true ∧ r.rights ≠ rightNone ∧
    (∀ p ∈ r.parent, σ.slotExists p.1 p.2 = true) ∧
    (r.exclusive = false → σ.slotExists r.cn r.idx = true) ∧ 1 ≤ (σ.objs r.obj).refcount

/-- The checks after that, of which one fails. -/
def Kernel.refuses (σ : Kernel) (r : Install) : Bool :=
  !σ.slotExists r.cn r.idx || σ.parentRefused (.slot r.cn r.idx) r.expect r.parent ||
    r.exclusive && σ.occupied (.slot r.cn r.idx)

instance (σ : Kernel) (r : Install) : Decidable (σ.TakesRefs r) :=
  inferInstanceAs (Decidable (_ ∧ _))

/-- What an install finds when it fills its slot: what it started with, but for the overwritten one.
-/
structure Fits (σ : Kernel) (F : Forest SlotRef) (parent : Option (ObjId × ℕ))
    (expect : Option ObjId) (exclusive : Bool) (G : CapGraph) : Prop where
  same : exclusive = true → G = ⟨F, σ.caps⟩
  sub : ∀ x c, G.cap x = some c → σ.caps x = some c
  parent : ∀ pcn pidx, parent = some (pcn, pidx) → ∃ pc, G.cap (.slot pcn pidx) = some pc ∧
    ∀ o, expect = some o → pc.object = o

theorem fits_of_not_refused (h : τ.parentRefused s expect parent = false) (pcn : ObjId) (pidx : ℕ)
    (hp : parent = some (pcn, pidx)) : τ.occupied (.slot pcn pidx) = true ∧
      ∃ pc, τ.caps (.slot pcn pidx) = some pc ∧ ∀ o, expect = some o → pc.object = o := by
  subst hp
  simp only [parentRefused, Bool.or_eq_false_iff, Bool.not_eq_false'] at h
  obtain ⟨⟨hocc, -⟩, hexp⟩ := h
  obtain ⟨o, ho⟩ := Option.isSome_iff_exists.mp hocc
  refine ⟨hocc, _, by rw [caps, cap, ho, Option.map_some], fun o' ho' => ?_⟩
  subst ho'
  simpa [ho] using hexp

/-- The state in which an install comes to fill its slot, and what it has taken out of that. -/
inductive Taken (σ : Kernel) (r : Install) : Kernel → Option ObjId → Prop
  | exclusive (h : r.exclusive = true) : Taken σ r (σ.takeRefs r.cn r.obj) none
  | overwrite (h : r.exclusive = false) :
      Taken σ r ((σ.takeRefs r.cn r.obj).slotDeleteLocked r.cn r.idx).1
        ((σ.takeRefs r.cn r.obj).slotDeleteLocked r.cn r.idx).2

/-- What `kcnode_slot_install_linked` can do. -/
inductive Installed (σ : Kernel) (r : Install) : Kernel × List Call → Prop
  | refused {e : IrisError} (he : e ≠ .ok) (hno : ¬ σ.TakesRefs r) : Installed σ r (σ.fail e)
  | stopped (hlive : (σ.objs r.obj).live = true) (href : (σ.objs r.obj).refcount < 1) :
      Installed σ r (σ.kobjectRetain r.obj, [])
  | undone {τ old} {e : IrisError} (htakes : σ.TakesRefs r) (ht : Taken σ r τ old) (he : e ≠ .ok)
      (hfull : τ.slotExists r.cn r.idx = true →
        τ.parentRefused (.slot r.cn r.idx) r.expect r.parent = false →
        τ.occupied (.slot r.cn r.idx) = true) :
      Installed σ r (τ.returning e, dropOldCalls r.cn old ++ dropRefsCalls r.cn r.obj)
  | filled {τ old} (htakes : σ.TakesRefs r) (ht : Taken σ r τ old)
      (hex : τ.slotExists r.cn r.idx = true)
      (hparent : τ.parentRefused (.slot r.cn r.idx) r.expect r.parent = false)
      (hfree : τ.occupied (.slot r.cn r.idx) = false) :
      Installed σ r ((τ.fillSlot r.cn r.idx r.obj r.rights r.badge r.parent r.unparented).returning
        .ok, dropOldCalls r.cn old)

theorem install_installed (σ : Kernel) (r : Install) : Installed σ r (σ.install r) := by
  have hlock : ∀ {τ old}, σ.TakesRefs r → Taken σ r τ old → Installed σ r
      (τ.installUnderLock r.cn r.idx r.obj r.rights r.badge r.parent r.expect r.unparented old) := by
    intro τ old htakes ht
    simp only [installUnderLock]
    split_ifs with hex hparent hocc
    · exact .undone htakes ht nofun fun h => by simp [h] at hex
    · exact .undone htakes ht nofun fun _ h => by simp [h] at hparent
    · exact .undone htakes ht nofun fun _ _ => hocc
    · exact .filled htakes ht (by simpa using hex) (by simpa using hparent) (by simpa using hocc)
  simp only [install, kcnodeSlotInstallLinked]
  split_ifs with hargs hparent hslot href hexcl
  · refine .refused nofun fun h => ?_
    simp [h.1, h.2.1, h.2.2.1] at hargs
  · refine .refused nofun fun h => ?_
    cases hp : r.parent with
    | none => simp [hp] at hparent
    | some p => simp [hp, h.2.2.2.1 p hp] at hparent
  · refine .refused nofun fun h => ?_
    cases he : r.exclusive with
    | false => simp [he, h.2.2.2.2.1 he] at hslot
    | true => simp [he] at hslot
  all_goals
    simp only [Bool.or_eq_true, Bool.not_eq_true', not_or, Bool.not_eq_false,
      decide_eq_true_eq] at hargs
  · exact .stopped hargs.1.2 href
  all_goals
    have htakes : σ.TakesRefs r := by
      refine ⟨hargs.1.1, hargs.1.2, hargs.2, fun p hp => ?_, fun he => ?_, not_lt.mp href⟩
      · rw [Option.mem_def] at hp
        simpa [hp] using hparent
      · simpa [he] using hslot
  · exact hlock htakes (.exclusive hexcl)
  · exact hlock htakes (.overwrite (by simpa using hexcl))

theorem Taken.refines {r : Install} {old : Option ObjId} (h : Taken σ r τ old) (hw : Wf σ F) :
    ∃ F', Wf τ F' ∧ CapSteps J ⟨F, σ.caps⟩ ⟨F', τ.caps⟩ ∧
      (r.exclusive = true → (⟨F', τ.caps⟩ : CapGraph) = ⟨F, σ.caps⟩) ∧
      ∀ x c, τ.caps x = some c → σ.caps x = some c := by
  have hk := Kept.takeRefs σ r.cn r.obj
  cases h with
  | exclusive =>
    rw [hk.caps]
    exact ⟨F, hk.wf hw, .refl, fun _ => rfl, fun _ _ => id⟩
  | overwrite hexcl =>
    obtain ⟨F1, hw1, hp1⟩ := (slotDeleteLocked_effect (hk.wf hw) r.cn r.idx).1.prunes (hk.wf hw)
    refine ⟨F1, hw1, ?_, fun h => by simp [hexcl] at h, fun x c hc => ?_⟩
    · have hrem : CapSteps J ⟨F, (σ.takeRefs r.cn r.obj).caps⟩ ⟨F1, _⟩ := hp1.capSteps
      rwa [hk.caps] at hrem
    · rw [← hk.caps, ← hc]
      exact congrArg cap (hp1.content (hw1.mem_of_caps hc)).symm

theorem Installed.refines {r : Install} {x : Kernel × List Call} (h : Installed σ r x) (hw : Wf σ F)
    (hJ : ∀ G, Fits σ F r.parent r.expect r.exclusive G → J G (r.parent.map fun p => .slot p.1 p.2)
      ⟨r.obj, r.rights, r.badge, installFlags r.parent r.unparented⟩) : Refines J σ F x.1 := by
  obtain ⟨cn, idx, obj, rights, badge, parent, expect, exclusive, unparented⟩ := r
  cases h with
  | refused => exact ((Kept.refl σ).returning _).refines hw
  | stopped => exact (Kept.kobjectRetain σ obj).refines hw
  | undone _ ht =>
    obtain ⟨F', hw', hs, -⟩ := ht.refines (J := J) hw
    exact Refines.kept ⟨F', hw', hs⟩ ((Kept.refl _).returning _)
  | @filled τ old _ ht hex hparent hfree =>
    obtain ⟨F', hw', hs, hsame, hsub⟩ := ht.refines (J := J) hw
    have hfits := fits_of_not_refused hparent
    have hJ := hJ ⟨F', τ.caps⟩ ⟨hsame, hsub, fun pcn pidx hp => (hfits pcn pidx hp).2⟩
    refine Refines.kept ?_ ((Kept.refl _).returning .ok)
    cases parent with
    | none =>
      obtain ⟨k, hk⟩ := F'.exists_top_empty
      refine ⟨_, hw'.fillSlot_root hex hfree hk, hs.tail ?_⟩
      rw [fillSlot_caps]
      exact .root (hw'.not_mem hfree) hk hJ
    | some p =>
      have hp := (hfits p.1 p.2 rfl).1
      refine ⟨_, hw'.fillSlot_child hex hfree hp, hs.tail ?_⟩
      rw [fillSlot_caps]
      exact .child (hw'.not_mem hfree) (hw'.mem hp) hJ

/-! ### Relocation -/

/-- Relocations one after the other, each to a free slot: the slots named, and where each content is
in the end. -/
inductive Shuffled (σ : Kernel) : List SlotRef → Equiv.Perm SlotRef → Kernel → Prop
  | refl : Shuffled σ [] (Equiv.refl _) σ
  | relocate {l e τ src dst} (dstCn : ObjId) (before : Shuffled σ l e τ)
      (hsrc : τ.occupied src = true) (hdst : τ.occupied dst = false)
      (hhome : dst = .tmp ∨ ∃ idx, dst = .slot dstCn idx ∧ τ.slotExists dstCn idx = true) :
      Shuffled σ (src :: dst :: l) (e.trans (Equiv.swap src dst)) (τ.mdbRelocate src dst dstCn)

variable {e : Equiv.Perm SlotRef}

theorem Shuffled.wfTmp {l : List SlotRef} (h : Shuffled σ l e τ)
    (hw : Wf σ F) : ∃ F', WfTmp τ F' ∧ CapSteps J ⟨F, σ.caps⟩ ⟨F', τ.caps⟩ := by
  induction h with
  | refl => exact ⟨F, hw.wfTmp, .refl⟩
  | @relocate l e τ src dst dstCn _ hsrc hdst hhome ih =>
    obtain ⟨F', hw', hs⟩ := ih
    refine ⟨_, hw'.relocate hsrc hdst hhome, hs.tail ?_⟩
    have hcaps : (τ.mdbRelocate src dst dstCn).caps =
        fun x => τ.caps ((swap src dst).symm x) := by
      funext x
      rw [WfTmp.caps_relocate (ne_of_occupied hsrc hdst) hdst, symm_swap]
    rw [hcaps]
    exact .rename ⟨F', τ.caps⟩ _

section
variable {l : List SlotRef} {x : SlotRef}

section

variable (h : Shuffled σ l e τ)
include h

theorem Shuffled.outside (hx : x ∉ l) : e x = x ∧ τ.slots x = σ.slots x := by
  induction h with
  | refl => exact ⟨rfl, rfl⟩
  | @relocate l e τ src dst dstCn _ _ _ _ ih =>
    simp only [mem_cons, not_or] at hx
    obtain ⟨he, hs⟩ := ih hx.2.2
    refine ⟨?_, ?_⟩
    · rw [trans_apply, he, swap_apply_of_ne_of_ne hx.1 hx.2.1]
    · simp [mdbRelocate, hx.1, hx.2.1, hs]

theorem Shuffled.content (hw : Wf σ F) (x : SlotRef) :
    (τ.slots (e x)).unplaced =
      if x ∈ l then (σ.slots x).unplaced.unguarded else (σ.slots x).unplaced := by
  induction h with
  | refl => simp
  | @relocate l e τ src dst dstCn before hsrc hdst _ ih =>
    obtain ⟨F', hw', -⟩ := before.wfTmp (J := fun _ _ _ => True) hw
    have hempty := hw'.empty dst hdst
    have hne := ne_of_occupied hsrc hdst
    have hsame : ∀ y, e x = y → (τ.slots y).unplaced.unguarded = (σ.slots x).unplaced.unguarded := by
      rintro _ rfl
      rw [ih]
      split_ifs <;> rfl
    have hmem : x ∈ src :: dst :: l ↔ e x = src ∨ e x = dst ∨ x ∈ l := by
      by_cases hx : x ∈ l
      · simp [hx]
      · simp [hx, (before.outside hx).1]
    rw [trans_apply]
    by_cases hs : e x = src
    · rw [if_pos (hmem.2 (.inl hs)), ← hsame src hs, hs, swap_apply_left]
      simp [mdbRelocate, hne.symm, hempty, unplaced, unguarded, empty]
    by_cases hd : e x = dst
    · rw [if_pos (hmem.2 (.inr (.inl hd))), ← hsame dst hd, hd, swap_apply_right, hempty]
      simp [mdbRelocate, unplaced, unguarded, empty]
    · simp only [hmem, hs, hd, false_or, swap_apply_of_ne_of_ne hs hd]
      rw [← ih]
      simp [mdbRelocate, hs, hd]

theorem Shuffled.object (hw : Wf σ F) (x : SlotRef) :
    (τ.slots (e x)).object = (σ.slots x).object := by
  have := congrArg KCSlot.object (h.content hw x)
  split_ifs at this <;> exact this

theorem Shuffled.vacant (hw : Wf σ F) (x : SlotRef) : τ.occupied (e x) = σ.occupied x := by
  rw [occupied, h.object hw, occupied]

end

end

/-- An entry point that relocates capabilities refuses, or shuffles the named slots that hold one,
which takes a capability to where `e` says. -/
def Shuffles (σ : Kernel) (named : List SlotRef) (e : Equiv.Perm SlotRef) (r : Kernel × List Call) :
    Prop :=
  (∃ err ≠ .ok, r = σ.fail err) ∨
    ∃ l e' τ st, Shuffled σ l e' τ ∧ τ.occupied .tmp = false ∧ l ⊆ .tmp :: named ∧
      (∀ x ∈ named, σ.occupied x = true → x ∈ l) ∧ (∀ x, σ.occupied x = true → e' x = e x) ∧
      r = ({ τ with stats := st }.returning .ok, [])

theorem Shuffles.refused {err : IrisError}
    (h : err ≠ .ok) : Shuffles σ named e (σ.fail err) := .inl ⟨err, h, rfl⟩

theorem Shuffles.refines (h : Shuffles σ named e r) (hw : Wf σ F) : Refines J σ F r.1 := by
  obtain ⟨err, -, rfl⟩ | ⟨l, e', τ, st, hs, ht, -, -, -, rfl⟩ := h
  · exact ((Kept.refl σ).returning err).refines hw
  · obtain ⟨F', hw', hsteps⟩ := hs.wfTmp (J := J) hw
    exact Refines.kept ⟨F', hw'.wf ht, hsteps⟩ ((Kept.setStats τ fun _ => st).returning .ok)

theorem Shuffles.outside (h : Shuffles σ named e r) (hw : Wf σ F) (hx : x ∉ named) :
    r.1.slots x = σ.slots x := by
  obtain ⟨err, -, rfl⟩ | ⟨l, e', τ, st, hs, ht, hl, -, -, rfl⟩ := h
  · rfl
  change τ.slots x = σ.slots x
  by_cases hxt : x = .tmp
  · obtain ⟨F', hw', -⟩ := hs.wfTmp (J := fun _ _ _ => True) hw
    rw [hxt, hw'.empty _ ht, hw.empty _ hw.tmp_free]
  · exact (hs.outside fun h => (mem_cons.1 (hl h)).elim hxt hx).2

theorem Shuffles.calls (h : Shuffles σ named e r) : r.2 = [] := by
  obtain ⟨err, -, rfl⟩ | ⟨l, e', τ, st, -, -, -, -, -, rfl⟩ := h <;> rfl

theorem occupied_mdbRelocate (dstCn : ObjId) (hsrc : τ.occupied src = true)
    (hdst : τ.occupied dst = false) (x : SlotRef) : (τ.mdbRelocate src dst dstCn).occupied x =
      if x = src then false else if x = dst then true else τ.occupied x := by
  have hne := ne_of_occupied hsrc hdst
  rw [WfTmp.occupied_relocate hne hdst]
  by_cases hxs : x = src
  · rw [hxs, swap_apply_left, if_pos rfl, hdst]
  · by_cases hxd : x = dst
    · rw [hxd, swap_apply_right, if_neg hne.symm, if_pos rfl, hsrc]
    · rw [swap_apply_of_ne_of_ne hxs hxd, if_neg hxs, if_neg hxd]

theorem freshTmp_eq (hw : Wf σ F) : σ.freshTmp = σ := by
  have hs : σ.slots .tmp = empty := hw.empty _ hw.tmp_free
  have hm : σ.mdb .tmp = Links.empty :=
    hw.layout.outside fun n hn => hw.not_mem hw.tmp_free ⟨n, hn⟩
  unfold freshTmp
  rw [update_eq_self_iff.mpr hs.symm, update_eq_self_iff.mpr hm.symm]

theorem Wf.ne_tmp (hw : Wf σ F) (hx : σ.occupied x = true) : x ≠ .tmp :=
  ne_of_occupied hx hw.tmp_free

theorem kcnodeSlotMove_shuffles (hw : Wf σ F) (srcCn : ObjId) (srcIdx : ℕ) (dstCn : ObjId)
    (dstIdx : ℕ) : Shuffles σ [.slot srcCn srcIdx, .slot dstCn dstIdx]
      (Equiv.swap (.slot srcCn srcIdx) (.slot dstCn dstIdx))
      (σ.kcnodeSlotMove srcCn srcIdx dstCn dstIdx) := by
  simp only [kcnodeSlotMove]
  split_ifs with hex hne hsrc hdst
  · exact .refused nofun
  · exact .refused nofun
  · exact .refused nofun
  · exact .refused nofun
  have hex : σ.slotExists srcCn srcIdx = true ∧ σ.slotExists dstCn dstIdx = true := by
    simpa using hex
  have hsrc : σ.occupied (.slot srcCn srcIdx) = true := by simpa using hsrc
  have hdst : σ.occupied (.slot dstCn dstIdx) = false := by simpa using hdst
  refine .inr ⟨_, _, _, _, .relocate dstCn .refl hsrc hdst (.inr ⟨dstIdx, rfl, hex.2⟩), ?_, by simp,
    by simp, fun _ _ => rfl, rfl⟩
  simpa [occupied_mdbRelocate _ hsrc hdst] using hw.tmp_free

theorem exchange_shuffled (hw : Wf σ F) {cnA cnB : ObjId} {idxA idxB : ℕ}
    (hne : SlotRef.slot cnA idxA ≠ .slot cnB idxB)
    (ha : σ.occupied (.slot cnA idxA) = true) (hb : σ.occupied (.slot cnB idxB) = true)
    (hexA : σ.slotExists cnA idxA = true) (hexB : σ.slotExists cnB idxB = true) (cn : ObjId) :
    ∃ l e, Shuffled σ l e (((σ.mdbRelocate (.slot cnA idxA) .tmp cn).mdbRelocate (.slot cnB idxB)
        (.slot cnA idxA) cnA).mdbRelocate .tmp (.slot cnB idxB) cnB) ∧
      (((σ.mdbRelocate (.slot cnA idxA) .tmp cn).mdbRelocate (.slot cnB idxB)
        (.slot cnA idxA) cnA).mdbRelocate .tmp (.slot cnB idxB) cnB).occupied .tmp = false ∧
      l ⊆ [.tmp, .slot cnA idxA, .slot cnB idxB] ∧ [.slot cnA idxA, .slot cnB idxB] ⊆ l ∧
      ∀ x, σ.occupied x = true → e x = Equiv.swap (.slot cnA idxA) (.slot cnB idxB) x := by
  have ht := hw.tmp_free
  have ho1 := occupied_mdbRelocate cn ha ht
  have hb1 : (σ.mdbRelocate (.slot cnA idxA) .tmp cn).occupied (.slot cnB idxB) = true := by
    simp [ho1, hne.symm, hb]
  have ha1 : (σ.mdbRelocate (.slot cnA idxA) .tmp cn).occupied (.slot cnA idxA) = false := by
    simp [ho1]
  have ho2 := occupied_mdbRelocate cnA hb1 ha1
  have ht2 : ((σ.mdbRelocate (.slot cnA idxA) .tmp cn).mdbRelocate (.slot cnB idxB)
      (.slot cnA idxA) cnA).occupied .tmp = true := by simp [ho2, ho1]
  have hb2 : ((σ.mdbRelocate (.slot cnA idxA) .tmp cn).mdbRelocate (.slot cnB idxB)
      (.slot cnA idxA) cnA).occupied (.slot cnB idxB) = false := by simp [ho2]
  refine ⟨_, _, .relocate cnB (.relocate cnA (.relocate cn .refl ha ht (.inl rfl)) hb1 ha1
    (.inr ⟨idxA, rfl, hexA⟩)) ht2 hb2 (.inr ⟨idxB, rfl, hexB⟩), ?_, by simp, by simp,
    fun x hx => ?_⟩
  · simp [occupied_mdbRelocate _ ht2 hb2]
  have hxt := hw.ne_tmp hx
  by_cases hxa : x = .slot cnA idxA
  · subst hxa
    simp [swap_apply_of_ne_of_ne]
  · by_cases hxb : x = .slot cnB idxB
    · subst hxb
      simp [swap_apply_of_ne_of_ne hxa hxt, swap_apply_of_ne_of_ne, hne]
    · simp [swap_apply_of_ne_of_ne, hxa, hxb, hxt]

/-- Where `kcnode_slot_rotate` takes what is in a slot. -/
def rotation (dest pivot src : SlotRef) : Equiv.Perm SlotRef :=
  if dest = src then Equiv.swap src pivot
  else (Equiv.swap pivot dest).trans (Equiv.swap src pivot)

theorem kcnodeSlotRotate_shuffles (hw : Wf σ F) (destCn : ObjId) (destIdx : ℕ) (pivotCn : ObjId)
    (pivotIdx : ℕ) (srcCn : ObjId) (srcIdx : ℕ) :
    Shuffles σ [.slot destCn destIdx, .slot pivotCn pivotIdx, .slot srcCn srcIdx]
      (rotation (.slot destCn destIdx) (.slot pivotCn pivotIdx) (.slot srcCn srcIdx))
      (σ.kcnodeSlotRotate destCn destIdx pivotCn pivotIdx srcCn srcIdx) := by
  simp only [kcnodeSlotRotate]
  split_ifs with hex hdistinct hocc hfull hswap
  · exact .refused nofun
  · exact .refused nofun
  · exact .refused nofun
  · exact .refused nofun
  all_goals
    obtain ⟨⟨hexD, hexP⟩, hexS⟩ : (σ.slotExists destCn destIdx = true ∧
      σ.slotExists pivotCn pivotIdx = true) ∧ σ.slotExists srcCn srcIdx = true := by simpa using hex
    obtain ⟨hsp, hdp⟩ := not_or.mp hdistinct
    obtain ⟨hsrc, hpiv⟩ : σ.occupied (.slot srcCn srcIdx) = true ∧
      σ.occupied (.slot pivotCn pivotIdx) = true := by simpa using hocc
  · obtain ⟨rfl, rfl⟩ := SlotRef.slot.inj hswap
    rw [freshTmp_eq hw, rotation, if_pos rfl]
    obtain ⟨l, e, hs, ht, hl, hl', he⟩ := exchange_shuffled hw hsp hsrc hpiv hexS hexP destCn
    exact .inr ⟨l, e, _, _, hs, ht, Subset.trans hl (by simp),
      fun x hx _ => hl' (by simpa [or_comm] using hx), he, rfl⟩
  have hdst : σ.occupied (.slot destCn destIdx) = false := by
    by_contra hd
    exact hfull ⟨hswap, by simpa using hd⟩
  have ho1 := occupied_mdbRelocate destCn hpiv hdst
  have hs1 : (σ.mdbRelocate (.slot pivotCn pivotIdx) (.slot destCn destIdx) destCn).occupied
      (.slot srcCn srcIdx) = true := by
    simp only [ho1, if_neg hsp, if_neg (Ne.symm hswap), hsrc]
  have hp1 : (σ.mdbRelocate (.slot pivotCn pivotIdx) (.slot destCn destIdx) destCn).occupied
      (.slot pivotCn pivotIdx) = false := by
    simp only [ho1, if_true]
  rw [rotation, if_neg hswap]
  refine .inr ⟨_, _, _, _, .relocate pivotCn (.relocate destCn .refl hpiv hdst
    (.inr ⟨destIdx, rfl, hexD⟩)) hs1 hp1 (.inr ⟨pivotIdx, rfl, hexP⟩), ?_, by simp,
    by simp, fun _ _ => rfl, rfl⟩
  simpa [occupied_mdbRelocate _ hs1 hp1, ho1] using hw.tmp_free

theorem kcnodeSwap_shuffles (hw : Wf σ F) (cn : ObjId) (slotA slotB : ℕ) :
    Shuffles σ [.slot cn slotA, .slot cn slotB] (Equiv.swap (.slot cn slotA) (.slot cn slotB))
      (σ.kcnodeSwap cn slotA slotB) := by
  have ht := hw.tmp_free
  simp only [kcnodeSwap, freshTmp_eq hw]
  split_ifs with hargs hex ha hb hb
  · exact .refused nofun
  · exact .refused nofun
  all_goals
    obtain ⟨hexA, hexB⟩ : σ.slotExists cn slotA = true ∧ σ.slotExists cn slotB = true := by
      simpa using hex
    have hab : slotA ≠ slotB := fun e => hargs (by simp [e])
    have hne : SlotRef.slot cn slotA ≠ .slot cn slotB := by simpa using hab
  · obtain ⟨l, e, hs, ht, hl, hl', he⟩ := exchange_shuffled hw hne ha hb hexA hexB cn
    exact .inr ⟨l, e, _, _, hs, ht, hl, fun x hx _ => hl' hx, he, rfl⟩
  · have ho1 := occupied_mdbRelocate cn ha ht
    have ht1 : (σ.mdbRelocate (.slot cn slotA) .tmp cn).occupied .tmp = true := by simp [ho1]
    have hb1 : (σ.mdbRelocate (.slot cn slotA) .tmp cn).occupied (.slot cn slotB) = false := by
      simpa [ho1, hab.symm] using hb
    refine .inr ⟨_, _, _, _, .relocate cn (.relocate cn .refl ha ht (.inl rfl)) ht1 hb1
      (.inr ⟨slotB, rfl, hexB⟩), ?_, by simp, by simp, fun x hx => ?_, rfl⟩
    · simp [occupied_mdbRelocate _ ht1 hb1]
    · have hxb : x ≠ .slot cn slotB := ne_of_occupied hx (by simpa using hb)
      by_cases hxa : x = .slot cn slotA
      · simp [hxa]
      · simp [swap_apply_of_ne_of_ne, hxa, hxb, hw.ne_tmp hx]
  · have ha' : σ.occupied (.slot cn slotA) = false := by simpa using ha
    refine .inr ⟨_, _, _, _, .relocate cn .refl hb ha' (.inr ⟨slotA, rfl, hexA⟩), ?_, by simp,
      by simp, fun x _ => ?_, rfl⟩
    · simpa [occupied_mdbRelocate _ hb ha'] using ht
    · rw [Equiv.swap_comm]
      rfl
  · refine .inr ⟨_, _, _, _, .refl, ht, by simp, by simp [ha, hb], fun x hx => ?_, rfl⟩
    have hxa : x ≠ .slot cn slotA := ne_of_occupied hx (by simpa using ha)
    have hxb : x ≠ .slot cn slotB := ne_of_occupied hx (by simpa using hb)
    exact (swap_apply_of_ne_of_ne hxa hxb).symm

/-! ### All actions -/

/-- The capability an action may put in, and where. -/
def Justified (σ : Kernel) : Action → CapGraph → Option SlotRef → Capability → Prop
  | .installLinked _ _ obj rights badge parent expect _ unparented, G, p, c =>
    p = (parent.map fun q => .slot q.1 q.2) ∧
      c = ⟨obj, rights, badge, installFlags parent unparented⟩ ∧
      (∀ x c, G.cap x = some c → σ.caps x = some c) ∧
      ∀ q, p = some q → ∃ pc, G.cap q = some pc ∧ ∀ o, expect = some o → pc.object = o
  | .derive srcCn srcIdx _ _ requested reqBadge, G, p, c =>
    ∃ sc, G.cap (.slot srcCn srcIdx) = some sc ∧ p = some (.slot srcCn srcIdx) ∧
      c.object = sc.object ∧ c.rights = rightsReduce sc.rights requested ∧
      Kernel.mdbBadgeDerive sc.badge reqBadge (σ.objs sc.object).type = .ok c.badge
  | .installSibling srcCn srcIdx _ _, G, p, c =>
    ∃ sc, G.cap (.slot srcCn srcIdx) = some sc ∧
      ((∃ q, p = some q ∧ G.forest.Child q (.slot srcCn srcIdx)) ∨ p = some (.slot srcCn srcIdx)) ∧
      c.object = sc.object ∧ c.rights = sc.rights ∧ c.badge = sc.badge
  | .installForThread srcCn srcIdx _ _, G, p, c =>
    ∃ sc, G.cap (.slot srcCn srcIdx) = some sc ∧ p = some (.slot srcCn srcIdx) ∧
      c.object = sc.object ∧ c.rights = sc.rights ∧ c.badge = sc.badge
  | .ipcDeliver k _, G, p, c =>
    ∃ st pc, σ.staged[k]? = some st ∧ p = some (.slot st.srcCn st.srcIdx) ∧
      G.cap (.slot st.srcCn st.srcIdx) = some pc ∧ G.cap = σ.caps ∧ pc.object = st.obj ∧
      c.object = st.obj ∧ c.rights = st.rights ∧ c.badge = st.badge
  | _, _, _, _ => False

theorem Refines.of_kept_left {σ1 : Kernel} (hk : Kept σ σ1) (h : Refines J σ1 F τ) :
    Refines J σ F τ := by
  obtain ⟨F', hw, hs⟩ := h
  rw [hk.caps] at hs
  exact ⟨F', hw, hs⟩

theorem caps_eq_some {o : ObjId} (h : (σ.slots s).object = some o) :
    σ.caps s = some ⟨o, (σ.slots s).rights, (σ.slots s).badge, (σ.slots s).mdbFlags⟩ := by
  simp [caps, cap, h]

/-- The install below `p` that a copy of slot `src` asks for. -/
def Kernel.copyRequest (σ : Kernel) (src p : ObjId × ℕ) (dst : ObjId × ℕ) (expect : Option ObjId) :
    Option Install :=
  (σ.slots (.slot src.1 src.2)).object.map fun obj =>
    ⟨dst.1, dst.2, obj, (σ.slots (.slot src.1 src.2)).rights, (σ.slots (.slot src.1 src.2)).badge,
      some p, expect, true, false⟩

/-- The install an action asks for, once its own checks have passed. -/
def Kernel.request (σ : Kernel) : Action → Option Install
  | .installLinked cn idx obj rights badge parent expect exclusive unparented =>
    some ⟨cn, idx, obj, rights, badge, parent, expect, exclusive, unparented⟩
  | .derive srcCn srcIdx dstCn dstIdx requested reqBadge =>
    if !σ.slotExists srcCn srcIdx || !σ.slotExists dstCn dstIdx ||
      (srcCn = dstCn ∧ srcIdx = dstIdx : Bool) then none
    else
      let src := σ.slots (.slot srcCn srcIdx)
      let effective := rightsReduce src.rights requested
      if !rightsCheck src.rights rightDuplicate || (effective = rightNone : Bool) then none
      else src.object.bind fun obj =>
        (mdbBadgeDerive src.badge reqBadge (σ.objs obj).type).toOption.map fun badge =>
          ⟨dstCn, dstIdx, obj, effective, badge, some (srcCn, srcIdx), some obj, true, false⟩
  | .installSibling srcCn srcIdx dstCn dstIdx =>
    if !σ.slotExists srcCn srcIdx || !σ.slotExists dstCn dstIdx then none
    else match (σ.mdb (.slot srcCn srcIdx)).parent with
      | some (.slot pcn pidx) =>
        σ.copyRequest (srcCn, srcIdx) (pcn, pidx) (dstCn, dstIdx) (σ.slots (.slot pcn pidx)).object
      | _ => σ.copyRequest (srcCn, srcIdx) (srcCn, srcIdx) (dstCn, dstIdx)
          (σ.slots (.slot srcCn srcIdx)).object
  | .installForThread srcCn srcIdx dstCn dstIdx =>
    if !σ.slotExists srcCn srcIdx || !σ.slotExists dstCn dstIdx then none
    else σ.copyRequest (srcCn, srcIdx) (srcCn, srcIdx) (dstCn, dstIdx)
      (σ.slots (.slot srcCn srcIdx)).object
  | _ => none

/-- The actions that install a capability out of the slots they are told. -/
def Action.isInstall : Action → Bool
  | .installLinked .. | .derive .. | .installSibling .. | .installForThread .. => true
  | _ => false

/-- The slots a relocating action names, and where it takes what is in them. -/
def Action.renaming : Action → Option (List SlotRef × Equiv.Perm SlotRef)
  | .move srcCn srcIdx dstCn dstIdx =>
    some ([.slot srcCn srcIdx, .slot dstCn dstIdx],
      Equiv.swap (.slot srcCn srcIdx) (.slot dstCn dstIdx))
  | .rotate destCn destIdx pivotCn pivotIdx srcCn srcIdx =>
    some ([.slot destCn destIdx, .slot pivotCn pivotIdx, .slot srcCn srcIdx],
      rotation (.slot destCn destIdx) (.slot pivotCn pivotIdx) (.slot srcCn srcIdx))
  | .swap cn slotA slotB =>
    some ([.slot cn slotA, .slot cn slotB], Equiv.swap (.slot cn slotA) (.slot cn slotB))
  | _ => none

/-- The objects that an action works on, other than through what it finds in slots. -/
def Action.objs : Action → List ObjId
  | .installLinked _ _ obj _ _ _ _ _ _ => [obj]
  | .teardownSlots o | .unhold o | .unholdActive o | .ipcStage o _ _ => [o]
  | .ipcDeliver _ dst => dst.toList.map Prod.fst
  | _ => []

/-- The slots that an action writes to. -/
def Action.targets : Action → List SlotRef
  | .installLinked cn idx _ _ _ _ _ _ _ | .delete cn idx | .setGuard cn idx _ _ => [.slot cn idx]
  | .derive _ _ cn idx _ _ | .installSibling _ _ cn idx | .installForThread _ _ cn idx =>
    [.slot cn idx]
  | .move srcCn srcIdx dstCn dstIdx => [.slot srcCn srcIdx, .slot dstCn dstIdx]
  | .rotate destCn destIdx pivotCn pivotIdx srcCn srcIdx =>
    [.slot destCn destIdx, .slot pivotCn pivotIdx, .slot srcCn srcIdx, .tmp]
  | .swap cn slotA slotB => [.slot cn slotA, .slot cn slotB, .tmp]
  | .ipcDeliver _ dst => dst.toList.map fun d => .slot d.1 d.2
  | _ => []

/-- The primitives that fill, relocate or mark slots. -/
def Action.isPrimitive : Action → Bool
  | .setGuard .. | .move .. | .rotate .. | .swap .. => true
  | a => a.isInstall

/-- The call that an action comes down to. -/
def Action.call : Action → Option Call
  | .revoke cn idx budget => some (.revokeLoop cn idx budget 0)
  | .teardownSlots cn => some (.emptySlots cn 0)
  | .drainSlice => some (.cascadeDrain irisCascadeSlice 0)
  | .unhold o => some (.heldRelease o)
  | .unholdActive o => some (.heldActiveRelease o)
  | _ => none

/-- What an entry point can do. -/
inductive Entered (σ : Kernel) (F : Forest SlotRef) : Action → Kernel × List Call → Prop
  | refused {a e} (he : e ≠ .ok) : Entered σ F a (σ.fail e)
  | idle {a} (ha : a.isPrimitive = false) : Entered σ F a (σ, [])
  | call {a f} (hf : a.call = some f) (st : Stats) (b : Bool) :
      Entered σ F a ({ σ with stats := st, running := b }, [f])
  | install {a r} (ha : a.isInstall = true) (hr : σ.request a = some r)
      (hobj : r.obj ∈ a.objs ∨ ∃ s, (σ.slots s).object = some r.obj)
      (htarget : a.targets = [.slot r.cn r.idx])
      (hJ : ∀ G, Fits σ F r.parent r.expect r.exclusive G → Justified σ a G
        (r.parent.map fun p => .slot p.1 p.2)
        ⟨r.obj, r.rights, r.badge, installFlags r.parent r.unparented⟩) : Entered σ F a (σ.install r)
  | shuffle {a named e} (ha : a.renaming = some (named, e)) (hr : Shuffles σ named e (σ.act a)) :
      Entered σ F a (σ.act a)
  | delete (cn : ObjId) (idx : ℕ) : Entered σ F (.delete cn idx)
      ((σ.slotDeleteLocked cn idx).1.returning .ok, dropOldCalls cn (σ.slotDeleteLocked cn idx).2)
  | guard {cn idx} (guard : UInt64) (guardBits : UInt8) (hs : σ.occupied (.slot cn idx) = true) :
      Entered σ F (.setGuard cn idx guard guardBits)
        ((σ.writeGuard (.slot cn idx) guard guardBits).returning .ok, [])
  | create {a type n} (ha : a.isPrimitive = false) (htype : type ≠ .reserved)
      (hn : type ≠ .cnode → n = 0) (st : Stats) :
      Entered σ F a ({ σ.addObject type n with stats := st }, [])
  | hold (o : ObjId) : Entered σ F (.hold o) (σ.hold o, [])
  | holdActive (o : ObjId) : Entered σ F (.holdActive o) (σ.holdActive o, [])
  | unstaged {srcCn srcIdx requested obj} (e : IrisError)
      (ho : (σ.slots (.slot srcCn srcIdx)).object = some obj) :
      Entered σ F (.ipcStage srcCn srcIdx requested)
        (((((σ.hold srcCn).holdActive srcCn).hold obj).holdActive obj).returning e,
          [.heldActiveRelease obj, .heldRelease obj, .heldActiveRelease srcCn, .heldRelease srcCn])
  | staged {srcCn srcIdx requested obj c}
      (ho : (σ.slots (.slot srcCn srcIdx)).object = some obj) (hc : c.obj = obj ∧ c.srcCn = srcCn) :
      Entered σ F (.ipcStage srcCn srcIdx requested)
        ({ (((σ.hold srcCn).holdActive srcCn).hold obj).holdActive obj with
            staged := c :: ((((σ.hold srcCn).holdActive srcCn).hold obj).holdActive obj).staged
            ret := { err := .ok } }, [.heldActiveRelease obj])
  | dropped {k dst c} (hc : σ.staged[k]? = some c) : Entered σ F (.ipcDeliver k dst)
      ({ σ with staged := σ.staged.eraseIdx k },
        [.heldRelease c.obj, .heldActiveRelease c.srcCn, .heldRelease c.srcCn])
  | undelivered {k c cn} (idx : ℕ) (hc : σ.staged[k]? = some c) :
      Entered σ F (.ipcDeliver k (some (cn, idx)))
        ((({ σ with staged := σ.staged.eraseIdx k } : Kernel).hold cn).holdActive cn,
          [.heldActiveRelease cn, .heldRelease cn] ++
            [.heldRelease c.obj, .heldActiveRelease c.srcCn, .heldRelease c.srcCn])
  | delivered {k c cn idx x} (hc : σ.staged[k]? = some c)
      (hx : Installed ((({ σ with staged := σ.staged.eraseIdx k } : Kernel).hold cn).holdActive cn)
        ⟨cn, idx, c.obj, c.rights, c.badge, some (c.srcCn, c.srcIdx), some c.obj, true, false⟩ x)
      (st : Stats) : Entered σ F (.ipcDeliver k (some (cn, idx)))
        ({ x.1 with stats := st }, x.2 ++ [.heldActiveRelease cn, .heldRelease cn] ++
          [.heldRelease c.obj, .heldActiveRelease c.srcCn, .heldRelease c.srcCn])

theorem derive_entered (srcCn : ObjId) (srcIdx : ℕ) (dstCn : ObjId) (dstIdx : ℕ)
    (requested : Rights) (reqBadge : UInt64) :
    Entered σ F (.derive srcCn srcIdx dstCn dstIdx requested reqBadge)
      (σ.act (.derive srcCn srcIdx dstCn dstIdx requested reqBadge)) := by
  simp only [act, kcnodeSlotDerive]
  cases ho : (σ.slots (.slot srcCn srcIdx)).object with
  | none => split_ifs <;> exact .refused nofun
  | some obj =>
    dsimp only
    split_ifs with hex hsame hdup heff
    · exact .refused nofun
    · exact .refused nofun
    · exact .refused nofun
    · exact .refused nofun
    split
    · rename_i e he
      refine .refused ?_
      unfold mdbBadgeDerive at he
      split_ifs at he <;> cases he <;> nofun
    rename_i badge hb
    refine .install rfl (r := ⟨dstCn, dstIdx, obj, rightsReduce _ requested, badge,
      some (srcCn, srcIdx), some obj, true, false⟩) ?_ (.inr ⟨_, ho⟩) rfl fun G hG => ?_
    · simp only [request, ho, hex, hsame, hdup, heff]
      simp [hb, Except.toOption]
    · rw [hG.same rfl]
      exact ⟨_, caps_eq_some ho, rfl, rfl, rfl, hb⟩

theorem installForThread_entered (srcCn : ObjId) (srcIdx : ℕ) (dstCn : ObjId) (dstIdx : ℕ) :
    Entered σ F (.installForThread srcCn srcIdx dstCn dstIdx)
      (σ.act (.installForThread srcCn srcIdx dstCn dstIdx)) := by
  simp only [act, kcnodeSlotInstallForThread]
  split_ifs with hex
  · exact .refused nofun
  split
  · exact .refused nofun
  rename_i obj ho
  refine .install rfl (r := ⟨dstCn, dstIdx, obj, _, _, some (srcCn, srcIdx), some obj, true, false⟩)
    ?_ (.inr ⟨_, ho⟩) rfl fun G hG => ?_
  · simp only [request, copyRequest, ho, if_neg hex]
    rfl
  · rw [hG.same rfl]
    exact ⟨_, caps_eq_some ho, rfl, rfl, rfl, rfl⟩

theorem installSibling_entered (hw : Wf σ F) (srcCn : ObjId) (srcIdx : ℕ) (dstCn : ObjId)
    (dstIdx : ℕ) : Entered σ F (.installSibling srcCn srcIdx dstCn dstIdx)
      (σ.act (.installSibling srcCn srcIdx dstCn dstIdx)) := by
  simp only [act, kcnodeSlotInstallSibling]
  split_ifs with hex
  · exact .refused nofun
  cases ho : (σ.slots (.slot srcCn srcIdx)).object with
  | none => exact .refused nofun
  | some obj =>
    cases hp : (σ.mdb (.slot srcCn srcIdx)).parent with
    | none =>
      refine .install rfl (r := ⟨dstCn, dstIdx, obj, _, _, some (srcCn, srcIdx), some obj, true,
        false⟩) ?_ (.inr ⟨_, ho⟩) rfl fun G hG => ?_
      · simp only [request, copyRequest, hp, ho, if_neg hex]
        rfl
      · rw [hG.same rfl]
        exact ⟨_, caps_eq_some ho, .inr rfl, rfl, rfl, rfl⟩
    | some p =>
      have hc := hw.layout.parent_eq_some.mp hp
      obtain ⟨pcn, pidx, rfl, hcn, -⟩ := hw.home p ((hw.mem_iff p).mp hc.owner)
      simp only [hcn]
      refine .install rfl (r := ⟨dstCn, dstIdx, obj, _, _, some (pcn, pidx), _, true, false⟩)
        ?_ (.inr ⟨_, ho⟩) rfl fun G hG => ?_
      · simp only [request, copyRequest, hp, ho, if_neg hex]
        rfl
      · rw [hG.same rfl]
        exact ⟨_, caps_eq_some ho, .inl ⟨_, rfl, hc⟩, rfl, rfl, rfl⟩

theorem setGuard_entered (cn : ObjId) (idx : ℕ) (guard : UInt64) (guardBits : UInt8) :
    Entered σ F (.setGuard cn idx guard guardBits)
      (σ.kcnodeSlotSetGuard cn idx guard guardBits, []) := by
  simp only [kcnodeSlotSetGuard]
  split_ifs
  · exact .refused nofun
  · exact .refused nofun
  · exact .refused nofun
  split
  · exact .refused nofun
  rename_i o ho
  split_ifs
  · exact .refused nofun
  · exact .refused nofun
  · exact .guard guard guardBits (by simp [occupied, ho])

theorem ipcStage_entered (srcCn : ObjId) (srcIdx : ℕ) (requested : Rights) :
    Entered σ F (.ipcStage srcCn srcIdx requested)
      (σ.ipcStageCapPeekBadged srcCn srcIdx requested) := by
  simp only [ipcStageCapPeekBadged]
  cases ho : (σ.slots (.slot srcCn srcIdx)).object with
  | none => split_ifs <;> exact .refused nofun
  | some obj =>
    split_ifs
    · exact .refused nofun
    · exact .unstaged _ ho
    · exact .unstaged _ ho
    · exact .staged ho ⟨rfl, rfl⟩

theorem ipcDeliver_entered (k : ℕ) (dst : Option (ObjId × ℕ)) :
    Entered σ F (.ipcDeliver k dst) (σ.ipcDeliverCapRouted k dst) := by
  simp only [ipcDeliverCapRouted]
  cases hc : σ.staged[k]? with
  | none => exact .idle rfl
  | some c =>
    cases dst with
    | none => exact .dropped hc
    | some d =>
      dsimp only
      split_ifs
      · exact .dropped hc
      · exact .undelivered d.2 hc
      · exact .delivered hc (install_installed _ _) _
      · exact .delivered hc (install_installed _ _) _

theorem act_shuffles (hw : Wf σ F)
    (ha : a.renaming = some (named, e)) : Shuffles σ named e (σ.act a) := by
  cases a <;> cases ha
  · exact kcnodeSlotMove_shuffles hw ..
  · exact kcnodeSlotRotate_shuffles hw ..
  · exact kcnodeSwap_shuffles hw ..

theorem act_entered (hw : Wf σ F) (a : Action) : Entered σ F a (σ.act a) := by
  cases a with
  | installLinked cn idx obj rights badge parent expect exclusive unparented =>
    refine .install rfl (r := ⟨_, _, _, _, _, _, _, _, _⟩) rfl (.inl (mem_singleton_self _)) rfl
      fun G hG => ⟨rfl, rfl, hG.sub, fun q hq => ?_⟩
    obtain ⟨p, hp, rfl⟩ := Option.map_eq_some_iff.mp hq
    exact hG.parent p.1 p.2 hp
  | derive => exact derive_entered ..
  | installSibling => exact installSibling_entered hw ..
  | installForThread => exact installForThread_entered ..
  | move | rotate | swap => exact .shuffle rfl (act_shuffles hw rfl)
  | delete cn idx =>
    simp only [act, kcnodeSlotDelete]
    split_ifs
    · exact .refused nofun
    · exact .delete cn idx
  | revoke =>
    simp only [act, kcnodeSlotRevokeBounded]
    split_ifs
    · exact .refused nofun
    · exact .call rfl _ _
  | teardownSlots =>
    simp only [act, kcnodeTeardownSlots]
    split_ifs
    · exact .idle rfl
    · exact .call rfl _ _
  | drainSlice =>
    simp only [act, kcnodeCascadeDrainSlice]
    split_ifs
    · exact .idle rfl
    · exact .call rfl _ _
  | setGuard => exact setGuard_entered ..
  | allocCNode =>
    simp only [act, kcnodeAlloc]
    split_ifs
    · exact .idle rfl
    · exact .create rfl (by decide) (fun h => (h rfl).elim) _
  | initObject =>
    simp only [act, kobjectInit]
    split_ifs with htype
    · exact .idle rfl
    · exact .create rfl (fun h => htype (.inr h)) (fun _ => rfl) _
  | hold o => exact .hold o
  | holdActive o => exact .holdActive o
  | unhold | unholdActive => exact .call rfl _ _
  | ipcStage => exact ipcStage_entered ..
  | ipcDeliver => exact ipcDeliver_entered ..

theorem act_isInstall (hw : Wf σ F) (ha : a.isInstall = true) :
    (∃ e ≠ .ok, σ.act a = σ.fail e) ∨ ∃ r, σ.request a = some r ∧ σ.act a = σ.install r := by
  have h := act_entered hw a
  generalize σ.act a = x at h ⊢
  cases h with
  | refused he => exact .inl ⟨_, he, rfl⟩
  | install _ hr => exact .inr ⟨_, hr, rfl⟩
  | idle hf | create hf | call hf | shuffle hf => cases a <;> cases ha <;> cases hf
  | _ => cases ha

theorem Kept.hold (σ : Kernel) (o : ObjId) : Kept σ (σ.hold o) := by
  unfold Kernel.hold
  split
  · exact (Kept.kobjectRetain σ o).trans (.of_objs rfl rfl rfl rfl fun _ => ⟨rfl, rfl, rfl⟩)
  · exact .refl σ

theorem Kept.holdActive (σ : Kernel) (o : ObjId) : Kept σ (σ.holdActive o) := by
  unfold Kernel.holdActive
  split
  · exact (Kept.kobjectActiveRetain σ o).trans (.of_objs rfl rfl rfl rfl fun _ => ⟨rfl, rfl, rfl⟩)
  · exact .refl σ

theorem kept_holds (σ : Kernel) (x y : ObjId) :
    Kept σ ((((σ.hold x).holdActive x).hold y).holdActive y) :=
  (((Kept.hold σ x).trans (.holdActive _ x)).trans (.hold _ y)).trans (.holdActive _ y)

theorem Wf.setStaged (hw : Wf σ F) (l : List StagedCap) : Wf { σ with staged := l } F :=
  ⟨hw.layout, hw.mem_iff, hw.empty, hw.home, hw.fresh, hw.bare⟩

theorem addObject_wf (hw : Wf σ F) {type : KObjType} {n : ℕ} (hn : type ≠ .cnode → n = 0) :
    Wf (σ.addObject type n) F := by
  refine ⟨hw.layout, hw.mem_iff, hw.empty, fun s hs => ?_, fun o ho => ?_, fun o ho => ?_⟩
  · obtain ⟨cn, idx, rfl, hcn, hex⟩ := hw.home s hs
    obtain ⟨hlive, htype, hidx⟩ := Wf.slotExists_iff.mp hex
    have hne : cn ≠ σ.numObjs := (hw.fresh cn hlive).ne
    refine ⟨cn, idx, rfl, hcn, Wf.slotExists_iff.mpr ?_⟩
    simp [addObject, hne, hlive, htype, hidx]
  · by_cases hne : o = σ.numObjs
    · rw [hne]
      exact Nat.lt_succ_self _
    · refine Nat.lt_succ_of_lt (hw.fresh o ?_)
      simpa [addObject, hne] using ho
  · by_cases hne : o = σ.numObjs
    · subst hne
      simp only [addObject, update_self] at ho ⊢
      exact hn ho
    · simp only [addObject, update_of_ne hne] at ho ⊢
      exact hw.bare o ho

theorem writeGuard_refines (hw : Wf σ F) (hs : σ.occupied s = true)
    (guard : UInt64) (guardBits : UInt8) : Refines J σ F (σ.writeGuard s guard guardBits) := by
  have hocc : ∀ x, (σ.writeGuard s guard guardBits).occupied x = σ.occupied x := by
    intro x
    by_cases hx : x = s
    · simp [occupied, writeGuard, setSlot, hx]
    · simp [occupied, writeGuard, setSlot, hx]
  have hcaps : (σ.writeGuard s guard guardBits).caps = σ.caps := by
    funext x
    by_cases hx : x = s
    · simp [caps, writeGuard, setSlot, hx, cap]
    · simp [caps, writeGuard, setSlot, hx]
  refine ⟨F, ⟨hw.layout, fun x => ?_, fun x hx => ?_, fun x hx => ?_, hw.fresh, hw.bare⟩, ?_⟩
  · rw [hocc, hw.mem_iff]
  · rw [hocc] at hx
    have hne := (ne_of_occupied hs hx).symm
    simpa [writeGuard, setSlot, hne] using hw.empty x hx
  · rw [hocc] at hx
    obtain ⟨cn, idx, rfl, hcn, hex⟩ := hw.home x hx
    refine ⟨cn, idx, rfl, ?_, hex⟩
    by_cases hx : SlotRef.slot cn idx = s
    · subst hx
      simpa [writeGuard, setSlot] using hcn
    · simpa [writeGuard, setSlot, hx] using hcn
  · rw [hcaps]

theorem Entered.refines (h : Entered σ F a r) (hw : Wf σ F) : Refines (Justified σ a) σ F r.1 := by
  cases h with
  | refused => exact ((Kept.refl σ).returning _).refines hw
  | idle => exact (Kept.refl σ).refines hw
  | call => exact Kept.refines (.of_objs rfl rfl rfl rfl fun _ => ⟨rfl, rfl, rfl⟩) hw
  | install _ _ _ _ hJ => exact (install_installed σ _).refines hw hJ
  | shuffle _ hr => exact hr.refines hw
  | delete cn idx =>
    exact ((slotDeleteLocked_effect hw cn idx).1.refines hw).kept ((Kept.refl _).returning _)
  | guard g b hs => exact (writeGuard_refines hw hs g b).kept ((Kept.refl _).returning .ok)
  | create _ _ hn st => exact ⟨F, (Kept.setStats _ fun _ => st).wf (addObject_wf hw hn), .refl⟩
  | hold o => exact (Kept.hold σ o).refines hw
  | holdActive o => exact (Kept.holdActive σ o).refines hw
  | unstaged e ho => exact ((kept_holds σ _ _).returning e).refines hw
  | @staged srcCn _ _ obj c =>
    have hk := kept_holds σ srcCn obj
    refine Refines.kept ⟨F, (hk.wf hw).setStaged (c :: _), ?_⟩ ((Kept.refl _).returning .ok)
    rw [← hk.caps]
    exact .refl
  | dropped => exact ⟨F, hw.setStaged _, .refl⟩
  | @undelivered k c cn =>
    have hk := (Kept.hold { σ with staged := σ.staged.eraseIdx k } cn).trans (.holdActive _ cn)
    exact Refines.kept ⟨F, hw.setStaged (σ.staged.eraseIdx k), .refl⟩ hk
  | @delivered k c cn idx x hc hx st =>
    have hw0 := hw.setStaged (σ.staged.eraseIdx k)
    have hk := (Kept.hold { σ with staged := σ.staged.eraseIdx k } cn).trans (.holdActive _ cn)
    refine Refines.kept ?_ (Kept.setStats x.1 fun _ => st)
    change Refines _ { σ with staged := σ.staged.eraseIdx k } F _
    refine Refines.of_kept_left hk (hx.refines (hk.wf hw0) fun G hG => ?_)
    obtain ⟨pc, hpc, hobj⟩ := hG.parent _ _ rfl
    have hcap : G.cap = σ.caps := by
      rw [hG.same rfl]
      exact hk.caps
    exact ⟨c, pc, hc, rfl, hpc, hcap, hobj _ rfl, rfl, rfl, rfl⟩

theorem act_refines (hw : Wf σ F) (a : Action) : Refines (Justified σ a) σ F (σ.act a).1 :=
  (act_entered hw a).refines hw

/-- The calls an entry point can make. -/
def Call.isEntry : Call → Prop
  | .objDestroy _ _ | .storageFree _ | .dispatchClose _ | .dispatchDestroy _ => False
  | _ => True

theorem Call.isEntry.frameOk {f : Call} (h : f.isEntry) (σ : Kernel) : FrameOk σ f := by
  cases f with
  | _ => trivial

theorem dropOldCalls_isEntry {cn : ObjId} {old : Option ObjId} :
    ∀ f ∈ Kernel.dropOldCalls cn old, f.isEntry := by
  intro f hf
  obtain ⟨o, -, rfl⟩ := mem_map.mp hf
  trivial

theorem dropRefsCalls_isEntry : ∀ f ∈ Kernel.dropRefsCalls cn obj, f.isEntry := by
  intro f hf
  unfold dropRefsCalls at hf
  split_ifs at hf
  · simp_all [Call.isEntry]
  · rcases mem_append.mp hf with hf | hf <;> simp_all [Call.isEntry]

theorem Installed.isEntry {r : Install} {x : Kernel × List Call} (h : Installed σ r x) :
    ∀ f ∈ x.2, f.isEntry := by
  cases h with
  | refused | stopped => exact nofun
  | undone => exact forall_mem_append.mpr ⟨dropOldCalls_isEntry, dropRefsCalls_isEntry⟩
  | filled => exact dropOldCalls_isEntry

theorem Entered.isEntry (h : Entered σ F a r) : ∀ f ∈ r.2, f.isEntry := by
  cases h with
  | refused | idle | guard | create | hold | holdActive => exact nofun
  | call hf =>
    intro f hf'
    obtain rfl := mem_singleton.mp hf'
    cases a <;> cases hf <;> trivial
  | install => exact (install_installed σ _).isEntry
  | shuffle _ hr =>
    rw [hr.calls]
    exact nofun
  | delete => exact dropOldCalls_isEntry
  | unstaged | staged | dropped | undelivered => simp [Call.isEntry]
  | delivered _ hx =>
    refine forall_mem_append.mpr ⟨forall_mem_append.mpr ⟨hx.isEntry, ?_⟩, ?_⟩ <;>
      simp [Call.isEntry]

theorem act_isEntry (hw : Wf σ F) (a : Action) : ∀ f ∈ (σ.act a).2, f.isEntry :=
  (act_entered hw a).isEntry

theorem step_refines (hw : Wf σ F) (h : Step hooks σ a τ) : Refines (Justified σ a) σ F τ := by
  obtain ⟨F1, hw1, hs1⟩ := act_refines hw a
  obtain ⟨F2, hw2, hp, -⟩ := returns_prunes hw1 (fun f hf => (act_isEntry hw a f hf).frameOk _) h.2
  exact ⟨F2, hw2, hs1.trans hp.capSteps⟩

end

/-! ## Runs -/

theorem Initial.wf {σ : Kernel} (h : Initial σ) : ∃ F, Wf σ F := by
  have hocc : ∀ s, σ.occupied s = false := fun s => by simp [occupied, h.slots, empty]
  have hmem : ∀ s, ¬ (Forest.empty : Forest SlotRef).Mem s :=
    fun s hs => not_mem_nil hs.choose_spec
  refine ⟨Forest.empty, ⟨fun _ => trivial, fun hx => (not_mem_nil hx).elim, fun s => ?_,
    fun _ => h.mdb _⟩, fun s => ?_, fun s _ => h.slots s, fun s hs => ?_, fun o ho => ?_, h.slotCount⟩
  · rw [h.mdb]
    rfl
  · simp [hmem, hocc]
  · rw [hocc] at hs
    cases hs
  · by_contra hn
    rw [(h.fresh o (not_lt.mp hn)).1] at ho
    cases ho

theorem Runs.wf {P : Kernel → Action → Prop} {σ τ : Kernel} {as : List Action}
    (h : Runs hooks P σ as τ) (hσ : Initial σ) : ∃ F, Wf τ F := by
  refine h.keeps (I := fun σ => ∃ F, Wf σ F) ?_ hσ.wf
  rintro σ a τ ⟨F, hw⟩ - hstep
  obtain ⟨F', hw', -⟩ := step_refines hw hstep
  exact ⟨F', hw'⟩

end IrisOS.Cap
