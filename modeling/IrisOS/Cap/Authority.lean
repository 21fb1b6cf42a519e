import IrisOS.Cap.Validate

/-! Authority along derivation. Every way to derive a capability puts it below one that covers it,
except a transfer whose source slot has been filled anew while the sender was waiting. -/
namespace IrisOS.Cap
open Lib Kernel

/-- The capability `p` covers the capability `c`. -/
def Capability.Covers (p c : Capability) : Prop :=
  c.object = p.object ∧ rightsSubset c.rights p.rights ∧ (p.badge ≠ 0 → c.badge = p.badge)

namespace Capability
variable {a b c : Capability}

theorem Covers.refl (c : Capability) : c.Covers c := ⟨rfl, rightsSubset_refl _, fun _ => rfl⟩

theorem Covers.trans (h₁ : a.Covers b) (h₂ : b.Covers c) : a.Covers c := by
  obtain ⟨ho1, hr1, hb1⟩ := h₁
  obtain ⟨ho2, hr2, hb2⟩ := h₂
  refine ⟨ho2.trans ho1, rightsSubset_trans hr2 hr1, fun hne => ?_⟩
  have hba : b.badge = a.badge := hb1 hne
  rw [hb2 (hba ▸ hne), hba]

theorem Covers.of_copy (h : a.Covers b) (ho : c.object = b.object) (hr : c.rights = b.rights)
    (hb : c.badge = b.badge) : a.Covers c := by
  obtain ⟨ho1, hr1, hb1⟩ := h
  exact ⟨ho.trans ho1, hr ▸ hr1, fun hne => hb.trans (hb1 hne)⟩

end Capability

theorem mdbBadgeDerive_ok {srcBadge requested badge : UInt64} {type : KObjType}
    (h : Kernel.mdbBadgeDerive srcBadge requested type = .ok badge) (hsrc : srcBadge ≠ 0) :
    badge = srcBadge := by
  unfold mdbBadgeDerive at h
  split_ifs at h with h₁ h₂ h3
  · cases h
    rfl
  · cases h
    by_contra hne
    exact h₂ ⟨hsrc, Ne.symm hne⟩

namespace Kernel

/-- The capability in the source slot of a transfer still covers what was staged. -/
def deliveryCovered (σ : Kernel) (c : StagedCap) : Bool :=
  let src := σ.slots (.slot c.srcCn c.srcIdx)
  src.object ≠ some c.obj ||
    (rightsSubset c.rights src.rights && (src.badge = 0 || c.badge = src.badge))

/-- Roots are put in without a parent, and a transfer finds a source that covers it. -/
def keepsAuthority (σ : Kernel) : Action → Bool
  | .installLinked _ _ _ _ _ parent _ _ _ => parent.isNone
  | .ipcDeliver k _ => (σ.staged[k]?).all σ.deliveryCovered
  | _ => true

end Kernel

section
variable {σ τ : Kernel} {F : Forest SlotRef} {a : Action}

theorem covers_of_justified (ha : σ.keepsAuthority a = true) {G : CapGraph} {p : SlotRef}
    {c pc : Capability} (hr : G.Respects Capability.Covers) (hp : G.cap p = some pc)
    (hJ : Justified σ a G (some p) c) : pc.Covers c := by
  cases a with
  | installLinked cn idx obj rights badge parent expect exclusive unparented =>
    obtain ⟨hparent, -⟩ := hJ
    rw [Option.isNone_iff_eq_none.mp ha] at hparent
    cases hparent
  | derive srcCn srcIdx dstCn dstIdx requested reqBadge =>
    obtain ⟨sc, hsc, hps, hobj, hrights, hbadge⟩ := hJ
    cases hps
    obtain rfl : pc = sc := Option.some.inj (hp.symm.trans hsc)
    exact ⟨hobj, hrights ▸ rightsReduce_subset _ _, mdbBadgeDerive_ok hbadge⟩
  | installSibling srcCn srcIdx dstCn dstIdx =>
    obtain ⟨sc, hsc, hplace, hobj, hrights, hbadge⟩ := hJ
    rcases hplace with ⟨q, hq, hchild⟩ | hps
    · cases hq
      exact (hr _ _ _ _ hchild hp hsc).of_copy hobj hrights hbadge
    · cases hps
      obtain rfl : pc = sc := Option.some.inj (hp.symm.trans hsc)
      exact (Capability.Covers.refl pc).of_copy hobj hrights hbadge
  | installForThread srcCn srcIdx dstCn dstIdx =>
    obtain ⟨sc, hsc, hps, hobj, hrights, hbadge⟩ := hJ
    cases hps
    obtain rfl : pc = sc := Option.some.inj (hp.symm.trans hsc)
    exact (Capability.Covers.refl pc).of_copy hobj hrights hbadge
  | ipcDeliver k dst =>
    obtain ⟨st, sc, hst, hps, hsc, hcap, hsrc, hobj, hrights, hbadge⟩ := hJ
    cases hps
    obtain rfl : pc = sc := Option.some.inj (hp.symm.trans hsc)
    rw [hcap] at hsc
    obtain ⟨hso, hsr, hsb⟩ := slots_of_caps hsc
    have hcovered : σ.deliveryCovered st = true := by
      simpa [keepsAuthority, hst] using ha
    simp only [deliveryCovered, hso, hsr, hsb, hsrc, Bool.or_eq_true, Bool.and_eq_true,
      decide_eq_true_eq] at hcovered
    obtain ⟨hsub, hbadge'⟩ := hcovered.resolve_left (fun h => h rfl)
    exact ⟨hobj.trans hsrc.symm, hrights ▸ hsub, fun hne => hbadge.trans (hbadge'.resolve_left hne)⟩
  | _ => exact hJ.elim

theorem Wf.consistent (hw : Wf σ F) : (CapGraph.mk F σ.caps).Consistent := by
  intro s
  simp [hw.mem_iff, occupied, caps, KCSlot.cap]

/-- Every capability of the state covers the ones derived from it. -/
def CoversDerived (σ : Kernel) : Prop :=
  ∃ F, Wf σ F ∧ (CapGraph.mk F σ.caps).Respects Capability.Covers

theorem CoversDerived.step {hooks : Hooks} (h : CoversDerived σ) (ha : σ.keepsAuthority a = true)
    (hstep : Step hooks σ a τ) : CoversDerived τ := by
  obtain ⟨F, hw, hr⟩ := h
  obtain ⟨F', hw', hsteps⟩ := step_refines hw hstep
  refine ⟨F', hw', ?_⟩
  refine (hsteps.invariant (I := fun G => G.Consistent ∧ G.Respects Capability.Covers) ?_
    ⟨hw.consistent, hr⟩).2
  intro G G' hG ⟨hcons, hresp⟩
  exact ⟨hG.consistent hcons, hG.respects (fun h₁ h₂ => h₁.trans h₂)
    (fun p c pc hresp hp hJ => covers_of_justified ha hresp hp hJ) hcons hresp⟩

theorem Initial.coversDerived (h : Initial σ) : CoversDerived σ := by
  obtain ⟨F, hw⟩ := h.wf
  refine ⟨F, hw, fun p c pc cc _ hp _ => ?_⟩
  have hp : (σ.slots p).cap = some pc := hp
  rw [h.slots] at hp
  cases hp

end

/-- Authority never grows along derivation, if transfers find their source still covering what was
staged. -/
theorem runs_authority {hooks : Hooks} {σ τ : Kernel} {as : List Action} (hσ : Initial σ)
    (h : Runs hooks (fun σ a => σ.keepsAuthority a = true) σ as τ) {a b : SlotRef}
    {ca cb : Capability} (hab : τ.Ancestor a b) (ha : τ.caps a = some ca) (hb : τ.caps b = some cb) :
    ca.object = cb.object → rightsSubset cb.rights ca.rights ∧
      (ca.badge ≠ 0 → cb.badge = ca.badge) := by
  intro _
  have hcovers : CoversDerived τ :=
    h.keeps (fun σ a τ hI ok hstep => hI.step ok hstep) hσ.coversDerived
  obtain ⟨F, hw, hr⟩ := hcovers
  rw [hw.ancestor_eq] at hab
  exact (hr.anc (fun h₁ h₂ => h₁.trans h₂) hw.consistent hab ha hb).2

/-! ## A transfer from a slot that was filled anew -/

def rightFull : Rights := rightRead ||| rightWrite ||| rightDuplicate ||| rightTransfer

/-- A capability with all rights is staged from slot 1 and delivered to slot 2. -/
def transferRun : List Action :=
  [.allocCNode 4, .holdActive 0, .initObject .endpoint,
    .installLinked 0 0 1 rightFull 7 none none true true,
    .derive 0 0 0 1 rightSameRights 0, .ipcStage 0 1 rightSameRights, .ipcDeliver 0 (some (0, 2))]

theorem runs_authority_transferRun :
    ∃ τ ca cb, exec inertHooks (fun σ a => σ.keepsAuthority a = true) 16 {} transferRun = some τ ∧
      τ.Ancestor (.slot 0 1) (.slot 0 2) ∧ τ.caps (.slot 0 1) = some ca ∧
      τ.caps (.slot 0 2) = some cb ∧ rightsSubset cb.rights ca.rights ∧
      (ca.badge ≠ 0 → cb.badge = ca.badge) := by
  obtain ⟨τ, hτ, hparent, hca, hcb⟩ :
      ∃ τ ∈ exec inertHooks (fun σ a => σ.keepsAuthority a = true) 16 {} transferRun,
        (τ.mdb (.slot 0 2)).parent = some (.slot 0 1) ∧
        τ.caps (.slot 0 1) = some ⟨1, rightFull, 7, 0⟩ ∧
        τ.caps (.slot 0 2) = some ⟨1, rightFull, 7, 0⟩ := by decide
  have hanc : τ.Ancestor (.slot 0 1) (.slot 0 2) := .single hparent
  exact ⟨τ, _, _, hτ, hanc, hca, hcb,
    runs_authority initial_empty (.of_exec hτ) hanc hca hcb rfl⟩

/-- While the sender waits its slot 1 is filled anew with a read-only capability to the same object.
-/
def refilledRun : List Action :=
  [.allocCNode 4, .holdActive 0, .initObject .endpoint,
    .installLinked 0 0 1 rightFull 0 none none true true,
    .derive 0 0 0 1 rightSameRights 0, .ipcStage 0 1 rightSameRights, .delete 0 1,
    .derive 0 0 0 1 rightRead 0, .ipcDeliver 0 (some (0, 2))]

/-- The delivered capability has rights that the one it is derived from does not have. -/
theorem refilledRun_grows : Initial {} ∧
    ∃ τ ca cb, Runs inertHooks (fun _ _ => True) {} refilledRun τ ∧
      τ.Ancestor (.slot 0 1) (.slot 0 2) ∧ τ.caps (.slot 0 1) = some ca ∧
      τ.caps (.slot 0 2) = some cb ∧ ca.object = cb.object ∧
      ¬ rightsSubset cb.rights ca.rights := by
  obtain ⟨τ, hτ, hparent, hca, hcb⟩ : ∃ τ ∈ exec inertHooks (fun _ _ => True) 16 {} refilledRun,
      (τ.mdb (.slot 0 2)).parent = some (.slot 0 1) ∧
      τ.caps (.slot 0 1) = some ⟨1, rightRead, 0, 0⟩ ∧
      τ.caps (.slot 0 2) = some ⟨1, rightFull, 0, 0⟩ := by decide
  exact ⟨initial_empty, τ, _, _, .of_exec hτ, .single hparent, hca, hcb, rfl, by decide⟩

end IrisOS.Cap
