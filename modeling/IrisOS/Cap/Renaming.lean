import IrisOS.Cap.Refine

/-! Moves, rotations and swaps as renamings of slots. What is in a slot goes where a permutation
says, with its place in the derivation tree; only a guard does not go along. -/
namespace IrisOS.Cap
open Lib

section
variable {σ τ : Kernel} {F : Forest SlotRef} {l : List SlotRef} {e : Equiv.Perm SlotRef}

theorem Shuffled.parent (h : Shuffled σ l e τ) (hw : Wf σ F) (p c : SlotRef) :
    (τ.mdb (e c)).parent = some (e p) ↔ (σ.mdb c).parent = some p := by
  induction h with
  | refl => exact Iff.rfl
  | @relocate l e τ src dst dstCn before hsrc hdst hhome ih =>
    obtain ⟨F', hw', -⟩ := before.wfTmp (J := fun _ _ _ => True) hw
    rw [← ih, hw'.layout.parent_eq_some, (hw'.relocate hsrc hdst hhome).layout.parent_eq_some,
      Forest.child_rename]
    simp

end

section
variable {σ τ : Kernel} {F : Forest SlotRef} {named : List SlotRef} {e : Equiv.Perm SlotRef}
  {r : Kernel × List Call}

/-- The slots of `τ` are those of `σ` renamed by `e`. -/
structure Renamed (σ : Kernel) (named : List SlotRef) (e : Equiv.Perm SlotRef) (τ : Kernel) :
    Prop where
  caps : ∀ x, (τ.slots (e x)).unplaced = (σ.slots x).unplaced
  derivation : ∀ p c, (τ.mdb (e c)).parent = some (e p) ↔ (σ.mdb c).parent = some p
  others : ∀ x ∉ named, τ.slots x = σ.slots x

theorem Shuffles.renamed (h : Shuffles σ named e r) (hw : Wf σ F) (hok : r.1.ret.err = .ok)
    (hguard : ∀ x ∈ named, (σ.slots x).guard = 0 ∧ (σ.slots x).guardBits = 0) :
    Renamed σ named e r.1 := by
  have hothers := fun x => h.outside hw (x := x)
  obtain ⟨err, herr, rfl⟩ | ⟨l, e', τ, st, hs, ht, hl, -, he, rfl⟩ := h
  · exact absurd hok herr
  obtain ⟨F', hw', -⟩ := hs.wfTmp (J := fun _ _ _ => True) hw
  have htmp : σ.slots .tmp = KCSlot.empty := hw.empty _ hw.tmp_free
  have hcontent : ∀ x, (τ.slots (e' x)).unplaced = (σ.slots x).unplaced := by
    intro x
    rw [hs.content hw x]
    split_ifs with hx
    · rcases List.mem_cons.1 (hl hx) with rfl | hx
      · rw [htmp]
        rfl
      · obtain ⟨hg, hb⟩ := hguard x hx
        simp [KCSlot.unguarded, KCSlot.unplaced, ← hg, ← hb]
    · rfl
  have hocc : ∀ x, τ.occupied (e x) = σ.occupied x := by
    intro x
    cases hx : σ.occupied x with
    | true => rw [← he x hx, hs.vacant hw, hx]
    | false =>
      obtain ⟨y, hy⟩ := e'.surjective (e x)
      rw [← hy, hs.vacant hw]
      by_contra hn
      have hyo : σ.occupied y = true := by simpa using hn
      rw [he y hyo] at hy
      rw [e.injective hy, hx] at hyo
      cases hyo
  refine ⟨fun x => ?_, fun p c => ?_, hothers⟩
  · cases hx : σ.occupied x with
    | true => exact he x hx ▸ hcontent x
    | false =>
      change (τ.slots (e x)).unplaced = _
      rw [hw'.empty _ ((hocc x).trans hx), hw.empty x hx]
  · change (τ.mdb (e c)).parent = some (e p) ↔ _
    have hnone : ∀ {υ G}, WfTmp υ G → ∀ {p c}, (υ.mdb c).parent = some p →
        υ.occupied p = true ∧ υ.occupied c = true := by
      intro υ G hG p c hpc
      have hchild := hG.layout.parent_eq_some.1 hpc
      exact ⟨(hG.mem_iff p).1 hchild.owner, (hG.mem_iff c).1 hchild.mem⟩
    constructor
    · intro hpc
      obtain ⟨hp, hc⟩ := hnone hw' hpc
      rw [hocc] at hp hc
      rw [← he p hp, ← he c hc] at hpc
      exact (hs.parent hw p c).1 hpc
    · intro hpc
      obtain ⟨hp, hc⟩ := hnone hw.wfTmp hpc
      rw [← he p hp, ← he c hc]
      exact (hs.parent hw p c).2 hpc

/-- Each relocation takes the guard off the capability it moves. -/
theorem Shuffles.unguarded_of_renamed (h : Shuffles σ named e r) (hw : Wf σ F)
    (hok : r.1.ret.err = .ok) (hr : Renamed σ named e r.1) {x : SlotRef} (hx : x ∈ named) :
    (σ.slots x).guard = 0 ∧ (σ.slots x).guardBits = 0 := by
  obtain ⟨err, herr, rfl⟩ | ⟨l, e', τ, st, hs, ht, -, hl, he, rfl⟩ := h
  · exact absurd hok herr
  cases hocc : σ.occupied x with
  | false => rw [hw.empty x hocc]; exact ⟨rfl, rfl⟩
  | true =>
    have hmoved := hs.content hw x
    rw [if_pos (hl x hx hocc), he x hocc] at hmoved
    have hkept : (σ.slots x).unplaced = (σ.slots x).unplaced.unguarded :=
      (hr.caps x).symm.trans hmoved
    exact ⟨congrArg KCSlot.guard hkept, congrArg KCSlot.guardBits hkept⟩

/-- A move, rotation or swap that succeeds renames the slots, and nothing else, unless one of them
holds a capability with a guard. -/
theorem relocation_renames_slots {hooks : Hooks} {σ₀ : Kernel} {as : List Action}
    (h₀ : Initial σ₀) (hrun : Runs hooks (fun _ _ => True) σ₀ as σ) {a : Action}
    (ha : a.renaming = some (named, e)) (hstep : Step hooks σ a τ) (hok : τ.ret.err = .ok) :
    Renamed σ named e τ ↔
      ∀ x ∈ named, (σ.slots x).guard = 0 ∧ (σ.slots x).guardBits = 0 := by
  obtain ⟨F, hw⟩ := hrun.wf h₀
  have hs := act_shuffles hw ha
  have hret := hstep.2
  rw [hs.calls] at hret
  obtain rfl := CallMachine.Returns.nil_iff.1 hret
  exact ⟨fun hr _ => hs.unguarded_of_renamed hw hok hr, hs.renamed hw hok⟩

end

/-- An endpoint with a capability derived from another. -/
def derivedRun : List Action :=
  [.allocCNode 4, .initObject .endpoint,
    .installLinked 0 0 1 (rightRead ||| rightDuplicate) 0 none none true true,
    .derive 0 0 0 1 rightRead 0]

/-- A parent and its child change places. -/
theorem relocation_renames_slots_derivedRun : ∃ σ τ,
    Runs inertHooks (fun _ _ => True) {} derivedRun σ ∧ (σ.mdb (.slot 0 1)).parent = some (.slot 0 0) ∧
      Step inertHooks σ (.swap 0 0 1) τ ∧ τ.ret.err = .ok ∧
      Renamed σ [.slot 0 0, .slot 0 1] (Equiv.swap (.slot 0 0) (.slot 0 1)) τ := by
  obtain ⟨σ, τ, hσ, hstep, hparent, hguard, hok⟩ : ∃ σ τ,
      Runs inertHooks (fun _ _ => True) {} derivedRun σ ∧ Step inertHooks σ (.swap 0 0 1) τ ∧
      (σ.mdb (.slot 0 1)).parent = some (.slot 0 0) ∧
      (∀ x ∈ [SlotRef.slot 0 0, .slot 0 1], (σ.slots x).guard = 0 ∧ (σ.slots x).guardBits = 0) ∧
      τ.ret.err = .ok := ActionSystem.exists_step 16 (by decide)
  exact ⟨σ, τ, hσ, hparent, hstep, hok,
    (relocation_renames_slots initial_empty hσ rfl hstep hok).mpr hguard⟩

/-- A CNode is named by a capability with a guard. -/
def guardedRun : List Action :=
  [.allocCNode 4, .allocCNode 2, .installLinked 0 0 1 rightRead 0 none none true true,
    .setGuard 0 0 1 1]

/-- A move takes the capability and leaves its guard. -/
theorem move_loses_the_guard : ∃ σ τ, Runs inertHooks (fun _ _ => True) {} guardedRun σ ∧
    Step inertHooks σ (.move 0 0 0 1) τ ∧ τ.ret.err = .ok ∧
    (σ.slots (.slot 0 0)).guardBits = 1 ∧ (σ.slots (.slot 0 0)).guard = 1 ∧
    (τ.slots (.slot 0 1)).object = (σ.slots (.slot 0 0)).object ∧
    (τ.slots (.slot 0 1)).guardBits = 0 ∧ (τ.slots (.slot 0 1)).guard = 0 :=
  ActionSystem.exists_step 16 (by decide)

end IrisOS.Cap
