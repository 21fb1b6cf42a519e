import IrisOS.Cap.Validate

/-! Deleting a capability hands the children of the slot to its parent, or keeps them together as
roots, so what is left is related as before. -/
namespace IrisOS.Cap
open Lib

section
variable {hooks : Hooks} {σ τ : Kernel} {F : Forest SlotRef} {cn : ObjId} {idx : ℕ}

theorem delete_prunes (hw : Wf σ F) (h : Step hooks σ (.delete cn idx) τ) :
    ∃ F', Wf τ F' ∧ Prunes F σ.slots F' τ.slots := by
  obtain ⟨F1, hw1, hp1⟩ : ∃ F1, Wf (σ.kcnodeSlotDelete cn idx).1 F1 ∧
      Prunes F σ.slots F1 (σ.kcnodeSlotDelete cn idx).1.slots := by
    unfold Kernel.kcnodeSlotDelete
    split
    · exact ⟨F, ((Kept.refl σ).returning _).wf hw, .refl⟩
    · obtain ⟨F1, hw1, hp1⟩ := (slotDeleteLocked_effect hw cn idx).1.prunes hw
      exact ⟨F1, ((Kept.refl _).returning .ok).wf hw1, hp1⟩
  obtain ⟨F2, hw2, hp2, -⟩ :=
    returns_prunes hw1 (fun f hf => (act_isEntry hw (.delete cn idx) f hf).frameOk _) h.2
  exact ⟨F2, hw2, hp1.trans hp2⟩

end

/-- In every reachable state a delete ends and keeps the ancestor relation among what is left. -/
theorem delete_preserves_ancestor {hooks : Hooks} {P : Kernel → Action → Prop} {σ₀ σ : Kernel}
    {as : List Action} (h₀ : Initial σ₀) (h : Runs hooks P σ₀ as σ) (hp : σ.panic = none)
    (cn : ObjId) (idx : ℕ) :
    (∃ τ, Step hooks σ (.delete cn idx) τ) ∧
      ∀ τ, Step hooks σ (.delete cn idx) τ → ∀ a b, τ.occupied a = true → τ.occupied b = true →
        (τ.Ancestor a b ↔ σ.Ancestor a b) := by
  obtain ⟨F, hw⟩ := h.wf h₀
  refine ⟨Step.exists_outcome hw hp _, fun τ hstep a b ha hb => ?_⟩
  obtain ⟨F', hw', hprunes⟩ := delete_prunes hw hstep
  rw [hw.ancestor_eq, hw'.ancestor_eq]
  exact hprunes.anc_iff (hw'.mem ha) (hw'.mem hb)

/-- A root with a derived capability that has one of its own: deleting the middle one leaves
the root above the last. -/
def middleRun : List Action :=
  [.allocCNode 4, .initObject .endpoint, .installLinked 0 0 1 rightDuplicate 0 none none true true,
    .derive 0 0 0 1 rightSameRights 0, .derive 0 1 0 2 rightSameRights 0]

theorem delete_preserves_ancestor_middleRun :
    ∃ σ τ, exec inertHooks (fun _ _ => True) 8 {} middleRun = some σ ∧
      Step inertHooks σ (.delete 0 1) τ ∧
      ∀ a b, τ.occupied a = true → τ.occupied b = true → (τ.Ancestor a b ↔ σ.Ancestor a b) := by
  obtain ⟨σ, hσ, hp⟩ : ∃ σ ∈ exec inertHooks (fun _ _ => True) 8 {} middleRun, σ.panic = none := by
    decide
  obtain ⟨⟨τ, hτ⟩, hall⟩ := delete_preserves_ancestor initial_empty (.of_exec hσ)
    hp 0 1
  exact ⟨σ, τ, hσ, hτ, hall τ hτ⟩

end IrisOS.Cap
