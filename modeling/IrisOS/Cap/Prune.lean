import IrisOS.Cap.WellFormed

/-! A whole execution of the call machine removes some capabilities and leaves every other one, and
every ancestor relation between the survivors, as it was. -/
namespace IrisOS.Cap
open Lib

/-- The forest `F'` with contents `m'` arises from `F` and `m` by removing capabilities. -/
inductive Prunes (F : Forest SlotRef) (m : SlotRef → KCSlot) :
    Forest SlotRef → (SlotRef → KCSlot) → Prop
  | refl : Prunes F m F m
  | remove {F₁ m₁ F₂ s} (run : Prunes F m F₁ m₁) (hs : F₁.Mem s) (h : F₁.Detaches s F₂) :
      Prunes F m F₂ (Function.update m₁ s KCSlot.empty)

namespace Prunes
variable {F F' F'' : Forest SlotRef} {m m' m'' : SlotRef → KCSlot} {a b x : SlotRef}

theorem trans (h1 : Prunes F m F' m') (h2 : Prunes F' m' F'' m'') : Prunes F m F'' m'' := by
  induction h2 with
  | refl => exact h1
  | remove _ hs h ih => exact .remove ih hs h

theorem mem (h : Prunes F m F' m') (hx : F'.Mem x) : F.Mem x := by
  induction h with
  | refl => exact hx
  | remove _ _ hd ih => exact ih (hd.mem_iff.mp hx).2

theorem content (h : Prunes F m F' m') (hx : F'.Mem x) : m' x = m x := by
  induction h with
  | refl => rfl
  | remove _ _ hd ih =>
    obtain ⟨hne, hx⟩ := hd.mem_iff.mp hx
    rw [Function.update_of_ne hne, ih hx]

theorem anc_iff (h : Prunes F m F' m') (ha : F'.Mem a) (hb : F'.Mem b) :
    F'.Anc a b ↔ F.Anc a b := by
  induction h with
  | refl => exact Iff.rfl
  | remove _ _ hd ih =>
    obtain ⟨hna, ha⟩ := hd.mem_iff.mp ha
    obtain ⟨hnb, hb⟩ := hd.mem_iff.mp hb
    rw [hd.anc_iff hna hnb, ih ha hb]

end Prunes

/-- The parts of the state that no call touches. -/
structure SameShape (σ τ : Kernel) : Prop where
  numObjs : τ.numObjs = σ.numObjs
  staged : τ.staged = σ.staged
  type : ∀ o, (τ.objs o).type = (σ.objs o).type
  slotCount : ∀ o, (τ.objs o).slotCount = (σ.objs o).slotCount

theorem SameShape.refl (σ : Kernel) : SameShape σ σ := ⟨rfl, rfl, fun _ => rfl, fun _ => rfl⟩

theorem SameShape.trans {σ τ υ : Kernel} (h1 : SameShape σ τ) (h2 : SameShape τ υ) :
    SameShape σ υ :=
  ⟨h2.numObjs.trans h1.numObjs, h2.staged.trans h1.staged,
    fun o => (h2.type o).trans (h1.type o), fun o => (h2.slotCount o).trans (h1.slotCount o)⟩

namespace Effect
variable {σ τ : Kernel} {F : Forest SlotRef}

theorem sameShape (h : Effect σ τ) : SameShape σ τ := by
  cases h with
  | kept h => exact ⟨h.numObjs, h.staged, h.type, h.slotCount⟩
  | removed => exact ⟨rfl, rfl, fun _ => rfl, fun _ => rfl⟩

theorem prunes (h : Effect σ τ) (hw : Wf σ F) : ∃ F', Wf τ F' ∧ Prunes F σ.slots F' τ.slots := by
  cases h with
  | kept h =>
    refine ⟨F, h.wf hw, ?_⟩
    rw [h.slots]
    exact .refl
  | removed s st hs =>
    obtain ⟨F', hd, hw'⟩ := hw.without hs st
    exact ⟨F', hw', .remove .refl (hw.mem hs) hd⟩

end Effect

section
variable {hooks : Hooks} {σ τ : Kernel} {k : List Call} {F : Forest SlotRef}

/-- The forest and the waiting calls are in order. -/
def InOrder (σ : Kernel) (k : List Call) : Prop := (∃ F, Wf σ F) ∧ ∀ f ∈ k, FrameOk σ f

theorem body_effect (hooks : Hooks) (hw : Wf σ F) {f : Call} (hf : FrameOk σ f) :
    Effect σ ((machine hooks).body σ f).1 ∧
      ∀ g ∈ ((machine hooks).body σ f).2, FrameOk ((machine hooks).body σ f).1 g := by
  unfold machine
  simp only
  split_ifs
  · exact perform_effect hooks hw f hf
  · exact ⟨.kept (.stop σ _), by simp⟩

theorem InOrder.call {f : Call} (hooks : Hooks) (h : InOrder σ (f :: k)) :
    InOrder ((machine hooks).body σ f).1 (((machine hooks).body σ f).2 ++ k) := by
  obtain ⟨⟨F, hw⟩, hk⟩ := h
  obtain ⟨he, hnew⟩ := body_effect hooks hw (hk f (by simp))
  obtain ⟨F', hw', -⟩ := he.prunes hw
  refine ⟨⟨F', hw'⟩, fun g hg => ?_⟩
  rcases List.mem_append.mp hg with hg | hg
  · exact hnew g hg
  · exact he.frameOk (hk g (by simp [hg]))

theorem returns_prunes (hw : Wf σ F) (hk : ∀ f ∈ k, FrameOk σ f)
    (h : (machine hooks).Returns σ k τ) :
    ∃ F', Wf τ F' ∧ Prunes F σ.slots F' τ.slots ∧ SameShape σ τ := by
  have key := h.preserves
    (I := fun τ k => (∃ F', Wf τ F' ∧ Prunes F σ.slots F' τ.slots ∧ SameShape σ τ) ∧
      ∀ f ∈ k, FrameOk τ f)
    (fun τ f k _ hI => ⟨hI.1, by simp⟩) ?_ ⟨⟨F, hw, .refl, .refl σ⟩, hk⟩
  · exact key.1
  rintro τ f k - ⟨⟨F₁, hw1, hp, hs⟩, hk⟩
  obtain ⟨he, hnew⟩ := body_effect hooks hw1 (hk f (by simp))
  obtain ⟨F₂, hw2, hp2⟩ := he.prunes hw1
  refine ⟨⟨F₂, hw2, hp.trans hp2, hs.trans he.sameShape⟩, fun g hg => ?_⟩
  rcases List.mem_append.mp hg with hg | hg
  · exact hnew g hg
  · exact he.frameOk (hk g (by simp [hg]))

end
end IrisOS.Cap
