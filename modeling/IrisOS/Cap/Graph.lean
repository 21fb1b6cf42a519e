import IrisOS.Cap.Prune

/-! The abstract capability system: a forest of capabilities that are removed, put in and renamed;
the slot primitives refine these steps. -/
namespace IrisOS.Cap
open Lib Function

/-- What a slot says about an object. -/
structure Capability where
  object : ObjId
  rights : Rights
  badge : UInt64
  flags : UInt32
  deriving DecidableEq

def KCSlot.cap (s : KCSlot) : Option Capability :=
  s.object.map fun o => ⟨o, s.rights, s.badge, s.mdbFlags⟩

def Kernel.caps (σ : Kernel) (s : SlotRef) : Option Capability := (σ.slots s).cap

theorem slots_of_caps {σ : Kernel} {s : SlotRef} {c : Capability} (h : σ.caps s = some c) :
    (σ.slots s).object = some c.object ∧ (σ.slots s).rights = c.rights ∧
      (σ.slots s).badge = c.badge := by
  obtain ⟨o, ho, rfl⟩ := Option.map_eq_some_iff.mp h
  exact ⟨ho, rfl, rfl⟩

structure CapGraph where
  forest : Forest SlotRef
  cap : SlotRef → Option Capability

/-- The forest holds exactly the slots with a capability. -/
def CapGraph.Consistent (G : CapGraph) : Prop := ∀ s, G.forest.Mem s ↔ (G.cap s).isSome

/-- One step of the abstract system. `J G p c` says when `c` may be put below `p`. -/
inductive CapStep (J : CapGraph → Option SlotRef → Capability → Prop) :
    CapGraph → CapGraph → Prop
  | remove {G : CapGraph} {s : SlotRef} {F' : Forest SlotRef} (hs : G.forest.Mem s)
      (h : G.forest.Detaches s F') : CapStep J G ⟨F', update G.cap s none⟩
  | rename (G : CapGraph) (e : Equiv.Perm SlotRef) :
      CapStep J G ⟨G.forest.rename e, fun x => G.cap (e.symm x)⟩
  | root {G : CapGraph} {s : SlotRef} {k : ℕ} {c : Capability} (hs : ¬ G.forest.Mem s)
      (hk : G.forest.kids (.top k) = []) (hJ : J G none c) :
      CapStep J G ⟨G.forest.insert (.top k) s hs (by simp), update G.cap s (some c)⟩
  | child {G : CapGraph} {s p : SlotRef} {c : Capability} (hs : ¬ G.forest.Mem s)
      (hp : G.forest.Mem p) (hJ : J G (some p) c) :
      CapStep J G ⟨G.forest.insert (.node p) s hs (by rintro q ⟨⟩; exact hp),
        update G.cap s (some c)⟩

abbrev CapSteps (J : CapGraph → Option SlotRef → Capability → Prop) : CapGraph → CapGraph → Prop :=
  Relation.ReflTransGen (CapStep J)

@[simp] theorem KCSlot.cap_empty : KCSlot.empty.cap = none := rfl

theorem Prunes.capSteps {J : CapGraph → Option SlotRef → Capability → Prop}
    {F F' : Forest SlotRef} {m m' : SlotRef → KCSlot} (h : Prunes F m F' m') :
    CapSteps J ⟨F, fun s => (m s).cap⟩ ⟨F', fun s => (m' s).cap⟩ := by
  induction h with
  | refl => exact .refl
  | @remove F1 m1 F2 s _ hs hd ih =>
    refine ih.tail ?_
    have hcap : (fun x => (update m1 s KCSlot.empty x).cap) =
        update (fun x => (m1 x).cap) s none := by
      funext x
      by_cases hx : x = s
      · simp [hx]
      · simp [hx]
    rw [hcap]
    exact .remove (G := ⟨F1, fun s => (m1 s).cap⟩) hs hd

/-! ## Invariants of the abstract system -/

section
variable {J : CapGraph → Option SlotRef → Capability → Prop} {G G' : CapGraph}

theorem CapStep.consistent (h : CapStep J G G') (hG : G.Consistent) : G'.Consistent := by
  intro x
  cases h with
  | @remove s F' hs h =>
    rw [h.mem_iff, hG x]
    by_cases hx : x = s <;> simp [hx]
  | rename e => exact (Forest.mem_rename e).trans (hG _)
  | @root s | @child s =>
    rw [Forest.mem_insert, hG x]
    by_cases hx : x = s <;> simp [hx]

theorem CapSteps.invariant {I : CapGraph → Prop} (hI : ∀ {G G'}, CapStep J G G' → I G → I G')
    (h : CapSteps J G G') (hG : I G) : I G' := by
  induction h with
  | refl => exact hG
  | tail _ hstep ih => exact hI hstep ih

/-- A relation holds between every capability and the ones right below it. -/
def CapGraph.Respects (G : CapGraph) (r : Capability → Capability → Prop) : Prop :=
  ∀ p c pc cc, G.forest.Child p c → G.cap p = some pc → G.cap c = some cc → r pc cc

variable {r : Capability → Capability → Prop}

theorem CapStep.respects (htrans : ∀ {a b c}, r a b → r b c → r a c)
    (hJ : ∀ p c pc, G.Respects r → G.cap p = some pc → J G (some p) c → r pc c)
    (h : CapStep J G G') (hG : G.Consistent) (hr : G.Respects r) : G'.Respects r := by
  intro p c pc cc hchild hp hc
  cases h with
  | @remove s F' hs h =>
    obtain ⟨hps, hcs, hchild⟩ := h.child_iff.mp hchild
    simp only [update_of_ne hps, update_of_ne hcs] at hp hc
    rcases hchild with hchild | ⟨h1, h2⟩
    · exact hr p c pc cc hchild hp hc
    · obtain ⟨sc, hsc⟩ := Option.isSome_iff_exists.mp ((hG s).mp hs)
      exact htrans (hr p s pc sc h1 hp hsc) (hr s c sc cc h2 hsc hc)
  | rename e => exact hr _ _ _ _ ((Forest.child_rename e).mp hchild) hp hc
  | @root s k d hs hk _ =>
    rw [Forest.child_insert_top] at hchild
    have hps : p ≠ s := fun e => hs (e ▸ hchild.owner)
    have hcs : c ≠ s := fun e => hs (e ▸ hchild.mem)
    simp only [update_of_ne hps, update_of_ne hcs] at hp hc
    exact hr p c pc cc hchild hp hc
  | @child s q d hs hq hJ' =>
    rw [Forest.child_insert_node] at hchild
    rcases hchild with ⟨rfl, rfl⟩ | hchild
    · have hps : p ≠ c := fun e => hs (e ▸ hq)
      simp only [update_of_ne hps, update_self] at hp hc
      cases hc
      exact hJ p _ pc hr hp hJ'
    · have hps : p ≠ s := fun e => hs (e ▸ hchild.owner)
      have hcs : c ≠ s := fun e => hs (e ▸ hchild.mem)
      simp only [update_of_ne hps, update_of_ne hcs] at hp hc
      exact hr p c pc cc hchild hp hc

theorem CapGraph.Respects.anc (htrans : ∀ {a b c}, r a b → r b c → r a c)
    (hG : G.Consistent) (hr : G.Respects r) {a b : SlotRef} {ac bc : Capability}
    (h : G.forest.Anc a b) (ha : G.cap a = some ac) (hb : G.cap b = some bc) : r ac bc := by
  induction h generalizing bc with
  | single h => exact hr _ _ _ _ h ha hb
  | tail _ h ih =>
    obtain ⟨c, hc⟩ := Option.isSome_iff_exists.mp ((hG _).mp h.owner)
    exact htrans (ih hc) (hr _ _ _ _ h hc hb)

end
end IrisOS.Cap
