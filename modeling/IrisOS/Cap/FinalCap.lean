import IrisOS.Cap.Authority
import IrisOS.Lib.Neighbour

/-! The final-capability test `kcnode_slot_is_final_cap`. It looks at neighbours only, and is exact
because the capabilities of one object form a connected part of the forest. -/
namespace IrisOS.Cap
open Lib Kernel

namespace Kernel

def kcnodeSlotIsFinalCap (σ : Kernel) (s : SlotRef) : Bool :=
  match (σ.slots s).object with
  | none => false
  | some o =>
    if (σ.mdb s).parent.any (σ.names o) then false
    else if (σ.childList s).any (σ.names o) then false
    else if (chain (fun c => (σ.mdb c).nextSib) σ.capacity (σ.mdb s).nextSib).any (σ.names o) then
      false
    else !(chain (fun c => (σ.mdb c).prevSib) σ.capacity (σ.mdb s).prevSib).any (σ.names o)

def unnamed (σ : Kernel) (o : ObjId) : Bool := σ.allSlots.all fun s => !σ.names o s

/-- The installs that start with an object no capability names yet: a seed, or a retype. -/
def seedsFresh (σ : Kernel) : Action → Bool
  | .installLinked _ _ obj _ _ _ _ _ _ => σ.unnamed obj
  | _ => true

end Kernel

/-! ## The test and the neighbours -/

section
variable {σ : Kernel} {F : Forest SlotRef} {s : SlotRef} {o : ObjId} {n : Owner SlotRef}

theorem Wf.adj_iff (h : Wf σ F) {l1 l2 : List SlotRef}
    (hn : F.kids n = l1 ++ s :: l2) {x : SlotRef} (hx : x ≠ s) :
    F.Adj x s ↔ (σ.mdb s).parent = some x ∨ x ∈ F.kids (.node s) ∨ x ∈ l2 ∨ x ∈ l1 := by
  have hs : s ∈ F.kids n := by simp [hn]
  constructor
  · rintro (hadj | hadj | ⟨m, hxm, hsm⟩)
    · exact .inl (h.layout.parent_eq_some.mpr hadj)
    · exact .inr (.inl hadj)
    rw [F.unique hsm hs, hn, List.mem_append, List.mem_cons] at hxm
    rcases hxm with hxm | rfl | hxm
    · exact .inr (.inr (.inr hxm))
    · exact (hx rfl).elim
    · exact .inr (.inr (.inl hxm))
  · rintro (hpar | hchild | hafter | hbefore)
    · exact .inl (h.layout.parent_eq_some.mp hpar)
    · exact .inr (.inl hchild)
    · exact .of_kids (n := n) (by simp [hn, hafter]) hs
    · exact .of_kids (n := n) (by simp [hn, hbefore]) hs

theorem Wf.isFinalCap_iff (h : Wf σ F) (hs : (σ.slots s).object = some o) :
    σ.kcnodeSlotIsFinalCap s = true ↔ ∀ x, x ≠ s → F.Adj x s → (σ.slots x).object ≠ some o := by
  have hmem : F.Mem s := h.mem (by simp [occupied, hs])
  obtain ⟨n, hn⟩ := hmem
  obtain ⟨l1, l2, hl⟩ := List.append_of_mem hn
  have hnext : chain (fun c => (σ.mdb c).nextSib) σ.capacity (σ.mdb s).nextSib = l2 := by
    rw [h.layout.nextSib_eq hl]
    exact h.layout.chain_next h.boundedBy (hl.trans (List.append_cons l1 s l2))
  have hprev : chain (fun c => (σ.mdb c).prevSib) σ.capacity (σ.mdb s).prevSib = l1.reverse := by
    rw [h.layout.prevSib_eq hl]
    exact h.layout.chain_prev h.boundedBy hl
  obtain ⟨hs1, hs2, -⟩ := nodup_middle_iff.mp (hl ▸ F.nodup n)
  have hpar : ∀ x, (σ.mdb s).parent = some x → x ≠ s := fun x hx => (h.layout.parent_mem hx).2
  have hkid : ∀ x ∈ F.kids (.node s), x ≠ s := fun x hx => (Forest.Child.ne hx).symm
  have htest : σ.kcnodeSlotIsFinalCap s = true ↔
      (∀ x, (σ.mdb s).parent = some x → (σ.slots x).object ≠ some o) ∧
      (∀ x ∈ F.kids (.node s), (σ.slots x).object ≠ some o) ∧
      (∀ x ∈ l2, (σ.slots x).object ≠ some o) ∧ ∀ x ∈ l1, (σ.slots x).object ≠ some o := by
    simp only [kcnodeSlotIsFinalCap, hs, hnext, hprev, h.childList_eq]
    split_ifs with h1 h2 h3
    · obtain ⟨x, hx, hxo⟩ := (Option.any_eq_true _ _).mp h1
      simp only [false_iff]
      exact fun hall => hall.1 x hx (names_iff.mp hxo)
    · obtain ⟨x, hx, hxo⟩ := List.any_eq_true.mp h2
      simp only [false_iff]
      exact fun hall => hall.2.1 x hx (names_iff.mp hxo)
    · obtain ⟨x, hx, hxo⟩ := List.any_eq_true.mp h3
      simp only [false_iff]
      exact fun hall => hall.2.2.1 x hx (names_iff.mp hxo)
    · simp only [Option.any_eq_true, not_exists, not_and, names_iff] at h1
      simp only [List.any_eq_true, not_exists, not_and, names_iff] at h2 h3
      simp only [Bool.not_eq_true', List.any_eq_false, List.mem_reverse, names_iff]
      exact ⟨fun h4 => ⟨h1, h2, h3, h4⟩, fun hall => hall.2.2.2⟩
  rw [htest]
  constructor
  · rintro ⟨h1, h2, h3, h4⟩ x hx hadj
    rcases (h.adj_iff hl hx).mp hadj with hadj | hadj | hadj | hadj
    · exact h1 x hadj
    · exact h2 x hadj
    · exact h3 x hadj
    · exact h4 x hadj
  · intro hall
    have hne : ∀ x, x ≠ s → ((σ.mdb s).parent = some x ∨ x ∈ F.kids (.node s) ∨ x ∈ l2 ∨ x ∈ l1) →
        (σ.slots x).object ≠ some o := fun x hx hx' => hall x hx ((h.adj_iff hl hx).mpr hx')
    refine ⟨fun x hx => hne x (hpar x hx) (.inl hx), fun x hx => hne x (hkid x hx) (.inr (.inl hx)),
      fun x hx => hne x ?_ (.inr (.inr (.inl hx))), fun x hx => hne x ?_ (.inr (.inr (.inr hx)))⟩
    · rintro rfl
      exact hs2 hx
    · rintro rfl
      exact hs1 hx

end

/-! ## The capabilities of an object are connected -/

/-- The slots of the abstract system that name an object. -/
def CapGraph.Names (G : CapGraph) (o : ObjId) (s : SlotRef) : Prop :=
  (G.cap s).map Capability.object = some o

/-- The capabilities of every object form a connected part of the forest. -/
def CapGraph.ObjectsConnected (G : CapGraph) : Prop := ∀ o, G.forest.Connected (G.Names o)

/-- The capability `c` is the first to its object, or a neighbour of its place names it. -/
def CapGraph.Joins (G : CapGraph) (p : Option SlotRef) (c : Capability) : Prop :=
  (∀ x, ¬ G.Names c.object x) ∨
    ∃ y, G.Names c.object y ∧ (p = some y ∨ ∃ q, p = some q ∧ G.forest.Child q y)

section
variable {J : CapGraph → Option SlotRef → Capability → Prop} {G G' : CapGraph} {s : SlotRef}
  {o : ObjId} {c : Capability}

theorem names_update {c : Option Capability} {F' : Forest SlotRef}
    (x : SlotRef) : (CapGraph.mk F' (Function.update G.cap s c)).Names o x ↔
      if x = s then c.map Capability.object = some o else G.Names o x := by
  unfold CapGraph.Names
  by_cases hx : x = s
  · simp [hx]
  · simp [hx]

theorem objectsConnected_insert
    {hs : ¬ G.forest.Mem s} {hn : ∀ p, n = .node p → G.forest.Mem p} (hG : G.ObjectsConnected)
    (hcons : G.Consistent) (hjoin : (∀ x, ¬ G.Names c.object x) ∨
      ∃ y, G.Names c.object y ∧ (G.forest.insert n s hs hn).Adj y s) :
    (CapGraph.mk (G.forest.insert n s hs hn) (Function.update G.cap s (some c))).ObjectsConnected := by
  intro o
  have hsn : ∀ o, ¬ G.Names o s := by
    intro o ho
    obtain ⟨d, hd, -⟩ := Option.map_eq_some_iff.mp ho
    exact hs ((hcons s).mpr (by simp [hd]))
  by_cases ho : c.object = o
  · subst ho
    refine (hG c.object).insert_self hs hn (fun x => ?_) hjoin
    rw [names_update]
    by_cases hx : x = s <;> simp [hx]
  refine (hG o).insert hs hn fun x => ?_
  rw [names_update]
  by_cases hx : x = s
  · subst hx
    simp [ho, hsn o]
  · simp [hx]

theorem CapStep.objectsConnected (hJ : ∀ p c, J G p c → G.Joins p c) (h : CapStep J G G')
    (hcons : G.Consistent) (hG : G.ObjectsConnected) : G'.ObjectsConnected := by
  cases h with
  | @remove s F' hs h =>
    intro o
    refine (hG o).detaches h hs fun x => ?_
    rw [names_update]
    by_cases hx : x = s <;> simp [hx]
  | rename e => exact fun o => (hG o).rename e fun x => Iff.rfl
  | @root s k c hs hk hJ' =>
    refine objectsConnected_insert hG hcons ?_
    rcases hJ none c hJ' with hnone | ⟨y, -, hy | ⟨q, hq, -⟩⟩
    · exact .inl hnone
    · cases hy
    · cases hq
  | @child s p c hs hp hJ' =>
    refine objectsConnected_insert hG hcons ?_
    rcases hJ (some p) c hJ' with hnone | ⟨y, hy, hpy | ⟨q, hq, hchild⟩⟩
    · exact .inl hnone
    · cases hpy
      exact .inr ⟨p, hy, .inl Forest.mem_insert_self⟩
    · cases hq
      exact .inr ⟨y, hy, .of_kids (Forest.mem_insert_kids hchild) Forest.mem_insert_self⟩

end
/-! ## Runs -/

section
variable {σ τ : Kernel} {F : Forest SlotRef} {a : Action}

theorem names_caps : (CapGraph.mk F σ.caps).Names o s ↔ (σ.slots s).object = some o := by
  simp [CapGraph.Names, caps, KCSlot.cap, Option.map_map, Function.comp_def]

theorem names_of_cap {G : CapGraph} (h : G.cap s = some c) (ho : o = c.object) : G.Names o s := by
  rw [CapGraph.Names, h, ho]
  rfl

theorem Wf.not_names_of_unnamed (hw : Wf σ F) (h : σ.unnamed o = true) (s : SlotRef) :
    (σ.slots s).object ≠ some o := by
  intro hs
  have hall := List.all_eq_true.mp h s (hw.mem_allSlots (hw.mem (by simp [occupied, hs])))
  simp [names, hs] at hall

theorem joins_of_justified (hw : Wf σ F) (ha : σ.seedsFresh a = true) {G : CapGraph}
    {p : Option SlotRef} (hJ : Justified σ a G p c) : G.Joins p c := by
  cases a with
  | installLinked cn idx obj rights badge parent expect exclusive unparented =>
    obtain ⟨-, rfl, hsub, -⟩ := hJ
    refine .inl fun x hx => ?_
    obtain ⟨d, hd, hdo⟩ := Option.map_eq_some_iff.mp hx
    refine hw.not_names_of_unnamed ha x ?_
    rw [(slots_of_caps (hsub x d hd)).1, hdo]
  | derive srcCn srcIdx dstCn dstIdx requested reqBadge =>
    obtain ⟨sc, hsc, hp, hobj, -⟩ := hJ
    exact .inr ⟨_, names_of_cap hsc hobj, .inl hp⟩
  | installSibling srcCn srcIdx dstCn dstIdx =>
    obtain ⟨sc, hsc, hplace, hobj, -⟩ := hJ
    exact .inr ⟨_, names_of_cap hsc hobj, hplace.symm⟩
  | installForThread srcCn srcIdx dstCn dstIdx =>
    obtain ⟨sc, hsc, hp, hobj, -⟩ := hJ
    exact .inr ⟨_, names_of_cap hsc hobj, .inl hp⟩
  | ipcDeliver k dst =>
    obtain ⟨st, sc, -, hp, hsc, -, hsrc, hobj, -⟩ := hJ
    exact .inr ⟨_, names_of_cap hsc (hobj.trans hsrc.symm), .inl hp⟩
  | _ => exact hJ.elim

/-- The capabilities that name one object are connected, for every object. -/
def ObjectsConnected (σ : Kernel) : Prop :=
  ∃ F, Wf σ F ∧ (CapGraph.mk F σ.caps).ObjectsConnected

theorem ObjectsConnected.step {hooks : Hooks} (h : ObjectsConnected σ)
    (ha : σ.seedsFresh a = true) (hstep : Step hooks σ a τ) : ObjectsConnected τ := by
  obtain ⟨F, hw, hc⟩ := h
  obtain ⟨F', hw', hsteps⟩ := step_refines hw hstep
  refine ⟨F', hw', ?_⟩
  refine (hsteps.invariant (I := fun G => G.Consistent ∧ G.ObjectsConnected) ?_
    ⟨hw.consistent, hc⟩).2
  intro G G' hG ⟨hcons, hconn⟩
  exact ⟨hG.consistent hcons,
    hG.objectsConnected (fun p c hJ => joins_of_justified hw ha hJ) hcons hconn⟩

theorem Initial.objectsConnected (h : Initial σ) : ObjectsConnected σ := by
  obtain ⟨F, hw⟩ := h.wf
  refine ⟨F, hw, fun o x y hx _ => ?_⟩
  rw [names_caps, h.slots] at hx
  cases hx

theorem ObjectsConnected.isFinalCap_iff (h : ObjectsConnected σ) (hs : σ.occupied s = true) :
    σ.kcnodeSlotIsFinalCap s = true ↔
      ∀ x, x ≠ s → σ.occupied x = true → (σ.slots x).object ≠ (σ.slots s).object := by
  obtain ⟨F, hw, hc⟩ := h
  obtain ⟨o, ho⟩ := Option.isSome_iff_exists.mp hs
  rw [hw.isFinalCap_iff ho, ho]
  constructor
  · intro hall x hx _ hxo
    have hpath := hc o x s (names_caps.mpr hxo) (names_caps.mpr ho)
    obtain ⟨y, hy, hyo, hadj⟩ := Forest.exists_adj_of_path hpath hx
    exact hall y hy hadj (names_caps.mp hyo)
  · intro hall x hx hadj hxo
    exact hall x hx (by simp [occupied, hxo]) hxo

end
/-- The final-capability test is exact in every run that seeds fresh objects. -/
theorem runs_isFinalCap_iff {hooks : Hooks} {σ τ : Kernel} {as : List Action} (hσ : Initial σ)
    (h : Runs hooks (fun σ a => σ.seedsFresh a = true) σ as τ) (s : SlotRef)
    (hs : τ.occupied s = true) :
    τ.kcnodeSlotIsFinalCap s = true ↔
      ∀ x, x ≠ s → τ.occupied x = true → (τ.slots x).object ≠ (τ.slots s).object := by
  have hc : ObjectsConnected τ :=
    h.keeps (fun σ a τ hI ok hstep => hI.step ok hstep) hσ.objectsConnected
  exact hc.isFinalCap_iff hs

/-- A root is deleted after two capabilities have been derived from it, and one of these is
deleted too. -/
def lastCapRun : List Action :=
  [.allocCNode 4, .initObject .endpoint, .installLinked 0 0 1 rightDuplicate 0 none none true true,
    .derive 0 0 0 1 rightSameRights 0, .derive 0 0 0 2 rightSameRights 0, .delete 0 0, .delete 0 1]

theorem runs_isFinalCap_lastCapRun :
    ∃ τ, exec inertHooks (fun σ a => σ.seedsFresh a = true) 16 {} lastCapRun = some τ ∧
      τ.kcnodeSlotIsFinalCap (.slot 0 2) = true ∧
      ∀ x, x ≠ .slot 0 2 → τ.occupied x = true →
        (τ.slots x).object ≠ (τ.slots (.slot 0 2)).object := by
  obtain ⟨τ, hτ, hocc, hfinal⟩ :
      ∃ τ ∈ exec inertHooks (fun σ a => σ.seedsFresh a = true) 16 {} lastCapRun,
        τ.occupied (.slot 0 2) = true ∧ τ.kcnodeSlotIsFinalCap (.slot 0 2) = true := by decide
  exact ⟨τ, hτ, hfinal,
    (runs_isFinalCap_iff initial_empty (.of_exec hτ) _ hocc).mp hfinal⟩

end IrisOS.Cap
