import IrisOS.Cap.System

/-! The derivation records as a forest. `Wf σ F` says that the links of `σ` lay out the forest `F`
on its occupied slots; every call keeps it and only removes nodes. -/
namespace IrisOS.Cap
open Lib Kernel Function

/-- The derivation records of `σ` are those of the forest `F`. -/
structure Wf (σ : Kernel) (F : Forest SlotRef) : Prop where
  layout : Represents σ.mdb F.kids
  mem_iff : ∀ s, F.Mem s ↔ σ.occupied s = true
  empty : ∀ s, σ.occupied s = false → σ.slots s = KCSlot.empty
  home : ∀ s, σ.occupied s = true → ∃ cn idx, s = .slot cn idx ∧
    (σ.slots s).mdbCnode = some cn ∧ σ.slotExists cn idx = true
  fresh : ∀ o, (σ.objs o).live = true → o < σ.numObjs
  bare : ∀ o, (σ.objs o).type ≠ .cnode → (σ.objs o).slotCount = 0

def Kernel.Ancestor (σ : Kernel) : SlotRef → SlotRef → Prop :=
  Relation.TransGen fun p c => (σ.mdb c).parent = some p

theorem Wf.ancestor_eq {σ : Kernel} {F : Forest SlotRef} (h : Wf σ F) : σ.Ancestor = F.Anc := by
  have hrel : (fun p c => (σ.mdb c).parent = some p) = F.Child := by
    funext p c
    exact propext h.layout.parent_eq_some
  rw [Ancestor, hrel]
  rfl

/-! ## Removing one capability -/

/-- The kernel without the capability in slot `s`. -/
def Kernel.without (σ : Kernel) (s : SlotRef) (st : Stats) : Kernel :=
  { σ with
    slots := update σ.slots s KCSlot.empty
    mdb := detachLinks σ.capacity σ.mdb s
    stats := st }

namespace Wf
variable {σ : Kernel} {F F' : Forest SlotRef} {s : SlotRef} {cn : ObjId} {idx : ℕ} {st : Stats}

theorem slotExists_iff : σ.slotExists cn idx = true ↔
    (σ.objs cn).live = true ∧ (σ.objs cn).type = .cnode ∧ idx < (σ.objs cn).slotCount := by
  simp [slotExists, isCNode, and_assoc]

theorem mem_allSlots (h : Wf σ F) (hs : F.Mem s) : s ∈ σ.allSlots := by
  obtain ⟨cn, idx, rfl, -, hex⟩ := h.home s ((h.mem_iff s).mp hs)
  obtain ⟨hlive, -, hidx⟩ := slotExists_iff.mp hex
  have hcn := h.fresh cn hlive
  simp only [allSlots, List.mem_cons, List.mem_flatMap, List.mem_range, List.mem_map]
  exact .inr ⟨cn, hcn, idx, hidx, rfl⟩

theorem boundedBy (h : Wf σ F) : F.BoundedBy σ.capacity := by
  intro l hl hmem
  exact (hl.subperm fun x hx => h.mem_allSlots (hmem x hx)).length_le

theorem mem (h : Wf σ F) (hs : σ.occupied s = true) : F.Mem s := (h.mem_iff s).mpr hs

theorem not_mem (h : Wf σ F) (hs : σ.occupied s = false) : ¬ F.Mem s := by
  intro hm
  rw [(h.mem_iff s).mp hm] at hs
  cases hs

theorem tmp_free (h : Wf σ F) : σ.occupied .tmp = false := by
  by_contra ht
  obtain ⟨cn, idx, he, -⟩ := h.home .tmp (by simpa using ht)
  cases he

theorem occupied_without (x : SlotRef) :
    (σ.without s st).occupied x = if x = s then false else σ.occupied x := by
  by_cases hx : x = s
  · simp [without, occupied, hx, KCSlot.empty]
  · simp [without, occupied, hx]

theorem without (h : Wf σ F) (hs : σ.occupied s = true) (st : Stats) :
    ∃ F', F.Detaches s F' ∧ Wf (σ.without s st) F' := by
  obtain ⟨F', hF', hR⟩ := detachLinks_represents h.layout h.boundedBy (h.mem hs)
  refine ⟨F', hF', hR, fun x => ?_, fun x hx => ?_, fun x hx => ?_, h.fresh, h.bare⟩
  · rw [hF'.mem_iff, h.mem_iff, occupied_without]
    by_cases hxs : x = s <;> simp [hxs]
  · rw [occupied_without] at hx
    by_cases hxs : x = s
    · simp [Kernel.without, hxs]
    · simpa [Kernel.without, hxs] using h.empty x (by simpa [hxs] using hx)
  rw [occupied_without] at hx
  by_cases hxs : x = s
  · simp [hxs] at hx
  · obtain ⟨cn, idx, rfl, hcn, hex⟩ := h.home x (by simpa [hxs] using hx)
    exact ⟨cn, idx, rfl, by simpa [Kernel.without, hxs] using hcn, hex⟩

end Wf

/-! ## The functions that remove a capability -/

namespace Kernel
variable {σ : Kernel} {F : Forest SlotRef} {s v : SlotRef}

variable {h : LinkHeap SlotRef}

theorem mdbUnlinkFromParent_firstChild (hp : (h s).parent ≠ some s) :
    (mdbUnlinkFromParent h s s).firstChild = (h s).firstChild := by
  cases hprev : (h s).prevSib <;> simp [mdbUnlinkFromParent, hprev, hp]

theorem spliceChildren_self (hR : Represents h F.kids)
    (hN : F.BoundedBy σ.capacity) {c : SlotRef} (hc : (h s).firstChild = some c) :
    (spliceChildren σ.capacity h s c s).firstChild = none ∧
      (spliceChildren σ.capacity h s c s).parent = (h s).parent := by
  have hkids : chain (fun x => (h x).nextSib) σ.capacity (some c) = F.kids (.node s) := by
    rw [← hc]
    exact hR.chain_children hN
  have hs : s ∉ F.kids (.node s) := fun e => Forest.Child.ne e rfl
  cases hp : (h s).parent <;> simp [spliceChildren, hp, hkids, hs]

theorem mdbClearNode_eq (h : (σ.mdb s).firstChild = none) : σ.mdbClearNode s = { σ with
    mdb := update σ.mdb s Links.empty
    slots := update σ.slots s
      { σ.slots s with mdbCnode := none, mdbFlags := 0, guard := 0, guardBits := 0 } } := by
  simp [mdbClearNode, h]

theorem spliceOut_eq : ∃ st, σ.spliceOut s = { σ with
    mdb := match (σ.mdb s).firstChild with
      | some child => spliceChildren σ.capacity σ.mdb s child
      | none => σ.mdb
    stats := st } := by
  unfold spliceOut
  cases (σ.mdb s).firstChild with
  | none => exact ⟨_, rfl⟩
  | some c => exact ⟨_, rfl⟩

theorem mdbDetachReparent_eq (hR : Represents σ.mdb F.kids) (hN : F.BoundedBy σ.capacity) :
    ∃ st, σ.mdbDetachReparent s = { σ with
      mdb := detachLinks σ.capacity σ.mdb s
      slots := update σ.slots s
        { σ.slots s with mdbCnode := none, mdbFlags := 0, guard := 0, guardBits := 0 }
      stats := st } := by
  have hpar : (σ.mdb s).parent ≠ some s := fun e => (hR.parent_mem e).2 rfl
  have hfirst : (mdbUnlinkFromParent (match (σ.mdb s).firstChild with
      | some child => spliceChildren σ.capacity σ.mdb s child
      | none => σ.mdb) s s).firstChild = none := by
    cases hc : (σ.mdb s).firstChild with
    | none => exact (mdbUnlinkFromParent_firstChild hpar).trans hc
    | some c =>
      obtain ⟨h1, h2⟩ := spliceChildren_self hR hN hc
      exact (mdbUnlinkFromParent_firstChild (h2 ▸ hpar)).trans h1
  obtain ⟨st, hst⟩ := spliceOut_eq (σ := σ) (s := s)
  unfold mdbDetachReparent
  rw [hst]
  rw [mdbClearNode_eq (by split_ifs <;> exact hfirst)]
  split_ifs
  all_goals exact ⟨_, rfl⟩

theorem removeCap_eq (h : Wf σ F) (hs : σ.occupied s = true) :
    ∃ st, σ.removeCap s = σ.without s st := by
  obtain ⟨cn, idx, -, hcn, -⟩ := h.home s hs
  obtain ⟨st, hst⟩ := mdbDetachReparent_eq (σ := σ.clearContent s) (s := s) h.layout h.boundedBy
  have hc : ((σ.clearContent s).slots s).mdbCnode.isSome = true := by
    simp [clearContent, setSlot, hcn]
  simp only [removeCap, hc, if_true, hst, setStats]
  exact ⟨_, by simp only [without, clearContent, setSlot, update_idem,
    update_self]; rfl⟩

theorem revokeLeaf_eq (h : Wf σ F) (hv : F.kids (.node v) = []) :
    ∃ st, σ.revokeLeaf v = σ.without v st := by
  have hpar : (σ.mdb v).parent ≠ some v := fun e => (h.layout.parent_mem e).2 rfl
  have hfirst : (σ.mdb v).firstChild = none := h.layout.first_eq_none.mpr hv
  have hclear : (mdbUnlinkFromParent σ.mdb v v).firstChild = none :=
    (mdbUnlinkFromParent_firstChild hpar).trans hfirst
  have hdetach : detachLinks σ.capacity σ.mdb v =
      update (mdbUnlinkFromParent σ.mdb v) v Links.empty := by
    simp [detachLinks, hfirst]
  simp only [revokeLeaf, without, hdetach]
  rw [mdbClearNode_eq (by split_ifs <;> exact hclear)]
  split_ifs
  all_goals exact ⟨_, by simp only [setStats, clearContent, setSlot, Function.update_idem,
    Function.update_self]; rfl⟩

end Kernel

/-! ## The calls of the machine -/

/-- What a call that touches no slot leaves: slots, links and objects, but for an empty CNode that
is given back. -/
structure Kept (σ τ : Kernel) : Prop where
  slots : τ.slots = σ.slots
  mdb : τ.mdb = σ.mdb
  numObjs : τ.numObjs = σ.numObjs
  staged : τ.staged = σ.staged
  type : ∀ o, (τ.objs o).type = (σ.objs o).type
  slotCount : ∀ o, (τ.objs o).slotCount = (σ.objs o).slotCount
  live_of : ∀ o, (τ.objs o).live = true → (σ.objs o).live = true
  live : ∀ cn idx, σ.occupied (.slot cn idx) = true → (σ.objs cn).live = true →
    idx < (σ.objs cn).slotCount → (τ.objs cn).live = true

namespace Kept
variable {σ τ : Kernel} {F : Forest SlotRef} {f : Call} {o : ObjId}

theorem of_objs (hs : τ.slots = σ.slots) (hm : τ.mdb = σ.mdb) (hn : τ.numObjs = σ.numObjs)
    (hst : τ.staged = σ.staged)
    (ho : ∀ o, (τ.objs o).type = (σ.objs o).type ∧ (τ.objs o).slotCount = (σ.objs o).slotCount ∧
      (τ.objs o).live = (σ.objs o).live) : Kept σ τ where
  slots := hs
  mdb := hm
  numObjs := hn
  staged := hst
  type o := (ho o).1
  slotCount o := (ho o).2.1
  live_of o h := (ho o).2.2 ▸ h
  live cn _ _ h _ := (ho cn).2.2.symm ▸ h

theorem refl (σ : Kernel) : Kept σ σ := of_objs rfl rfl rfl rfl fun _ => ⟨rfl, rfl, rfl⟩

theorem occupied (h : Kept σ τ) (s : SlotRef) : τ.occupied s = σ.occupied s := by
  simp [Kernel.occupied, h.slots]

theorem wf (h : Kept σ τ) (hw : Wf σ F) : Wf τ F where
  layout := h.mdb ▸ hw.layout
  mem_iff s := by rw [h.occupied, hw.mem_iff]
  empty s hs := by
    rw [h.slots]
    exact hw.empty s (h.occupied s ▸ hs)
  home s hs := by
    rw [h.occupied] at hs
    obtain ⟨cn, idx, rfl, hcn, hex⟩ := hw.home s hs
    obtain ⟨hlive, htype, hidx⟩ := Wf.slotExists_iff.mp hex
    refine ⟨cn, idx, rfl, h.slots ▸ hcn, Wf.slotExists_iff.mpr ⟨h.live cn idx hs hlive hidx, ?_, ?_⟩⟩
    · rw [h.type, htype]
    · rw [h.slotCount]
      exact hidx
  fresh o ho := h.numObjs ▸ hw.fresh o (h.live_of o ho)
  bare o ho := by
    rw [h.slotCount]
    exact hw.bare o (h.type o ▸ ho)

theorem setObj {f : KObject → KObject} (hf : ∀ x, (f x).type = x.type ∧
    (f x).slotCount = x.slotCount ∧ (f x).live = x.live) : Kept σ (σ.setObj o f) := by
  refine of_objs rfl rfl rfl rfl fun x => ?_
  by_cases hx : x = o
  · subst hx
    simpa [Kernel.setObj] using hf (σ.objs x)
  · simp [Kernel.setObj, hx]

theorem trans {υ : Kernel} (h1 : Kept σ τ) (h2 : Kept τ υ) : Kept σ υ where
  slots := h2.slots.trans h1.slots
  mdb := h2.mdb.trans h1.mdb
  numObjs := h2.numObjs.trans h1.numObjs
  staged := h2.staged.trans h1.staged
  type o := (h2.type o).trans (h1.type o)
  slotCount o := (h2.slotCount o).trans (h1.slotCount o)
  live_of o h := h1.live_of o (h2.live_of o h)
  live cn idx hs hl hi := h2.live cn idx (by rw [h1.occupied, hs]) (h1.live cn idx hs hl hi)
    (by rw [h1.slotCount]; exact hi)

theorem stop (σ : Kernel) (p : Panic) : Kept σ (σ.stop p) :=
  of_objs rfl rfl rfl rfl fun _ => ⟨rfl, rfl, rfl⟩

theorem setStats (σ : Kernel) (f : Stats → Stats) : Kept σ (σ.setStats f) :=
  of_objs rfl rfl rfl rfl fun _ => ⟨rfl, rfl, rfl⟩

theorem irisAssert (h : Kept σ τ) (c : Prop) [Decidable c] (p : Panic) :
    Kept σ (τ.irisAssert c p) := by
  unfold Kernel.irisAssert
  split
  · exact h
  · exact h.trans (stop τ p)

theorem kobjectRetain (σ : Kernel) (o : ObjId) : Kept σ (σ.kobjectRetain o) := by
  apply irisAssert
  exact setObj fun _ => ⟨rfl, rfl, rfl⟩

theorem kobjectActiveRetain (σ : Kernel) (o : ObjId) : Kept σ (σ.kobjectActiveRetain o) :=
  setObj fun _ => ⟨rfl, rfl, rfl⟩

theorem storageFree (h : ∀ idx < (σ.objs o).slotCount, σ.occupied (.slot o idx) = false) :
    Kept σ (σ.kobjectStorageFree o) := by
  refine ⟨rfl, rfl, rfl, rfl, fun x => ?_, fun x => ?_, fun x hx => ?_, fun cn idx hs hl hi => ?_⟩
  · by_cases hx : x = o <;> simp [Kernel.kobjectStorageFree, Kernel.setObj, hx]
  · by_cases hx : x = o <;> simp [Kernel.kobjectStorageFree, Kernel.setObj, hx]
  · by_cases hxo : x = o
    · simp [Kernel.kobjectStorageFree, Kernel.setObj, hxo] at hx
    · simpa [Kernel.kobjectStorageFree, Kernel.setObj, hxo] using hx
  by_cases hco : cn = o
  · subst hco
    rw [h idx hi] at hs
    cases hs
  · simpa [Kernel.kobjectStorageFree, Kernel.setObj, hco] using hl

end Kept

/-- What a call does to the capabilities: nothing, or it removes one. -/
inductive Effect (σ : Kernel) : Kernel → Prop
  | kept {τ} (h : Kept σ τ) : Effect σ τ
  | removed (s st) (h : σ.occupied s = true) : Effect σ (σ.without s st)

/-- The slots a destroy has passed are empty, and only an object without slots is given back. -/
def FrameOk (σ : Kernel) : Call → Prop
  | .objDestroy cn i => ∀ j < i, σ.occupied (.slot cn j) = false
  | .storageFree o => (σ.objs o).type ≠ .cnode
  | _ => True

theorem Effect.frameOk {σ τ : Kernel} (h : Effect σ τ) (hf : FrameOk σ f) : FrameOk τ f := by
  have hocc : ∀ s, σ.occupied s = false → τ.occupied s = false := by
    intro s hs
    cases h with
    | kept h => rw [h.occupied, hs]
    | removed s' st h' =>
      rw [Wf.occupied_without]
      split
      · rfl
      · exact hs
  have htype : ∀ o, (τ.objs o).type = (σ.objs o).type := by
    intro o
    cases h with
    | kept h => exact h.type o
    | removed => rfl
  cases f with
  | objDestroy cn i => exact fun j hj => hocc _ (hf j hj)
  | storageFree o => exact fun ho => hf (htype o ▸ ho)
  | _ => trivial

section
variable (hooks : Hooks) {σ : Kernel} {F : Forest SlotRef}

theorem slotDeleteLocked_effect (h : Wf σ F) (cn : ObjId) (idx : ℕ) :
    Effect σ (σ.slotDeleteLocked cn idx).1 ∧
      (σ.slotDeleteLocked cn idx).1.occupied (.slot cn idx) = false := by
  unfold slotDeleteLocked
  cases ho : (σ.slots (.slot cn idx)).object with
  | none => exact ⟨.kept (.refl σ), by simp [occupied, ho]⟩
  | some old =>
    have hs : σ.occupied (.slot cn idx) = true := by simp [occupied, ho]
    obtain ⟨st, hst⟩ := removeCap_eq h hs
    simp only [hst]
    exact ⟨.removed _ st hs, by simp [Wf.occupied_without]⟩

variable {τ : Kernel} {next : List Call} {cn : ObjId}

theorem frameOk_hookCalls {l : List HookCall} : ∀ f ∈ l.map HookCall.toCall, FrameOk τ f := by
  intro f hf
  obtain ⟨c, -, rfl⟩ := List.mem_map.mp hf
  cases c <;> trivial

theorem leftmost_leaf (h : Wf σ F) {root c : SlotRef} (hc : (σ.mdb root).firstChild = some c) :
    σ.occupied (leftmost σ.mdb σ.capacity c) = true ∧
      F.kids (.node (leftmost σ.mdb σ.capacity c)) = [] ∧
      F.Anc root (leftmost σ.mdb σ.capacity c) := by
  have hrc : F.Child root c := by
    obtain ⟨l, hl⟩ := h.layout.first_eq_some.mp hc
    simp [Forest.Child, hl]
  obtain ⟨hleaf, hv⟩ := h.layout.leftmost_spec h.boundedBy hrc.mem
  have hanc : F.Anc root (leftmost σ.mdb σ.capacity c) := by
    rcases hv with hv | hv
    · rw [hv]
      exact .single hrc
    · exact .head hrc hv
  exact ⟨(h.mem_iff _).mp hanc.mem, hleaf, hanc⟩

theorem dropActiveRefs_eq (σ : Kernel) (o : ObjId) : ∃ p, σ.dropActiveRefs o =
    { σ.setObj o fun x => { x with activeRefs := x.activeRefs - 1 } with panic := p } := by
  unfold dropActiveRefs irisAssert
  split
  · exact ⟨_, rfl⟩
  · exact ⟨_, rfl⟩

theorem dropRefcount_eq (σ : Kernel) (o : ObjId) : ∃ p, σ.dropRefcount o =
    { σ.setObj o fun x => { x with refcount := x.refcount - 1 } with panic := p } := by
  unfold dropRefcount irisAssert
  split
  · exact ⟨_, rfl⟩
  · exact ⟨_, rfl⟩

theorem kobjectRetain_eq (σ : Kernel) (o : ObjId) : ∃ p, σ.kobjectRetain o =
    { σ.setObj o fun x => { x with refcount := x.refcount + 1 } with panic := p } := by
  unfold kobjectRetain irisAssert
  split
  · exact ⟨_, rfl⟩
  · exact ⟨_, rfl⟩

/-- One round of the calls that delete slot after slot: the slot, and what is left to do. -/
inductive Call.Deletes : Call → ObjId → ℕ → List Call → Prop
  | one {cn idx} : Deletes (.slotDelete cn idx) cn idx []
  | empty {cn idx} : Deletes (.emptySlots cn idx) cn idx [.emptySlots cn (idx + 1)]
  | destroy {cn idx} : Deletes (.objDestroy cn idx) cn idx [.objDestroy cn (idx + 1)]

/-- The calls that find nothing to do when there is no such slot or no such reference. -/
def Call.optional : Call → Bool
  | slotDelete _ _ | heldActiveRelease _ | heldRelease _ => true
  | _ => false

/-- The state after a call in a state with the forest `F`, and the calls it makes. -/
inductive Outcome (hooks : Hooks) (σ : Kernel) (F : Forest SlotRef) :
    Call → Kernel → List Call → Prop
  | pass {f} (hf : f.optional = true) : Outcome hooks σ F f σ []
  | emptied {cn idx} (hidx : ¬ idx < (σ.objs cn).slotCount) :
      Outcome hooks σ F (.emptySlots cn idx) σ []
  | destroyed {cn idx} (hidx : ¬ idx < (σ.objs cn).slotCount) : Outcome hooks σ F (.objDestroy cn idx)
      ((σ.setStats fun t => { t with kcnodeLive := t.kcnodeLive - 1 }).kobjectStorageFree cn) []
  | blank {f cn idx next} (hd : f.Deletes cn idx next) (hidx : idx < (σ.objs cn).slotCount)
      (hs : σ.occupied (.slot cn idx) = false) : Outcome hooks σ F f σ next
  | delete {f cn idx next o st} (hd : f.Deletes cn idx next) (hidx : idx < (σ.objs cn).slotCount)
      (ho : (σ.slots (.slot cn idx)).object = some o) :
      Outcome hooks σ F f (σ.without (.slot cn idx) st) (.slotDropOld cn o :: next)
  | dropOld {cn old} : Outcome hooks σ F (.slotDropOld cn old) σ
      ((if old = cn then [] else [.activeRelease old]) ++
        (if (σ.objs old).type = .frame ∨ (σ.objs old).type = .pageTable
          then [.finaliseOrphans old] else []) ++ [.release old])
  | activeRelease {o p} (hp : (σ.dropActiveRefs o).panic = p) : Outcome hooks σ F (.activeRelease o)
      { σ.setObj o fun x => { x with activeRefs := x.activeRefs - 1 } with panic := p }
      (if (σ.objs o).activeRefs = 1 then [.dispatchClose o] else [])
  | release {o p} (hp : (σ.dropRefcount o).panic = p) : Outcome hooks σ F (.release o)
      { σ.setObj o fun x => { x with refcount := x.refcount - 1 } with panic := p }
      (if (σ.objs o).refcount = 1 then [.dispatchDestroy o] else [])
  | finaliseOrphans {o} : Outcome hooks σ F (.finaliseOrphans o) σ
      ((hooks.finaliseOrphans σ.objs σ.slots o).map HookCall.toCall)
  | queued {o} (hmem : o ∈ σ.cascade) : Outcome hooks σ F (.dispatchClose o) σ []
  | resurrect {o p} (hp : (σ.kobjectRetain o).panic = p) (htype : (σ.objs o).type = .cnode)
      (hrun : σ.running = true) (hmem : o ∉ σ.cascade) (href : (σ.objs o).refcount < 1) :
      Outcome hooks σ F (.dispatchClose o)
        { σ.setObj o fun x => { x with refcount := x.refcount + 1 } with panic := p } []
  | queue {o p} (hp : (σ.kobjectRetain o).panic = p) (href : 1 ≤ (σ.objs o).refcount) :
      Outcome hooks σ F (.dispatchClose o)
        { σ.setObj o fun x => { x with refcount := x.refcount + 1 } with
          panic := p, cascade := o :: σ.cascade } []
  | cascade {o} (htype : (σ.objs o).type = .cnode) (hrun : σ.running = false) :
      Outcome hooks σ F (.dispatchClose o) { σ with running := true }
        [.emptySlots o 0, .cascadeDrain (irisCascadeSlice - 1) 0]
  | close {o} {l : List HookCall} (htype : (σ.objs o).type ≠ .cnode)
      (hl : ∀ c ∈ l, c ∈ hooks.close σ.objs σ.slots o) :
      Outcome hooks σ F (.dispatchClose o) σ (l.map HookCall.toCall)
  | objDestroy {o} (htype : (σ.objs o).type = .cnode) :
      Outcome hooks σ F (.dispatchDestroy o) σ [.objDestroy o 0]
  | noDestructor {o} (htype : (σ.objs o).type = .reserved) :
      Outcome hooks σ F (.dispatchDestroy o) (σ.stop .noDestructor) []
  | destroy {o} (htype : (σ.objs o).type ≠ .cnode) (hres : (σ.objs o).type ≠ .reserved) :
      Outcome hooks σ F (.dispatchDestroy o) σ
        ((hooks.destroy σ.objs σ.slots o).map HookCall.toCall ++ [.storageFree o])
  | storageFree {o} : Outcome hooks σ F (.storageFree o) (σ.kobjectStorageFree o) []
  | drained {budget done} (h : σ.cascade = [] ∨ budget ≠ 0 ∧ budget ≤ done) :
      Outcome hooks σ F (.cascadeDrain budget done) { σ with running := false } []
  | drain {budget done o rest} (hc : σ.cascade = o :: rest) :
      Outcome hooks σ F (.cascadeDrain budget done) { σ with cascade := rest }
        [.emptySlots o 0, .release o, .cascadeDrain budget (done + 1)]
  | revoked {cn idx budget revoked ret} :
      Outcome hooks σ F (.revokeLoop cn idx budget revoked) { σ with ret := ret } []
  | revoke {cn idx budget revoked vcn vidx o st} (hanc : F.Anc (.slot cn idx) (.slot vcn vidx))
      (ho : (σ.slots (.slot vcn vidx)).object = some o) :
      Outcome hooks σ F (.revokeLoop cn idx budget revoked) (σ.without (.slot vcn vidx) st)
        [.slotDropOld vcn o, .revokeLoop cn idx budget (revoked + 1)]
  | giveActive {o} (h : (σ.held o).active ≠ 0) : Outcome hooks σ F (.heldActiveRelease o)
      (σ.setHeld o fun x => { x with active := x.active - 1 }) [.activeRelease o]
  | giveRef {o} (h : (σ.held o).refs ≠ 0) : Outcome hooks σ F (.heldRelease o)
      (σ.setHeld o fun x => { x with refs := x.refs - 1 }) [.release o]

theorem delete_outcome (h : Wf σ F) {idx : ℕ}
    (hd : f.Deletes cn idx next) (hidx : idx < (σ.objs cn).slotCount) :
    Outcome hooks σ F f (σ.slotDeleteLocked cn idx).1
      (Kernel.dropOldCalls cn (σ.slotDeleteLocked cn idx).2 ++ next) := by
  unfold slotDeleteLocked
  cases ho : (σ.slots (.slot cn idx)).object with
  | none => exact .blank hd hidx (by simp [occupied, ho])
  | some o =>
    obtain ⟨st, hst⟩ := removeCap_eq (s := .slot cn idx) h (by simp [occupied, ho])
    simp only [hst]
    exact .delete hd hidx ho

theorem revokeLoop_outcome (h : Wf σ F) (cn : ObjId) (idx budget revoked : ℕ) :
    Outcome hooks σ F (.revokeLoop cn idx budget revoked) (σ.revokeLoop cn idx budget revoked).1
      (σ.revokeLoop cn idx budget revoked).2 := by
  by_cases hb : budget ≠ 0 ∧ budget ≤ revoked
  · rw [revokeLoop_spent hb]
    exact .revoked
  cases hs : σ.occupied (.slot cn idx) with
  | false =>
    rw [revokeLoop_gone hb hs]
    exact .revoked
  | true =>
    cases hc : (σ.mdb (.slot cn idx)).firstChild with
    | none =>
      rw [revokeLoop_done hb hs hc]
      exact .revoked
    | some c =>
      obtain ⟨hocc, hleaf, hanc⟩ := leftmost_leaf h hc
      obtain ⟨vcn, vidx, hslot, hv, -⟩ := h.home _ hocc
      obtain ⟨st, hst⟩ := revokeLeaf_eq h hleaf
      obtain ⟨o, ho⟩ := Option.isSome_iff_exists.mp hocc
      rw [revokeLoop_leaf hb hs hc hv, hst, ho, hslot]
      rw [hslot] at hanc ho
      exact .revoke hanc ho

theorem kcnodeCascade_outcome (htype : (σ.objs o).type = .cnode) :
    Outcome hooks σ F (.dispatchClose o) (σ.kcnodeCascade o).1 (σ.kcnodeCascade o).2 := by
  obtain ⟨p, hp⟩ := kobjectRetain_eq σ o
  simp only [kcnodeCascade, hp]
  split_ifs with hrun hmem href
  · exact .queued hmem
  · exact .resurrect (congrArg panic hp) htype hrun hmem href
  · exact .queue (congrArg panic hp) (not_lt.mp href)
  · exact .cascade htype (by simpa using hrun)

theorem perform_outcome (h : Wf σ F) (f : Call) :
    Outcome hooks σ F f (σ.perform hooks f).1 (σ.perform hooks f).2 := by
  cases f with
  | slotDelete cn idx =>
    simp only [perform]
    split_ifs with hcn
    · simpa using delete_outcome hooks h .one hcn.2
    · exact .pass rfl
  | emptySlots cn idx =>
    simp only [perform]
    split_ifs with hidx
    · exact delete_outcome hooks h .empty hidx
    · exact .emptied hidx
  | objDestroy cn idx =>
    simp only [perform]
    split_ifs with hidx
    · exact delete_outcome hooks h .destroy hidx
    · exact .destroyed hidx
  | slotDropOld => exact .dropOld
  | activeRelease o =>
    obtain ⟨p, hp⟩ := dropActiveRefs_eq σ o
    simp only [perform, hp]
    exact .activeRelease (congrArg panic hp)
  | release o =>
    obtain ⟨p, hp⟩ := dropRefcount_eq σ o
    simp only [perform, hp]
    exact .release (congrArg panic hp)
  | finaliseOrphans => exact .finaliseOrphans
  | storageFree => exact .storageFree
  | dispatchClose o =>
    simp only [perform, kobjectDispatchClose]
    split
    · exact kcnodeCascade_outcome hooks ‹_›
    · exact .close (l := []) (by simp [*]) nofun
    · exact .close (l := []) (by simp [*]) nofun
    · exact .close ‹_› fun _ => id
  | dispatchDestroy o =>
    simp only [perform, kobjectDispatchDestroy]
    split
    · exact .objDestroy ‹_›
    · exact .noDestructor ‹_›
    · exact .destroy ‹_› ‹_›
  | cascadeDrain budget done =>
    simp only [perform, cascadeDrain]
    split
    · exact .drained (.inl ‹_›)
    · split_ifs with hb
      · exact .drained (.inr hb)
      · exact .drain ‹_›
  | revokeLoop cn idx budget revoked => exact revokeLoop_outcome hooks h cn idx budget revoked
  | heldActiveRelease o =>
    simp only [perform]
    split_ifs with hz
    · exact .pass rfl
    · exact .giveActive hz
  | heldRelease o =>
    simp only [perform]
    split_ifs with hz
    · exact .pass rfl
    · exact .giveRef hz

theorem frameOk_next {idx : ℕ}
    (hd : f.Deletes cn idx next) (hf : FrameOk τ f) (hidx : τ.occupied (.slot cn idx) = false) :
    ∀ g ∈ next, FrameOk τ g := by
  cases hd with
  | one => nofun
  | empty => simp [FrameOk]
  | destroy =>
    intro g hg
    obtain rfl := List.mem_singleton.mp hg
    intro j hj
    rcases Nat.lt_succ_iff_lt_or_eq.mp hj with hj | rfl
    · exact hf j hj
    · exact hidx

variable {hooks}

theorem Outcome.effect {l : List Call} (hr : Outcome hooks σ F f τ l)
    (h : Wf σ F) (hf : FrameOk σ f) : Effect σ τ ∧ ∀ g ∈ l, FrameOk τ g := by
  have hsame : Effect σ σ := .kept (.refl σ)
  have hobj : ∀ {o g p q}, (∀ x : KObject, (g x).type = x.type ∧ (g x).slotCount = x.slotCount ∧
      (g x).live = x.live) → Effect σ { σ.setObj o g with panic := p, cascade := q } := fun hg =>
    .kept ((Kept.setObj hg).trans (.of_objs rfl rfl rfl rfl fun _ => ⟨rfl, rfl, rfl⟩))
  cases hr with
  | pass | emptied | queued => exact ⟨hsame, nofun⟩
  | blank hd _ hs => exact ⟨hsame, frameOk_next hd hf hs⟩
  | @delete _ cn idx _ _ st hd _ ho =>
    have he : Effect σ (σ.without (.slot cn idx) st) := .removed _ _ (by simp [occupied, ho])
    refine ⟨he, List.forall_mem_cons.mpr ⟨trivial, frameOk_next hd (he.frameOk hf) ?_⟩⟩
    simp [Wf.occupied_without]
  | revoke _ ho => exact ⟨.removed _ _ (by simp [occupied, ho]), by simp [FrameOk]⟩
  | destroyed hidx =>
    refine ⟨.kept ((Kept.setStats σ _).trans (.storageFree fun i hi => ?_)), nofun⟩
    exact hf i (Nat.lt_of_lt_of_le hi (not_lt.mp hidx))
  | storageFree =>
    refine ⟨.kept (.storageFree fun i hi => ?_), nofun⟩
    simp [h.bare _ hf] at hi
  | dropOld => exact ⟨hsame, by split_ifs <;> simp [FrameOk]⟩
  | activeRelease | release => exact ⟨hobj fun _ => ⟨rfl, rfl, rfl⟩, by split_ifs <;> simp [FrameOk]⟩
  | finaliseOrphans | close => exact ⟨hsame, frameOk_hookCalls⟩
  | resurrect | queue => exact ⟨hobj fun _ => ⟨rfl, rfl, rfl⟩, nofun⟩
  | objDestroy => exact ⟨hsame, by simp [FrameOk]⟩
  | noDestructor => exact ⟨.kept (.stop σ _), nofun⟩
  | destroy htype =>
    refine ⟨hsame, fun g hg => ?_⟩
    rcases List.mem_append.mp hg with hg | hg
    · exact frameOk_hookCalls g hg
    · exact List.mem_singleton.mp hg ▸ htype
  | cascade | drained | drain | revoked | giveActive | giveRef =>
    exact ⟨.kept (.of_objs rfl rfl rfl rfl fun _ => ⟨rfl, rfl, rfl⟩), by simp [FrameOk]⟩

variable (hooks)

theorem perform_effect (h : Wf σ F) (f : Call) (hf : FrameOk σ f) :
    Effect σ (σ.perform hooks f).1 ∧
      ∀ g ∈ (σ.perform hooks f).2, FrameOk (σ.perform hooks f).1 g :=
  (perform_outcome hooks h f).effect h hf

end
end IrisOS.Cap
