import IrisOS.Cap.Termination

/-! The derivation tree audit `kcnode_mdb_validate`. Along every run the only error it counts is a
slot whose depth reaches the cap of its walk towards the root. -/
namespace IrisOS.Cap
open Lib Kernel Function

/-! ## The audit -/

/-- `struct mdb_validate_report`. -/
structure MdbValidateReport where
  nodes : UInt32 := 0
  roots : UInt32 := 0
  unparentedRoots : UInt32 := 0
  maxDepth : UInt32 := 0
  errors : UInt32 := 0
  deriving DecidableEq

def mdbDepthCap : ℕ := 2 ^ 20

namespace Kernel

/-- The walk of the audit from `p` up: its steps, and whether it met `s` again. -/
def depthWalk (σ : Kernel) (s : SlotRef) : ℕ → ℕ → Option SlotRef → ℕ × Bool
  | 0, d, _ => (d, false)
  | _ + 1, d, none => (d, false)
  | n + 1, d, some p => if p = s then (d, true) else σ.depthWalk s n (d + 1) (σ.mdb p).parent

def mdbSlotInSet (σ : Kernel) (set : List ObjId) : SlotRef → Bool
  | .slot cn idx => cn ∈ set && idx < (σ.objs cn).slotCount
  | .tmp => false

def childList (σ : Kernel) (s : SlotRef) : List SlotRef :=
  chain (fun c => (σ.mdb c).nextSib) σ.capacity (σ.mdb s).firstChild

def parentErrors (σ : Kernel) (set : List ObjId) (s : SlotRef) : ℕ :=
  match (σ.mdb s).parent with
  | none => 0
  | some p =>
    (!σ.occupied p).toNat +
    (σ.mdbSlotInSet set p && (σ.childList p).count s ≠ 1).toNat +
    ((σ.mdb s).prevSib.isNone && (σ.mdb p).firstChild ≠ some s).toNat

def siblingErrors (σ : Kernel) (s : SlotRef) : ℕ :=
  ((σ.mdb s).nextSib.any fun x => (σ.mdb x).prevSib ≠ some s).toNat +
  ((σ.mdb s).prevSib.any fun x => (σ.mdb x).nextSib ≠ some s).toNat +
  ((σ.mdb s).nextSib.any fun x => (σ.mdb s).parent.isNone ≠ (σ.mdb x).parent.isNone).toNat

def childErrors (σ : Kernel) (s : SlotRef) : ℕ :=
  (σ.childList s).countP (fun c => (σ.mdb c).parent ≠ some s) +
  (σ.childList s).countP fun c => !σ.occupied c

/-- One round of the audit, on slot `j` of the CNode `cn`. -/
def validateSlot (σ : Kernel) (set : List ObjId) (cn : ObjId) (r : MdbValidateReport) (j : ℕ) :
    MdbValidateReport :=
  let s := SlotRef.slot cn j
  if !σ.occupied s then
    if σ.mdb s ≠ Links.empty ∨ (σ.slots s).mdbCnode ≠ none ∨ (σ.slots s).mdbFlags ≠ 0
    then { r with errors := r.errors + 1 } else r
  else
    let (d, looped) := σ.depthWalk s mdbDepthCap 0 (σ.mdb s).parent
    let root := (σ.mdb s).parent.isNone
    { nodes := r.nodes + 1
      roots := if root then r.roots + 1 else r.roots
      unparentedRoots := if root ∧ (σ.slots s).mdbFlags &&& mdbFlagUnparented ≠ 0
        then r.unparentedRoots + 1 else r.unparentedRoots
      maxDepth := max r.maxDepth (UInt32.ofNat d)
      errors := r.errors + UInt32.ofNat (((σ.slots s).mdbCnode ≠ some cn : Bool).toNat +
        looped.toNat + (mdbDepthCap ≤ d : Bool).toNat + σ.parentErrors set s +
        σ.siblingErrors s + σ.childErrors s) }

def kcnodeMdbValidate (σ : Kernel) : Option (List ObjId) → MdbValidateReport
  | none => {}
  | some set => set.foldl (fun r cn =>
      (List.range (σ.objs cn).slotCount).foldl (σ.validateSlot set cn) r) {}

/-- The number of ancestors of a slot, as `mdb_depth` counts them. -/
def mdbDepth (σ : Kernel) (s : SlotRef) : ℕ := (ancestors σ.mdb σ.capacity s).length

/-- How many slots of the given CNodes lie at the cap of the audit or below it. -/
def deepSlots (σ : Kernel) (set : List ObjId) : ℕ :=
  (set.map fun cn => (List.range (σ.objs cn).slotCount).countP
    fun j => mdbDepthCap ≤ σ.mdbDepth (.slot cn j)).sum

end Kernel

/-! ## What the audit finds -/

section
variable {σ : Kernel} {F : Forest SlotRef} {s : SlotRef} {cn : ObjId}

theorem Wf.childList_eq (h : Wf σ F) : σ.childList s = F.kids (.node s) :=
  h.layout.chain_children h.boundedBy

open List

theorem Wf.parentErrors_eq_zero (h : Wf σ F) (set : List ObjId) : σ.parentErrors set s = 0 := by
  unfold parentErrors
  cases hp : (σ.mdb s).parent with
  | none => rfl
  | some p =>
    have hchild : F.Child p s := h.layout.parent_eq_some.mp hp
    have hocc : σ.occupied p = true := (h.mem_iff p).mp hchild.owner
    have hcount : (σ.childList p).count s = 1 := by
      rw [h.childList_eq]
      exact count_eq_one_of_mem (F.nodup _) hchild
    have hfirst : (σ.mdb s).prevSib = none → (σ.mdb p).firstChild = some s :=
      fun hprev => h.layout.first_eq_some_iff.mpr ⟨hp, hprev⟩
    cases hprev : (σ.mdb s).prevSib with
    | none => simp [hocc, hcount, hfirst hprev]
    | some q => simp [hocc, hcount]

theorem Wf.parent_nextSib (h : Wf σ F) {x : SlotRef} (hx : (σ.mdb s).nextSib = some x) :
    (σ.mdb x).parent = (σ.mdb s).parent := by
  obtain ⟨n, l1, l2, hn⟩ := h.layout.nextSib_eq_some.mp hx
  have hs : s ∈ F.kids n := by simp [hn]
  have hx : x ∈ F.kids n := by simp [hn]
  rw [h.layout.parent hs, h.layout.parent hx]

theorem Wf.siblingErrors_eq_zero (h : Wf σ F) : σ.siblingErrors s = 0 := by
  have hnext : ∀ x, (σ.mdb s).nextSib = some x → (σ.mdb x).prevSib = some s :=
    fun x => h.layout.nextSib_iff_prevSib.mp
  have hprev : ∀ x, (σ.mdb s).prevSib = some x → (σ.mdb x).nextSib = some s :=
    fun x => h.layout.nextSib_iff_prevSib.mpr
  have hpar : ∀ x, (σ.mdb s).nextSib = some x → (σ.mdb x).parent = (σ.mdb s).parent :=
    fun x => h.parent_nextSib
  unfold siblingErrors
  cases hn : (σ.mdb s).nextSib with
  | none =>
    cases hq : (σ.mdb s).prevSib with
    | none => rfl
    | some q => simp [hprev q hq]
  | some x =>
    cases hq : (σ.mdb s).prevSib with
    | none => simp [hnext x hn, hpar x hn]
    | some q => simp [hnext x hn, hpar x hn, hprev q hq]

theorem Wf.childErrors_eq_zero (h : Wf σ F) : σ.childErrors s = 0 := by
  have hpar : ∀ c ∈ F.kids (.node s), (σ.mdb c).parent = some s :=
    fun c hc => h.layout.parent_eq_some.mpr hc
  have hocc : ∀ c ∈ F.kids (.node s), σ.occupied c = true :=
    fun c hc => (h.mem_iff c).mp ⟨_, hc⟩
  unfold childErrors
  rw [h.childList_eq, countP_eq_zero.mpr fun c hc => by simp [hpar c hc],
    countP_eq_zero.mpr fun c hc => by simp [hocc c hc]]

theorem depthWalk_eq {n d : ℕ} {o : Option SlotRef}
    (h : s ∉ chain (fun x => (σ.mdb x).parent) n o) :
    σ.depthWalk s n d o = (d + (chain (fun x => (σ.mdb x).parent) n o).length, false) := by
  induction n generalizing d o with
  | zero => rfl
  | succ n ih =>
    cases o with
    | none => rfl
    | some p =>
      rw [chain_some, mem_cons, not_or] at h
      rw [depthWalk, if_neg (Ne.symm h.1), ih h.2, chain_some, length_cons]
      congr 1
      omega

theorem Wf.mdb_eq_empty (h : Wf σ F) (hs : σ.occupied s = false) : σ.mdb s = Links.empty :=
  h.layout.outside fun n hn => h.not_mem hs ⟨n, hn⟩

theorem Wf.mdbDepth_lt (h : Wf σ F) (hs : σ.occupied s = true) : σ.mdbDepth s < σ.capacity := by
  refine h.boundedBy _ (h.layout.ancestors_nodup (N := σ.capacity) (s := s)) fun x hx => ?_
  rcases mem_cons.mp hx with rfl | hx
  · exact h.mem hs
  · exact (h.layout.anc_of_mem_ancestors hx).owner

theorem Wf.depthWalk_eq_mdbDepth (h : Wf σ F) (hs : σ.occupied s = true) :
    σ.depthWalk s mdbDepthCap 0 (σ.mdb s).parent = (min mdbDepthCap (σ.mdbDepth s), false) := by
  have hnot : s ∉ ancestors σ.mdb mdbDepthCap s :=
    (nodup_cons.mp (h.layout.ancestors_nodup (N := mdbDepthCap) (s := s))).1
  rw [depthWalk_eq hnot, length_chain_eq_min (h.mdbDepth_lt hs), Nat.zero_add]
  rfl

theorem Wf.mdbDepth_eq_zero (h : Wf σ F) (hs : σ.occupied s = false) : σ.mdbDepth s = 0 := by
  simp [mdbDepth, ancestors, h.mdb_eq_empty hs, Links.empty]

theorem Wf.validateSlot_errors (h : Wf σ F) (set : List ObjId) (r : MdbValidateReport) (j : ℕ) :
    (σ.validateSlot set cn r j).errors =
      r.errors + UInt32.ofNat (mdbDepthCap ≤ σ.mdbDepth (.slot cn j) : Bool).toNat := by
  unfold validateSlot
  cases hs : σ.occupied (.slot cn j) with
  | false =>
    have hcap : ¬ mdbDepthCap ≤ 0 := by decide
    simp [hs, h.mdb_eq_empty hs, h.empty _ hs, h.mdbDepth_eq_zero hs, KCSlot.empty, hcap]
  | true =>
    obtain ⟨cn', j', he, hcn, -⟩ := h.home _ hs
    obtain ⟨rfl, rfl⟩ := SlotRef.slot.inj he
    simp [hs, h.depthWalk_eq_mdbDepth hs, hcn, h.parentErrors_eq_zero, h.siblingErrors_eq_zero,
      h.childErrors_eq_zero]

theorem sum_map_toNat {α : Type*} (p : α → Bool) (l : List α) :
    (l.map fun a => (p a).toNat).sum = l.countP p := by
  induction l with
  | nil => rfl
  | cons a l ih =>
    rw [map_cons, sum_cons, ih, countP_cons, Nat.add_comm]
    cases p a <;> rfl

theorem foldl_errors {α : Type*} {f : MdbValidateReport → α → MdbValidateReport} {g : α → ℕ}
    (hf : ∀ r a, (f r a).errors = r.errors + UInt32.ofNat (g a)) (l : List α)
    (r : MdbValidateReport) : (l.foldl f r).errors = r.errors + UInt32.ofNat (l.map g).sum := by
  induction l generalizing r with
  | nil => simp
  | cons a l ih =>
    rw [foldl_cons, ih, hf, map_cons, sum_cons, UInt32.ofNat_add,
      UInt32.add_assoc]

theorem Wf.validate_errors (h : Wf σ F) (set : List ObjId) :
    (σ.kcnodeMdbValidate (some set)).errors = UInt32.ofNat (σ.deepSlots set) := by
  have hcn : ∀ r cn, ((range (σ.objs cn).slotCount).foldl (σ.validateSlot set cn) r).errors =
      r.errors + UInt32.ofNat ((range (σ.objs cn).slotCount).countP
        fun j => mdbDepthCap ≤ σ.mdbDepth (.slot cn j)) := by
    intro r cn
    rw [foldl_errors fun r j => h.validateSlot_errors set r j, sum_map_toNat]
  simp only [kcnodeMdbValidate, deepSlots]
  rw [foldl_errors hcn]
  simp

end

/-! ## Well-formed derivation records -/

/-- The derivation records form a forest, said of the pointers themselves. -/
structure MdbWellFormed (σ : Kernel) : Prop where
  acyclic : ∀ s, ¬ σ.Ancestor s s
  children : ∀ s, ∃ l : List SlotRef, l.Nodup ∧ (σ.mdb s).firstChild = l.head? ∧
    Seg σ.mdb none l none ∧ ∀ c, c ∈ l ↔ (σ.mdb c).parent = some s
  siblings : ∀ a b, (σ.mdb a).nextSib = some b ↔ (σ.mdb b).prevSib = some a
  roots : ∀ a b, (σ.mdb a).nextSib = some b → ((σ.mdb a).parent = none ↔ (σ.mdb b).parent = none)
  linked : ∀ p c, (σ.mdb c).parent = some p → σ.occupied p = true ∧ σ.occupied c = true
  empty : ∀ s, σ.occupied s = false →
    σ.mdb s = Links.empty ∧ (σ.slots s).mdbCnode = none ∧ (σ.slots s).mdbFlags = 0

theorem Wf.mdbWellFormed {σ : Kernel} {F : Forest SlotRef} (h : Wf σ F) : MdbWellFormed σ where
  acyclic s := by
    rw [h.ancestor_eq]
    exact F.acyclic s
  children s := by
    refine ⟨F.kids (.node s), F.nodup _, ?_, h.layout.seg _, fun c => ?_⟩
    · exact h.layout.first s
    · exact h.layout.parent_eq_some.symm
  siblings a b := h.layout.nextSib_iff_prevSib
  roots a b hab := by rw [h.parent_nextSib hab]
  linked p c hpc := by
    have hchild : F.Child p c := h.layout.parent_eq_some.mp hpc
    exact ⟨(h.mem_iff p).mp hchild.owner, (h.mem_iff c).mp hchild.mem⟩
  empty s hs := by
    refine ⟨h.mdb_eq_empty hs, ?_, ?_⟩
    · rw [h.empty s hs]
      rfl
    · rw [h.empty s hs]
      rfl

/-- Along every run the records are well formed, and the audit counts exactly the slots with at
least `2 ^ 20` ancestors. -/
theorem runs_mdbWellFormed {hooks : Hooks} {P : Kernel → Action → Prop} {σ τ : Kernel}
    {as : List Action} (hσ : Initial σ) (h : Runs hooks P σ as τ) :
    MdbWellFormed τ ∧ ∀ set : List ObjId,
      (τ.kcnodeMdbValidate (some set)).errors = UInt32.ofNat (τ.deepSlots set) := by
  obtain ⟨F, hw⟩ := h.wf hσ
  exact ⟨hw.mdbWellFormed, hw.validate_errors⟩

/-- Two CNode slots, an endpoint, and a capability to it with a derived one. -/
def deriveRun : List Action :=
  [.allocCNode 2, .initObject .endpoint, .installLinked 0 0 1 rightDuplicate 0 none none true true,
    .derive 0 0 0 1 rightSameRights 0]

theorem runs_mdbWellFormed_deriveRun :
    ∃ τ, exec inertHooks (fun _ _ => True) 8 {} deriveRun = some τ ∧ MdbWellFormed τ ∧
      ∀ set : List ObjId,
        (τ.kcnodeMdbValidate (some set)).errors = UInt32.ofNat (τ.deepSlots set) := by
  have hsome : (exec inertHooks (fun _ _ => True) 8 {} deriveRun).isSome = true := by decide
  obtain ⟨τ, hτ⟩ := Option.isSome_iff_exists.mp hsome
  exact ⟨τ, hτ, runs_mdbWellFormed initial_empty (.of_exec hτ)⟩

/-! ## A chain the audit cannot measure -/

/-- Slots enough for a chain of `2 ^ 20` derivations, and the endpoint it starts from. -/
def chainStart : Kernel where
  objs o :=
    if o < 257 then { type := .cnode, refcount := 1, slotCount := 4096, live := true }
    else if o = 257 then { type := .endpoint, refcount := 1, live := true } else {}
  numObjs := 258
  held o := if o < 258 then { refs := 1 } else {}

def chainSlot (k : ℕ) : SlotRef := .slot (k / 4096) (k % 4096)

def chainDerive (k : ℕ) : Action :=
  .derive (k / 4096) (k % 4096) ((k + 1) / 4096) ((k + 1) % 4096) rightSameRights 0

/-- Each slot is derived from the one before it. -/
def chainRun (k : ℕ) : List Action :=
  .installLinked 0 0 257 rightDuplicate 0 none none true true :: (List.range k).map chainDerive

theorem initial_chainStart : Initial chainStart where
  slots _ := rfl
  mdb _ := rfl
  quiet := ⟨rfl, rfl, rfl, rfl⟩
  fresh o ho := by
    have h1 : ¬ o < 257 := by change 258 ≤ o at ho; omega
    have h2 : o ≠ 257 := by change 258 ≤ o at ho; omega
    have h3 : ¬ o < 258 := not_lt.mpr ho
    simp [chainStart, h1, h2, h3]
  slotCount o := by
    by_cases h1 : o < 257 <;> by_cases h2 : o = 257 <;> simp [chainStart, h1, h2]
  counts o := by
    rcases lt_trichotomy o 257 with h | rfl | h
    · simp [chainStart, h, h.trans (by decide : 257 < 258)]
    · simp [chainStart]
    · simp [chainStart, not_lt.mpr h.le, h.ne', not_lt.mpr (Nat.succ_le_of_lt h)]
  live o := by
    rcases lt_trichotomy o 257 with h | rfl | h
    · simp [chainStart, h, h.trans (by decide : 257 < 258)]
    · simp [chainStart]
    · simp [chainStart, not_lt.mpr h.le, h.ne', not_lt.mpr (Nat.succ_le_of_lt h)]

/-- The state after `k` derivations. -/
structure ChainAt (k : ℕ) (σ : Kernel) : Prop where
  cnode : ∀ o : ℕ, o < 257 →
    (σ.objs o).live = true ∧ (σ.objs o).type = .cnode ∧ (σ.objs o).slotCount = 4096
  endpoint : (σ.objs 257).live = true ∧ 1 ≤ (σ.objs 257).refcount
  running : σ.panic = none
  filled : ∀ j ≤ k, (σ.slots (chainSlot j)).object = some 257 ∧
    (σ.slots (chainSlot j)).rights = rightDuplicate
  free : ∀ j, k < j → σ.occupied (chainSlot j) = false
  parent : ∀ j < k, (σ.mdb (chainSlot (j + 1))).parent = some (chainSlot j)

theorem chainSlot_injective : Injective chainSlot := by
  intro j k h
  obtain ⟨h1, h2⟩ := SlotRef.slot.inj h
  have h1 : j / 4096 = k / 4096 := h1
  omega

theorem deepSlots_singleton_le (σ : Kernel) (cn : ObjId) :
    σ.deepSlots [cn] ≤ (σ.objs cn).slotCount := by
  simpa [deepSlots] using
    List.countP_le_length (l := List.range (σ.objs cn).slotCount)

theorem deepSlots_singleton_pos {σ : Kernel} {cn : ObjId} {j : ℕ} (hj : j < (σ.objs cn).slotCount)
    (h : mdbDepthCap ≤ σ.mdbDepth (.slot cn j)) : 0 < σ.deepSlots [cn] := by
  exact List.countP_pos_iff.mpr ⟨j, List.mem_range.mpr hj, by simpa using h⟩

theorem ChainAt.slotExists {k j : ℕ} {σ : Kernel} (h : ChainAt k σ) (hj : j ≤ 2 ^ 20) :
    σ.slotExists (j / 4096) (j % 4096) = true := by
  obtain ⟨hlive, htype, hcount⟩ := h.cnode (j / 4096) (by omega)
  exact Wf.slotExists_iff.mpr ⟨hlive, htype, by rw [hcount]; omega⟩

theorem mdbLinkChild_parent (h : LinkHeap SlotRef) (p s x : SlotRef) :
    (mdbLinkChild h p s x).parent = if x = s then some p else (h x).parent := by
  cases hf : (h p).firstChild <;> simp [mdbLinkChild, hf]

theorem ChainAt.fill {σ τ : Kernel} {badge : UInt64} (h : ChainAt k σ)
    (hτ : τ = ((σ.takeRefs ((k + 1) / 4096) 257).fillSlot ((k + 1) / 4096) ((k + 1) % 4096) 257
      rightDuplicate badge (some (k / 4096, k % 4096)) false).returning .ok) : ChainAt (k + 1) τ := by
  have hkept := Kept.takeRefs σ ((k + 1) / 4096) 257
  have hslots : τ.slots = update σ.slots (chainSlot (k + 1))
      { σ.slots (chainSlot (k + 1)) with
        object := some 257
        rights := rightDuplicate
        badge
        mdbCnode := some ((k + 1) / 4096)
        mdbFlags := installFlags (some (k / 4096, k % 4096)) false } := by
    rw [hτ, returning, fillSlot_slots, hkept.slots]
    rfl
  have hmdb : τ.mdb = mdbLinkChild σ.mdb (chainSlot k) (chainSlot (k + 1)) := by
    rw [hτ, returning, fillSlot_mdb, hkept.mdb]
    rfl
  have hobjs : τ.objs = (σ.takeRefs ((k + 1) / 4096) 257).objs := by
    rw [hτ, returning, (fillSlot_rest _).1]
  have hne : ∀ j, j ≠ k + 1 → chainSlot j ≠ chainSlot (k + 1) :=
    fun j hj e => hj (chainSlot_injective e)
  refine ⟨fun o ho => ?_, ?_, ?_, fun j hj => ?_, fun j hj => ?_, fun j hj => ?_⟩
  · obtain ⟨h1, h2, h3, -⟩ := takeRefs_objs σ ((k + 1) / 4096) 257 o
    rw [hobjs, h1, h2, h3]
    exact h.cnode o ho
  · obtain ⟨h1, -, -, h4⟩ := takeRefs_objs σ ((k + 1) / 4096) 257 257
    rw [hobjs, h1]
    exact ⟨h.endpoint.1, h.endpoint.2.trans h4⟩
  · rw [hτ]
    exact (panic_takeRefs h.endpoint.2).trans h.running
  · rw [hslots]
    by_cases hjk : j = k + 1
    · simp [hjk]
    · rw [update_of_ne (hne j hjk)]
      exact h.filled j (by omega)
  · rw [occupied, hslots, update_of_ne (hne j (by omega))]
    exact h.free j (by omega)
  · rw [hmdb, mdbLinkChild_parent]
    by_cases hjk : j = k
    · rw [hjk, if_pos rfl]
    · rw [if_neg (hne (j + 1) (by omega))]
      exact h.parent j (by omega)

theorem ChainAt.derive {σ : Kernel} (h : ChainAt k σ) (hk : k < 2 ^ 20) :
    ∃ τ, σ.act (chainDerive k) = (τ, []) ∧ ChainAt (k + 1) τ := by
  obtain ⟨hobj, hrights⟩ := h.filled k le_rfl
  have hocc : σ.occupied (chainSlot k) = true := by simp [occupied, hobj]
  have hfree := h.free (k + 1) (by omega)
  have hsrc := h.slotExists (j := k) hk.le
  have hdst := h.slotExists (j := k + 1) hk
  have hne : ¬ (k / 4096 = (k + 1) / 4096 ∧ k % 4096 = (k + 1) % 4096) := by omega
  have hreduce : rightsReduce rightDuplicate rightSameRights = rightDuplicate := by decide
  have hcheck : rightsCheck rightDuplicate rightDuplicate = true := by decide
  have hnone : rightDuplicate ≠ rightNone := by decide
  have hact : σ.act (chainDerive k) = σ.kcnodeSlotInstallLinked ((k + 1) / 4096) ((k + 1) % 4096)
      257 rightDuplicate (σ.slots (chainSlot k)).badge (some (k / 4096, k % 4096)) (some 257)
      true false := by
    unfold chainSlot at hobj hrights ⊢
    simp [act, chainDerive, kcnodeSlotDerive, hsrc, hdst, hne, hobj, hrights,
      hreduce, hcheck, hnone, mdbBadgeDerive]
  rw [hact, kcnodeSlotInstallLinked_ok hdst hfree h.endpoint.1 h.endpoint.2 hnone
    (by rintro p ⟨⟩; exact ⟨hsrc, hocc, .inr hobj⟩)]
  exact ⟨_, rfl, h.fill rfl⟩

theorem chainStart_install : ∃ τ,
    chainStart.act (.installLinked 0 0 257 rightDuplicate 0 none none true true) = (τ, []) ∧
      ChainAt 0 τ := by
  have hkept := Kept.takeRefs chainStart 0 257
  refine ⟨_, rfl, fun o ho => ?_, ?_, ?_, fun j hj => ?_, fun j hj => ?_, fun j hj => ?_⟩
  · obtain ⟨h1, h2, h3, -⟩ := takeRefs_objs chainStart 0 257 o
    simp only [returning, fillSlot_rest, h1, h2, h3]
    simp [chainStart, ho]
  · obtain ⟨h1, -, -, h4⟩ := takeRefs_objs chainStart 0 257 257
    exact ⟨rfl, h4⟩
  · exact panic_takeRefs le_rfl
  · obtain rfl := Nat.le_zero.mp hj
    simp [returning, fillSlot_slots, chainSlot]
  · have hne : chainSlot j ≠ .slot 0 0 := fun e => hj.ne' (chainSlot_injective e)
    simp [occupied, returning, fillSlot_slots, hne, hkept.slots]
    rfl
  · omega

theorem exists_chainAt (hk : k ≤ 2 ^ 20) :
    ∃ τ, Runs inertHooks (fun _ _ => True) chainStart (chainRun k) τ ∧ ChainAt k τ := by
  induction k with
  | zero =>
    obtain ⟨τ, hact, hτ⟩ := chainStart_install
    have hstep : Step inertHooks chainStart
        (.installLinked 0 0 257 rightDuplicate 0 none none true true) τ := by
      rw [step_iff, hact]
      exact ⟨rfl, .done _⟩
    exact ⟨τ, .snoc (.nil chainStart) trivial hstep, hτ⟩
  | succ k ih =>
    obtain ⟨σ, hrun, hσ⟩ := ih (by omega)
    obtain ⟨τ, hact, hτ⟩ := hσ.derive hk
    have hstep : Step inertHooks σ (chainDerive k) τ := by
      rw [step_iff, hact]
      exact ⟨hσ.running, .done _⟩
    refine ⟨τ, ?_, hτ⟩
    rw [chainRun, List.range_succ, List.map_append, List.map_singleton, ← List.cons_append]
    exact hrun.snoc trivial hstep

theorem ChainAt.le_ancestors {k n : ℕ} {σ : Kernel} (h : ChainAt k σ) (j : ℕ) (hj : j ≤ k) :
    min n j ≤ (ancestors σ.mdb n (chainSlot j)).length := by
  induction j generalizing n with
  | zero => simp
  | succ j ih =>
    rw [ancestors, h.parent j hj]
    cases n with
    | zero => simp
    | succ n =>
      rw [chain_some, List.length_cons, Nat.succ_min_succ]
      exact Nat.succ_le_succ (ih (by omega))

/-- A run of installs and derivations after which the audit reports an error. -/
theorem chainRun_validate_errors : Initial chainStart ∧
    ∃ τ, Runs inertHooks (fun _ _ => True) chainStart (chainRun (2 ^ 20)) τ ∧
      (τ.kcnodeMdbValidate (some [256])).errors ≠ 0 := by
  obtain ⟨τ, hrun, hτ⟩ := exists_chainAt le_rfl
  obtain ⟨F, hw⟩ := hrun.wf initial_chainStart
  refine ⟨initial_chainStart, τ, hrun, ?_⟩
  have hcapacity : 2 ^ 20 + 1 ≤ τ.capacity := by
    have := hw.boundedBy ((List.range (2 ^ 20 + 1)).map chainSlot)
      (List.nodup_range.map chainSlot_injective) fun x hx => by
        obtain ⟨j, hj, rfl⟩ := List.mem_map.mp hx
        have hfilled := (hτ.filled j (Nat.lt_succ_iff.mp (List.mem_range.mp hj))).1
        exact hw.mem (by simp [occupied, hfilled])
    rwa [List.length_map, List.length_range] at this
  have hdepth : mdbDepthCap ≤ τ.mdbDepth (.slot 256 0) := by
    have hcap : mdbDepthCap ≤ τ.capacity := (Nat.le_succ _).trans hcapacity
    exact (le_min hcap le_rfl).trans (hτ.le_ancestors (n := τ.capacity) (2 ^ 20) le_rfl)
  have hcount : (τ.objs 256).slotCount = 4096 := (hτ.cnode 256 (by omega)).2.2
  have hpos : 0 < τ.deepSlots [256] := deepSlots_singleton_pos (hcount ▸ by decide) hdepth
  have hle : τ.deepSlots [256] ≤ 4096 := hcount ▸ deepSlots_singleton_le τ 256
  rw [hw.validate_errors]
  intro hzero
  have hnat := congrArg UInt32.toNat hzero
  rw [UInt32.toNat_ofNat_of_lt' (hle.trans_lt (by decide))] at hnat
  exact hpos.ne' hnat

end IrisOS.Cap
