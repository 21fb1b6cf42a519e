import IrisOS.Cap.Mdb
import IrisOS.Lib.CallMachine

/-! The slot primitives and the object lifecycle of `kcnode.c` and `kobject.c`. A function changes
the state once and then issues calls, which a call machine runs; a loop with a release in its body
issues itself again with its next index. -/
namespace IrisOS.Cap
open Lib Function

/-! ## Reference counts -/

namespace Kernel

def kobjectRetain (σ : Kernel) (o : ObjId) : Kernel :=
  (σ.setObj o fun x => { x with refcount := x.refcount + 1 }).irisAssert
    (1 ≤ (σ.objs o).refcount) .resurrect

def kobjectActiveRetain (σ : Kernel) (o : ObjId) : Kernel :=
  σ.setObj o fun x => { x with activeRefs := x.activeRefs + 1 }

/-- The decrement of `kobject_release`. -/
def dropRefcount (σ : Kernel) (o : ObjId) : Kernel :=
  (σ.setObj o fun x => { x with refcount := x.refcount - 1 }).irisAssert
    (1 ≤ (σ.objs o).refcount) .refcountUnderflow

/-- The decrement of `kobject_active_release`. -/
def dropActiveRefs (σ : Kernel) (o : ObjId) : Kernel :=
  (σ.setObj o fun x => { x with activeRefs := x.activeRefs - 1 }).irisAssert
    (1 ≤ (σ.objs o).activeRefs) .activeRefsUnderflow

/-! ## Removing a capability from the tree -/

/-- `mdb_clear_node`, which also clears the guard of the slot. -/
def mdbClearNode (σ : Kernel) (s : SlotRef) : Kernel :=
  if (σ.mdb s).firstChild.isSome then σ.stop .clearedWithChildren
  else { σ with
    mdb := update σ.mdb s Links.empty
    slots := update σ.slots s
      { σ.slots s with mdbCnode := none, mdbFlags := 0, guard := 0, guardBits := 0 } }

/-- The splice of `mdb_detach_reparent` with its counters. -/
def spliceOut (σ : Kernel) (s : SlotRef) : Kernel :=
  match (σ.mdb s).firstChild with
  | none => σ
  | some child =>
    let n := UInt32.ofNat (chain (fun c => (σ.mdb c).nextSib) σ.capacity (some child)).length
    let stats := if (σ.mdb s).parent.isSome
      then { σ.stats with mdbReparents := σ.stats.mdbReparents + n }
      else { σ.stats with
        mdbOrphanPromotions := σ.stats.mdbOrphanPromotions + n
        cdtDerivedLive := σ.stats.cdtDerivedLive - n }
    { σ with mdb := spliceChildren σ.capacity σ.mdb s child, stats := stats }

def mdbDetachReparent (σ : Kernel) (s : SlotRef) : Kernel :=
  let σ := σ.spliceOut s
  let σ := if (σ.mdb s).parent.isSome
    then σ.setStats fun t => { t with cdtDerivedLive := t.cdtDerivedLive - 1 } else σ
  let σ := { σ with mdb := mdbUnlinkFromParent σ.mdb s }
  let σ := if (σ.slots s).mdbFlags &&& mdbFlagUnparented ≠ 0
    then σ.setStats fun t => { t with mdbUnparentedRoots := t.mdbUnparentedRoots - 1 } else σ
  let σ := σ.setStats fun t => { t with mdbNodesLive := t.mdbNodesLive - 1 }
  σ.mdbClearNode s

def clearContent (σ : Kernel) (s : SlotRef) : Kernel :=
  σ.setSlot s { σ.slots s with object := none, rights := rightNone, badge := 0 }

/-- The occupied case of `kcnode_slot_delete_locked`. -/
def removeCap (σ : Kernel) (s : SlotRef) : Kernel :=
  let σ := σ.clearContent s
  let σ := if (σ.slots s).mdbCnode.isSome then σ.mdbDetachReparent s else σ
  σ.setStats fun t => { t with cdtDeleteCount := t.cdtDeleteCount + 1 }

/-- `kcnode_slot_delete_locked` on an index in range, with the occupant it hands back. -/
def slotDeleteLocked (σ : Kernel) (cn : ObjId) (idx : ℕ) : Kernel × Option ObjId :=
  match (σ.slots (.slot cn idx)).object with
  | none => (σ, none)
  | some old => (σ.removeCap (.slot cn idx), some old)

/-- What `kcnode_slot_revoke_bounded` does to the leaf it has found. -/
def revokeLeaf (σ : Kernel) (v : SlotRef) : Kernel :=
  let σ := σ.clearContent v
  let σ := { σ with mdb := mdbUnlinkFromParent σ.mdb v }
  let σ := if (σ.slots v).mdbFlags &&& mdbFlagUnparented ≠ 0
    then σ.setStats fun t => { t with mdbUnparentedRoots := t.mdbUnparentedRoots - 1 } else σ
  let σ := σ.setStats fun t => { t with
    mdbNodesLive := t.mdbNodesLive - 1, cdtDerivedLive := t.cdtDerivedLive - 1 }
  let σ := σ.mdbClearNode v
  σ.setStats fun t => { t with mdbRevokedNodes := t.mdbRevokedNodes + 1 }

/-! ## Adding a capability to the tree -/

/-- The end of `kcnode_slot_install_linked`: fill the slot and link it below its parent. -/
def fillSlot (σ : Kernel) (cn : ObjId) (idx : ℕ) (obj : ObjId) (rights : Rights) (badge : UInt64)
    (parent : Option (ObjId × ℕ)) (unparented : Bool) : Kernel :=
  let s := SlotRef.slot cn idx
  let content := { σ.slots s with object := some obj, rights, badge, mdbCnode := some cn }
  let σ := match parent with
    | some (pcn, pidx) =>
      let mdb := mdbLinkChild σ.mdb (.slot pcn pidx) s
      let d := UInt32.ofNat (ancestors mdb σ.capacity s).length
      { σ with
        mdb
        slots := update σ.slots s { content with mdbFlags := 0 }
        stats := { σ.stats with
          mdbMaxDepth := max σ.stats.mdbMaxDepth d
          cdtDerivationCount := σ.stats.cdtDerivationCount + 1
          cdtDerivedLive := σ.stats.cdtDerivedLive + 1
          cdtDerivationHwm := max σ.stats.cdtDerivationHwm (σ.stats.cdtDerivedLive + 1)
          cdtCrossCnodeDesc :=
            if pcn ≠ cn then σ.stats.cdtCrossCnodeDesc + 1 else σ.stats.cdtCrossCnodeDesc } }
    | none =>
      { σ with
        mdb := σ.mdb.setParent s none
        slots := update σ.slots s
          { content with mdbFlags := if unparented then mdbFlagUnparented else 0 }
        stats := { σ.stats with
          mdbUnparentedRoots :=
            if unparented then σ.stats.mdbUnparentedRoots + 1 else σ.stats.mdbUnparentedRoots } }
  σ.setStats fun t => { t with
    mdbNodesLive := t.mdbNodesLive + 1
    mdbNodesHwm := max t.mdbNodesHwm (t.mdbNodesLive + 1) }

/-! ## Relocating a capability -/

/-- `mdb_relocate`: content and links go to `dst`, which belongs to `dstCn`; the guard does
not. -/
def mdbRelocate (σ : Kernel) (src dst : SlotRef) (dstCn : ObjId) : Kernel :=
  { σ with
    slots := update (update σ.slots dst
        { σ.slots dst with
          object := (σ.slots src).object
          rights := (σ.slots src).rights
          badge := (σ.slots src).badge
          mdbFlags := (σ.slots src).mdbFlags
          mdbCnode := some dstCn }) src KCSlot.empty
    mdb := relocateLinks σ.capacity σ.mdb src dst }

def noteMoves (σ : Kernel) (n : UInt32) : Kernel :=
  σ.setStats fun t => { t with mdbMoves := t.mdbMoves + n }

end Kernel

/-! ## Calls -/

/-- What hooks of other types do: delete slots and drop references held outside them. -/
inductive HookCall
  | delete (cn : ObjId) (idx : ℕ)
  | dropActive (o : ObjId)
  | dropRef (o : ObjId)
  deriving DecidableEq

/-- The hooks of the types other than CNode, and `kvspace_finalise_orphans`: which calls they make.
-/
structure Hooks where
  close : (ObjId → KObject) → (SlotRef → KCSlot) → ObjId → List HookCall
  destroy : (ObjId → KObject) → (SlotRef → KCSlot) → ObjId → List HookCall
  finaliseOrphans : (ObjId → KObject) → (SlotRef → KCSlot) → ObjId → List HookCall

/-- A function of `kcnode.c` or `kobject.c` that is about to run. Loops carry their next index, and
the two sliced ones, `cascadeDrain` and `revokeLoop`, their budget. -/
inductive Call
  | slotDelete (cn : ObjId) (idx : ℕ)
  | slotDropOld (cn old : ObjId)
  | activeRelease (o : ObjId)
  | finaliseOrphans (o : ObjId)
  | release (o : ObjId)
  | dispatchClose (o : ObjId)
  | dispatchDestroy (o : ObjId)
  | emptySlots (cn : ObjId) (idx : ℕ)
  | objDestroy (cn : ObjId) (idx : ℕ)
  | storageFree (o : ObjId)
  | cascadeDrain (budget done : ℕ)
  | revokeLoop (cn : ObjId) (idx budget revoked : ℕ)
  | heldActiveRelease (o : ObjId)
  | heldRelease (o : ObjId)
  deriving DecidableEq

def HookCall.toCall : HookCall → Call
  | delete cn idx => .slotDelete cn idx
  | dropActive o => .heldActiveRelease o
  | dropRef o => .heldRelease o

/-- The object whose storage a call reads without asking whether it is there. -/
def Call.subject : Call → Option ObjId
  | slotDropOld _ o | activeRelease o | finaliseOrphans o | release o | dispatchClose o
  | dispatchDestroy o | emptySlots o _ | objDestroy o _ | storageFree o | revokeLoop o _ _ _ => some o
  | slotDelete _ _ | cascadeDrain _ _ | heldActiveRelease _ | heldRelease _ => none

def irisCascadeSlice : ℕ := 8

namespace Kernel

/-- `kcnode_slot_drop_old`, for the occupant a delete handed back, if it did. -/
def dropOldCalls (cn : ObjId) (old : Option ObjId) : List Call :=
  old.toList.map (.slotDropOld cn)

/-- `kcnode_cascade`: hand the CNode to the drain that is running, or start one with it. -/
def kcnodeCascade (σ : Kernel) (cn : ObjId) : Kernel × List Call :=
  if σ.running then
    if cn ∈ σ.cascade then (σ, [])
    else if (σ.objs cn).refcount < 1 then (σ.kobjectRetain cn, [])
    else ({ σ.kobjectRetain cn with cascade := cn :: σ.cascade }, [])
  else ({ σ with running := true }, [.emptySlots cn 0, .cascadeDrain (irisCascadeSlice - 1) 0])

/-- One round of `kcnode_cascade_drain`. -/
def cascadeDrain (σ : Kernel) (budget done : ℕ) : Kernel × List Call :=
  match σ.cascade with
  | [] => ({ σ with running := false }, [])
  | o :: rest =>
    if budget ≠ 0 ∧ budget ≤ done then ({ σ with running := false }, [])
    else ({ σ with cascade := rest },
      [.emptySlots o 0, .release o, .cascadeDrain budget (done + 1)])

def kobjectDispatchClose (hooks : Hooks) (σ : Kernel) (o : ObjId) : Kernel × List Call :=
  match (σ.objs o).type with
  | .cnode => σ.kcnodeCascade o
  | .tcb | .reserved => (σ, [])
  | _ => (σ, (hooks.close σ.objs σ.slots o).map HookCall.toCall)

def kobjectDispatchDestroy (hooks : Hooks) (σ : Kernel) (o : ObjId) : Kernel × List Call :=
  match (σ.objs o).type with
  | .cnode => (σ, [.objDestroy o 0])
  | .reserved => (σ.stop .noDestructor, [])
  | _ => (σ, (hooks.destroy σ.objs σ.slots o).map HookCall.toCall ++ [.storageFree o])

def kobjectStorageFree (σ : Kernel) (o : ObjId) : Kernel :=
  σ.setObj o fun x => { x with live := false }

/-- One round of the loop of `kcnode_slot_revoke_bounded`. -/
def revokeLoop (σ : Kernel) (cn : ObjId) (idx budget revoked : ℕ) : Kernel × List Call :=
  let root := SlotRef.slot cn idx
  if budget ≠ 0 ∧ budget ≤ revoked then
    ({ σ with ret := { revoked, more := σ.occupied root && (σ.mdb root).firstChild.isSome } }, [])
  else if σ.occupied root = false then
    ({ σ with ret := { err := if revoked = 0 then .notFound else .ok, revoked } }, [])
  else match (σ.mdb root).firstChild with
    | none => ({ σ with ret := { revoked } }, [])
    | some c =>
      let v := leftmost σ.mdb σ.capacity c
      match (σ.slots v).mdbCnode with
      | none => (σ.stop .fault, [])
      | some vcn => (σ.revokeLeaf v, dropOldCalls vcn (σ.slots v).object ++
          [.revokeLoop cn idx budget (revoked + 1)])

section
variable {σ : Kernel} {cn : ObjId} {idx budget revoked : ℕ}

theorem revokeLoop_spent (hb : budget ≠ 0 ∧ budget ≤ revoked) :
    σ.revokeLoop cn idx budget revoked = ({ σ with
      ret := {
        revoked
        more := σ.occupied (.slot cn idx) && (σ.mdb (.slot cn idx)).firstChild.isSome } }, []) := by
  simp [revokeLoop, hb]

section

variable (hb : ¬ (budget ≠ 0 ∧ budget ≤ revoked))
include hb

theorem revokeLoop_gone
    (hs : σ.occupied (.slot cn idx) = false) : σ.revokeLoop cn idx budget revoked =
      ({ σ with ret := { err := if revoked = 0 then .notFound else .ok, revoked } }, []) := by
  simp only [revokeLoop, if_neg hb, if_pos hs]

theorem revokeLoop_done
    (hs : σ.occupied (.slot cn idx) = true) (hc : (σ.mdb (.slot cn idx)).firstChild = none) :
    σ.revokeLoop cn idx budget revoked = ({ σ with ret := { revoked } }, []) := by
  have hs' : ¬ σ.occupied (.slot cn idx) = false := by simp [hs]
  simp only [revokeLoop, if_neg hb, if_neg hs', hc]

theorem revokeLoop_leaf
    (hs : σ.occupied (.slot cn idx) = true) {c : SlotRef} {vcn : ObjId}
    (hc : (σ.mdb (.slot cn idx)).firstChild = some c)
    (hv : (σ.slots (leftmost σ.mdb σ.capacity c)).mdbCnode = some vcn) :
    σ.revokeLoop cn idx budget revoked = (σ.revokeLeaf (leftmost σ.mdb σ.capacity c),
      dropOldCalls vcn (σ.slots (leftmost σ.mdb σ.capacity c)).object ++
        [.revokeLoop cn idx budget (revoked + 1)]) := by
  have hs' : ¬ σ.occupied (.slot cn idx) = false := by simp [hs]
  simp only [revokeLoop, if_neg hb, if_neg hs', hc, hv]

end

end

/-- What a call does to the state, and the calls it makes after that. -/
def perform (hooks : Hooks) (σ : Kernel) : Call → Kernel × List Call
  | .slotDelete cn idx =>
    if σ.isCNode cn ∧ idx < (σ.objs cn).slotCount then
      let (σ', old) := σ.slotDeleteLocked cn idx
      (σ', dropOldCalls cn old)
    else (σ, [])
  | .slotDropOld cn old =>
    (σ, (if old = cn then [] else [.activeRelease old]) ++
      (if (σ.objs old).type = .frame ∨ (σ.objs old).type = .pageTable
        then [.finaliseOrphans old] else []) ++ [.release old])
  | .activeRelease o =>
    (σ.dropActiveRefs o, if (σ.objs o).activeRefs = 1 then [.dispatchClose o] else [])
  | .finaliseOrphans o => (σ, (hooks.finaliseOrphans σ.objs σ.slots o).map HookCall.toCall)
  | .release o => (σ.dropRefcount o, if (σ.objs o).refcount = 1 then [.dispatchDestroy o] else [])
  | .dispatchClose o => σ.kobjectDispatchClose hooks o
  | .dispatchDestroy o => σ.kobjectDispatchDestroy hooks o
  | .emptySlots cn idx =>
    if idx < (σ.objs cn).slotCount then
      let (σ', old) := σ.slotDeleteLocked cn idx
      (σ', dropOldCalls cn old ++ [.emptySlots cn (idx + 1)])
    else (σ, [])
  | .objDestroy cn idx =>
    if idx < (σ.objs cn).slotCount then
      let (σ', old) := σ.slotDeleteLocked cn idx
      (σ', dropOldCalls cn old ++ [.objDestroy cn (idx + 1)])
    else ((σ.setStats fun t => { t with kcnodeLive := t.kcnodeLive - 1 }).kobjectStorageFree cn, [])
  | .storageFree o => (σ.kobjectStorageFree o, [])
  | .cascadeDrain budget done => σ.cascadeDrain budget done
  | .revokeLoop cn idx budget revoked => σ.revokeLoop cn idx budget revoked
  | .heldActiveRelease o =>
    if (σ.held o).active = 0 then (σ, [])
    else (σ.setHeld o fun x => { x with active := x.active - 1 }, [.activeRelease o])
  | .heldRelease o =>
    if (σ.held o).refs = 0 then (σ, [])
    else (σ.setHeld o fun x => { x with refs := x.refs - 1 }, [.release o])

end Kernel

/-- The kernel as a machine that runs calls. A call whose object is gone stops it. -/
def machine (hooks : Hooks) : CallMachine Kernel Call where
  body σ f :=
    if f.subject.all fun o => (σ.objs o).live then σ.perform hooks f else (σ.stop .fault, [])
  halted σ := σ.panic.isSome

end IrisOS.Cap
