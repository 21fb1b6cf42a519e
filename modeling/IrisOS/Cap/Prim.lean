import IrisOS.Cap.CNode

/-! The entry points of the slot primitives. An entry point changes the state, issues the calls that
release what it no longer needs, and leaves its result in `ret`. -/
namespace IrisOS.Cap
open Lib

namespace Kernel

def returning (σ : Kernel) (e : IrisError) : Kernel := { σ with ret := { err := e } }

def fail (σ : Kernel) (e : IrisError) : Kernel × List Call := (σ.returning e, [])

/-- The slot exists: its CNode is there and the index is in range. -/
def slotExists (σ : Kernel) (cn : ObjId) (idx : ℕ) : Bool :=
  σ.isCNode cn && idx < (σ.objs cn).slotCount

/-! ## Installing -/

/-- The references `kcnode_slot_install_linked` takes: a slot that names its own CNode takes
no active one. -/
def takeRefs (σ : Kernel) (cn obj : ObjId) : Kernel :=
  let σ := σ.kobjectRetain obj
  if obj = cn then σ else σ.kobjectActiveRetain obj

theorem takeRefs_eq {σ : Kernel} {cn obj : ObjId} (href : 1 ≤ (σ.objs obj).refcount)
    (hcn : obj ≠ cn) : σ.takeRefs cn obj = σ.setObj obj fun x => { x with
      refcount := x.refcount + 1, activeRefs := x.activeRefs + 1 } := by
  simp [takeRefs, if_neg hcn, kobjectRetain, irisAssert, if_pos href, kobjectActiveRetain, setObj]

def dropRefsCalls (cn obj : ObjId) : List Call :=
  (if obj = cn then [] else [.activeRelease obj]) ++ [.release obj]

/-- The checks of `kcnode_slot_install_linked` on the parent it is told to link to. -/
def parentRefused (σ : Kernel) (s : SlotRef) (expect : Option ObjId) : Option (ObjId × ℕ) → Bool
  | none => false
  | some (pcn, pidx) =>
    !σ.occupied (.slot pcn pidx) || SlotRef.slot pcn pidx = s ||
      (expect.isSome && (σ.slots (.slot pcn pidx)).object ≠ expect)

/-- The part of `kcnode_slot_install_linked` under the lock, with the occupant the overwrite
has taken out of the slot. -/
def installUnderLock (σ : Kernel) (cn : ObjId) (idx : ℕ) (obj : ObjId) (rights : Rights)
    (badge : UInt64) (parent : Option (ObjId × ℕ)) (expect : Option ObjId) (unparented : Bool)
    (old : Option ObjId) : Kernel × List Call :=
  let undo := dropOldCalls cn old ++ dropRefsCalls cn obj
  if !σ.slotExists cn idx then (σ.returning .invalidArg, undo)
  else if σ.parentRefused (.slot cn idx) expect parent then (σ.returning .invalidArg, undo)
  else if σ.occupied (.slot cn idx) then (σ.returning .alreadyExists, undo)
  else ((σ.fillSlot cn idx obj rights badge parent unparented).returning .ok,
    dropOldCalls cn old)

def kcnodeSlotInstallLinked (σ : Kernel) (cn : ObjId) (idx : ℕ) (obj : ObjId) (rights : Rights)
    (badge : UInt64) (parent : Option (ObjId × ℕ)) (expect : Option ObjId)
    (exclusive unparented : Bool) : Kernel × List Call :=
  if !σ.isCNode cn || !(σ.objs obj).live || rights = rightNone then σ.fail .invalidArg
  else if parent.any fun p => !σ.slotExists p.1 p.2 then σ.fail .invalidArg
  else if !exclusive && !σ.slotExists cn idx then σ.fail .invalidArg
  else if (σ.objs obj).refcount < 1 then (σ.kobjectRetain obj, [])
  else
    let σ := σ.takeRefs cn obj
    if exclusive then
      σ.installUnderLock cn idx obj rights badge parent expect unparented none
    else
      let (σ, old) := σ.slotDeleteLocked cn idx
      σ.installUnderLock cn idx obj rights badge parent expect unparented old

def mdbBadgeDerive (srcBadge requested : UInt64) (type : KObjType) : Except IrisError UInt64 :=
  if requested = 0 then .ok srcBadge
  else if srcBadge ≠ 0 ∧ srcBadge ≠ requested then .error .accessDenied
  else if srcBadge = 0 ∧ type ≠ .endpoint ∧ type ≠ .notification then .error .invalidArg
  else .ok requested

/-- `kcnode_slot_install_sibling`: a copy next to the source, or below it if it is a root. -/
def kcnodeSlotInstallSibling (σ : Kernel) (srcCn : ObjId) (srcIdx : ℕ) (dstCn : ObjId)
    (dstIdx : ℕ) : Kernel × List Call :=
  if !σ.slotExists srcCn srcIdx || !σ.slotExists dstCn dstIdx then σ.fail .invalidArg
  else
    let src := σ.slots (.slot srcCn srcIdx)
    match src.object with
    | none => σ.fail .notFound
    | some obj =>
      match (σ.mdb (.slot srcCn srcIdx)).parent with
      | some (.slot pcn pidx) =>
        match (σ.slots (.slot pcn pidx)).mdbCnode with
        | some parCn => σ.kcnodeSlotInstallLinked dstCn dstIdx obj src.rights src.badge
            (some (parCn, pidx)) (σ.slots (.slot pcn pidx)).object true false
        | none => σ.kcnodeSlotInstallLinked dstCn dstIdx obj src.rights src.badge
            (some (srcCn, srcIdx)) (some obj) true false
      | _ => σ.kcnodeSlotInstallLinked dstCn dstIdx obj src.rights src.badge
          (some (srcCn, srcIdx)) (some obj) true false

/-- `kcnode_slot_install_for_thread`: a copy below the source, whatever its rights. -/
def kcnodeSlotInstallForThread (σ : Kernel) (srcCn : ObjId) (srcIdx : ℕ) (dstCn : ObjId)
    (dstIdx : ℕ) : Kernel × List Call :=
  if !σ.slotExists srcCn srcIdx || !σ.slotExists dstCn dstIdx then σ.fail .invalidArg
  else
    let src := σ.slots (.slot srcCn srcIdx)
    match src.object with
    | none => σ.fail .notFound
    | some obj => σ.kcnodeSlotInstallLinked dstCn dstIdx obj src.rights src.badge
        (some (srcCn, srcIdx)) (some obj) true false

/-- `kcnode_slot_derive`: a copy below the source with reduced rights. -/
def kcnodeSlotDerive (σ : Kernel) (srcCn : ObjId) (srcIdx : ℕ) (dstCn : ObjId) (dstIdx : ℕ)
    (requested : Rights) (reqBadge : UInt64) : Kernel × List Call :=
  if !σ.slotExists srcCn srcIdx || !σ.slotExists dstCn dstIdx then σ.fail .invalidArg
  else if srcCn = dstCn ∧ srcIdx = dstIdx then σ.fail .invalidArg
  else
    let src := σ.slots (.slot srcCn srcIdx)
    match src.object with
    | none => σ.fail .notFound
    | some obj =>
      let effective := rightsReduce src.rights requested
      if !rightsCheck src.rights rightDuplicate then σ.fail .accessDenied
      else if effective = rightNone then σ.fail .invalidArg
      else match mdbBadgeDerive src.badge reqBadge (σ.objs obj).type with
        | .error e => σ.fail e
        | .ok badge => σ.kcnodeSlotInstallLinked dstCn dstIdx obj effective badge
            (some (srcCn, srcIdx)) (some obj) true false

/-! ## Relocating -/

def kcnodeSlotMove (σ : Kernel) (srcCn : ObjId) (srcIdx : ℕ) (dstCn : ObjId) (dstIdx : ℕ) :
    Kernel × List Call :=
  let src := SlotRef.slot srcCn srcIdx
  let dst := SlotRef.slot dstCn dstIdx
  if !σ.slotExists srcCn srcIdx || !σ.slotExists dstCn dstIdx then σ.fail .invalidArg
  else if src = dst then σ.fail .invalidArg
  else if !σ.occupied src then σ.fail .notFound
  else if σ.occupied dst then σ.fail .alreadyExists
  else (((σ.mdbRelocate src dst dstCn).noteMoves 1).returning .ok, [])

/-- The temporary as a swap sets it up on its stack. -/
def freshTmp (σ : Kernel) : Kernel :=
  { σ with
    slots := Function.update σ.slots .tmp KCSlot.empty
    mdb := Function.update σ.mdb .tmp Links.empty }

def kcnodeSlotRotate (σ : Kernel) (destCn : ObjId) (destIdx : ℕ) (pivotCn : ObjId) (pivotIdx : ℕ)
    (srcCn : ObjId) (srcIdx : ℕ) : Kernel × List Call :=
  let dest := SlotRef.slot destCn destIdx
  let pivot := SlotRef.slot pivotCn pivotIdx
  let src := SlotRef.slot srcCn srcIdx
  if !σ.slotExists destCn destIdx || !σ.slotExists pivotCn pivotIdx ||
      !σ.slotExists srcCn srcIdx then σ.fail .invalidArg
  else if src = pivot ∨ dest = pivot then σ.fail .invalidArg
  else if !σ.occupied src || !σ.occupied pivot then σ.fail .notFound
  else if dest ≠ src ∧ σ.occupied dest then σ.fail .alreadyExists
  else
    let σ := if dest = src then
        let σ := σ.freshTmp.mdbRelocate src .tmp srcCn
        let σ := σ.mdbRelocate pivot dest destCn
        σ.mdbRelocate .tmp pivot pivotCn
      else (σ.mdbRelocate pivot dest destCn).mdbRelocate src pivot pivotCn
    ((σ.noteMoves 2).returning .ok, [])

def kcnodeSwap (σ : Kernel) (cn : ObjId) (slotA slotB : ℕ) : Kernel × List Call :=
  let a := SlotRef.slot cn slotA
  let b := SlotRef.slot cn slotB
  if !σ.isCNode cn || slotA = slotB then σ.fail .invalidArg
  else if !σ.slotExists cn slotA || !σ.slotExists cn slotB then σ.fail .invalidArg
  else
    let aOcc := σ.occupied a
    let bOcc := σ.occupied b
    let σ := σ.freshTmp
    let σ := if aOcc then σ.mdbRelocate a .tmp cn else σ
    let σ := if bOcc then σ.mdbRelocate b a cn else σ
    let σ := if aOcc then σ.mdbRelocate .tmp b cn else σ
    (σ.returning .ok, [])

/-! ## Removing -/

def kcnodeSlotDelete (σ : Kernel) (cn : ObjId) (idx : ℕ) : Kernel × List Call :=
  if !σ.slotExists cn idx then σ.fail .invalidArg
  else
    let (σ, old) := σ.slotDeleteLocked cn idx
    (σ.returning .ok, dropOldCalls cn old)

/-- `kcnode_slot_revoke_bounded`; a budget of `0` is no bound. -/
def kcnodeSlotRevokeBounded (σ : Kernel) (cn : ObjId) (idx budget : ℕ) : Kernel × List Call :=
  if !σ.slotExists cn idx then σ.fail .invalidArg
  else (σ.setStats fun t => { t with cdtRevokeCount := t.cdtRevokeCount + 1 },
    [.revokeLoop cn idx budget 0])

def kcnodeTeardownSlots (σ : Kernel) (cn : ObjId) : Kernel × List Call :=
  if !σ.isCNode cn then (σ, []) else (σ, [.emptySlots cn 0])

def kcnodeCascadeDrainSlice (σ : Kernel) : Kernel × List Call :=
  if σ.running || σ.cascade.isEmpty then (σ, [])
  else ({ σ with running := true }, [.cascadeDrain irisCascadeSlice 0])

end Kernel
end IrisOS.Cap
