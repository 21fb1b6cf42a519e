import IrisOS.Cap.Prim
import IrisOS.Lib.ActionSystem

/-! The system around the slot primitives: creating objects, holding references, guards, capability
transfer over an endpoint (`syscall_endpoint.c`), and the runs of all these actions. -/
namespace IrisOS.Cap
open Lib

namespace Kernel

def kcnodeMaxSlots : ℕ := 4096

/-- Create an object; its creator holds the first reference. -/
def addObject (σ : Kernel) (type : KObjType) (slotCount : ℕ) : Kernel :=
  { σ with
    objs := Function.update σ.objs σ.numObjs
      { type, refcount := 1, slotCount, live := true }
    held := Function.update σ.held σ.numObjs { refs := 1 }
    numObjs := σ.numObjs + 1 }

/-- `kcnode_alloc`. The slots come zeroed: the name is new, so nothing has written to them. -/
def kcnodeAlloc (σ : Kernel) (numSlots : ℕ) : Kernel :=
  if numSlots = 0 ∨ kcnodeMaxSlots < numSlots ∨ numSlots &&& (numSlots - 1) ≠ 0 then σ
  else (σ.addObject .cnode numSlots).setStats fun t => { t with kcnodeLive := t.kcnodeLive + 1 }

/-- `kobject_init` for the types without slots of their own. -/
def kobjectInit (σ : Kernel) (type : KObjType) : Kernel :=
  if type = .cnode ∨ type = .reserved then σ else σ.addObject type 0

/-- Take a reference to an object on behalf of something outside the slots. -/
def hold (σ : Kernel) (o : ObjId) : Kernel :=
  if (σ.objs o).live then (σ.kobjectRetain o).setHeld o fun x => { x with refs := x.refs + 1 }
  else σ

def holdActive (σ : Kernel) (o : ObjId) : Kernel :=
  if (σ.objs o).live then
    (σ.kobjectActiveRetain o).setHeld o fun x => { x with active := x.active + 1 }
  else σ

/-- The number of trailing zero bits, as `__builtin_ctzll` finds it. -/
def ctzll (n : ℕ) : ℕ := ((List.range 64).find? n.testBit).getD 64

def cspaceCptrBits : ℕ := 31

def writeGuard (σ : Kernel) (s : SlotRef) (guard : UInt64) (guardBits : UInt8) : Kernel :=
  σ.setSlot s { σ.slots s with guard, guardBits }

def kcnodeSlotSetGuard (σ : Kernel) (cn : ObjId) (idx : ℕ) (guard : UInt64) (guardBits : UInt8) :
    Kernel :=
  if !σ.slotExists cn idx then σ.returning .invalidArg
  else if cspaceCptrBits < guardBits.toNat then σ.returning .invalidArg
  else if guard.toNat >>> guardBits.toNat ≠ 0 then σ.returning .invalidArg
  else match (σ.slots (.slot cn idx)).object with
    | none => σ.returning .notFound
    | some o =>
      if (σ.objs o).type ≠ .cnode then σ.returning .wrongType
      else if cspaceCptrBits < guardBits.toNat + ctzll (σ.objs o).slotCount then
        σ.returning .invalidArg
      else (σ.writeGuard (.slot cn idx) guard guardBits).returning .ok

/-! ## Capability transfer -/

/-- `syscall_ipc_stage_cap_peek_badged` on a slot: read the capability and keep references to its
object and its CNode. -/
def ipcStageCapPeekBadged (σ : Kernel) (srcCn : ObjId) (srcIdx : ℕ) (requested : Rights) :
    Kernel × List Call :=
  if !σ.slotExists srcCn srcIdx then σ.fail .invalidArg
  else
    let src := σ.slots (.slot srcCn srcIdx)
    match src.object with
    | none => σ.fail .notFound
    | some obj =>
      let capRights := rightsReduce src.rights requested
      let σ := (σ.hold srcCn).holdActive srcCn
      let σ := (σ.hold obj).holdActive obj
      let dropSrc := [Call.heldActiveRelease srcCn, .heldRelease srcCn]
      if !rightsCheck src.rights rightTransfer then
        (σ.returning .accessDenied, [.heldActiveRelease obj, .heldRelease obj] ++ dropSrc)
      else if capRights = rightNone then
        (σ.returning .invalidArg, [.heldActiveRelease obj, .heldRelease obj] ++ dropSrc)
      else
        ({ σ with staged :=
            { obj, rights := capRights, badge := src.badge, srcCn, srcIdx } :: σ.staged }.returning .ok,
          [.heldActiveRelease obj])

def kcnodeSlotHolds (σ : Kernel) (cn : ObjId) (idx : ℕ) (obj : ObjId) : Bool :=
  σ.slotExists cn idx && (σ.slots (.slot cn idx)).object = some obj

def kcnodeCdtNoteIpcTransfer (σ : Kernel) : Kernel :=
  σ.setStats fun t => { t with cdtIpcTransferCount := t.cdtIpcTransferCount + 1 }

/-- `syscall_ipc_deliver_cap_routed` of the staged capability `k` to the declared slot, if any; then
the sender drops what it held (`syscall_ipc_stage_cap_release`). -/
def ipcDeliverCapRouted (σ : Kernel) (k : ℕ) (dst : Option (ObjId × ℕ)) : Kernel × List Call :=
  match σ.staged[k]? with
  | none => (σ, [])
  | some c =>
    let σ := { σ with staged := σ.staged.eraseIdx k }
    let unstage := [Call.heldRelease c.obj, .heldActiveRelease c.srcCn, .heldRelease c.srcCn]
    match dst with
    | none => (σ, unstage)
    | some (cn, idx) =>
      if !σ.isCNode cn then (σ, unstage)
      else
        let σ := (σ.hold cn).holdActive cn
        let dropDst := [Call.heldActiveRelease cn, .heldRelease cn]
        if !σ.kcnodeSlotHolds c.srcCn c.srcIdx c.obj then (σ, dropDst ++ unstage)
        else
          let (σ, calls) := σ.kcnodeSlotInstallLinked cn idx c.obj c.rights c.badge
            (some (c.srcCn, c.srcIdx)) (some c.obj) true false
          let σ := if σ.ret.err = .ok then σ.kcnodeCdtNoteIpcTransfer else σ
          (σ, calls ++ dropDst ++ unstage)

end Kernel

/-! ## Runs -/

/-- The things that happen to the capability system, each with its arguments. -/
inductive Action
  | installLinked (cn : ObjId) (idx : ℕ) (obj : ObjId) (rights : Rights) (badge : UInt64)
      (parent : Option (ObjId × ℕ)) (expect : Option ObjId) (exclusive unparented : Bool)
  | derive (srcCn : ObjId) (srcIdx : ℕ) (dstCn : ObjId) (dstIdx : ℕ) (requested : Rights)
      (reqBadge : UInt64)
  | installSibling (srcCn : ObjId) (srcIdx : ℕ) (dstCn : ObjId) (dstIdx : ℕ)
  | installForThread (srcCn : ObjId) (srcIdx : ℕ) (dstCn : ObjId) (dstIdx : ℕ)
  | move (srcCn : ObjId) (srcIdx : ℕ) (dstCn : ObjId) (dstIdx : ℕ)
  | rotate (destCn : ObjId) (destIdx : ℕ) (pivotCn : ObjId) (pivotIdx : ℕ) (srcCn : ObjId)
      (srcIdx : ℕ)
  | swap (cn : ObjId) (slotA slotB : ℕ)
  | delete (cn : ObjId) (idx : ℕ)
  | revoke (cn : ObjId) (idx budget : ℕ)
  | teardownSlots (cn : ObjId)
  | drainSlice
  | setGuard (cn : ObjId) (idx : ℕ) (guard : UInt64) (guardBits : UInt8)
  | allocCNode (numSlots : ℕ)
  | initObject (type : KObjType)
  | hold (o : ObjId)
  | holdActive (o : ObjId)
  | unhold (o : ObjId)
  | unholdActive (o : ObjId)
  | ipcStage (srcCn : ObjId) (srcIdx : ℕ) (requested : Rights)
  | ipcDeliver (k : ℕ) (dst : Option (ObjId × ℕ))
  deriving DecidableEq

def Kernel.act (σ : Kernel) : Action → Kernel × List Call
  | .installLinked cn idx obj rights badge parent expect exclusive unparented =>
    σ.kcnodeSlotInstallLinked cn idx obj rights badge parent expect exclusive unparented
  | .derive srcCn srcIdx dstCn dstIdx requested reqBadge =>
    σ.kcnodeSlotDerive srcCn srcIdx dstCn dstIdx requested reqBadge
  | .installSibling srcCn srcIdx dstCn dstIdx =>
    σ.kcnodeSlotInstallSibling srcCn srcIdx dstCn dstIdx
  | .installForThread srcCn srcIdx dstCn dstIdx =>
    σ.kcnodeSlotInstallForThread srcCn srcIdx dstCn dstIdx
  | .move srcCn srcIdx dstCn dstIdx => σ.kcnodeSlotMove srcCn srcIdx dstCn dstIdx
  | .rotate destCn destIdx pivotCn pivotIdx srcCn srcIdx =>
    σ.kcnodeSlotRotate destCn destIdx pivotCn pivotIdx srcCn srcIdx
  | .swap cn slotA slotB => σ.kcnodeSwap cn slotA slotB
  | .delete cn idx => σ.kcnodeSlotDelete cn idx
  | .revoke cn idx budget => σ.kcnodeSlotRevokeBounded cn idx budget
  | .teardownSlots cn => σ.kcnodeTeardownSlots cn
  | .drainSlice => σ.kcnodeCascadeDrainSlice
  | .setGuard cn idx guard guardBits => (σ.kcnodeSlotSetGuard cn idx guard guardBits, [])
  | .allocCNode numSlots => (σ.kcnodeAlloc numSlots, [])
  | .initObject type => (σ.kobjectInit type, [])
  | .hold o => (σ.hold o, [])
  | .holdActive o => (σ.holdActive o, [])
  | .unhold o => (σ, [.heldRelease o])
  | .unholdActive o => (σ, [.heldActiveRelease o])
  | .ipcStage srcCn srcIdx requested => σ.ipcStageCapPeekBadged srcCn srcIdx requested
  | .ipcDeliver k dst => σ.ipcDeliverCapRouted k dst

/-- The capability system: the entry points above, whose calls the kernel runs to their end. -/
abbrev system (hooks : Hooks) : ActionSystem Kernel Call Action where
  toCallMachine := machine hooks
  act := Kernel.act

abbrev Step (hooks : Hooks) (σ : Kernel) (a : Action) (τ : Kernel) : Prop :=
  (system hooks).Step σ a τ

abbrev Runs (hooks : Hooks) (P : Kernel → Action → Prop) (σ : Kernel) (as : List Action)
    (τ : Kernel) : Prop := (system hooks).Runs P σ as τ

abbrev exec (hooks : Hooks) (P : Kernel → Action → Prop) [∀ σ a, Decidable (P σ a)] (fuel : ℕ)
    (σ : Kernel) (as : List Action) : Option Kernel := (system hooks).exec P fuel σ as

/-- One action with the calls it performs. -/
def StepPerforms (hooks : Hooks) (σ : Kernel) (a : Action) (l : List Call) (τ : Kernel) : Prop :=
  σ.panic = none ∧ (machine hooks).Performs (σ.act a).1 (σ.act a).2 l τ

variable {hooks : Hooks} {σ τ : Kernel} {a : Action}

theorem halted_eq_false : (machine hooks).halted σ = false ↔ σ.panic = none :=
  Option.isSome_eq_false_iff.trans Option.isNone_iff_eq_none

/-- A stopped kernel takes no more actions. -/
theorem step_iff : Step hooks σ a τ ↔
    σ.panic = none ∧ (machine hooks).Returns (σ.act a).1 (σ.act a).2 τ :=
  and_congr_left fun _ => halted_eq_false

/-- The hooks of a system without objects that hold references of their own. -/
def inertHooks : Hooks := ⟨fun _ _ _ => [], fun _ _ _ => [], fun _ _ _ => []⟩

/-- Every slot is empty, nothing is torn down or transferred, and references are held outside only.
-/
structure Initial (σ : Kernel) : Prop where
  slots : ∀ s, σ.slots s = KCSlot.empty
  mdb : ∀ s, σ.mdb s = Links.empty
  quiet : σ.cascade = [] ∧ σ.running = false ∧ σ.staged = [] ∧ σ.panic = none
  fresh : ∀ o, σ.numObjs ≤ o → σ.objs o = {} ∧ σ.held o = {}
  slotCount : ∀ o, (σ.objs o).type ≠ .cnode → (σ.objs o).slotCount = 0
  counts : ∀ o, (σ.objs o).refcount = (σ.held o).refs ∧ (σ.objs o).activeRefs = (σ.held o).active
  live : ∀ o, (σ.objs o).live = true ↔ 0 < (σ.held o).refs

theorem initial_empty : Initial {} where
  slots _ := rfl
  mdb _ := rfl
  quiet := ⟨rfl, rfl, rfl, rfl⟩
  fresh _ _ := ⟨rfl, rfl⟩
  slotCount _ _ := rfl
  counts _ := ⟨rfl, rfl⟩
  live _ := by simp

end IrisOS.Cap
