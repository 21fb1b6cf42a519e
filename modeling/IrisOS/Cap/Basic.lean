import IrisOS.Lib.Layout
import Mathlib.Data.UInt

/-! The data of the capability system (`kobject.h`, `kcnode.h`, `rights.h`, `error.h`). The links of
a slot live in a heap of their own, beside its other fields. -/
namespace IrisOS.Cap
open Lib

/-- The error codes the modelled functions return. -/
inductive IrisError
  | ok | invalidArg | noMemory | notFound | accessDenied | alreadyExists | busy | wrongType
  | overflow | notSupported | missingTable
  deriving DecidableEq

/-! ## Rights -/

abbrev Rights := UInt32

def rightNone : Rights := 0x00000000
def rightRead : Rights := 0x00000001
def rightWrite : Rights := 0x00000002
def rightDuplicate : Rights := 0x00000004
def rightTransfer : Rights := 0x00000008
def rightSameRights : Rights := 0x80000000

def rightsCheck (rights required : Rights) : Bool :=
  if required = rightNone then false else (rights &&& required) = required

def rightsReduce (base requested : Rights) : Rights :=
  if requested &&& rightSameRights ≠ 0 then base &&& ~~~rightSameRights else base &&& requested

def rightsSubset (r base : Rights) : Prop := r &&& base = r

instance (r base : Rights) : Decidable (rightsSubset r base) := inferInstanceAs (Decidable (_ = _))

theorem rightsSubset_refl (r : Rights) : rightsSubset r r := UInt32.and_self

theorem rightsSubset_trans {a b c : Rights} (h1 : rightsSubset a b) (h2 : rightsSubset b c) :
    rightsSubset a c := by
  unfold rightsSubset at *
  rw [← h1, UInt32.and_assoc, h2]

theorem and_rightsSubset (base m : Rights) : rightsSubset (base &&& m) base := by
  unfold rightsSubset
  rw [UInt32.and_assoc, UInt32.and_comm m base, ← UInt32.and_assoc, UInt32.and_self]

theorem rightsReduce_subset (base requested : Rights) :
    rightsSubset (rightsReduce base requested) base := by
  unfold rightsReduce
  split
  · exact and_rightsSubset _ _
  · exact and_rightsSubset _ _

/-! ## Objects and slots -/

/-- `kobject_type_t`, with the retired enumerators nothing creates as `reserved`. -/
inductive KObjType
  | reserved | notification | bootstrapCap | irqCap | ioport | endpoint | cnode | schedContext
  | untyped | reply | tcb | vspace | frame | pageTable | asidPool | iospace | ioPageTable
  deriving DecidableEq

/-- The name of a kernel object, in place of its address. -/
abbrev ObjId := ℕ

/-- The header of an object and, for a CNode, its number of slots. `live` goes with the storage. -/
structure KObject where
  type : KObjType := .reserved
  refcount : ℕ := 0
  activeRefs : ℕ := 0
  slotCount : ℕ := 0
  live : Bool := false
  deriving DecidableEq

/-- A pointer to a slot: a slot of a CNode, or the temporary on the stack of a swap. -/
inductive SlotRef
  | slot (cn : ObjId) (idx : ℕ)
  | tmp
  deriving DecidableEq

def mdbFlagUnparented : UInt32 := 1

/-- A capability slot without its four derivation links. -/
structure KCSlot where
  object : Option ObjId := none
  rights : Rights := rightNone
  badge : UInt64 := 0
  mdbCnode : Option ObjId := none
  mdbFlags : UInt32 := 0
  guard : UInt64 := 0
  guardBits : UInt8 := 0
  deriving DecidableEq

def KCSlot.empty : KCSlot := {}

/-- The diagnostic counters of `kcnode.c`. -/
structure Stats where
  kcnodeLive : UInt32 := 0
  cdtDerivationCount : UInt32 := 0
  cdtDerivationHwm : UInt32 := 0
  cdtDerivedLive : UInt32 := 0
  cdtRevokeCount : UInt32 := 0
  cdtDeleteCount : UInt32 := 0
  cdtCrossCnodeDesc : UInt32 := 0
  cdtIpcTransferCount : UInt32 := 0
  mdbNodesLive : UInt32 := 0
  mdbNodesHwm : UInt32 := 0
  mdbUnparentedRoots : UInt32 := 0
  mdbOrphanPromotions : UInt32 := 0
  mdbReparents : UInt32 := 0
  mdbRevokedNodes : UInt32 := 0
  mdbMoves : UInt32 := 0
  mdbMaxDepth : UInt32 := 0
  deriving DecidableEq

/-- The failed assertions. `fault` is an access through null or into storage that was given back. -/
inductive Panic
  | resurrect | refcountUnderflow | activeRefsUnderflow | clearedWithChildren | noDestructor
  | fault
  deriving DecidableEq

/-- References held outside the slots: by creators, threads, system calls and other objects. -/
structure Held where
  refs : ℕ := 0
  active : ℕ := 0
  deriving DecidableEq

/-- A capability on its way through an endpoint, with the slot it was read from. -/
structure StagedCap where
  obj : ObjId
  rights : Rights
  badge : UInt64
  srcCn : ObjId
  srcIdx : ℕ
  deriving DecidableEq

/-- What a bounded revoke reports: its error code, `*out_revoked` and `*out_more`. -/
structure RevokeRet where
  err : IrisError := .ok
  revoked : ℕ := 0
  more : Bool := false
  deriving DecidableEq

/-- The kernel state. A name is never used twice; `cascade` is the list threaded through
`destroy_next`. -/
@[ext] structure Kernel where
  objs : ObjId → KObject := fun _ => {}
  numObjs : ℕ := 0
  slots : SlotRef → KCSlot := fun _ => {}
  mdb : LinkHeap SlotRef := fun _ => {}
  cascade : List ObjId := []
  running : Bool := false
  held : ObjId → Held := fun _ => {}
  staged : List StagedCap := []
  stats : Stats := {}
  ret : RevokeRet := {}
  panic : Option Panic := none

namespace Kernel

def occupied (σ : Kernel) (s : SlotRef) : Bool := (σ.slots s).object.isSome

def names (σ : Kernel) (o : ObjId) (s : SlotRef) : Bool := (σ.slots s).object = some o

theorem names_iff {σ : Kernel} {o : ObjId} {s : SlotRef} :
    σ.names o s = true ↔ (σ.slots s).object = some o := decide_eq_true_iff

theorem occupied_of_names {σ : Kernel} {o : ObjId} {s : SlotRef} (h : σ.names o s = true) :
    σ.occupied s = true := by
  rw [occupied, names_iff.mp h, Option.isSome_some]

def isCNode (σ : Kernel) (cn : ObjId) : Bool :=
  (σ.objs cn).live && (σ.objs cn).type = .cnode

/-- Every slot there is, with the temporary. -/
def allSlots (σ : Kernel) : List SlotRef :=
  .tmp :: (List.range σ.numObjs).flatMap fun o =>
    (List.range (σ.objs o).slotCount).map (.slot o)

/-- How many slots there are, which bounds every walk along the links of a well-formed forest. -/
def capacity (σ : Kernel) : ℕ := σ.allSlots.length

def setObj (σ : Kernel) (o : ObjId) (f : KObject → KObject) : Kernel :=
  { σ with objs := Function.update σ.objs o (f (σ.objs o)) }

def setSlot (σ : Kernel) (s : SlotRef) (v : KCSlot) : Kernel :=
  { σ with slots := Function.update σ.slots s v }

def setHeld (σ : Kernel) (o : ObjId) (f : Held → Held) : Kernel :=
  { σ with held := Function.update σ.held o (f (σ.held o)) }

def setStats (σ : Kernel) (f : Stats → Stats) : Kernel := { σ with stats := f σ.stats }

/-- Stop the kernel, unless it has stopped already. -/
def stop (σ : Kernel) (p : Panic) : Kernel := { σ with panic := σ.panic.or (some p) }

/-- `IRIS_ASSERT`, which is compiled into every build. -/
def irisAssert (σ : Kernel) (c : Prop) [Decidable c] (p : Panic) : Kernel :=
  if c then σ else σ.stop p

end Kernel
end IrisOS.Cap
