import IrisOS.CSpace.Resolve
import IrisOS.Lib.ActionSystem
import IrisOS.Sched.Context
import IrisOS.Untyped.Region

/-! The system calls on Untypeds (`syscall_untyped.c`): a retype carves memory, builds objects in it
and publishes them in slots. -/
namespace IrisOS.Untyped
open Lib Cap Function

/-- The sizes of the objects without what follows them, of a slot and of a refill. -/
structure Sizes where
  object : KObjType → UInt64
  slot : UInt64
  refill : UInt64

/-- The capability system with the Untypeds. `home` is the Untyped of an object's block, `pml4Pool`
that of a VSpace's top-level page, `source` the one it was retyped from. -/
structure Memory where
  ker : Kernel := {}
  uts : ObjId → KUntyped := fun _ => {}
  home : ObjId → Option ObjId := fun _ => none
  pml4Pool : ObjId → Option ObjId := fun _ => none
  source : ObjId → Option ObjId := fun _ => none
  kasidNext : ℕ := 2

/-- The objects a retype has made, where it publishes them, and the window it carved them from. -/
structure Publication where
  cn : ObjId
  slot : ℕ
  objs : List ObjId
  rights : Rights
  ut : ObjId
  utSlot : Option (ObjId × ℕ)
  start : UInt64
  stop : UInt64
  deriving DecidableEq

/-- Calls of the capability system, the publication from object `i` on, the rollback of a carve, and
the return. -/
inductive MemCall
  | cap (f : Call)
  | publish (p : Publication) (i : ℕ)
  | unbump (u : ObjId) (start stop : UInt64)
  | ret (e : IrisError)
  deriving DecidableEq

namespace Memory

def setUt (m : Memory) (u : ObjId) (ut : KUntyped) : Memory :=
  { m with uts := update m.uts u ut }

@[simp] theorem setUt_self (m : Memory) (u : ObjId) (x : KUntyped) : (m.setUt u x).uts u = x :=
  update_self ..

theorem setUt_of_ne (m : Memory) {u v : ObjId} (x : KUntyped) (h : v ≠ u) :
    (m.setUt u x).uts v = m.uts v := update_of_ne h ..

def returning (m : Memory) (e : IrisError) : Memory := { m with ker := m.ker.returning e }

def fail (m : Memory) (e : IrisError) : Memory × List MemCall := (m.returning e, [])

def retain (m : Memory) (o : ObjId) : Memory := { m with ker := m.ker.hold o }

/-- The two references a resolver hands out. -/
def resolved (m : Memory) (o : ObjId) : Memory := { m with ker := (m.ker.hold o).holdActive o }

def unresolve (o : ObjId) : List MemCall := [.cap (.heldActiveRelease o), .cap (.heldRelease o)]

/-! ## Blocks that go back -/

/-- `kuntyped_release_child`, and `kuntyped_release_page_child`, for one child entry. -/
def releaseChild (m : Memory) : Option ObjId → Memory × List MemCall
  | none => (m, [])
  | some u => (m.setUt u (m.uts u).kuntypedReleaseChild, [.cap (.heldRelease u)])

/-- What the destructors give back: a VSpace's top-level page, the object's block, a device's
budget. -/
def giveBack (m : Memory) (o : ObjId) : Memory × List MemCall :=
  let (m, page) := m.releaseChild (m.pml4Pool o)
  let (m, block) := m.releaseChild (m.home o)
  let budget := if (m.ker.objs o).type = .untyped then (m.uts o).hdrBudget else none
  (m, page ++ block ++ budget.toList.map fun h => .cap (.heldRelease h))

/-- The object whose storage a call gives back. -/
def freed (σ : Kernel) : Call → Option ObjId
  | .storageFree o => some o
  | .objDestroy cn idx => if idx < (σ.objs cn).slotCount then none else some cn
  | _ => none

/-- A call of the capability system. -/
def performCap (m : Memory) (f : Call) : Memory × List MemCall :=
  if f.subject.all fun o => (m.ker.objs o).live then
    let (k, calls) := m.ker.perform inertHooks f
    match freed m.ker f with
    | none => ({ m with ker := k }, calls.map .cap)
    | some o =>
      let (m, block) := { m with ker := k }.giveBack o
      (m, calls.map .cap ++ block)
  else ({ m with ker := m.ker.stop .fault }, [])

/-! ## Publishing -/

/-- One round of the install loop. After the last the creator's references go; after a refusal
everything is taken back. -/
def publish (m : Memory) (p : Publication) (i : ℕ) : Memory × List MemCall :=
  let dropSlot := (p.utSlot.map fun s => unresolve s.1).getD []
  let dropBoth := unresolve p.cn ++ unresolve p.ut
  let releaseAll := p.objs.map fun o => MemCall.cap (.heldRelease o)
  match p.objs[i]? with
  | none => (m, dropSlot ++ releaseAll ++ dropBoth ++ [.ret .ok])
  | some o =>
    let (k, calls) := m.ker.kcnodeSlotInstallLinked p.cn (p.slot + i) o p.rights 0 p.utSlot
      (some p.ut) true p.utSlot.isNone
    let m := { m with ker := k }
    if k.ret.err = .ok then (m, calls.map .cap ++ [.publish p (i + 1)])
    else (m, calls.map .cap ++ dropSlot ++
      ((List.range i).map fun j => .cap (.slotDelete p.cn (p.slot + j))) ++ releaseAll ++
      (if p.start < p.stop then [.unbump p.ut p.start p.stop] else []) ++ dropBoth ++
      [.ret k.ret.err])

def perform (m : Memory) : MemCall → Memory × List MemCall
  | .cap f => m.performCap f
  | .publish p i => m.publish p i
  | .unbump u start stop => (m.setUt u ((m.uts u).kuntypedUnbumpExact start stop), [])
  | .ret e => (m.returning e, [])

/-! ## Creating objects -/

/-- Build an object in a block whose header names `home`. -/
def addObject (m : Memory) (type : KObjType) (slotCount : ℕ) (home source : ObjId) : Memory :=
  let k := m.ker.addObject type slotCount
  { m with
    ker := if type = .cnode then k.setStats fun t => { t with kcnodeLive := t.kcnodeLive + 1 } else k
    home := update m.home m.ker.numObjs (some home)
    source := update m.source m.ker.numObjs (some source) }

theorem numObjs_addObject (m : Memory) (type : KObjType) (n : ℕ) (home source : ObjId) :
    (m.addObject type n home source).ker.numObjs = m.ker.numObjs + 1 := by
  unfold addObject
  split_ifs <;> rfl

theorem live_addObject (m : Memory) (type : KObjType) (n : ℕ) (home source o : ObjId) :
    ((m.addObject type n home source).ker.objs o).live =
      if o = m.ker.numObjs then true else (m.ker.objs o).live := by
  unfold addObject
  split_ifs with _ ho ho <;> simp [Kernel.addObject, Kernel.setStats, ho]

def kasidLast : ℕ := 4094
def kasidPoolSize : ℕ := 128

def kasidpoolCarveRange (m : Memory) : Option Memory :=
  if kasidLast < m.kasidNext + kasidPoolSize - 1 then none
  else some { m with kasidNext := m.kasidNext + kasidPoolSize }

/-- The loop that builds a batch, and whether it got to the end: an ASID pool needs identifiers. -/
def buildObjects (m : Memory) (ut : ObjId) (type : KObjType) (slotCount : ℕ) :
    ℕ → Memory × List ObjId × Bool
  | 0 => (m, [], true)
  | n+1 =>
    let range := if type = .asidPool then m.kasidpoolCarveRange else some m
    match range with
    | none =>
      let (m, objs, _) := m.buildObjects ut type slotCount n
      (m, objs, false)
    | some m =>
      let o := m.ker.numObjs
      let (m, objs, ok) := (m.addObject type slotCount ut ut).buildObjects ut type slotCount n
      (m, o :: objs, ok)

/-- The state, the calls still to make, and the objects with the window they were carved from. -/
structure Created where
  mem : Memory
  calls : List MemCall := []
  result : Except IrisError (List ObjId × UInt64 × UInt64)

/-- The batch branch of `sys_untyped_retype2`. -/
def createBatch (m : Memory) (ut : ObjId) (type : KObjType) (payload objArg : UInt64)
    (count : UInt32) : Created :=
  match (m.uts ut).kuntypedAllocChildrenAtomic payload count with
  | (_, .error e) => { mem := m, result := .error e }
  | (u, .ok b) =>
    let m := (Nat.iterate (fun m => m.retain ut) count.toNat) (m.setUt ut u)
    match m.buildObjects ut type (if type = .cnode then objArg.toNat else 0) count.toNat with
    | (m, objs, true) => { mem := m, result := .ok (objs, b.start, b.stop) }
    | (m, _, false) => { mem := m, result := .error .noMemory }

/-- The Untyped that the header of a physical-region object is carved from. -/
def hdrHost (m : Memory) (ut : ObjId) : Option ObjId :=
  if (m.uts ut).isDevice then (m.uts ut).hdrBudget else some ut

/-- The record of a new Untyped, before the object that it is. -/
def initUntyped (m : Memory) (ut : ObjId) (type : KObjType) (phys size : UInt64) : Memory :=
  if type = .untyped
  then m.setUt m.ker.numObjs { physBase := phys, totalSize := size, isDevice := (m.uts ut).isDevice }
  else m

/-- The reference of a VSpace's top-level page, whose child entry came with the page. -/
def addPage (m : Memory) (ut o : ObjId) : Memory :=
  { m.retain ut with pml4Pool := update m.pml4Pool o (some ut) }

/-- The child entry of a region in device memory. -/
def addRegion (m : Memory) (ut : ObjId) : Memory :=
  if (m.uts ut).isDevice
  then (m.setUt ut { m.uts ut with childCount := (m.uts ut).childCount + 1 }).retain ut else m

/-- The object over a region at `phys`. -/
def placeRegion (m : Memory) (ut h : ObjId) (type : KObjType) (phys size : UInt64)
    (pageChild : Bool) : Memory :=
  let m' := (m.initUntyped ut type phys size).addObject type 0 h ut
  (if pageChild then m'.addPage ut m.ker.numObjs else m').addRegion ut

/-- What retypes of physical regions share: header from the budget's top, region from the bottom,
object. -/
def retypeRegion (sz : Sizes) (m : Memory) (ut : ObjId) (objArg : UInt64) (type : KObjType)
    (pageChild : Bool) : Created :=
  match m.hdrHost ut with
  | none => { mem := m, result := .error .invalidArg }
  | some h =>
    match (m.uts h).kuntypedAllocChildTop (sz.object type) with
    | (_, none) => { mem := m, result := .error .noMemory }
    | (hu, some _) =>
      let m := (m.setUt h hu).retain h
      let (u, phys) := if pageChild then (m.uts ut).kuntypedAllocPageChild
        else (m.uts ut).kuntypedBumpAllocPhysPage objArg
      let m := m.setUt ut u
      if phys = 0 then
        let (m, calls) := m.releaseChild (some h)
        { mem := m, calls, result := .error .noMemory }
      else
        { mem := m.placeRegion ut h type phys objArg pageChild, result := .ok ([m.ker.numObjs], 0, 0) }

def retypeSubUntyped (sz : Sizes) (m : Memory) (ut : ObjId) (objArg : UInt64) : Created :=
  m.retypeRegion sz ut objArg .untyped false

def retypeFrame (sz : Sizes) (m : Memory) (ut : ObjId) (objArg : UInt64) : Created :=
  m.retypeRegion sz ut objArg .frame false

/-- The checks of the types that are one page of RAM. -/
def pageOfRam (m : Memory) (ut : ObjId) (objArg : UInt64) (create : Created) : Created :=
  if objArg ≠ 4096 then { mem := m, result := .error .invalidArg }
  else if (m.uts ut).isDevice then { mem := m, result := .error .notSupported }
  else create

def retypePageTable (sz : Sizes) (m : Memory) (ut : ObjId) (objArg : UInt64) : Created :=
  m.pageOfRam ut objArg (m.retypeRegion sz ut objArg .pageTable false)

def retypeIoPageTable (sz : Sizes) (m : Memory) (ut : ObjId) (objArg : UInt64) : Created :=
  m.pageOfRam ut objArg (m.retypeRegion sz ut objArg .ioPageTable false)

def retypeVspace (sz : Sizes) (m : Memory) (ut : ObjId) (objArg : UInt64) : Created :=
  m.pageOfRam ut objArg (m.retypeRegion sz ut objArg .vspace true)

end Memory

/-! ## Resolving -/

def irisCptrLimit : UInt64 := 0x80000000

def cspaceValueIsCptr (v : UInt64) : Bool := v ≠ 0 && v < irisCptrLimit

/-- The resolvers for one type, which check the type before the rights. -/
def cspaceResolveOnly (σ : Kernel) (self : Option Cap.Task) (root : ObjId) (cptr : UInt64)
    (required : Rights) (type : KObjType) : Except IrisError ObjId :=
  if !cspaceValueIsCptr cptr then .error .invalidArg
  else match σ.cspaceResolveCapBadged self (some root) cptr rightNone with
    | .error e => .error e
    | .ok (_, r) =>
      if (σ.objs r.obj).type ≠ type then .error .wrongType
      else if required ≠ rightNone ∧ !rightsCheck r.rights required then .error .accessDenied
      else .ok r.obj

def cspaceResolveOnlyUntyped (σ : Kernel) (self : Option Cap.Task) (root : ObjId) (cptr : UInt64)
    (required : Rights) : Except IrisError ObjId :=
  cspaceResolveOnly σ self root cptr required .untyped

def cspaceResolveOnlyCnode (σ : Kernel) (self : Option Cap.Task) (root : ObjId) (cptr : UInt64)
    (required : Rights) : Except IrisError ObjId :=
  cspaceResolveOnly σ self root cptr required .cnode

/-! ## Requests -/

def rightWait : Rights := 0x00000010

/-- The arguments of `sys_untyped_retype2`. -/
structure RetypeReq where
  utCptr : UInt64
  type : KObjType
  count : UInt32
  destCnode : UInt64
  destSlot : UInt32
  objArg : UInt64
  deriving DecidableEq

/-- The rights of the capabilities to new objects. -/
def newRights (type : KObjType) : Rights :=
  let common := rightRead ||| rightWrite ||| rightDuplicate ||| rightTransfer
  if type = .notification then common ||| rightWait else common

def kcnodeAllocSize (sz : Sizes) (n : UInt64) : UInt64 :=
  (sz.object .cnode + (n * sz.slot).toUInt32.toUInt64).toUInt32.toUInt64

def kschedctxBytes (sz : Sizes) (n : UInt64) : UInt64 :=
  sz.object .schedContext +
    (if n = 0 then UInt64.ofNat Sched.kschedctxRefillDefault else n) * sz.refill

def isRegion : KObjType → Bool
  | .untyped | .frame | .pageTable | .vspace | .ioPageTable => true
  | _ => false

/-- The checks of the request before any state is touched, and the size of one object. -/
def retypePayload (sz : Sizes) (asidControl : Bool) (r : RetypeReq) : Except IrisError UInt64 :=
  match r.type with
  | .endpoint | .notification | .reply | .tcb => .ok (sz.object r.type)
  | .cnode =>
    if r.objArg = 0 ∨ UInt64.ofNat Kernel.kcnodeMaxSlots < r.objArg ∨ r.objArg &&& (r.objArg - 1) ≠ 0
    then .error .invalidArg else .ok (kcnodeAllocSize sz r.objArg)
  | .asidPool => if asidControl then .ok (sz.object r.type) else .error .accessDenied
  | .schedContext =>
    if r.objArg ≠ 0 ∧ (r.objArg < UInt64.ofNat Sched.kschedctxRefillMin ∨
      UInt64.ofNat Sched.kschedctxRefillLimit < r.objArg)
    then .error .invalidArg else .ok (kschedctxBytes sz r.objArg).toUInt32.toUInt64
  | .iospace => if r.objArg ≠ 0 then .error .invalidArg else .ok (sz.object r.type)
  | .untyped | .frame | .pageTable | .vspace | .ioPageTable =>
    if r.count ≠ 1 then .error .invalidArg
    else if r.objArg < 4096 ∨ r.objArg &&& 4095 ≠ 0 then .error .invalidArg
    else .ok 0
  | _ => .error .notSupported

namespace Memory

/-! ## The system calls -/

/-- The branch of `sys_untyped_retype2` that builds the objects. -/
def createObjects (sz : Sizes) (m : Memory) (ut : ObjId) (r : RetypeReq) (payload : UInt64) :
    Created :=
  match r.type with
  | .untyped => m.retypeSubUntyped sz ut r.objArg
  | .frame => m.retypeFrame sz ut r.objArg
  | .pageTable => m.retypePageTable sz ut r.objArg
  | .ioPageTable => m.retypeIoPageTable sz ut r.objArg
  | .vspace => m.retypeVspace sz ut r.objArg
  | type => m.createBatch ut type payload r.objArg r.count

def carveRegion (m : Memory) (ut : ObjId) (objArg : UInt64) (pageChild : Bool) :
    KUntyped × UInt64 :=
  if pageChild then (m.uts ut).kuntypedAllocPageChild
  else (m.uts ut).kuntypedBumpAllocPhysPage objArg

section
variable (sz : Sizes) (m : Memory) (ut : ObjId) (objArg : UInt64) (type : KObjType)
  (pageChild : Bool) (r : RetypeReq) (payload : UInt64)

/-- The retype of a region is refused, or gives up when the header has been carved, or is done. -/
inductive RegionRetype : Created → Prop
  | refused {e : IrisError} (hne : e ≠ .ok) :
      RegionRetype { mem := m, result := .error e }
  | halfway {h : ObjId} {hu u : KUntyped} {p : UInt64} (hh : m.hdrHost ut = some h)
      (htop : (m.uts h).kuntypedAllocChildTop (sz.object type) = (hu, some p))
      (hcarve : ((m.setUt h hu).retain h).carveRegion ut objArg pageChild = (u, 0)) :
      RegionRetype {
        mem := ((((m.setUt h hu).retain h).setUt ut u).releaseChild (some h)).1
        calls := [.cap (.heldRelease h)]
        result := .error .noMemory }
  | made {h : ObjId} {hu u : KUntyped} {p phys : UInt64} (hh : m.hdrHost ut = some h)
      (htop : (m.uts h).kuntypedAllocChildTop (sz.object type) = (hu, some p))
      (hcarve : ((m.setUt h hu).retain h).carveRegion ut objArg pageChild = (u, phys))
      (hphys : phys ≠ 0) :
      RegionRetype {
        mem := (((m.setUt h hu).retain h).setUt ut u).placeRegion ut h type phys objArg pageChild
        result := .ok ([((m.setUt h hu).retain h).ker.numObjs], 0, 0) }

theorem retypeRegion_cases : RegionRetype sz m ut objArg type pageChild
    (m.retypeRegion sz ut objArg type pageChild) := by
  unfold retypeRegion
  cases hh : m.hdrHost ut with
  | none => exact .refused (e := .invalidArg) (by decide)
  | some h =>
    rcases htop : (m.uts h).kuntypedAllocChildTop (sz.object type) with ⟨hu, _ | p⟩
    · simp only [htop]
      exact .refused (by decide)
    rcases hcarve : ((m.setUt h hu).retain h).carveRegion ut objArg pageChild with ⟨u, phys⟩
    have heq := hcarve
    unfold carveRegion at heq
    simp only [htop, heq]
    split_ifs with hphys
    · subst hphys
      exact .halfway hh htop hcarve
    · exact .made hh htop hcarve hphys

/-- The objects of a retype are refused, or are one region object or a batch. -/
inductive Creating : Created → Prop
  | refused {e : IrisError} (hne : e ≠ .ok) (hregion : isRegion r.type = true)
      (hram : ¬ (r.type = .untyped ∨ r.type = .frame ∨
        r.objArg = 4096 ∧ (m.uts ut).isDevice = false)) :
      Creating { mem := m, result := .error e }
  | region (hregion : isRegion r.type = true)
      (hram : r.type = .untyped ∨ r.type = .frame ∨
        r.objArg = 4096 ∧ (m.uts ut).isDevice = false) :
      Creating (m.retypeRegion sz ut r.objArg r.type (r.type = .vspace))
  | batch (hregion : isRegion r.type = false) :
      Creating (m.createBatch ut r.type payload r.objArg r.count)

theorem createObjects_cases : Creating sz m ut r payload (m.createObjects sz ut r payload) := by
  have hpage (h : isRegion r.type = true) (h' : r.type ≠ .untyped ∧ r.type ≠ .frame) :
      Creating sz m ut r payload
        (m.pageOfRam ut r.objArg (m.retypeRegion sz ut r.objArg r.type (r.type = .vspace))) := by
    unfold pageOfRam
    split_ifs with hsize hdev
    · exact .refused (e := .invalidArg) (by decide) h (by simp [h', hsize])
    · exact .refused (e := .notSupported) (by decide) h (by simp [h', hdev])
    · exact .region h (.inr (.inr ⟨not_not.mp hsize, by simpa using hdev⟩))
  have hsmall (h : isRegion r.type = true) (h' : r.type = .untyped ∨ r.type = .frame) :
      Creating sz m ut r payload
        (m.retypeRegion sz ut r.objArg r.type (r.type = .vspace)) :=
    .region h (h'.imp_right .inl)
  have hbatch (h : isRegion r.type = false) : Creating sz m ut r payload
      (m.createBatch ut r.type payload r.objArg r.count) := .batch h
  unfold createObjects
  cases htype : r.type
  all_goals rw [htype] at hpage hsmall hbatch
  case untyped | frame => exact hsmall rfl (by decide)
  case pageTable | ioPageTable | vspace => exact hpage rfl (by decide)
  all_goals exact hbatch rfl

end

/-- The slot of the Untyped's capability, below which the new capabilities go. -/
def untypedSlot (m : Memory) (root : ObjId) (utCptr : UInt64) : Option (ObjId × ℕ) :=
  if cspaceValueIsCptr utCptr then (m.ker.cspaceResolveSlot (some root) utCptr).toOption else none

/-- The rest of the call once the Untyped and the destination are resolved. -/
def retypeInto (sz : Sizes) (m : Memory) (root : ObjId) (r : RetypeReq) (payload : UInt64)
    (ut cn : ObjId) : Memory × List MemCall :=
  let dropBoth := unresolve cn ++ unresolve ut
  let slot := r.destSlot.toNat
  if slot = 0 ∨ (m.ker.objs cn).slotCount < slot + r.count.toNat then
    (m, dropBoth ++ [.ret .invalidArg])
  else if (List.range r.count.toNat).any fun i => m.ker.occupied (.slot cn (slot + i)) then
    (m, dropBoth ++ [.ret .alreadyExists])
  else
    let c := m.createObjects sz ut r payload
    match c.result with
    | .error e => (c.mem, c.calls ++ dropBoth ++ [.ret e])
    | .ok (objs, start, stop) =>
      let utSlot := c.mem.untypedSlot root r.utCptr
      let m := (utSlot.map fun s => c.mem.resolved s.1).getD c.mem
      (m, [.publish { cn, slot, objs, rights := newRights r.type, ut, utSlot, start, stop } 0])

/-- `sys_untyped_retype2`. `asidControl` answers `syscall_has_bootcap`, asked only for an ASID pool.
-/
def sysUntypedRetype2 (sz : Sizes) (m : Memory) (self : Option Cap.Task) (asidControl : Bool)
    (r : RetypeReq) : Memory × List MemCall :=
  match self.bind (·.cspaceRoot) with
  | none => m.fail .invalidArg
  | some root =>
    match retypePayload sz asidControl r with
    | .error e => m.fail e
    | .ok payload =>
      if kuntypedRetypeMaxCount < r.count then m.fail .invalidArg
      else match cspaceResolveOnlyUntyped m.ker self root r.utCptr rightWrite with
        | .error e => m.fail e
        | .ok ut =>
          let m := m.resolved ut
          if (m.uts ut).isDevice ∧ r.type ≠ .untyped ∧ r.type ≠ .frame then
            (m, unresolve ut ++ [.ret .notSupported])
          else if r.destCnode = 0 then
            (m.resolved root).retypeInto sz root r payload ut root
          else match cspaceResolveOnlyCnode m.ker self root r.destCnode rightWrite with
            | .error e => (m, unresolve ut ++ [.ret e])
            | .ok cn => (m.resolved cn).retypeInto sz root r payload ut cn

def sysUntypedReset (m : Memory) (self : Option Cap.Task) (utCptr : UInt64) :
    Memory × List MemCall :=
  match self.bind (·.cspaceRoot) with
  | none => m.fail .invalidArg
  | some root =>
    match cspaceResolveOnlyUntyped m.ker self root utCptr rightWrite with
    | .error e => m.fail e
    | .ok ut =>
      let m := m.resolved ut
      match (m.uts ut).reset with
      | .error e => (m, unresolve ut ++ [.ret e])
      | .ok u => (m.setUt ut u, unresolve ut ++ [.ret .ok])

def kuntypedSetHdrBudget (m : Memory) (dev ram : ObjId) : Memory × IrisError :=
  if !(m.uts dev).isDevice then (m, .invalidArg)
  else if (m.uts ram).isDevice then (m, .invalidArg)
  else if dev = ram then (m, .invalidArg)
  else if (m.uts dev).hdrBudget.isSome then (m, .alreadyExists)
  else ((m.retain ram).setUt dev { m.uts dev with hdrBudget := some ram }, .ok)

def sysUntypedSetDeviceBudget (m : Memory) (self : Option Cap.Task) (devCptr ramCptr : UInt64) :
    Memory × List MemCall :=
  match self.bind (·.cspaceRoot) with
  | none => m.fail .invalidArg
  | some root =>
    match cspaceResolveOnlyUntyped m.ker self root devCptr rightWrite with
    | .error e => m.fail e
    | .ok dev =>
      let m := m.resolved dev
      match cspaceResolveOnlyUntyped m.ker self root ramCptr rightWrite with
      | .error e => (m, unresolve dev ++ [.ret e])
      | .ok ram =>
        let (m, e) := (m.resolved ram).kuntypedSetHdrBudget dev ram
        (m, unresolve ram ++ unresolve dev ++ [.ret e])

end Memory

/-! ## Runs -/

/-- The system calls on Untypeds, and everything else that happens to the capability system. -/
inductive Action
  | retype (self : Option Cap.Task) (asidControl : Bool) (r : RetypeReq)
  | reset (self : Option Cap.Task) (utCptr : UInt64)
  | setDeviceBudget (self : Option Cap.Task) (devCptr ramCptr : UInt64)
  | cap (a : Cap.Action)
  deriving DecidableEq

def Memory.act (sz : Sizes) (m : Memory) : Action → Memory × List MemCall
  | .retype self asidControl r => m.sysUntypedRetype2 sz self asidControl r
  | .reset self utCptr => m.sysUntypedReset self utCptr
  | .setDeviceBudget self devCptr ramCptr => m.sysUntypedSetDeviceBudget self devCptr ramCptr
  | .cap a => ({ m with ker := (m.ker.act a).1 }, (m.ker.act a).2.map .cap)

/-- The memory system. -/
def system (sz : Sizes) : ActionSystem Memory MemCall Action where
  body := Memory.perform
  halted m := m.ker.panic.isSome
  act := Memory.act sz

/-- The capability system is as it starts, and nothing has been carved. -/
structure InitialMemory (m : Memory) : Prop where
  ker : Initial m.ker
  uts : ∀ u, (m.uts u).used = 0 ∧ (m.uts u).usedTop = 0 ∧ (m.uts u).childCount = 0 ∧
    (m.uts u).hdrBudget = none
  bare : ∀ o, m.home o = none ∧ m.pml4Pool o = none ∧ m.source o = none

end IrisOS.Untyped
