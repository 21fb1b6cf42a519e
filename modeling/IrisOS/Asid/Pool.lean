import IrisOS.Lib.Bitmap
import IrisOS.Lib.Steps

/-! Address-space identifiers (`kasidpool.c`, and parts of `kvspace.c` and `syscall_vm.c`). A pool
is reached through the address of its block, so a space that outlives it still points there. -/
namespace IrisOS.Asid
open Lib Function

abbrev kasidBootstrap : ℕ := 1
abbrev kasidFirst : ℕ := 2
abbrev kasidLast : ℕ := 4094
abbrev kasidPoolSize : ℕ := 128

structure KAsidPool where
  first : ℕ
  count : ℕ
  used : Words := fun _ => 0

/-- The address of a block that a pool can stand in. -/
abbrev Block := ℕ

/-- An address space, as far as its identifier goes. -/
structure KVSpace where
  cr3 : Bool := true
  pcid : ℕ := 0
  asidPool : Option Block := none

/-- The identifier space. `undo` counts overshot carves still to be undone, `taken` what callers of
`kasidpool_take` have not given back. -/
structure State where
  next : ℕ := kasidFirst
  undo : ℕ := 0
  pool : Block → Option KAsidPool := fun _ => none
  space : ℕ → Option KVSpace := update (fun _ => none) 0 (some { pcid := kasidBootstrap })
  taken : ℕ → Option (Block × ℕ) := fun _ => none

namespace State

def setPool (s : State) (b : Block) (p : Option KAsidPool) : State :=
  { s with pool := update s.pool b p }

def setSpace (s : State) (v : ℕ) (x : Option KVSpace) : State :=
  { s with space := update s.space v x }

def setTaken (s : State) (k : ℕ) (x : Option (Block × ℕ)) : State :=
  { s with taken := update s.taken k x }

theorem pool_setPool (s : State) (b b' : Block) (p : Option KAsidPool) :
    (s.setPool b p).pool b' = if b' = b then p else s.pool b' := update_apply _ _ _ _

theorem space_setSpace (s : State) (v v' : ℕ) (x : Option KVSpace) :
    (s.setSpace v x).space v' = if v' = v then x else s.space v' := update_apply _ _ _ _

theorem taken_setTaken (s : State) (k k' : ℕ) (x : Option (Block × ℕ)) :
    (s.setTaken k x).taken k' = if k' = k then x else s.taken k' := update_apply _ _ _ _

end State

/-! ## Pools -/

/-- Carve the next range into a pool. A carve past the end leaves the cursor too far until undone.
-/
def kasidpoolCarve (s : State) (b : Block) : State :=
  if s.next + kasidPoolSize - 1 > kasidLast then
    { s with next := s.next + kasidPoolSize, undo := s.undo + 1 }
  else
    { s with next := s.next + kasidPoolSize }.setPool b (some { first := s.next
                                                                count := kasidPoolSize })

/-- The second half of a carve that has overshot. -/
def kasidpoolCarveUndo (s : State) : State :=
  { s with next := s.next - kasidPoolSize, undo := s.undo - 1 }

/-- The first identifier of a pool that is not in use, `0` when there is none. -/
def kasidpoolTake (p : KAsidPool) : KAsidPool × ℕ :=
  match p.used.firstClear p.count with
  | none => (p, 0)
  | some i => ({ p with used := p.used.setBit i }, p.first + i)

def kasidpoolPut (p : KAsidPool) (id : ℕ) : KAsidPool :=
  if id = 0 then p
  else if id < p.first ∨ id ≥ p.first + p.count then p
  else { p with used := p.used.clearBit (id - p.first) }

/-- Give an identifier back through the address of a pool. Where no pool stands this does nothing,
as in a block that has been zeroed; a released block that holds another kind of object by then is
left out. -/
def State.put (s : State) (b : Block) (id : ℕ) : State :=
  match s.pool b with
  | none => s
  | some p => s.setPool b (some (kasidpoolPut p id))

/-! ## Address spaces -/

def kvspaceAssignAsid (s : State) (v : ℕ) (b : Block) : State × Bool :=
  match s.space v, s.pool b with
  | some vs, some p =>
    if !vs.cr3 then (s, false)
    else if vs.pcid ≠ 0 then (s, false)
    else
      let (p, id) := kasidpoolTake p
      if id = 0 then (s, false)
      else ((s.setPool b (some p)).setSpace v (some { vs with pcid := id, asidPool := some b }),
        true)
  | _, _ => (s, false)

def kvspaceUnassignAsid (s : State) (v : ℕ) : State :=
  match s.space v with
  | none => s
  | some vs =>
    let s := s.setSpace v (some { vs with pcid := 0, asidPool := none })
    match vs.asidPool with
    | some b => if vs.pcid ≠ 0 then s.put b vs.pcid else s
    | none => s

/-- `sys_asid_pool_assign`, once resolved, with the pool's capability in the space's own slot. -/
def sysAsidPoolAssign (s : State) (v : ℕ) (b : Block) (installed : Bool) : State :=
  let (s, ok) := kvspaceAssignAsid s v b
  if ok && !installed then kvspaceUnassignAsid s v else s

/-- The part of `kvspace_settle` that gives the identifier back, and the end of the space. -/
def kvspaceSettle (s : State) (v : ℕ) : State :=
  match s.space v with
  | none => s
  | some vs =>
    let s := s.setSpace v none
    match vs.asidPool with
    | some b => s.put b vs.pcid
    | none => s

/-! ## The system -/

/-- Pools are carved into free blocks and destroyed at any time, spaces are created without an
identifier, and a caller gives back what it has taken. -/
inductive Event
  | carve (b : Block)
  | carveUndo
  | destroyPool (b : Block)
  | create (v : ℕ)
  | assign (v : ℕ) (b : Block) (installed : Bool)
  | unassign (v : ℕ)
  | invalidate (v : ℕ)
  | settle (v : ℕ)
  | take (b : Block) (k : ℕ)
  | put (k : ℕ)

def act (s : State) : Event → State
  | .carve b => if (s.pool b).isSome then s else kasidpoolCarve s b
  | .carveUndo => if s.undo = 0 then s else kasidpoolCarveUndo s
  | .destroyPool b => s.setPool b none
  | .create v => if (s.space v).isSome then s else s.setSpace v (some {})
  | .assign v b installed => sysAsidPoolAssign s v b installed
  | .unassign v => kvspaceUnassignAsid s v
  | .invalidate v => s.setSpace v ((s.space v).map fun vs => { vs with cr3 := false })
  | .settle v => kvspaceSettle s v
  | .take b k =>
    match s.pool b with
    | none => s
    | some p =>
      if (s.taken k).isSome then s
      else
        let (p, id) := kasidpoolTake p
        if id = 0 then s else (s.setPool b (some p)).setTaken k (some (b, id))
  | .put k =>
    match s.taken k with
    | none => s
    | some (b, id) => (s.setTaken k none).put b id

end IrisOS.Asid
