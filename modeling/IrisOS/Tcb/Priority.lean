import IrisOS.Cap.Basic
import IrisOS.Lib.Steps

/-! Thread priorities and their ceilings (`ktcb_alloc_at`, `ktcb_configure`, `syscall_tcb.c`), for a
group of threads that act on each other and on the threads they hold TCB capabilities to. -/
namespace IrisOS.Tcb
open Cap Function

def taskPriorityDefault : UInt8 := 128

/-- A thread, as far as priorities go; `entry` is set once it knows where to start. Two ghost
fields: the group has set its priority or ceiling, and has created, configured or set it. -/
structure Task where
  priority : UInt8 := taskPriorityDefault
  mcp : UInt8 := 0
  configured : Bool := false
  configuring : Bool := false
  entry : Bool := false
  started : Bool := false
  runnable : Bool := false
  terminal : Bool := false
  chosen : Bool := false
  ours : Bool := false
  deriving DecidableEq

/-- The thread can be dispatched. -/
def Task.runs (x : Task) : Bool := x.configured && x.runnable

/-- The threads, and those that the group has capabilities to, itself included. -/
structure State where
  task : ℕ → Option Task
  known : ℕ → Bool

namespace State

def setTask (s : State) (t : ℕ) (x : Task) : State :=
  { s with task := update s.task t (some x) }

theorem task_setTask (s : State) (t t' : ℕ) (x : Task) :
    (s.setTask t x).task t' = if t' = t then some x else s.task t' := update_apply _ _ _ _

end State

/-- A capability to a thread. -/
structure TcbCap where
  thread : ℕ
  rights : Rights := rightRead ||| rightWrite

abbrev Done := State × Option IrisError

/-- The thread that a capability of the group names. -/
def tcbResolve (s : State) (cap : TcbCap) (required : Rights) : Except IrisError Task :=
  if s.known cap.thread then
    match s.task cap.thread with
    | none => .error .notFound
    | some x => if rightsCheck cap.rights required then .ok x else .error .accessDenied
  else .error .notFound

/-! ## Creation -/

/-- A retype of a TCB by the group: a thread with the default priority and no ceiling. -/
def ktcbAllocAt (s : State) (t : ℕ) : State :=
  { s with
    task := update s.task t (some { ours := true })
    known := update s.known t true }

/-- How far the construction gets: no identifier, no room, no CSpace or VSpace, or complete. -/
inductive Built
  | noAsid
  | noRegistrySlot
  | noSlot (e : IrisError)
  | done
  deriving DecidableEq

/-- `ktcb_configure`, called by a thread with the given ceiling. -/
def ktcbConfigure (s : State) (t : ℕ) (x : Task) (mcp : UInt8) (built : Built) : Done :=
  if x.configured || x.terminal then (s, some .alreadyExists)
  else if x.configuring then (s, some .alreadyExists)
  else match built with
    | .noAsid => (s, some .accessDenied)
    | .noRegistrySlot => (s, some .noMemory)
    | .noSlot e => (s.setTask t { x with configuring := true, mcp := mcp, ours := true }, some e)
    | .done =>
      (s.setTask t { x with configuring := true, mcp := mcp, configured := true, runnable := false
                            ours := true }, none)

def sysTcbConfigure (s : State) (caller : Task) (cap : TcbCap) (built : Built) : Done :=
  match tcbResolve s cap rightWrite with
  | .error e => (s, some e)
  | .ok x => ktcbConfigure s cap.thread x caller.mcp built

def sysTcbWriteRegs (s : State) (cap : TcbCap) (inRange : Bool) : Done :=
  match tcbResolve s cap rightWrite with
  | .error e => (s, some e)
  | .ok x =>
    if !x.configured || x.terminal then (s, some .notSupported)
    else if !inRange then (s, some .invalidArg)
    else if x.runnable || x.started then (s, some .busy)
    else (s.setTask cap.thread { x with entry := true }, none)

/-! ## Running -/

def sysTcbResume (s : State) (cap : TcbCap) : Done :=
  match tcbResolve s cap rightWrite with
  | .error e => (s, some e)
  | .ok x =>
    if x.terminal then (s, some .notFound)
    else if !x.configured then (s, some .notSupported)
    else if !x.entry then (s, some .notSupported)
    else (s.setTask cap.thread { x with started := true, runnable := true }, none)

def sysTcbSuspend (s : State) (cap : TcbCap) : Done :=
  match tcbResolve s cap rightWrite with
  | .error e => (s, some e)
  | .ok x =>
    if x.terminal then (s, some .notFound)
    else if !x.configured then (s, some .notSupported)
    else (s.setTask cap.thread { x with runnable := false }, none)

/-! ## Priorities and ceilings -/

/-- The ceiling that an authority gives: the caller's own, or that of the thread it names. -/
def ceiling (s : State) (caller : Task) : Option TcbCap → Except IrisError UInt8
  | none => .ok caller.mcp
  | some auth => (tcbResolve s auth rightRead).map Task.mcp

/-- The value is under the authority's ceiling, and the target is there. -/
def underCeiling (s : State) (caller : Task) (cap : TcbCap) (value : UInt8)
    (auth : Option TcbCap) : Except IrisError Task :=
  match ceiling s caller auth with
  | .error e => .error e
  | .ok top =>
    if value > top then .error .accessDenied
    else match tcbResolve s cap rightWrite with
      | .error e => .error e
      | .ok x => if x.terminal then .error .notFound else .ok x

def sysTcbSetPriority (s : State) (caller : Task) (cap : TcbCap) (arg : UInt64)
    (auth : Option TcbCap) : Done :=
  let prio := (arg &&& 0xFF).toUInt8
  match underCeiling s caller cap prio auth with
  | .error e => (s, some e)
  | .ok x => (s.setTask cap.thread { x with priority := prio, chosen := true, ours := true }, none)

/-- A running priority above the new ceiling is brought down with it. -/
def sysTcbSetMcpriority (s : State) (caller : Task) (cap : TcbCap) (arg : UInt64)
    (auth : Option TcbCap) : Done :=
  let mcp := (arg &&& 0xFF).toUInt8
  match underCeiling s caller cap mcp auth with
  | .error e => (s, some e)
  | .ok x =>
    (s.setTask cap.thread
      { x with mcp := mcp, priority := if x.priority > mcp then mcp else x.priority
               chosen := true, ours := true }, none)

/-! ## The system -/

inductive Op
  | retype (t : ℕ)
  | configure (cap : TcbCap) (built : Built)
  | writeRegs (cap : TcbCap) (inRange : Bool)
  | resume (cap : TcbCap)
  | suspend (cap : TcbCap)
  | setPriority (cap : TcbCap) (arg : UInt64) (auth : Option TcbCap)
  | setMcpriority (cap : TcbCap) (arg : UInt64) (auth : Option TcbCap)

/-- An operation of a thread, or the end of a thread. -/
inductive Event
  | call (caller : ℕ) (op : Op)
  | exit (t : ℕ)

def perform (s : State) (caller : Task) : Op → Done
  | .retype t => if (s.task t).isSome then (s, some .noMemory) else (ktcbAllocAt s t, none)
  | .configure cap built => sysTcbConfigure s caller cap built
  | .writeRegs cap inRange => sysTcbWriteRegs s cap inRange
  | .resume cap => sysTcbResume s cap
  | .suspend cap => sysTcbSuspend s cap
  | .setPriority cap arg auth => sysTcbSetPriority s caller cap arg auth
  | .setMcpriority cap arg auth => sysTcbSetMcpriority s caller cap arg auth

/-- A step: only threads of the group call. -/
def act (s : State) : Event → State
  | .call a op =>
    match s.task a with
    | some caller => if s.known a then (perform s caller op).1 else s
    | none => s
  | .exit t =>
    match s.task t with
    | some x => s.setTask t { x with runnable := false, terminal := true }
    | none => s

end IrisOS.Tcb
