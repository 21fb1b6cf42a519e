import IrisOS.Sched.Context

/-! The system of scheduling contexts: threads, run queues, tick and dispatcher (`scheduler.c`,
`task_lifecycle.c`), donation over calls (`kreply.c`) and system calls (`syscall_sched.c`), which
take what their capabilities resolve to. Memory, references and interprocessor interrupts are left
out. -/
namespace IrisOS.Sched
open Cap Function

abbrev ScId := ℕ
abbrev ReplyId := ℕ

inductive TaskState
  | ready | running | blockedIpc | blockedIrq | blockedFault | blockedSend | blockedRecv
  | budgetExhausted | blockedReply | suspended | terminated | dead
  deriving DecidableEq

/-- The part of `struct task` the scheduler reads. `timeoutEp`: a timeout handler is registered. -/
structure Task where
  state : TaskState := .dead
  schedCtx : Option ScId := none
  wakeTick : ℕ := 0
  timeoutEp : Bool := false
  timeoutPending : Bool := false
  needResched : Bool := false
  timeSlice : ℕ := 0
  ticksLeft : ℕ := 0
  priority : ℕ := 0
  mcp : ℕ := 0
  domain : ℕ := 0
  homeCpu : ℕ := 0
  onCpu : Bool := false
  configured : Bool := false
  terminal : Bool := false
  pendingKreply : Option ReplyId := none
  epFaultCall : Bool := false
  deriving DecidableEq

structure KReply where
  caller : Option TaskId := none
  staged : Bool := false
  donatedSc : Option ScId := none
  donatedTo : Option TaskId := none
  deriving DecidableEq

def irisNumDomains : ℕ := 4

/-- The thread the run queues leave out. -/
def schedIdleThread : TaskId := 0

/-- The run queue of a processor is kept in the order of arrival. -/
structure Scheduler where
  scs : ScId → KSchedContext := fun _ => kschedctxAllocAt 0
  numScs : ℕ := 0
  tasks : TaskId → Task := fun _ => {}
  replies : ReplyId → KReply := fun _ => {}
  threadList : List TaskId := []
  rq : ℕ → List TaskId := fun _ => []
  current : ℕ → Option TaskId := fun _ => none
  ticks : ℕ := 0
  curDomain : ℕ := 0

namespace Scheduler

def setSc (σ : Scheduler) (sc : ScId) (c : KSchedContext) : Scheduler :=
  { σ with scs := update σ.scs sc c }

def setTask (σ : Scheduler) (t : TaskId) (task : Task) : Scheduler :=
  { σ with tasks := update σ.tasks t task }

def setReply (σ : Scheduler) (r : ReplyId) (reply : KReply) : Scheduler :=
  { σ with replies := update σ.replies r reply }

/-! ## Run queues -/

/-- `rq_enqueue`; a thread that is queued already is left where it is. -/
def rqEnqueue (σ : Scheduler) (t : TaskId) : Scheduler :=
  let cpu := (σ.tasks t).homeCpu
  if t ∈ σ.rq cpu then σ else { σ with rq := update σ.rq cpu (σ.rq cpu ++ [t]) }

def rqRemove (σ : Scheduler) (t : TaskId) : Scheduler :=
  let cpu := (σ.tasks t).homeCpu
  { σ with rq := update σ.rq cpu ((σ.rq cpu).erase t) }

def rqDomOf (task : Task) : ℕ := if task.domain < irisNumDomains then task.domain else 0

/-- The thread of the current domain that has waited longest at the highest priority. -/
def rqBest (σ : Scheduler) (cpu : ℕ) : Option TaskId :=
  ((σ.rq cpu).filter fun t => rqDomOf (σ.tasks t) = σ.curDomain).argmax fun t =>
    (σ.tasks t).priority

def rqDequeueBest (σ : Scheduler) (cpu : ℕ) : Scheduler × Option TaskId :=
  match σ.rqBest cpu with
  | none => (σ, none)
  | some t => ({ σ with rq := update σ.rq cpu ((σ.rq cpu).erase t) }, some t)

def taskWakeup (σ : Scheduler) (t : TaskId) : Scheduler :=
  if (σ.tasks t).state = .dead ∨ (σ.tasks t).terminal then σ
  else
    let σ := σ.setTask t { σ.tasks t with state := .ready }
    if t ≠ schedIdleThread then σ.rqEnqueue t else σ

def taskSuspend (σ : Scheduler) (t : TaskId) : Scheduler :=
  if (σ.tasks t).state = .dead ∨ (σ.tasks t).terminal then σ
  else
    let σ := (σ.setTask t { σ.tasks t with state := .suspended }).rqRemove t
    σ.setTask t { σ.tasks t with needResched := true }

/-! ## Donation -/

def kreplyStage (σ : Scheduler) (r : ReplyId) : Scheduler :=
  let reply := σ.replies r
  if reply.staged ∨ reply.caller ≠ none then σ else σ.setReply r { reply with staged := true }

def kreplyDonateOnCall (σ : Scheduler) (r : ReplyId) (sender receiver : TaskId) : Scheduler :=
  match (σ.tasks receiver).schedCtx, (σ.tasks sender).schedCtx with
  | none, some sc =>
    let σ := σ.setSc sc (σ.scs sc).flushRun
    let σ := σ.setTask sender { σ.tasks sender with schedCtx := none }
    let σ := σ.setTask receiver { σ.tasks receiver with schedCtx := some sc }
    σ.setReply r { σ.replies r with donatedSc := some sc, donatedTo := some receiver }
  | _, _ => σ

def kreplyReturnDonation (σ : Scheduler) (r : ReplyId) (backTo : Option TaskId) : Scheduler :=
  let reply := σ.replies r
  let σ := σ.setReply r { reply with donatedSc := none, donatedTo := none }
  match reply.donatedSc with
  | none => σ
  | some sc =>
    let σ := σ.setSc sc (σ.scs sc).flushRun
    match reply.donatedTo with
    | none => σ
    | some borrower =>
      if (σ.tasks borrower).schedCtx ≠ some sc then σ
      else
        let σ := σ.setTask borrower { σ.tasks borrower with schedCtx := none }
        match backTo with
        | none => σ
        | some t =>
          if (σ.tasks t).schedCtx = none
          then σ.setTask t { σ.tasks t with schedCtx := some sc } else σ

/-- `kreply_abandon_caller`. A thread that called for a fault is marked for its teardown. -/
def kreplyAbandonCaller (σ : Scheduler) (t : TaskId) : Scheduler :=
  let task := σ.tasks t
  if task.epFaultCall then
    if task.terminal then σ.setTask t { task with epFaultCall := false }
    else σ.setTask t { task with epFaultCall := false, state := .dead }
  else σ.taskWakeup t

def kreplyCancelCaller (σ : Scheduler) (r : ReplyId) : Scheduler :=
  let caller := (σ.replies r).caller
  let σ := σ.setReply r { σ.replies r with caller := none }
  let σ := σ.kreplyReturnDonation r caller
  match caller with
  | none => σ
  | some t => σ.kreplyAbandonCaller t

def kreplyObjClose (σ : Scheduler) (r : ReplyId) : Scheduler :=
  let caller := (σ.replies r).caller
  let σ := σ.setReply r { σ.replies r with caller := none, staged := false }
  match caller with
  | none => σ
  | some t => σ.kreplyAbandonCaller t

/-- `ep_bind_call_reply`, with the reply object that the receiver has staged. -/
def epBindCallReply (σ : Scheduler) (r : ReplyId) (sender receiver : TaskId) : Scheduler × Bool :=
  let reply := σ.replies r
  if !reply.staged ∨ reply.caller ≠ none then (σ, false)
  else
    let σ := σ.setReply r { reply with staged := false, caller := some sender }
    let σ := σ.kreplyDonateOnCall r sender receiver
    (σ.setTask sender { σ.tasks sender with pendingKreply := some r }, true)

/-- A call that finds its receiver waiting: `sys_ep_call`, from the binding of the reply on. -/
def epCall (σ : Scheduler) (r : ReplyId) (sender receiver : TaskId) : Scheduler :=
  match σ.epBindCallReply r sender receiver with
  | (σ, false) => σ.taskWakeup receiver
  | (σ, true) =>
    let σ := σ.taskWakeup receiver
    σ.setTask sender { σ.tasks sender with state := .blockedReply }

/-- `sys_reply`, as far as the caller it answers is concerned. -/
def sysReply (σ : Scheduler) (r : ReplyId) : Scheduler × IrisError :=
  match (σ.replies r).caller with
  | none => (σ, .notFound)
  | some t =>
    let σ := σ.setReply r { σ.replies r with caller := none }
    let σ := σ.kreplyReturnDonation r (some t)
    let σ := σ.setTask t { σ.tasks t with pendingKreply := none, epFaultCall := false }
    (σ.taskWakeup t, .ok)

/-! ## Thread death -/

def taskReleaseSchedCtx (σ : Scheduler) (t : TaskId) : Scheduler :=
  match (σ.tasks t).schedCtx with
  | none => σ
  | some sc =>
    let σ := σ.setSc sc ((σ.scs sc).unbind (some t))
    σ.setTask t { σ.tasks t with schedCtx := none }

/-- `task_execution_teardown_off_cpu`. -/
def taskTeardown (σ : Scheduler) (t : TaskId) : Scheduler :=
  if (σ.tasks t).terminal then σ
  else
    let σ := (σ.setTask t { σ.tasks t with terminal := true }).rqRemove t
    let σ := { σ with threadList := σ.threadList.erase t }
    let σ := σ.setTask t { σ.tasks t with state := .terminated }
    let σ := match (σ.tasks t).pendingKreply with
      | none => σ
      | some r => (σ.setTask t { σ.tasks t with pendingKreply := none }).kreplyCancelCaller r
    σ.taskReleaseSchedCtx t

/-! ## Idle and dispatch -/

/-- The deadline of a thread that idling can wait for: its own, or its next refill. -/
def nextDeadline (σ : Scheduler) (t : TaskId) : List ℕ :=
  let task := σ.tasks t
  (if task.wakeTick ≠ 0 then [task.wakeTick] else []) ++
  match task.schedCtx with
  | none => []
  | some sc =>
    if task.state = .budgetExhausted ∧ 0 < (σ.scs sc).refills.count
    then [(σ.scs sc).refills.front.due] else []

/-- The first half of `sched_handle_idle`: the timekeeper moves the clock to the nearest
deadline. -/
def fastForward (σ : Scheduler) (cpu : ℕ) : Scheduler :=
  match ((σ.threadList.flatMap σ.nextDeadline).filter (· < 2 ^ 64 - 1)).min? with
  | none => σ
  | some wake => if cpu = 0 then { σ with ticks := max σ.ticks wake } else σ

/-- The second half, for one thread. -/
def wakeRefilled (σ : Scheduler) (t : TaskId) : Scheduler :=
  if t = schedIdleThread ∨ (σ.tasks t).state ≠ .budgetExhausted then σ
  else match (σ.tasks t).schedCtx with
    | none => σ
    | some sc =>
      let p := (σ.scs sc).applyRefills σ.ticks
      let σ := σ.setSc sc p.1
      if p.2 then (σ.setTask t { σ.tasks t with wakeTick := 0 }).taskWakeup t else σ

def schedHandleIdle (σ : Scheduler) (cpu : ℕ) : Scheduler × Option TaskId :=
  let σ := σ.fastForward cpu
  (σ.threadList.foldl wakeRefilled σ).rqDequeueBest cpu

/-- The handler's endpoint is closed, the call is queued, a handler takes it, or it has lost its
reply. -/
inductive FaultCall
  | closed
  | queued
  | taken (r : ReplyId) (handler : TaskId)
  | lost (handler : TaskId)
  deriving DecidableEq

def ktimeoutNotifyFault (σ : Scheduler) (t : TaskId) (call : FaultCall) : Scheduler × Bool :=
  if !(σ.tasks t).timeoutEp then (σ, false)
  else match call with
    | .closed => (σ, false)
    | .queued => (σ.setTask t { σ.tasks t with epFaultCall := true, state := .blockedSend }, true)
    | .taken r handler =>
      let σ := σ.setTask t { σ.tasks t with epFaultCall := true }
      match σ.epBindCallReply r t handler with
      | (σ, true) =>
        ((σ.setTask t { σ.tasks t with state := .blockedReply }).taskWakeup handler, true)
      | (σ, false) =>
        let σ := σ.taskWakeup handler
        (σ.setTask t { σ.tasks t with epFaultCall := false }, false)
    | .lost handler => (σ.taskWakeup handler, false)

/-- The part of `sched_pick_for_dispatch` that acts on a recorded timeout. -/
def dispatchTimeout (σ : Scheduler) (t : TaskId) (call : FaultCall) : Scheduler :=
  if !(σ.tasks t).timeoutPending then σ
  else
    let σ := σ.setTask t { σ.tasks t with timeoutPending := false }
    match σ.ktimeoutNotifyFault t call with
    | (σ, true) => σ.setTask t { σ.tasks t with state := .blockedFault }
    | (σ, false) =>
      match (σ.tasks t).schedCtx with
      | none => σ
      | some sc => σ.setTask t { σ.tasks t with
          state := .budgetExhausted
          wakeTick := u64 (σ.ticks + (σ.scs sc).periodTicks) }

def flushOf (σ : Scheduler) (t : TaskId) : Scheduler :=
  match (σ.tasks t).schedCtx with
  | none => σ
  | some sc => σ.setSc sc (σ.scs sc).flushRun

/-- A thread that is still running goes back to its queue. -/
def requeue (σ : Scheduler) (t : TaskId) : Scheduler :=
  if (σ.tasks t).state = .running then
    let σ := σ.setTask t { σ.tasks t with state := .ready }
    if t ≠ schedIdleThread then σ.rqEnqueue t else σ
  else σ

/-- The part of `sched_pick_for_dispatch` for the outgoing thread. Reaping is a step of its own. -/
def dispatchOut (σ : Scheduler) (call : FaultCall) : Option TaskId → Scheduler
  | none => σ
  | some t =>
    let σ := ((σ.dispatchTimeout t call).flushOf t).requeue t
    σ.setTask t { σ.tasks t with onCpu := false }

/-- The best thread that is queued, or else what idling finds. -/
def nextThread (σ : Scheduler) (cpu : ℕ) : Scheduler × Option TaskId :=
  match σ.rqDequeueBest cpu with
  | (σ, some t) => (σ, some t)
  | (σ, none) => σ.schedHandleIdle cpu

/-- The loop of `sched_pick_for_dispatch`, with its passes left: a suspended thread is dropped. -/
def dispatchPick (cpu : ℕ) : ℕ → Scheduler → Scheduler × Option TaskId
  | 0, σ => (σ, none)
  | n+1, σ =>
    match σ.nextThread cpu with
    | (σ, none) => (σ, none)
    | (σ, some t) =>
      if (σ.tasks t).state ≠ .suspended then (σ, some t) else dispatchPick cpu n σ

/-- The end of `sched_pick_for_dispatch`. -/
def dispatchIn (σ : Scheduler) (cpu : ℕ) : Option TaskId → Scheduler
  | none => σ
  | some t =>
    let task := σ.tasks t
    let σ := σ.setTask t { task with
      state := .running
      ticksLeft := task.timeSlice
      needResched := false
      onCpu := true }
    { σ with current := update σ.current cpu (some t) }

def schedPickForDispatch (σ : Scheduler) (cpu : ℕ) (outgoing : Option TaskId)
    (call : FaultCall) : Scheduler :=
  let σ := σ.dispatchOut call outgoing
  let p := dispatchPick cpu ((σ.rq cpu).length + σ.threadList.length + 1) σ
  p.1.dispatchIn cpu p.2

/-! ## The tick -/

/-- A budget-exhausted thread with a deadline of its own that has passed. -/
def overdue (σ : Scheduler) (t : TaskId) : Bool :=
  (σ.tasks t).state = .budgetExhausted && (σ.tasks t).wakeTick ≠ 0 &&
    (σ.tasks t).wakeTick ≤ σ.ticks

/-- The scan of `sched_tick_global`, for one thread. -/
def wakeOverdue (σ : Scheduler) (t : TaskId) : Scheduler :=
  if σ.overdue t then
    let σ := match (σ.tasks t).schedCtx with
      | none => σ
      | some sc =>
        σ.setSc sc { σ.scs sc with remainingBudget := (σ.scs sc).budgetTicks }
    (σ.setTask t { σ.tasks t with wakeTick := 0 }).taskWakeup t
  else σ

/-- `sched_tick_global`. The domain schedule has one entry and never advances. -/
def schedTickGlobal (σ : Scheduler) : Scheduler :=
  σ.threadList.foldl wakeOverdue { σ with ticks := u64 (σ.ticks + 1) }

/-- The end of `sched_tick_local`: preemption and the time slice. -/
def tickSlice (σ : Scheduler) (cpu : ℕ) (t : TaskId) : Scheduler :=
  let task := σ.tasks t
  let preempted := task.state = .running &&
    (σ.rqBest cpu).any fun best => task.priority < (σ.tasks best).priority
  let left := task.ticksLeft - 1
  σ.setTask t { task with
    ticksLeft := left
    needResched := task.needResched || preempted || left = 0 }

def schedTickLocal (σ : Scheduler) (cpu : ℕ) : Scheduler :=
  match σ.current cpu with
  | none => σ
  | some t =>
    match (σ.tasks t).schedCtx with
    | none => σ.tickSlice cpu t
    | some sc =>
      if (σ.tasks t).state ≠ .running then σ.tickSlice cpu t
      else
        let p := (σ.scs sc).chargeTick σ.ticks
        let σ := σ.setSc sc p.1
        if !p.2 then σ.tickSlice cpu t
        else if (σ.tasks t).timeoutEp then
          σ.setTask t { σ.tasks t with timeoutPending := true, needResched := true }
        else
          let σ := σ.setSc sc (σ.scs sc).flushRun
          if !(σ.scs sc).hasRefill then σ.setTask t { σ.tasks t with needResched := true }
          else σ.setTask t { σ.tasks t with
            state := .budgetExhausted
            wakeTick := 0
            needResched := true }

/-- `scheduler_tick`, on the processor that owns the timer. -/
def schedulerTick (σ : Scheduler) : Scheduler := σ.schedTickGlobal.schedTickLocal 0

/-! ## System calls -/

/-- What a capability argument resolves to. -/
abbrev Resolved (α : Type) := Except IrisError (α × Rights)

/-- `sys_sc_configure`; `control` says that the caller has shown a SchedControl capability. -/
def sysScConfigure (σ : Scheduler) (control : Bool) (cap : Resolved ScId) (budget period : UInt64) :
    Scheduler × IrisError :=
  if !control then (σ, .accessDenied)
  else match cap with
    | .error e => (σ, e)
    | .ok (sc, rights) =>
      if !rightsCheck rights rightWrite then (σ, .accessDenied)
      else match (σ.scs sc).configure budget.toNat period.toNat with
        | .error e => (σ, e)
        | .ok c => (σ.setSc sc c, .ok)

/-- The unbinding half of `sys_sc_bind`. -/
def scUnbind (σ : Scheduler) (sc : ScId) : Scheduler :=
  let σ := match (σ.scs sc).boundTask with
    | none => σ
    | some t =>
      if (σ.tasks t).schedCtx = some sc
      then σ.setTask t { σ.tasks t with schedCtx := none } else σ
  σ.setSc sc ((σ.scs sc).unbind none)

def attach (σ : Scheduler) (sc : ScId) (t : TaskId) : Scheduler :=
  let σ := σ.setTask t { σ.tasks t with schedCtx := some sc }
  σ.setSc sc (σ.scs sc).wholeBudget

/-- `sys_sc_bind`; a null thread capability unbinds. -/
def sysScBind (σ : Scheduler) (cap : Resolved ScId) (tcb : Option (Resolved TaskId)) :
    Scheduler × IrisError :=
  match cap with
  | .error e => (σ, e)
  | .ok (sc, scRights) =>
    if !rightsCheck scRights rightWrite then (σ, .accessDenied)
    else match tcb with
      | none => (σ.scUnbind sc, .ok)
      | some (.error e) => (σ, e)
      | some (.ok (t, tcbRights)) =>
        if !rightsCheck tcbRights rightWrite then (σ, .accessDenied)
        else if !(σ.scs sc).configured then (σ, .invalidArg)
        else if (σ.tasks t).terminal then (σ, .notFound)
        else if !(σ.tasks t).configured then (σ, .notSupported)
        else if (σ.tasks t).schedCtx ≠ none ∧ (σ.tasks t).schedCtx ≠ some sc then (σ, .busy)
        else match (σ.scs sc).bind t with
          | .error e => (σ, e)
          | .ok c =>
            let σ := σ.setSc sc c
            if (σ.tasks t).schedCtx ≠ some sc then (σ.attach sc t, .ok) else (σ, .ok)

/-- The end of `sys_thread_set_sc`: the thread leaves the context it has. -/
def detach (σ : Scheduler) (t : TaskId) : Scheduler :=
  match (σ.tasks t).schedCtx with
  | none => σ
  | some old => σ.setSc old ((σ.scs old).unbind (some t))

/-- `sys_thread_set_sc`; a null capability unbinds. -/
def sysThreadSetSc (σ : Scheduler) (t : TaskId) (cap : Option (Except IrisError ScId)) :
    Scheduler × IrisError :=
  match cap with
  | none =>
    let σ := σ.detach t
    (σ.setTask t { σ.tasks t with schedCtx := none }, .ok)
  | some (.error e) => (σ, e)
  | some (.ok sc) =>
    if !(σ.scs sc).configured then (σ, .invalidArg)
    else match (σ.scs sc).bind t with
      | .error e => (σ, e)
      | .ok c => (((σ.setSc sc c).detach t).attach sc t, .ok)

/-- `sys_sc_consumed`, with the ticks reported; the context is reset before the copy. -/
def sysScConsumed (σ : Scheduler) (writable : Bool) (cap : Except IrisError ScId) (copied : Bool) :
    Scheduler × Except IrisError ℕ :=
  if !writable then (σ, .error .invalidArg)
  else match cap with
    | .error e => (σ, .error e)
    | .ok sc =>
      let spent := u64 ((σ.scs sc).consumedTotal + (σ.scs sc).consumedRun)
      let σ := σ.setSc sc ((σ.scs sc).readConsumed σ.ticks)
      if !copied then (σ, .error .invalidArg) else (σ, .ok spent)

/-- `sys_sc_yield_to`, up to the yield, with the ticks it reports. -/
def sysScYieldTo (σ : Scheduler) (t : TaskId) (writable : Bool) (cap : Except IrisError ScId)
    (copied : Bool) : Scheduler × Except IrisError ℕ :=
  if !writable then (σ, .error .invalidArg)
  else match cap with
    | .error e => (σ, .error e)
    | .ok sc =>
      match (σ.scs sc).boundTask with
      | none => (σ, .error .invalidArg)
      | some target =>
        if target = t then (σ, .error .invalidArg)
        else if (σ.tasks t).mcp < (σ.tasks target).priority then (σ, .error .accessDenied)
        else if (σ.tasks target).terminal ∨ (σ.tasks target).state = .dead then
          (σ, .error .notFound)
        else
          let spent := match (σ.tasks t).schedCtx with
            | none => 0
            | some own => u64 ((σ.scs own).consumedTotal + (σ.scs own).consumedRun)
          if !copied then (σ, .error .invalidArg)
          else (σ.setTask t { σ.tasks t with needResched := true }, .ok spent)

/-- The refill depths that `sys_untyped_retype` accepts for a context. -/
def refillDepthOk (objArg : ℕ) : Bool :=
  objArg = 0 || kschedctxRefillMin ≤ objArg && objArg ≤ kschedctxRefillLimit

end Scheduler

/-! ## Runs -/

/-- System calls, ends of IPC operations, births and deaths, the timer, the dispatcher, and
`kschedctx.c` by itself. -/
inductive Action
  | retype (objArg : ℕ)
  | register (t : TaskId) (task : Task)
  | setTimeoutEp (t : TaskId) (armed : Bool)
  | block (t : TaskId) (state : TaskState)
  | wakeup (t : TaskId)
  | suspend (t : TaskId)
  | teardown (t : TaskId)
  | scConfigure (control : Bool) (cap : Scheduler.Resolved ScId) (budget period : UInt64)
  | scBind (cap : Scheduler.Resolved ScId) (tcb : Option (Scheduler.Resolved TaskId))
  | threadSetSc (t : TaskId) (cap : Option (Except IrisError ScId))
  | scConsumed (writable : Bool) (cap : Except IrisError ScId) (copied : Bool)
  | scYieldTo (t : TaskId) (writable : Bool) (cap : Except IrisError ScId) (copied : Bool)
  | stage (r : ReplyId)
  | epCall (r : ReplyId) (sender receiver : TaskId)
  | reply (r : ReplyId)
  | cancelCaller (r : ReplyId)
  | replyClose (r : ReplyId)
  | charge (sc : ScId)
  | flush (sc : ScId)
  | applyRefills (sc : ScId)
  | advance (n : ℕ)
  | tick
  | tickRemote (cpu : ℕ)
  | dispatch (cpu : ℕ) (outgoing : Option TaskId) (call : Scheduler.FaultCall)

namespace Scheduler

def act (σ : Scheduler) : Action → Scheduler
  | .retype objArg =>
    if refillDepthOk objArg then
      { σ.setSc σ.numScs (kschedctxAllocAt objArg) with numScs := σ.numScs + 1 }
    else σ
  | .register t task =>
    if t ∈ σ.threadList ∨ (σ.tasks t).schedCtx ≠ none then σ
    else
      let σ := { σ with threadList := t :: σ.threadList }
      σ.setTask t { task with schedCtx := none, pendingKreply := none, wakeTick := 0 }
  | .setTimeoutEp t armed => σ.setTask t { σ.tasks t with timeoutEp := armed }
  | .block t state =>
    if (σ.tasks t).state = .running then σ.setTask t { σ.tasks t with state } else σ
  | .wakeup t => σ.taskWakeup t
  | .suspend t => σ.taskSuspend t
  | .teardown t => σ.taskTeardown t
  | .scConfigure control cap budget period => (σ.sysScConfigure control cap budget period).1
  | .scBind cap tcb => (σ.sysScBind cap tcb).1
  | .threadSetSc t cap => (σ.sysThreadSetSc t cap).1
  | .scConsumed writable cap copied => (σ.sysScConsumed writable cap copied).1
  | .scYieldTo t writable cap copied => (σ.sysScYieldTo t writable cap copied).1
  | .stage r => σ.kreplyStage r
  | .epCall r sender receiver => σ.epCall r sender receiver
  | .reply r => (σ.sysReply r).1
  | .cancelCaller r => σ.kreplyCancelCaller r
  | .replyClose r => σ.kreplyObjClose r
  | .charge sc => σ.setSc sc ((σ.scs sc).chargeTick σ.ticks).1
  | .flush sc => σ.setSc sc (σ.scs sc).flushRun
  | .applyRefills sc => σ.setSc sc ((σ.scs sc).applyRefills σ.ticks).1
  | .advance n => { σ with ticks := σ.ticks + n }
  | .tick => σ.schedulerTick
  | .tickRemote cpu => σ.schedTickLocal cpu
  | .dispatch cpu outgoing call => σ.schedPickForDispatch cpu outgoing call

def run (σ : Scheduler) (as : List Action) : Scheduler := as.foldl act σ

/-- Every action of a sequence meets a condition in the state it is taken in. -/
def Meets (P : Scheduler → Action → Prop) : Scheduler → List Action → Prop
  | _, [] => True
  | σ, a :: as => P σ a ∧ Meets P (σ.act a) as

instance decidableMeets (P : Scheduler → Action → Prop) [∀ σ a, Decidable (P σ a)] :
    ∀ (σ : Scheduler) (as : List Action), Decidable (Meets P σ as)
  | _, [] => inferInstanceAs (Decidable True)
  | σ, a :: as =>
    have := decidableMeets P (σ.act a) as
    inferInstanceAs (Decidable (P σ a ∧ Meets P (σ.act a) as))

end Scheduler
end IrisOS.Sched
