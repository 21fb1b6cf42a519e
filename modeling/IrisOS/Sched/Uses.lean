import IrisOS.Sched.System

/-! A step of the system is, for each context, a sequence of charges, flushes, refills and changes
of the bound thread; the few calls that do more are described one by one. -/
namespace IrisOS.Sched
open Cap Relation Function

/-- One use of a context, at a tick. A charge is allowed where `P` holds. -/
inductive Uses (P : ℕ → KSchedContext → Prop) : ℕ × KSchedContext → ℕ × KSchedContext → Prop
  | later {now now' c} (h : now ≤ now') : Uses P (now, c) (now', c)
  | charge {now c} (h : P now c) : Uses P (now, c) (now, (c.chargeTick now).1)
  | flush {now c} : Uses P (now, c) (now, c.flushRun)
  | apply {now c} : Uses P (now, c) (now, (c.applyRefills now).1)
  | bind {now c} (t : Option TaskId) : Uses P (now, c) (now, { c with boundTask := t })

namespace Scheduler

/-- Every context is only used on the way from one state to another. -/
structure UsesOnly (P : ℕ → KSchedContext → Prop) (σ τ : Scheduler) : Prop where
  chain : ∀ sc, ReflTransGen (Uses P) (σ.ticks, σ.scs sc) (τ.ticks, τ.scs sc)

/-- Only the bound threads of contexts change. -/
structure Rebinds (σ τ : Scheduler) : Prop where
  ticks : τ.ticks = σ.ticks
  scs : ∀ sc, ∃ t, τ.scs sc = { σ.scs sc with boundTask := t }

section
variable (σ : Scheduler) (sc : ScId) (c : KSchedContext) (t : TaskId) (task : Task) (r : ReplyId)
  (reply : KReply)

@[simp] theorem scs_setTask : (σ.setTask t task).scs = σ.scs := rfl
@[simp] theorem ticks_setTask : (σ.setTask t task).ticks = σ.ticks := rfl
@[simp] theorem ticks_setSc : (σ.setSc sc c).ticks = σ.ticks := rfl
@[simp] theorem tasks_setSc : (σ.setSc sc c).tasks = σ.tasks := rfl
@[simp] theorem scs_setSc_self : (σ.setSc sc c).scs sc = c := update_self ..

theorem scs_setSc_of_ne {sc' : ScId} (h : sc' ≠ sc) : (σ.setSc sc c).scs sc' = σ.scs sc' :=
  update_of_ne h ..

@[simp] theorem rqEnqueue_frame : (σ.rqEnqueue t).scs = σ.scs ∧
    (σ.rqEnqueue t).ticks = σ.ticks ∧ (σ.rqEnqueue t).tasks = σ.tasks ∧
    (σ.rqEnqueue t).current = σ.current ∧ (σ.rqEnqueue t).threadList = σ.threadList := by
  unfold rqEnqueue
  dsimp only
  split_ifs <;> exact ⟨rfl, rfl, rfl, rfl, rfl⟩

@[simp] theorem taskWakeup_frame : (σ.taskWakeup t).scs = σ.scs ∧
    (σ.taskWakeup t).ticks = σ.ticks ∧ (σ.taskWakeup t).current = σ.current ∧
    (σ.taskWakeup t).threadList = σ.threadList := by
  unfold taskWakeup
  split_ifs <;> simp [setTask]

@[simp] theorem rqDequeueBest_frame (cpu : ℕ) : (σ.rqDequeueBest cpu).1.scs = σ.scs ∧
    (σ.rqDequeueBest cpu).1.ticks = σ.ticks := by
  unfold rqDequeueBest
  split <;> exact ⟨rfl, rfl⟩

end

section
variable {P : ℕ → KSchedContext → Prop} {σ τ υ : Scheduler}

@[refl] theorem UsesOnly.refl (σ : Scheduler) : UsesOnly P σ σ := ⟨fun _ => .refl⟩

@[trans] theorem UsesOnly.trans (h1 : UsesOnly P σ τ) (h2 : UsesOnly P τ υ) : UsesOnly P σ υ :=
  ⟨fun sc => (h1.chain sc).trans (h2.chain sc)⟩

theorem UsesOnly.of_eq (hscs : τ.scs = σ.scs) (hticks : τ.ticks = σ.ticks) : UsesOnly P σ τ := by
  constructor
  intro sc
  rw [hscs, hticks]

theorem UsesOnly.of_le (hscs : τ.scs = σ.scs) (hticks : σ.ticks ≤ τ.ticks) : UsesOnly P σ τ := by
  constructor
  intro sc
  rw [hscs]
  exact .single (.later hticks)

section

variable (h : UsesOnly P σ τ)
include h

theorem UsesOnly.frame (hscs : υ.scs = τ.scs) (hticks : υ.ticks = τ.ticks) :
    UsesOnly P σ υ := h.trans (.of_eq hscs hticks)

theorem UsesOnly.setSc {sc : ScId} {c : KSchedContext}
    (hc : Uses P (τ.ticks, τ.scs sc) (τ.ticks, c)) : UsesOnly P σ (τ.setSc sc c) := by
  refine h.trans ⟨fun sc' => ?_⟩
  by_cases hsc : sc' = sc
  · subst hsc
    rw [ticks_setSc, scs_setSc_self]
    exact .single hc
  · rw [ticks_setSc, scs_setSc_of_ne _ _ _ hsc]

theorem UsesOnly.setTask (t : TaskId) (task : Task) :
    UsesOnly P σ (τ.setTask t task) := h.frame rfl rfl

theorem UsesOnly.setReply (r : ReplyId) (reply : KReply) :
    UsesOnly P σ (τ.setReply r reply) := h.frame rfl rfl

theorem UsesOnly.rqEnqueue (t : TaskId) : UsesOnly P σ (τ.rqEnqueue t) :=
  h.frame (by simp) (by simp)

theorem UsesOnly.taskWakeup (t : TaskId) : UsesOnly P σ (τ.taskWakeup t) :=
  h.frame (by simp) (by simp)

end

theorem UsesOnly.foldl {f : Scheduler → TaskId → Scheduler}
    (hf : ∀ {σ τ : Scheduler}, UsesOnly P σ τ → ∀ t, UsesOnly P σ (f τ t)) (h : UsesOnly P σ τ)
    (l : List TaskId) : UsesOnly P σ (l.foldl f τ) := by
  induction l generalizing τ with
  | nil => exact h
  | cons t l ih => exact ih (hf h t)

@[refl] theorem Rebinds.refl (σ : Scheduler) : Rebinds σ σ := ⟨rfl, fun _ => ⟨_, rfl⟩⟩

theorem Rebinds.frame (h : Rebinds σ τ) (hscs : υ.scs = τ.scs) (hticks : υ.ticks = τ.ticks) :
    Rebinds σ υ := ⟨hticks.trans h.ticks, fun sc => hscs ▸ h.scs sc⟩

theorem Rebinds.setSc (h : Rebinds σ τ) (sc : ScId) (t : Option TaskId) :
    Rebinds σ (τ.setSc sc { τ.scs sc with boundTask := t }) := by
  refine ⟨h.ticks, fun sc' => ?_⟩
  by_cases hsc : sc' = sc
  · subst hsc
    obtain ⟨u, hu⟩ := h.scs sc'
    exact ⟨t, by rw [scs_setSc_self, hu]⟩
  · rw [scs_setSc_of_ne _ _ _ hsc]
    exact h.scs sc'

theorem Rebinds.usesOnly (h : Rebinds σ τ) : UsesOnly P σ τ := by
  constructor
  intro sc
  obtain ⟨t, ht⟩ := h.scs sc
  rw [ht, h.ticks]
  exact .single (.bind t)

end

/-! ## Donation, death, dispatch -/

section
variable {P : ℕ → KSchedContext → Prop}

theorem unbind_eq (c : KSchedContext) (t : Option TaskId) :
    ∃ u, c.unbind t = { c with boundTask := u } := by
  unfold KSchedContext.unbind
  split_ifs
  · exact ⟨none, rfl⟩
  · exact ⟨c.boundTask, rfl⟩

theorem bind_eq {c c' : KSchedContext} {t : TaskId} (h : c.bind t = .ok c') :
    c.boundTask.all (· = t) = true ∧ c' = { c with boundTask := some t } := by
  unfold KSchedContext.bind at h
  split at h
  · rename_i u hu
    split_ifs at h with hne
    cases h
    exact ⟨by simpa [hu] using hne, rfl⟩
  · rename_i hu
    cases h
    exact ⟨by simp [hu], rfl⟩

variable {σ τ : Scheduler} (h : UsesOnly P σ τ)
include h


theorem UsesOnly.kreplyDonateOnCall (r : ReplyId) (sender receiver : TaskId) :
    UsesOnly P σ (τ.kreplyDonateOnCall r sender receiver) := by
  unfold Scheduler.kreplyDonateOnCall
  split
  · apply setReply
    apply setTask
    apply setTask
    exact h.setSc .flush
  · exact h

theorem UsesOnly.kreplyReturnDonation (r : ReplyId) (backTo : Option TaskId) :
    UsesOnly P σ (τ.kreplyReturnDonation r backTo) := by
  unfold Scheduler.kreplyReturnDonation
  dsimp only
  split
  · exact h.setReply ..
  rename_i sc _
  have hcleared := h.setReply r { τ.replies r with donatedSc := none, donatedTo := none }
  have hflush := @setSc _ _ _ hcleared sc _ .flush
  split
  · exact hflush
  split_ifs
  · exact hflush
  split
  · exact hflush.setTask ..
  · split_ifs
    · exact (hflush.setTask ..).setTask ..
    · exact hflush.setTask ..

theorem UsesOnly.kreplyAbandonCaller (t : TaskId) : UsesOnly P σ (τ.kreplyAbandonCaller t) := by
  unfold Scheduler.kreplyAbandonCaller
  dsimp only
  split_ifs
  · exact h.setTask ..
  · exact h.setTask ..
  · exact h.taskWakeup t

theorem UsesOnly.kreplyCancelCaller (r : ReplyId) : UsesOnly P σ (τ.kreplyCancelCaller r) := by
  unfold Scheduler.kreplyCancelCaller
  dsimp only
  have hback := (h.setReply r { τ.replies r with caller := none }).kreplyReturnDonation r
    (τ.replies r).caller
  split
  · exact hback
  · exact hback.kreplyAbandonCaller _

theorem UsesOnly.kreplyObjClose (r : ReplyId) : UsesOnly P σ (τ.kreplyObjClose r) := by
  unfold Scheduler.kreplyObjClose
  dsimp only
  split
  · exact h.setReply ..
  · exact (h.setReply ..).kreplyAbandonCaller _

theorem UsesOnly.epBindCallReply (r : ReplyId) (sender receiver : TaskId) :
    UsesOnly P σ (τ.epBindCallReply r sender receiver).1 := by
  unfold Scheduler.epBindCallReply
  dsimp only
  split_ifs
  · exact h
  · apply setTask
    apply kreplyDonateOnCall
    exact h.setReply ..

theorem UsesOnly.epCall (r : ReplyId) (sender receiver : TaskId) :
    UsesOnly P σ (τ.epCall r sender receiver) := by
  have hbind := h.epBindCallReply r sender receiver
  unfold Scheduler.epCall
  generalize τ.epBindCallReply r sender receiver = p at hbind ⊢
  obtain ⟨υ, _ | _⟩ := p
  · exact hbind.taskWakeup _
  · exact (hbind.taskWakeup _).setTask ..

theorem UsesOnly.sysReply (r : ReplyId) : UsesOnly P σ (τ.sysReply r).1 := by
  unfold Scheduler.sysReply
  split
  · exact h
  · apply taskWakeup
    apply setTask
    apply kreplyReturnDonation
    exact h.setReply ..

theorem UsesOnly.taskReleaseSchedCtx (t : TaskId) : UsesOnly P σ (τ.taskReleaseSchedCtx t) := by
  unfold Scheduler.taskReleaseSchedCtx
  split
  · exact h
  rename_i sc _
  obtain ⟨u, hu⟩ := unbind_eq (τ.scs sc) (some t)
  rw [hu]
  apply setTask
  exact h.setSc (.bind u)

theorem UsesOnly.taskTeardown (t : TaskId) : UsesOnly P σ (τ.taskTeardown t) := by
  unfold Scheduler.taskTeardown
  split_ifs
  · exact h
  apply taskReleaseSchedCtx
  split
  · exact h.frame rfl rfl
  · apply kreplyCancelCaller
    exact h.frame rfl rfl

theorem UsesOnly.fastForward (cpu : ℕ) : UsesOnly P σ (τ.fastForward cpu) := by
  unfold Scheduler.fastForward
  split
  · exact h
  · split_ifs
    · exact h.trans (.of_le rfl (le_max_left _ _))
    · exact h

theorem UsesOnly.wakeRefilled (t : TaskId) : UsesOnly P σ (τ.wakeRefilled t) := by
  unfold Scheduler.wakeRefilled
  split_ifs
  · exact h
  split
  · exact h
  dsimp only
  split_ifs
  · apply taskWakeup
    apply setTask
    exact h.setSc .apply
  · exact h.setSc .apply

theorem UsesOnly.rqDequeueBest (cpu : ℕ) : UsesOnly P σ (τ.rqDequeueBest cpu).1 :=
  h.frame (by simp) (by simp)

theorem UsesOnly.schedHandleIdle (cpu : ℕ) : UsesOnly P σ (τ.schedHandleIdle cpu).1 := by
  apply rqDequeueBest
  exact (h.fastForward cpu).foldl wakeRefilled _

theorem UsesOnly.nextThread (cpu : ℕ) : UsesOnly P σ (τ.nextThread cpu).1 := by
  have hdeq := h.rqDequeueBest cpu
  unfold Scheduler.nextThread
  generalize τ.rqDequeueBest cpu = p at hdeq ⊢
  obtain ⟨υ, _ | t⟩ := p
  · exact hdeq.schedHandleIdle cpu
  · exact hdeq

theorem UsesOnly.dispatchPick (cpu n : ℕ) : UsesOnly P σ (Scheduler.dispatchPick cpu n τ).1 := by
  induction n generalizing τ with
  | zero => exact h
  | succ n ih =>
    have hnext := h.nextThread cpu
    rw [Scheduler.dispatchPick]
    generalize τ.nextThread cpu = p at hnext ⊢
    obtain ⟨υ, _ | t⟩ := p
    · exact hnext
    · dsimp only
      split_ifs
      · exact hnext
      · exact ih hnext

theorem UsesOnly.ktimeoutNotifyFault (t : TaskId) (call : FaultCall) :
    UsesOnly P σ (τ.ktimeoutNotifyFault t call).1 := by
  unfold Scheduler.ktimeoutNotifyFault
  split_ifs
  · exact h
  cases call with
  | closed => exact h
  | queued => exact h.setTask ..
  | taken r handler =>
    have hbind := (h.setTask t { τ.tasks t with epFaultCall := true }).epBindCallReply r t handler
    dsimp only
    generalize Scheduler.epBindCallReply _ r t handler = p at hbind ⊢
    obtain ⟨υ, _ | _⟩ := p
    · exact (hbind.taskWakeup _).setTask ..
    · exact (hbind.setTask ..).taskWakeup _
  | lost handler => exact h.taskWakeup handler

theorem UsesOnly.dispatchTimeout (t : TaskId) (call : FaultCall) :
    UsesOnly P σ (τ.dispatchTimeout t call) := by
  have hcall := (h.setTask t { τ.tasks t with timeoutPending := false }).ktimeoutNotifyFault t call
  unfold Scheduler.dispatchTimeout
  split_ifs
  · exact h
  dsimp only
  generalize Scheduler.ktimeoutNotifyFault _ t call = p at hcall ⊢
  obtain ⟨υ, _ | _⟩ := p
  · dsimp only
    split
    · exact hcall
    · exact hcall.setTask ..
  · exact hcall.setTask ..

theorem UsesOnly.flushOf (t : TaskId) : UsesOnly P σ (τ.flushOf t) := by
  unfold Scheduler.flushOf
  split
  · exact h
  · exact h.setSc .flush

theorem UsesOnly.requeue (t : TaskId) : UsesOnly P σ (τ.requeue t) := by
  unfold Scheduler.requeue
  split_ifs
  · exact (h.setTask ..).rqEnqueue t
  · exact h.setTask ..
  · exact h

theorem UsesOnly.dispatchOut (call : FaultCall) (outgoing : Option TaskId) :
    UsesOnly P σ (τ.dispatchOut call outgoing) := by
  cases outgoing with
  | none => exact h
  | some t =>
    apply setTask
    apply requeue
    apply flushOf
    exact h.dispatchTimeout t call

theorem UsesOnly.dispatchIn (cpu : ℕ) (chosen : Option TaskId) :
    UsesOnly P σ (τ.dispatchIn cpu chosen) := by
  cases chosen with
  | none => exact h
  | some t => exact h.frame rfl rfl

theorem UsesOnly.schedPickForDispatch (cpu : ℕ) (outgoing : Option TaskId)
    (call : FaultCall) : UsesOnly P σ (τ.schedPickForDispatch cpu outgoing call) := by
  apply dispatchIn
  apply dispatchPick
  exact h.dispatchOut call outgoing

theorem UsesOnly.tickSlice (cpu : ℕ) (t : TaskId) : UsesOnly P σ (τ.tickSlice cpu t) := h.setTask ..

theorem UsesOnly.schedTickLocal (cpu : ℕ)
    (hP : ∀ t sc, τ.current cpu = some t → (τ.tasks t).state = .running →
      (τ.tasks t).schedCtx = some sc → P τ.ticks (τ.scs sc)) :
    UsesOnly P σ (τ.schedTickLocal cpu) := by
  unfold Scheduler.schedTickLocal
  split
  · exact h
  rename_i t ht
  split
  · exact h.tickSlice cpu t
  rename_i sc hsc
  split_ifs with hstate
  · exact h.tickSlice cpu t
  have hcharge := h.setSc (.charge (hP t sc ht (not_not.mp hstate) hsc))
  dsimp only
  split_ifs
  · exact hcharge.tickSlice cpu t
  · exact hcharge.setTask ..
  · exact (hcharge.setSc .flush).setTask ..
  · exact (hcharge.setSc .flush).setTask ..

end
/-! ## The scan of the global tick -/

section
variable {σ : Scheduler} {t : TaskId}

def woken (task : Task) : Task :=
  { task with wakeTick := 0, state := if task.terminal then task.state else .ready }

/-- The context of an overdue thread after the scan. -/
def restored (c : KSchedContext) : KSchedContext := { c with remainingBudget := c.budgetTicks }

/-- A scan wakes the overdue threads, with the whole budget of their contexts. -/
structure Scanned (L : List TaskId) (σ τ : Scheduler) : Prop where
  frame : τ.ticks = σ.ticks ∧ τ.current = σ.current ∧ τ.threadList = σ.threadList
  tasks : ∀ u, τ.tasks u =
    if u ∈ L ∧ σ.overdue u = true then woken (σ.tasks u) else σ.tasks u
  scs : ∀ sc, τ.scs sc =
    if ∃ t ∈ L, σ.overdue t = true ∧ (σ.tasks t).schedCtx = some sc then restored (σ.scs sc)
    else σ.scs sc

theorem tasks_taskWakeup (h : (σ.tasks t).state ≠ .dead) : (σ.taskWakeup t).tasks =
    update σ.tasks t { σ.tasks t with
      state := if (σ.tasks t).terminal then (σ.tasks t).state else .ready } := by
  unfold taskWakeup
  cases hterm : (σ.tasks t).terminal with
  | true =>
    simp only [or_true, if_true]
    exact (update_eq_self t _).symm
  | false =>
    simp only [h, or_self, if_false, Bool.false_eq_true]
    split_ifs <;> simp [setTask]

theorem wakeOverdue_spec (ht : σ.overdue t = true) :
    ((σ.wakeOverdue t).ticks = σ.ticks ∧ (σ.wakeOverdue t).current = σ.current ∧
      (σ.wakeOverdue t).threadList = σ.threadList) ∧
    (σ.wakeOverdue t).tasks = update σ.tasks t (woken (σ.tasks t)) ∧
    ∀ sc, (σ.wakeOverdue t).scs sc =
      if (σ.tasks t).schedCtx = some sc then restored (σ.scs sc) else σ.scs sc := by
  have hstate : (σ.tasks t).state ≠ .dead := by
    simp only [overdue, Bool.and_eq_true, decide_eq_true_eq] at ht
    simp [ht.1.1]
  rw [wakeOverdue, if_pos ht]
  cases hsc : (σ.tasks t).schedCtx with
  | none => simp [tasks_taskWakeup, setTask, hstate, woken]
  | some sc =>
    refine ⟨by simp [setTask, setSc], ?_, fun sc' => ?_⟩
    · rw [tasks_taskWakeup (by simpa [setTask] using hstate)]
      simp [setTask, setSc, woken]
    · by_cases hne : sc' = sc
      · simp [hne, restored]
      · simp [scs_setSc_of_ne _ _ _ hne, Ne.symm hne]

theorem foldl_scanned (L : List TaskId) (σ : Scheduler) : Scanned L σ (L.foldl wakeOverdue σ) := by
  induction L generalizing σ with
  | nil => exact ⟨⟨rfl, rfl, rfl⟩, by simp, by simp⟩
  | cons t L ih =>
    by_cases ht : σ.overdue t = true
    · obtain ⟨⟨hticks, hcurrent, hlist⟩, htasks, hscs⟩ := wakeOverdue_spec ht
      obtain ⟨⟨hticks', hcurrent', hlist'⟩, htasks', hscs'⟩ := ih (σ.wakeOverdue t)
      have hover : ∀ u, (σ.wakeOverdue t).overdue u = true ↔ u ≠ t ∧ σ.overdue u = true := fun u => by
        by_cases hu : u = t <;> simp [overdue, htasks, hticks, hu, woken]
      have hctx : ∀ u, ((σ.wakeOverdue t).tasks u).schedCtx = (σ.tasks u).schedCtx := fun u => by
        by_cases hu : u = t <;> simp [htasks, hu, woken]
      refine ⟨⟨hticks'.trans hticks, hcurrent'.trans hcurrent, hlist'.trans hlist⟩, fun u => ?_,
        fun sc => ?_⟩
      · rw [List.foldl_cons, htasks']
        by_cases hu : u = t <;> simp [hover, htasks, hu, ht]
      rw [List.foldl_cons, hscs']
      by_cases hsc : (σ.tasks t).schedCtx = some sc
      · simp [hscs, ht, hsc, restored]
      have hiff : (∃ u ∈ L, (σ.wakeOverdue t).overdue u = true ∧
            ((σ.wakeOverdue t).tasks u).schedCtx = some sc) ↔
          ∃ u ∈ t :: L, σ.overdue u = true ∧ (σ.tasks u).schedCtx = some sc := by
        grind
      simp only [hiff, hscs, hsc, if_false]
    · have hskip : σ.wakeOverdue t = σ := if_neg ht
      obtain ⟨hframe, htasks, hscs⟩ := ih σ
      rw [List.foldl_cons, hskip]
      refine ⟨hframe, fun u => ?_, fun sc => ?_⟩
      · rw [htasks]
        by_cases hu : u = t
        · simp [hu, ht]
        · simp [hu]
      · rw [hscs]
        simp [ht]

/-- The state in which the scan of the global tick begins. -/
def ticked (σ : Scheduler) : Scheduler := { σ with ticks := u64 (σ.ticks + 1) }

theorem schedTickGlobal_scanned (σ : Scheduler) :
    Scanned σ.threadList σ.ticked σ.schedTickGlobal := foldl_scanned ..

end
/-! ## System calls -/

section
variable {σ τ : Scheduler} {sc : ScId} {t : TaskId}

theorem Rebinds.unbind (h : Rebinds σ τ) (sc : ScId) (t : Option TaskId) :
    Rebinds σ (τ.setSc sc ((τ.scs sc).unbind t)) := by
  obtain ⟨u, hu⟩ := unbind_eq (τ.scs sc) t
  rw [hu]
  exact h.setSc sc u

theorem Rebinds.scUnbind (h : Rebinds σ τ) (sc : ScId) : Rebinds σ (τ.scUnbind sc) := by
  apply Rebinds.unbind
  split
  · exact h
  · split_ifs
    · exact h.frame rfl rfl
    · exact h

theorem Rebinds.detach (h : Rebinds σ τ) (t : TaskId) : Rebinds σ (τ.detach t) := by
  unfold Scheduler.detach
  split
  · exact h
  · exact h.unbind _ (some t)

/-- A thread takes a context over, after changes of bound threads. -/
structure Attaches (σ τ : Scheduler) (sc : ScId) : Prop where
  mid : ∃ υ : Scheduler, Rebinds σ υ ∧ τ.ticks = υ.ticks ∧
    τ.scs = update υ.scs sc (υ.scs sc).wholeBudget

theorem Rebinds.attach (h : Rebinds σ τ) (sc : ScId) (t : TaskId) :
    Attaches σ (τ.attach sc t) sc := ⟨τ, h, rfl, rfl⟩

/-- The context is configured and bound to no other thread. -/
def free (σ : Scheduler) (sc : ScId) (t : TaskId) : Bool :=
  (σ.scs sc).configured && (σ.scs sc).boundTask.all (· = t)

/-- The context that a call attaches to a thread: it is free, and where the caller names the thread
too the call has the rights to both and the thread has none yet. -/
def attachedBy (σ : Scheduler) : Action → Option ScId
  | .scBind (.ok (sc, rights)) (some (.ok (t, tcbRights))) =>
    if rightsCheck rights rightWrite && rightsCheck tcbRights rightWrite && σ.free sc t &&
      !(σ.tasks t).terminal && (σ.tasks t).configured && (σ.tasks t).schedCtx.isNone
    then some sc else none
  | .threadSetSc t (some (.ok sc)) => if σ.free sc t then some sc else none
  | _ => none

theorem sysScConfigure_cases (σ : Scheduler) (control : Bool) (cap : Resolved ScId)
    (budget period : UInt64) :
    (σ.sysScConfigure control cap budget period).1 = σ ∨ control = true ∧ ∃ sc c,
      (σ.scs sc).configure budget.toNat period.toNat = .ok c ∧
      (σ.sysScConfigure control cap budget period).1 = σ.setSc sc c := by
  unfold sysScConfigure
  split_ifs with hcontrol
  · exact .inl rfl
  split
  · exact .inl rfl
  split_ifs
  · exact .inl rfl
  · split
    · exact .inl rfl
    · rename_i hc
      exact .inr ⟨by simpa using hcontrol, _, _, hc, rfl⟩

theorem sysScBind_thread (σ : Scheduler) (sc : ScId) (rights : Rights) (t : TaskId)
    (tcbRights : Rights) :
    let p := σ.sysScBind (.ok (sc, rights)) (some (.ok (t, tcbRights)))
    Rebinds σ p.1 ∨
      σ.attachedBy (.scBind (.ok (sc, rights)) (some (.ok (t, tcbRights)))) = some sc ∧
        Attaches σ p.1 sc := by
  unfold sysScBind
  dsimp only
  split_ifs with hwrite htcb hconf hterm htask hbusy
  iterate 6 exact .inl (.refl σ)
  cases hbind : (σ.scs sc).bind t with
  | error e => exact .inl (.refl σ)
  | ok c =>
    obtain ⟨hfree, rfl⟩ := bind_eq hbind
    have hrebind := (Rebinds.refl σ).setSc sc (some t)
    dsimp only
    split_ifs with hnew
    · refine .inr ⟨if_pos ?_, hrebind.attach sc t⟩
      have hnone : (σ.tasks t).schedCtx = none := by_contra fun hsome => hbusy ⟨hsome, hnew⟩
      simp_all [free]
    · exact .inl hrebind

theorem sysScBind_cases (σ : Scheduler) (cap : Resolved ScId) (tcb : Option (Resolved TaskId)) :
    Rebinds σ (σ.sysScBind cap tcb).1 ∨
      ∃ sc, σ.attachedBy (.scBind cap tcb) = some sc ∧ Attaches σ (σ.sysScBind cap tcb).1 sc := by
  match cap, tcb with
  | .error e, tcb => exact .inl (.refl σ)
  | .ok (sc, rights), none =>
    left
    unfold sysScBind
    dsimp only
    split_ifs
    · exact .refl σ
    · exact (Rebinds.refl σ).scUnbind sc
  | .ok (sc, rights), some (.error e) =>
    left
    unfold sysScBind
    dsimp only
    split_ifs
    · exact .refl σ
    · exact .refl σ
  | .ok (sc, rights), some (.ok (t, tcbRights)) =>
    cases sysScBind_thread σ sc rights t tcbRights with
    | inl h => exact .inl h
    | inr h => exact .inr ⟨sc, h⟩

theorem sysThreadSetSc_cases (σ : Scheduler) (t : TaskId) (cap : Option (Except IrisError ScId)) :
    Rebinds σ (σ.sysThreadSetSc t cap).1 ∨
      ∃ sc, σ.attachedBy (.threadSetSc t cap) = some sc ∧
        Attaches σ (σ.sysThreadSetSc t cap).1 sc := by
  match cap with
  | none => exact .inl (((Rebinds.refl σ).detach t).frame rfl rfl)
  | some (.error e) => exact .inl (.refl σ)
  | some (.ok sc) =>
    unfold sysThreadSetSc
    dsimp only
    split_ifs with hconf
    · exact .inl (.refl σ)
    cases hbind : (σ.scs sc).bind t with
    | error e => exact .inl (.refl σ)
    | ok c =>
      obtain ⟨hfree, rfl⟩ := bind_eq hbind
      refine .inr ⟨sc, if_pos ?_, (((Rebinds.refl σ).setSc sc (some t)).detach t).attach sc t⟩
      simp_all [free]

theorem sysScConsumed_cases (σ : Scheduler) (writable : Bool) (cap : Except IrisError ScId)
    (copied : Bool) :
    (σ.sysScConsumed writable cap copied).1 = σ ∨ writable = true ∧ ∃ sc, cap = .ok sc ∧
      (σ.sysScConsumed writable cap copied).1 =
        σ.setSc sc ((σ.scs sc).readConsumed σ.ticks) := by
  cases writable with
  | false => exact .inl rfl
  | true =>
    cases cap with
    | error e => exact .inl rfl
    | ok sc =>
      refine .inr ⟨rfl, sc, rfl, ?_⟩
      cases copied <;> rfl

theorem sysScYieldTo_frame (σ : Scheduler) (t : TaskId) (writable : Bool)
    (cap : Except IrisError ScId) (copied : Bool) :
    (σ.sysScYieldTo t writable cap copied).1.scs = σ.scs ∧
      (σ.sysScYieldTo t writable cap copied).1.ticks = σ.ticks := by
  cases writable with
  | false => exact ⟨rfl, rfl⟩
  | true =>
    cases cap with
    | error e => exact ⟨rfl, rfl⟩
    | ok sc =>
      simp only [sysScYieldTo, Bool.not_true, Bool.false_eq_true, if_false]
      split
      · exact ⟨rfl, rfl⟩
      · split_ifs <;> exact ⟨rfl, rfl⟩

end

/-! ## Every action -/

/-- An action uses contexts, is one of the calls that do more, or the tick, whose scan comes first.
-/
inductive Effect (P : ℕ → KSchedContext → Prop) (σ : Scheduler) : Action → Scheduler → Prop
  | uses {a τ} (h : UsesOnly P σ τ) : Effect P σ a τ
  | retype {objArg τ} (hdepth : refillDepthOk objArg = true) (hticks : τ.ticks = σ.ticks)
      (hscs : τ.scs = update σ.scs σ.numScs (kschedctxAllocAt objArg)) :
      Effect P σ (.retype objArg) τ
  | configure {cap budget period sc c}
      (hc : (σ.scs sc).configure (UInt64.toNat budget) (UInt64.toNat period) = .ok c) :
      Effect P σ (.scConfigure true cap budget period) (σ.setSc sc c)
  | attach {a τ sc} (ha : σ.attachedBy a = some sc) (h : Attaches σ τ sc) : Effect P σ a τ
  | consumed {sc copied} : Effect P σ (.scConsumed true (.ok sc) copied)
      (σ.setSc sc ((σ.scs sc).readConsumed σ.ticks))
  | tick {mid τ} (hmid : Scanned σ.threadList σ.ticked mid) (h : UsesOnly P mid τ) :
      Effect P σ .tick τ

section
variable {P I : ℕ → KSchedContext → Prop} {σ τ : Scheduler} {a : Action}

theorem UsesOnly.keeps (h : UsesOnly P σ τ)
    (huse : ∀ {p q}, Uses P p q → I p.1 p.2 → I q.1 q.2) (hσ : ∀ sc, I σ.ticks (σ.scs sc))
    (sc : ScId) : I τ.ticks (τ.scs sc) := by
  have hall : ∀ q, ReflTransGen (Uses P) (σ.ticks, σ.scs sc) q → I q.1 q.2 := by
    intro q hq
    induction hq with
    | refl => exact hσ sc
    | tail _ hu ih => exact huse hu ih
  exact hall _ (h.chain sc)

/-- An invariant of contexts that every use keeps and that the calls that do more establish or
keep. -/
theorem Effect.keeps (h : Effect P σ a τ) (huse : ∀ {p q}, Uses P p q → I p.1 p.2 → I q.1 q.2)
    (halloc : ∀ {now} objArg, I now (kschedctxAllocAt objArg))
    (hconf : ∀ {now c c'} {budget period : UInt64},
      c.configure budget.toNat period.toNat = .ok c' → I now c → I now c')
    (hwhole : ∀ {now c}, I now c → I now c.wholeBudget)
    (hread : ∀ sc copied, a = .scConsumed true (.ok sc) copied → I σ.ticks (σ.scs sc) →
      I σ.ticks ((σ.scs sc).readConsumed σ.ticks))
    (hscan : ∀ mid, a = .tick → Scanned σ.threadList σ.ticked mid →
      (∀ sc, I σ.ticks (σ.scs sc)) → ∀ sc, I mid.ticks (mid.scs sc))
    (hσ : ∀ sc, I σ.ticks (σ.scs sc)) : ∀ sc, I τ.ticks (τ.scs sc) := by
  cases h with
  | uses h => exact h.keeps huse hσ
  | retype _ hticks hscs =>
    rw [hticks, hscs]
    exact (forall_update_iff _ fun _ c => I σ.ticks c).mpr ⟨halloc _, fun sc _ => hσ sc⟩
  | configure hc =>
    exact (forall_update_iff _ fun _ c => I σ.ticks c).mpr ⟨hconf hc (hσ _), fun sc _ => hσ sc⟩
  | attach _ h =>
    obtain ⟨υ, hbind, hticks, hscs⟩ := h.mid
    have hυ := hbind.usesOnly.keeps huse hσ
    rw [hticks, hscs]
    exact (forall_update_iff _ fun _ c => I υ.ticks c).mpr ⟨hwhole (hυ _), fun sc _ => hυ sc⟩
  | consumed =>
    exact (forall_update_iff _ fun _ c => I σ.ticks c).mpr ⟨hread _ _ rfl (hσ _), fun sc _ => hσ sc⟩
  | tick hmid h => exact h.keeps huse (hscan _ rfl hmid hσ)

end

/-- The charges that an action makes are allowed. -/
structure ChargesAllowed (P : ℕ → KSchedContext → Prop) (σ : Scheduler) (a : Action) : Prop where
  charge : ∀ sc, a = .charge sc → P σ.ticks (σ.scs sc)
  remote : ∀ cpu t sc, a = .tickRemote cpu → σ.current cpu = some t →
    (σ.tasks t).state = .running → (σ.tasks t).schedCtx = some sc → P σ.ticks (σ.scs sc)
  timer : ∀ mid t sc, a = .tick → Scanned σ.threadList σ.ticked mid → σ.current 0 = some t →
    (σ.tasks t).state = .running → (σ.tasks t).schedCtx = some sc → P σ.ticked.ticks (mid.scs sc)

theorem act_effect {P : ℕ → KSchedContext → Prop} (σ : Scheduler) (a : Action)
    (hP : ChargesAllowed P σ a) : Effect P σ a (σ.act a) := by
  have hrefl : UsesOnly P σ σ := .refl σ
  cases a with
  | retype objArg =>
    simp only [act]
    split_ifs with hdepth
    · exact .retype hdepth rfl rfl
    · exact .uses hrefl
  | register t task =>
    simp only [act]
    split_ifs
    · exact .uses hrefl
    · exact .uses (hrefl.frame rfl rfl)
  | setTimeoutEp t armed => exact .uses (hrefl.setTask ..)
  | block t state =>
    simp only [act]
    split_ifs
    · exact .uses (hrefl.setTask ..)
    · exact .uses hrefl
  | wakeup t => exact .uses (hrefl.taskWakeup t)
  | suspend t =>
    simp only [act, taskSuspend]
    split_ifs
    · exact .uses hrefl
    · exact .uses (hrefl.frame rfl rfl)
  | teardown t => exact .uses (hrefl.taskTeardown t)
  | scConfigure control cap budget period =>
    simp only [act]
    cases sysScConfigure_cases σ control cap budget period with
    | inl h =>
      rw [h]
      exact .uses hrefl
    | inr h =>
      obtain ⟨rfl, sc, c, hc, h⟩ := h
      rw [h]
      exact .configure hc
  | scBind cap tcb =>
    cases sysScBind_cases σ cap tcb with
    | inl h => exact .uses h.usesOnly
    | inr h =>
      obtain ⟨sc, hsc, h⟩ := h
      exact .attach hsc h
  | threadSetSc t cap =>
    cases sysThreadSetSc_cases σ t cap with
    | inl h => exact .uses h.usesOnly
    | inr h =>
      obtain ⟨sc, hsc, h⟩ := h
      exact .attach hsc h
  | scConsumed writable cap copied =>
    simp only [act]
    cases sysScConsumed_cases σ writable cap copied with
    | inl h =>
      rw [h]
      exact .uses hrefl
    | inr h =>
      obtain ⟨rfl, sc, rfl, h⟩ := h
      rw [h]
      exact .consumed
  | scYieldTo t writable cap copied =>
    have h := sysScYieldTo_frame σ t writable cap copied
    exact .uses (hrefl.frame h.1 h.2)
  | stage r =>
    simp only [act, kreplyStage]
    split_ifs
    · exact .uses hrefl
    · exact .uses (hrefl.setReply ..)
  | epCall r sender receiver => exact .uses (hrefl.epCall r sender receiver)
  | reply r => exact .uses (hrefl.sysReply r)
  | cancelCaller r => exact .uses (hrefl.kreplyCancelCaller r)
  | replyClose r => exact .uses (hrefl.kreplyObjClose r)
  | charge sc => exact .uses (hrefl.setSc (.charge (hP.charge sc rfl)))
  | flush sc => exact .uses (hrefl.setSc .flush)
  | applyRefills sc => exact .uses (hrefl.setSc .apply)
  | advance n => exact .uses (.of_le rfl (Nat.le_add_right _ _))
  | tick =>
    have hmid := schedTickGlobal_scanned σ
    refine .tick hmid ((UsesOnly.refl _).schedTickLocal 0 fun t sc ht hstate hsc => ?_)
    rw [hmid.frame.2.1] at ht
    have hsame : σ.schedTickGlobal.tasks t = σ.tasks t := by
      rw [hmid.tasks] at hstate ⊢
      split_ifs at hstate ⊢ with hover
      · simp only [overdue, Bool.and_eq_true, decide_eq_true_eq] at hover
        simp only [woken, hover.2.1.1] at hstate
        split_ifs at hstate
      · rfl
    rw [hsame] at hstate hsc
    rw [hmid.frame.1]
    exact hP.timer _ t sc rfl hmid ht hstate hsc
  | tickRemote cpu =>
    exact .uses (hrefl.schedTickLocal cpu fun t sc => hP.remote cpu t sc rfl)
  | dispatch cpu outgoing call => exact .uses (hrefl.schedPickForDispatch cpu outgoing call)

end Scheduler
end IrisOS.Sched
