import IrisOS.Lib.Steps
import IrisOS.Sched.Conserve

/-! Refills that fall due. The tick wakes a thread at a deadline of its own and charges the threads
that run; it looks at no refill, which only an idle processor does. -/
namespace IrisOS.Sched
open Lib Function

/-- A ring gets no entry that is due before the refill that is queued. -/
theorem KSchedContext.mem_queueRefill {ring : RingBuffer KRefill} {r x : KRefill}
    (hx : x ∈ (queueRefill ring r).toList) : x ∈ ring.toList ∨ r.due ≤ x.due := by
  unfold queueRefill at hx
  split_ifs at hx
  · refine (RingBuffer.mem_toList_push hx).imp_right ?_
    rintro rfl
    exact le_rfl
  · refine (RingBuffer.mem_toList_setNewest hx).imp_right ?_
    rintro rfl
    dsimp only
    split_ifs <;> omega

namespace Scheduler

/-- The thread is parked, or has no budget left and no timeout recorded or waiting. -/
def lacks (task : Task) (c : KSchedContext) : Bool :=
  task.state = .budgetExhausted ||
    c.remainingBudget = 0 && !task.timeoutPending && !task.epFaultCall

/-- A thread that is held back has no refill that is due. -/
def inTime (now : ℕ) (task : Task) (c : KSchedContext) : Bool :=
  !lacks task c || c.pending.all fun r => now < r.due

/-- No thread is held back while a refill of its context is due. -/
def punctual (σ : Scheduler) : Bool :=
  σ.threadList.all fun t => (σ.tasks t).schedCtx.all fun sc =>
    inTime σ.ticks (σ.tasks t) (σ.scs sc)

/-- A processor runs a thread on the context. -/
def chargesSc (σ : Scheduler) (sc : ScId) (cpu : ℕ) : Bool :=
  (σ.current cpu).any fun t =>
    (σ.tasks t).state = .running && (σ.tasks t).schedCtx = some sc

def charges (σ : Scheduler) (cpus : List ℕ) (sc : ScId) : ℕ := cpus.countP (σ.chargesSc sc)

/-- What the context has left when the tick charges: all its budget if a thread on it is overdue. -/
def leftAtTick (σ : Scheduler) (sc : ScId) : ℕ :=
  if ∃ t ∈ σ.threadList, σ.ticked.overdue t = true ∧ (σ.tasks t).schedCtx = some sc
  then (σ.scs sc).budgetTicks else (σ.scs sc).remainingBudget

/-- The thread is parked, and the tick does not wake it. -/
def staysParked (σ : Scheduler) (t : TaskId) : Prop :=
  (σ.tasks t).state = .budgetExhausted ∧ (σ.ticked.overdue t = true → (σ.tasks t).terminal = true)

/-- The refill for the run that a charge at `now` belongs to falls due later. -/
def closesLater (now left : ℕ) (c : KSchedContext) : Prop :=
  c.consumedRun = 0 ∧ left = 0 ∨
    now < u64 ((if c.consumedRun = 0 then now else c.consumeStart) + c.periodTicks)

/-- A timeout is recorded or waits, and a charge does not park the thread. -/
def excused (task : Task) : Prop :=
  (task.timeoutPending = true ∨ task.epFaultCall = true) ∧
    (task.state ≠ .running ∨ task.timeoutEp = true)

/-- What keeps a thread from being held back by a tick with a refill due: there is none, and none is
queued; or it is not parked, and its context has more left than the processors charge, or a timeout
of its own is outstanding, or will be if only its own processor charges. -/
def Covered (now charges left : ℕ) (current parked : Prop) (task : Task) (c : KSchedContext) :
    Prop :=
  ((∀ r ∈ c.pending, now < r.due) ∧ (charges = 0 ∨ closesLater now left c)) ∨
  ¬ parked ∧ (charges < left ∨ excused task ∨
    current ∧ task.state = .running ∧ task.timeoutEp = true ∧ charges = 1)

/-- Before a tick that the given processors take, every thread on a context is covered. -/
def TickCovers (σ : Scheduler) (cpus : List ℕ) : Prop :=
  ∀ t ∈ σ.threadList, ∀ sc ∈ (σ.tasks t).schedCtx,
    Covered σ.ticked.ticks (σ.charges cpus sc) (σ.leftAtTick sc) (∃ cpu ∈ cpus, σ.current cpu = some t)
      (σ.staysParked t) (σ.tasks t) (σ.scs sc)

instance decidableTickCovers (σ : Scheduler) (cpus : List ℕ) : Decidable (σ.TickCovers cpus) := by
  unfold TickCovers Covered excused closesLater staysParked
  infer_instance

/-- The same for the processors whose local tick is still to come. -/
def Covers (σ : Scheduler) (cpus : List ℕ) : Prop :=
  ∀ t ∈ σ.threadList, ∀ sc, (σ.tasks t).schedCtx = some sc →
    Covered σ.ticks (σ.charges cpus sc) (σ.scs sc).remainingBudget
      (∃ cpu ∈ cpus, σ.current cpu = some t) ((σ.tasks t).state = .budgetExhausted) (σ.tasks t)
      (σ.scs sc)

section
variable {σ τ : Scheduler} {sc : ScId} {t : TaskId} {c c' : KSchedContext} {now : ℕ} {task : Task}
  {cpu : ℕ} {cpus : List ℕ}

theorem Covers.punctual (h : σ.Covers []) : σ.punctual = true := by
  simp only [Scheduler.punctual, List.all_eq_true, Option.all_eq_true]
  intro t ht sc hsc
  unfold inTime
  rcases h t ht sc hsc with ⟨hdue, -⟩ | ⟨hparked, hleft | ⟨hout, -⟩ | ⟨⟨cpu, hmem, -⟩, -⟩⟩
  · have hall : (σ.scs sc).pending.all (fun r => σ.ticks < r.due) = true := by simpa using hdue
    rw [hall, Bool.or_true]
  · have hpos : (σ.scs sc).remainingBudget ≠ 0 := Nat.ne_of_gt (Nat.zero_lt_of_lt hleft)
    simp [lacks, hparked, hpos]
  · rcases hout with hout | hout <;> simp [lacks, hparked, hout]
  · exact absurd hmem List.not_mem_nil

theorem charges_congr (hcurrent : τ.current = σ.current)
    (htasks : ∀ t, (τ.tasks t).state = .running ∧ (τ.tasks t).schedCtx = some sc ↔
      (σ.tasks t).state = .running ∧ (σ.tasks t).schedCtx = some sc) :
    τ.charges cpus sc = σ.charges cpus sc := by
  unfold charges
  congr 1
  funext cpu
  unfold chargesSc
  rw [hcurrent]
  congr 1
  funext t
  rw [Bool.eq_iff_iff]
  simpa using htasks t

/-- What the scan does to one thread. -/
theorem tasks_schedTickGlobal (σ : Scheduler) (t : TaskId) :
    σ.schedTickGlobal.tasks t = σ.tasks t ∧ (t ∈ σ.threadList → ¬ σ.ticked.overdue t = true) ∨
      (σ.tasks t).state = .budgetExhausted ∧ σ.schedTickGlobal.tasks t = woken (σ.tasks t) := by
  rw [(schedTickGlobal_scanned σ).tasks]
  split_ifs with hover
  · obtain ⟨-, hstate⟩ := hover
    simp only [overdue, Bool.and_eq_true, decide_eq_true_eq] at hstate
    exact .inr ⟨hstate.1.1, rfl⟩
  · exact .inl ⟨rfl, fun ht ho => hover ⟨ht, ho⟩⟩

theorem woken_state (h : task.state = .budgetExhausted) :
    (woken task).state ≠ .running ∧
      ((woken task).state = .budgetExhausted → task.terminal = true) := by
  unfold woken
  dsimp only
  split_ifs with hterm <;> simp [h, hterm]

/-- The scan leaves every thread covered. -/
theorem TickCovers.covers (h : σ.TickCovers cpus) : σ.schedTickGlobal.Covers cpus := by
  obtain ⟨⟨hticks, hcurrent, hlist⟩, -, hscs⟩ := schedTickGlobal_scanned σ
  intro t ht sc hsc
  rw [hlist] at ht
  have hctx : ∀ u, (σ.schedTickGlobal.tasks u).schedCtx = (σ.tasks u).schedCtx := fun u => by
    rcases tasks_schedTickGlobal σ u with ⟨heq, -⟩ | ⟨-, heq⟩ <;> rw [heq]
    rfl
  have hrun : ∀ u, (σ.schedTickGlobal.tasks u).state = .running ↔
      (σ.tasks u).state = .running := fun u => by
    rcases tasks_schedTickGlobal σ u with ⟨heq, -⟩ | ⟨hstate, heq⟩
    · rw [heq]
    · rw [heq]
      exact iff_of_false (woken_state hstate).1 (by simp [hstate])
  have hcharges : σ.schedTickGlobal.charges cpus sc = σ.charges cpus sc :=
    charges_congr hcurrent fun u => by rw [hrun, hctx]
  obtain ⟨b, hb, hleft⟩ : ∃ b, σ.schedTickGlobal.scs sc = { σ.scs sc with remainingBudget := b } ∧
      b = σ.leftAtTick sc := by
    by_cases hover : ∃ t ∈ σ.threadList,
        σ.ticked.overdue t = true ∧ (σ.tasks t).schedCtx = some sc
    · exact ⟨_, (hscs sc).trans (if_pos hover), (if_pos hover).symm⟩
    · exact ⟨_, (hscs sc).trans (if_neg hover), (if_neg hover).symm⟩
  subst hleft
  rw [hcharges, hb, hcurrent, hticks]
  rcases h t ht sc (hctx t ▸ hsc) with hquiet | ⟨hparked, hfunds⟩
  · exact .inl hquiet
  rcases tasks_schedTickGlobal σ t with ⟨heq, hnot⟩ | ⟨hstate, heq⟩
  · rw [heq]
    exact .inr ⟨fun hstate => hparked ⟨hstate, fun ho => absurd ho (hnot ht)⟩, hfunds⟩
  · rw [heq]
    obtain ⟨hidle, hterm⟩ := woken_state hstate
    refine .inr ⟨fun hstays => hparked ⟨hstate, fun _ => hterm hstays⟩, ?_⟩
    rcases hfunds with hleft | hexcused | ⟨-, hrunning, -⟩
    · exact .inl hleft
    · exact .inr (.inl ⟨hexcused.1, .inl hidle⟩)
    · simp [hstate] at hrunning

/-- Two states of a thread in which it is held back or not alike. -/
structure Alike (task task' : Task) : Prop where
  state : task'.state = task.state
  schedCtx : task'.schedCtx = task.schedCtx
  timeoutEp : task'.timeoutEp = task.timeoutEp
  timeoutPending : task'.timeoutPending = task.timeoutPending
  epFaultCall : task'.epFaultCall = task.epFaultCall

theorem Alike.excused {task' : Task} (h : Alike task task') (hexcused : excused task) :
    Scheduler.excused task' := by
  unfold Scheduler.excused
  rwa [h.state, h.timeoutEp, h.timeoutPending, h.epFaultCall]

/-- What a local tick does that charges: budget is left, or a timeout is recorded, or the run is
closed. -/
inductive Charged (σ : Scheduler) (t : TaskId) (sc : ScId) : Scheduler → Prop
  | left (task : Task) (hfunds : 1 < (σ.scs sc).remainingBudget)
      (halike : Alike (σ.tasks t) task) :
      Charged σ t sc ((σ.setSc sc ((σ.scs sc).chargeTick σ.ticks).1).setTask t task)
  | timeout (task : Task) (hep : task.timeoutEp = true) (hpending : task.timeoutPending = true)
      (hstate : task.state = (σ.tasks t).state) (hctx : task.schedCtx = (σ.tasks t).schedCtx) :
      Charged σ t sc ((σ.setSc sc ((σ.scs sc).chargeTick σ.ticks).1).setTask t task)
  | closed (task : Task) (hep : (σ.tasks t).timeoutEp = false)
      (hlast : (σ.scs sc).remainingBudget ≤ 1) (hctx : task.schedCtx = (σ.tasks t).schedCtx) :
      Charged σ t sc ((σ.setSc sc ((σ.scs sc).chargeTick σ.ticks).1.flushRun).setTask t task)

theorem remaining_chargeTick (c : KSchedContext) (now : ℕ) :
    (c.chargeTick now).1.remainingBudget = c.remainingBudget - 1 := by
  rcases Nat.eq_zero_or_pos c.remainingBudget with hzero | hpos
  · rw [KSchedContext.chargeTick_of_zero hzero, hzero]
  · rw [KSchedContext.chargeTick_of_pos hpos]

theorem schedTickLocal_charged (hcur : σ.current cpu = some t)
    (hsc : (σ.tasks t).schedCtx = some sc) (hrun : (σ.tasks t).state = .running) :
    Charged σ t sc (σ.schedTickLocal cpu) := by
  have hleft := remaining_chargeTick (σ.scs sc) σ.ticks
  have hempty : ((σ.scs sc).chargeTick σ.ticks).2 =
      decide (((σ.scs sc).chargeTick σ.ticks).1.remainingBudget = 0) := rfl
  unfold schedTickLocal
  simp only [hcur, hsc, hrun, ne_eq, not_true, if_false]
  split_ifs with hfunds hep hrefill
  · exact .left _ (by simp [hempty, hleft] at hfunds; omega) ⟨rfl, rfl, rfl, rfl, rfl⟩
  · exact .timeout _ hep rfl rfl rfl
  all_goals
    have hlast : (σ.scs sc).remainingBudget ≤ 1 := by
      simp [hempty, hleft] at hfunds
      omega
    rw [scs_setSc_self, setSc, setSc, update_idem]
  · exact .closed _ (Bool.eq_false_iff.mpr hep) hlast rfl
  · exact .closed _ (Bool.eq_false_iff.mpr hep) hlast rfl

theorem pending_chargeTick (c : KSchedContext) (now : ℕ) :
    (c.chargeTick now).1.pending = c.pending := by
  unfold KSchedContext.chargeTick
  dsimp only
  split_ifs <;> rfl

theorem closesLater_chargeTick (h : closesLater now c.remainingBudget c) :
    closesLater now (c.chargeTick now).1.remainingBudget (c.chargeTick now).1 := by
  rcases Nat.eq_zero_or_pos c.remainingBudget with hzero | hpos
  · rwa [KSchedContext.chargeTick_of_zero hzero]
  · rw [KSchedContext.chargeTick_of_pos hpos]
    refine .inr ?_
    simpa [closesLater, hpos.ne'] using h

/-- The refill for a closed run is due later. -/
theorem pending_flushRun (hdue : ∀ r ∈ c.pending, now < r.due)
    (hlater : closesLater now 0 c) : ∀ r ∈ c.flushRun.pending, now < r.due := by
  unfold KSchedContext.flushRun
  split_ifs with hrun
  · exact hdue
  intro r hr
  rcases KSchedContext.mem_queueRefill hr with hold | hnew
  · exact hdue r hold
  · rcases hlater with ⟨hnone, -⟩ | hlater
    · exact absurd hnone hrun
    · rw [if_neg hrun] at hlater
      exact hlater.trans_le hnew

theorem closesLater_flushRun (hnone : c.remainingBudget = 0) :
    closesLater now c.flushRun.remainingBudget c.flushRun := by
  unfold KSchedContext.flushRun
  split_ifs with hrun
  · exact .inl ⟨hrun, hnone⟩
  · exact .inl ⟨rfl, hnone⟩

/-- A change of one context and of a thread on it touches only the threads on it. -/
theorem Covers.change (h : σ.Covers (cpu :: cpus)) (hcur : σ.current cpu = some t)
    (hsc : (σ.tasks t).schedCtx = some sc) (hctx : task.schedCtx = (σ.tasks t).schedCtx)
    (hown : ∀ u ∈ σ.threadList, (σ.tasks u).schedCtx = some sc →
      Covered σ.ticks (((σ.setSc sc c).setTask t task).charges cpus sc) c.remainingBudget
        (∃ cpu ∈ cpus, σ.current cpu = some u)
        ((((σ.setSc sc c).setTask t task).tasks u).state = .budgetExhausted)
        (((σ.setSc sc c).setTask t task).tasks u) c) :
    ((σ.setSc sc c).setTask t task).Covers cpus := by
  intro u hu sc' hu'
  have hctx' : ∀ u, (((σ.setSc sc c).setTask t task).tasks u).schedCtx = (σ.tasks u).schedCtx := by
    intro u
    by_cases hut : u = t
    · rw [hut]
      simpa [setTask] using hctx
    · simp [setTask, update_of_ne hut]
  rw [hctx'] at hu'
  by_cases hne : sc' = sc
  · subst hne
    rw [scs_setTask, scs_setSc_self]
    exact hown u hu hu'
  have hut : u ≠ t := by
    rintro rfl
    exact hne (Option.some.inj (hu'.symm.trans hsc))
  have htask : ((σ.setSc sc c).setTask t task).tasks u = σ.tasks u := by
    simp [setTask, update_of_ne hut]
  have hcharges : ((σ.setSc sc c).setTask t task).charges cpus sc' = σ.charges (cpu :: cpus) sc' := by
    have hidle : σ.chargesSc sc' cpu = false := by
      simp [chargesSc, hcur, hsc, Ne.symm hne]
    rw [charges, charges, List.countP_cons_of_neg (by simp [hidle])]
    refine charges_congr rfl fun v => ?_
    by_cases hvt : v = t
    · rw [hctx', hvt, hsc]
      simp [Ne.symm hne]
    · simp [setTask, update_of_ne hvt]
  have hcurrent : (∃ k ∈ cpu :: cpus, σ.current k = some u) ↔ ∃ k ∈ cpus, σ.current k = some u := by
    simp [hcur, Ne.symm hut]
  rw [hcharges, scs_setTask, scs_setSc_of_ne _ _ _ hne, htask]
  have hcovered := h u hu sc' hu'
  rwa [hcurrent] at hcovered

/-- A processor that is left to tick and runs a thread on the context charges it. -/
theorem charges_pos (hk : ∃ k ∈ cpus, σ.current k = some t)
    (hsc : (σ.tasks t).schedCtx = some sc) (hrun : (σ.tasks t).state = .running) :
    0 < σ.charges cpus sc := by
  obtain ⟨k, hmem, hcur⟩ := hk
  exact List.countP_pos_iff.mpr ⟨k, hmem, by simp [chargesSc, hcur, hrun, hsc]⟩

theorem Covers.setTask (h : σ.Covers cpus) (halike : Alike (σ.tasks t) task) :
    (σ.setTask t task).Covers cpus := by
  have hkeeps : ∀ u, Alike (σ.tasks u) ((σ.setTask t task).tasks u) := by
    intro u
    rcases eq_or_ne u t with rfl | hut
    · rw [show (σ.setTask u task).tasks u = task from update_self ..]
      exact halike
    · rw [show (σ.setTask t task).tasks u = σ.tasks u from update_of_ne hut ..]
      exact ⟨rfl, rfl, rfl, rfl, rfl⟩
  intro u hu sc hu'
  rw [(hkeeps u).schedCtx] at hu'
  have hcharges : (σ.setTask t task).charges cpus sc = σ.charges cpus sc :=
    charges_congr rfl fun v => by rw [(hkeeps v).state, (hkeeps v).schedCtx]
  rw [hcharges, (hkeeps u).state]
  rcases h u hu sc hu' with hquiet | ⟨hparked, hmore | hexcused | ⟨hk, hrun, hep, hone⟩⟩
  · exact .inl hquiet
  · exact .inr ⟨hparked, .inl hmore⟩
  · exact .inr ⟨hparked, .inr (.inl ((hkeeps u).excused hexcused))⟩
  · exact .inr ⟨hparked, .inr (.inr ⟨hk, (hkeeps u).state.trans hrun,
      (hkeeps u).timeoutEp.trans hep, hone⟩)⟩

theorem Covers.charged (h : σ.Covers (cpu :: cpus)) (hcur : σ.current cpu = some t)
    (hsc : (σ.tasks t).schedCtx = some sc) (hrun : (σ.tasks t).state = .running)
    (hτ : Charged σ t sc τ) : τ.Covers cpus := by
  have hcount : σ.charges (cpu :: cpus) sc = σ.charges cpus sc + 1 :=
    List.countP_cons_of_pos (by simp [chargesSc, hcur, hrun, hsc])
  have hleft := remaining_chargeTick (σ.scs sc) σ.ticks
  have hquiet (hdue : ∀ r ∈ (σ.scs sc).pending, σ.ticks < r.due)
      (hlater : σ.charges (cpu :: cpus) sc = 0 ∨
        closesLater σ.ticks (σ.scs sc).remainingBudget (σ.scs sc)) :
      (∀ r ∈ ((σ.scs sc).chargeTick σ.ticks).1.pending, σ.ticks < r.due) ∧
        closesLater σ.ticks ((σ.scs sc).chargeTick σ.ticks).1.remainingBudget
          ((σ.scs sc).chargeTick σ.ticks).1 :=
    ⟨pending_chargeTick (σ.scs sc) σ.ticks ▸ hdue,
      closesLater_chargeTick (hlater.resolve_left (by omega))⟩
  -- another thread is alone on the context only if this one does not run on it
  have halone : ∀ u, (σ.tasks u).schedCtx = some sc → (σ.tasks u).state = .running →
      (∃ k ∈ cpu :: cpus, σ.current k = some u) → σ.charges (cpu :: cpus) sc = 1 → u = t := by
    rintro u hu hurun ⟨k, hk, hku⟩ hone
    rcases List.mem_cons.mp hk with rfl | hk
    · exact Option.some.inj (hku.symm.trans hcur)
    · have hpos := charges_pos ⟨k, hk, hku⟩ hu hurun
      omega
  have htasks (c : KSchedContext) (task : Task) (u : TaskId) :
      u = t ∧ ((σ.setSc sc c).setTask t task).tasks u = task ∨
        u ≠ t ∧ ((σ.setSc sc c).setTask t task).tasks u = σ.tasks u := by
    rcases eq_or_ne u t with rfl | hut
    · exact .inl ⟨rfl, update_self ..⟩
    · exact .inr ⟨hut, update_of_ne hut ..⟩
  have hcharges (c : KSchedContext) (task : Task) (hctx : task.schedCtx = (σ.tasks t).schedCtx)
      (hstate : task.state = (σ.tasks t).state) :
      ((σ.setSc sc c).setTask t task).charges cpus sc = σ.charges cpus sc :=
    charges_congr rfl fun v => by
      rcases htasks c task v with ⟨rfl, heq⟩ | ⟨-, heq⟩
      · rw [heq, hctx, hstate]
      · rw [heq]
  cases hτ with
  | left task hfunds halike =>
    refine h.change hcur hsc halike.schedCtx fun u hu hu' => ?_
    rw [hcharges _ _ halike.schedCtx halike.state]
    have hkeeps : Alike (σ.tasks u) (((σ.setSc sc ((σ.scs sc).chargeTick σ.ticks).1).setTask t
        task).tasks u) := by
      rcases htasks ((σ.scs sc).chargeTick σ.ticks).1 task u with ⟨rfl, heq⟩ | ⟨-, heq⟩
      · exact heq.symm ▸ halike
      · exact heq.symm ▸ ⟨rfl, rfl, rfl, rfl, rfl⟩
    rw [hkeeps.state]
    rcases h u hu sc hu' with ⟨hdue, hlater⟩ | ⟨hparked, hmore | hexcused | ⟨-, -, -, hone⟩⟩
    · obtain ⟨hdue, hlater⟩ := hquiet hdue hlater
      exact .inl ⟨hdue, .inr hlater⟩
    · exact .inr ⟨hparked, .inl (by omega)⟩
    · exact .inr ⟨hparked, .inr (.inl (hkeeps.excused hexcused))⟩
    · exact .inr ⟨hparked, .inl (by omega)⟩
  | timeout task hep hpending hstate hctx =>
    refine h.change hcur hsc hctx fun u hu hu' => ?_
    rw [hcharges _ _ hctx hstate]
    rcases htasks ((σ.scs sc).chargeTick σ.ticks).1 task u with ⟨rfl, heq⟩ | ⟨hut, heq⟩
    · rw [heq, hstate, hrun]
      exact .inr ⟨by decide, .inr (.inl ⟨.inl hpending, .inr hep⟩)⟩
    · rw [heq]
      have hcovered := h u hu sc hu'
      rcases hcovered with ⟨hdue, hlater⟩ | ⟨hparked, hmore | hexcused | ⟨hk, hurun, -, hone⟩⟩
      · obtain ⟨hdue, hlater⟩ := hquiet hdue hlater
        exact .inl ⟨hdue, .inr hlater⟩
      · exact .inr ⟨hparked, .inl (by omega)⟩
      · exact .inr ⟨hparked, .inr (.inl hexcused)⟩
      · exact absurd (halone u hu' hurun hk hone) hut
  | closed task hep hlast hctx =>
    refine h.change hcur hsc hctx fun u hu hu' => ?_
    have hnone : ((σ.scs sc).chargeTick σ.ticks).1.remainingBudget = 0 := by omega
    rcases h u hu sc hu' with ⟨hdue, hlater⟩ | ⟨hparked, hmore | hexcused | ⟨hk, hurun, hep', hone⟩⟩
    · obtain ⟨hdue, hlater⟩ := hquiet hdue hlater
      rw [hnone] at hlater
      refine .inl ⟨pending_flushRun hdue hlater, .inr ?_⟩
      exact closesLater_flushRun hnone
    · omega
    · rcases htasks ((σ.scs sc).chargeTick σ.ticks).1.flushRun task u with ⟨rfl, -⟩ | ⟨-, heq⟩
      · exact absurd (hexcused.2.resolve_left (not_not.mpr hrun)) (by simp [hep])
      · rw [heq]
        exact .inr ⟨hparked, .inr (.inl hexcused)⟩
    · rw [halone u hu' hurun hk hone] at hep'
      exact absurd hep' (by simp [hep])

theorem Covers.schedTickLocal (h : σ.Covers (cpu :: cpus)) :
    (σ.schedTickLocal cpu).Covers cpus := by
  -- no thread on a context runs on this processor
  have hidle (hcharge : ∀ sc, σ.chargesSc sc cpu = false) : σ.Covers cpus := by
    intro u hu sc hu'
    have hcovered := h u hu sc hu'
    rw [charges, List.countP_cons_of_neg (by simp [hcharge sc])] at hcovered
    rcases hcovered with hquiet | ⟨hparked, hmore | hexcused | ⟨⟨k, hk, hku⟩, hurun, hep, hone⟩⟩
    · exact .inl hquiet
    · exact .inr ⟨hparked, .inl hmore⟩
    · exact .inr ⟨hparked, .inr (.inl hexcused)⟩
    · rcases List.mem_cons.mp hk with rfl | hk
      · exact absurd (hcharge sc) (by simp [chargesSc, hku, hurun, hu'])
      · exact .inr ⟨hparked, .inr (.inr ⟨⟨k, hk, hku⟩, hurun, hep, hone⟩)⟩
  cases hcur : σ.current cpu with
  | none =>
    rw [Scheduler.schedTickLocal, hcur]
    exact hidle fun sc => by simp [chargesSc, hcur]
  | some t =>
    have hslice (hcharge : ∀ sc, σ.chargesSc sc cpu = false) : (σ.tickSlice cpu t).Covers cpus :=
      (hidle hcharge).setTask ⟨rfl, rfl, rfl, rfl, rfl⟩
    cases hsc : (σ.tasks t).schedCtx with
    | none =>
      simp only [Scheduler.schedTickLocal, hcur, hsc]
      exact hslice fun sc => by simp [chargesSc, hcur, hsc]
    | some sc =>
      by_cases hrun : (σ.tasks t).state = .running
      · exact h.charged hcur hsc hrun (schedTickLocal_charged hcur hsc hrun)
      · simp only [Scheduler.schedTickLocal, hcur, hsc, ne_eq, hrun, not_false_eq_true, if_true]
        exact hslice fun sc => by simp [chargesSc, hcur, hrun]

theorem Covers.run (h : σ.Covers cpus) : (runFrom Scheduler.schedTickLocal σ cpus).Covers [] := by
  induction cpus generalizing σ with
  | nil => exact h
  | cons cpu cpus ih => exact ih h.schedTickLocal

end

/-- Right after a tick no thread is held back while a refill of its context is due, if every thread
on a context was covered before it. -/
theorem tick_leaves_no_refill_due (σ : Scheduler) {cpus : List ℕ} (h : σ.TickCovers cpus) :
    (runFrom schedTickLocal σ.schedTickGlobal cpus).punctual = true :=
  h.covers.run.punctual

/-- Thread 1 runs for one tick and sleeps for three; when it runs again, a refill is about to fall
due, and it has two ticks left. -/
def sleptRun : List Action :=
  boundRun 3 4 ++ [.tick, .dispatch 0 (some 1) .closed, .suspend 1, .dispatch 0 (some 1) .closed,
    .tick, .tick, .tick, .wakeup 1, .dispatch 0 none .closed]

theorem tick_leaves_no_refill_due_sleptRun :
    (let σ := Scheduler.run {} (boundRun 1 5)
    σ.current 0 = some 1 ∧ (σ.scs 0).remainingBudget = 1 ∧
      (runFrom schedTickLocal σ.schedTickGlobal [0, 1]).punctual = true) ∧
    let σ := Scheduler.run {} sleptRun
    σ.ticks = 4 ∧ (σ.scs 0).pending = [⟨5, 1⟩] ∧ σ.current 0 = some 1 ∧
      (runFrom schedTickLocal σ.schedTickGlobal [0, 1]).punctual = true :=
  ⟨⟨by decide, by decide, tick_leaves_no_refill_due _ (by decide +kernel)⟩, by decide +kernel,
    by decide +kernel, by decide +kernel, tick_leaves_no_refill_due _ (by decide +kernel)⟩

/-- Thread 1 uses its budget up, and thread 2, which has no context, runs on. -/
def starvedRun : List Action :=
  boundRun 1 3 ++ [.wakeup 2, .tick, .dispatch 0 (some 1) .closed, .tick, .tick]

/-- The refill of the parked thread falls due while another thread runs, and the tick leaves it. -/
theorem starvedRun_leaves_refill :
    let σ := (Scheduler.run {} starvedRun).schedulerTick
    σ = runFrom schedTickLocal (Scheduler.run {} starvedRun).schedTickGlobal [0] ∧
    σ.ticks = 4 ∧ (σ.tasks 1).state = .budgetExhausted ∧ (σ.tasks 1).schedCtx = some 0 ∧
    (σ.scs 0).remainingBudget = 0 ∧ (σ.scs 0).pending = [⟨4, 1⟩] ∧ σ.current 0 = some 2 ∧
    1 ∈ σ.threadList ∧ σ.punctual = false := by
  refine ⟨rfl, ?_⟩
  decide +kernel

end Scheduler
end IrisOS.Sched
