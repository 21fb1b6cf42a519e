import IrisOS.Sched.Uses

/-! The conservation of budget: what a context has left, what its current run has consumed and
what is out as pending refills add up to its configured budget. -/
namespace IrisOS.Sched
open Cap List KSchedContext

/-- A run that begins now has a release time that fits into 64 bits. -/
def KSchedContext.chargeFits (c : KSchedContext) (now : ℕ) : Bool :=
  c.remainingBudget = 0 || c.consumedRun ≠ 0 || now + c.periodTicks < 2 ^ 64

/-- The books of a context at a tick, with bounds on its release times. -/
structure Balanced (now : ℕ) (c : KSchedContext) : Prop where
  ring : c.refills.Wf
  total_eq : c.total = c.budgetTicks
  fits : c.budgetTicks < 2 ^ 64
  sorted : c.pending.Pairwise fun r r' => r.due ≤ r'.due
  due_le : ∀ r ∈ c.pending, r.due ≤ now + c.periodTicks
  started : c.consumedRun ≠ 0 → c.consumeStart ≤ now ∧
    c.consumeStart + c.periodTicks < 2 ^ 64 ∧
    ∀ r ∈ c.pending, r.due ≤ c.consumeStart + c.periodTicks

section
variable {now now' : ℕ} {c c' : KSchedContext}

theorem Balanced.later (h : Balanced now c) (hle : now ≤ now') : Balanced now' c where
  __ := h
  due_le r hr := (h.due_le r hr).trans (Nat.add_le_add_right hle _)
  started hrun := ⟨(h.started hrun).1.trans hle, (h.started hrun).2⟩

theorem Balanced.fresh (hring : c.refills.Wf) (hpending : c.pending = [])
    (hrun : c.consumedRun = 0) (hrem : c.remainingBudget = c.budgetTicks)
    (hfits : c.budgetTicks < 2 ^ 64) : Balanced now c where
  ring := hring
  total_eq := by simp [total, owed, hpending, hrun, hrem]
  fits := hfits
  sorted := by simp [hpending]
  due_le := by simp [hpending]
  started hne := absurd hrun hne

theorem Balanced.alloc (objArg : ℕ) : Balanced now (kschedctxAllocAt objArg) := by
  refine .fresh ⟨?_, Nat.zero_le _⟩ rfl rfl rfl (Nat.two_pow_pos 64)
  simp only [kschedctxAllocAt, kschedctxRefillDefault]
  split_ifs <;> omega

section

variable (h : Balanced now c)
include h

theorem Balanced.configure {budget period : UInt64}
    (hc : c.configure budget.toNat period.toNat = .ok c') : Balanced now c' := by
  unfold KSchedContext.configure at hc
  split_ifs at hc
  cases hc
  exact .fresh h.ring.reset rfl rfl rfl budget.toNat_lt

theorem Balanced.wholeBudget : Balanced now c.wholeBudget :=
  .fresh h.ring.reset rfl rfl rfl h.fits

theorem Balanced.bind (t : Option TaskId) : Balanced now { c with boundTask := t } where
  __ := h

theorem Balanced.readConsumed (hrun : c.consumedRun = 0) : Balanced now (c.readConsumed now) where
  __ := h
  total_eq := by
    have := h.total_eq
    simp only [total, hrun] at this
    exact this
  started hne := absurd rfl hne

theorem Balanced.charge (hfits : c.chargeFits now = true) : Balanced now (c.chargeTick now).1 := by
  by_cases hpos : 0 < c.remainingBudget
  · rw [chargeTick_of_pos hpos]
    refine { h with total_eq := ?_, started := fun _ => ?_ }
    · have := h.total_eq
      simp only [total, owed, pending] at this ⊢
      omega
    by_cases hrun : c.consumedRun = 0
    · simp only [chargeFits, Bool.or_eq_true, decide_eq_true_eq, hpos.ne',
        hrun, ne_eq, not_true_eq_false, or_self, false_or] at hfits
      simp only [if_pos hrun]
      exact ⟨le_rfl, hfits, h.due_le⟩
    · simp only [if_neg hrun]
      exact h.started hrun
  · rw [chargeTick_of_zero (by omega)]
    exact h

theorem Balanced.flush : Balanced now c.flushRun := by
  unfold flushRun
  split_ifs with hrun
  · exact h
  obtain ⟨hstart, hfit, hdue⟩ := h.started hrun
  have htotal := h.total_eq
  have hfits := h.fits
  have hu64 : u64 (c.consumeStart + c.periodTicks) = c.consumeStart + c.periodTicks :=
    Nat.mod_eq_of_lt hfit
  rw [hu64]
  have hring := queueRefill_wf h.ring
    ⟨c.consumeStart + c.periodTicks, c.consumedRun⟩
  simp only [total, owed] at htotal
  cases queueRefill_toList h.ring ⟨c.consumeStart + c.periodTicks, c.consumedRun⟩ with
  | inl hpush =>
    refine ⟨hring, ?_, h.fits, ?_, ?_, fun hne => absurd rfl hne⟩
    · simp only [total, owed, pending, hpush,
        map_append, sum_append, map_singleton, sum_singleton] at htotal ⊢
      omega
    · rw [pending, hpush, pairwise_append]
      refine ⟨h.sorted, pairwise_singleton _ _, fun r hr r' hr' => ?_⟩
      rw [mem_singleton] at hr'
      subst hr'
      exact hdue r hr
    · intro r hr
      rw [pending, hpush] at hr
      cases mem_append.mp hr with
      | inl hr => exact h.due_le r hr
      | inr hr =>
        rw [mem_singleton] at hr
        subst hr
        exact Nat.add_le_add_right hstart _
  | inr hmerge =>
    obtain ⟨init, last, hinit, hmerge⟩ := hmerge
    have hpending : c.pending = init ++ [last] := hinit
    have hlast : last.due ≤ c.consumeStart + c.periodTicks :=
      hdue last (by simp [hpending])
    rw [max_eq_right hlast] at hmerge
    rw [hpending] at htotal
    simp only [map_append, sum_append, map_singleton, sum_singleton] at htotal
    have hamount : u64 (last.amount + c.consumedRun) = last.amount + c.consumedRun :=
      Nat.mod_eq_of_lt (by omega)
    have hsorted := h.sorted
    rw [hpending, pairwise_append] at hsorted
    refine ⟨hring, ?_, h.fits, ?_, ?_, fun hne => absurd rfl hne⟩
    · simp only [total, owed, pending, hmerge,
        map_append, sum_append, map_singleton, sum_singleton]
      omega
    · rw [pending, hmerge, pairwise_append]
      refine ⟨hsorted.1, pairwise_singleton _ _, fun r hr r' hr' => ?_⟩
      rw [mem_singleton] at hr'
      subst hr'
      exact hdue r (by simp [hpending, hr])
    · intro r hr
      rw [pending, hmerge] at hr
      cases mem_append.mp hr with
      | inl hr => exact h.due_le r (by simp [hpending, hr])
      | inr hr =>
        rw [mem_singleton] at hr
        subst hr
        exact Nat.add_le_add_right hstart _

theorem Balanced.apply : Balanced now (c.applyRefills now).1 := by
  obtain ⟨ring, heq, hring, -, hlist⟩ := applyRefills_spec h.ring now
  have hsub : ring.toList.Sublist c.pending := by
    rw [hlist]
    exact dropWhile_sublist _
  have htotal := h.total_eq
  have hfits := h.fits
  rw [total, c.owed_eq now] at htotal
  rw [heq, foldl_u64_eq (by omega)]
  refine ⟨hring, ?_, h.fits, h.sorted.sublist hsub, fun r hr => h.due_le r (hsub.subset hr),
    fun hrun => ⟨(h.started hrun).1, (h.started hrun).2.1, fun r hr =>
      (h.started hrun).2.2 r (hsub.subset hr)⟩⟩
  simp only [total, owed, pending, hlist] at htotal ⊢
  omega

end

theorem Balanced.use {p q : ℕ × KSchedContext}
    (hu : Uses (fun now c => c.chargeFits now = true) p q) (h : Balanced p.1 p.2) :
    Balanced q.1 q.2 := by
  cases hu with
  | later hle => exact h.later hle
  | charge hfits => exact h.charge hfits
  | flush => exact h.flush
  | apply => exact h.apply
  | bind t => exact h.bind t

end
/-! ## The system -/

namespace Scheduler

/-- A charge that the tick of a processor makes begins no run that does not fit. -/
def runFits (σ : Scheduler) (cpu : ℕ) : Bool :=
  (σ.current cpu).all fun t => (σ.tasks t).state ≠ .running ||
    (σ.tasks t).schedCtx.all fun sc => (σ.scs sc).chargeFits σ.ticks

/-- The scan of the global tick finds no overdue thread on a context that is short of budget. -/
def resetsNothing (σ : Scheduler) : Bool :=
  σ.threadList.all fun t => !σ.ticked.overdue t || (σ.tasks t).schedCtx.all fun sc =>
    (σ.scs sc).remainingBudget = (σ.scs sc).budgetTicks

/-- The consumption is not read during a run, no context is reset, the clock does not wrap, and
release times fit into 64 bits. -/
def keepsBooks (σ : Scheduler) : Action → Bool
  | .scConsumed true (.ok sc) _ => (σ.scs sc).consumedRun = 0
  | .charge sc => (σ.scs sc).chargeFits σ.ticks
  | .tickRemote cpu => σ.runFits cpu
  | .tick => σ.ticks + 1 < 2 ^ 64 && σ.resetsNothing && σ.ticked.runFits 0
  | _ => true

section
variable {σ mid : Scheduler} {a : Action}

theorem runFits_iff {cpu : ℕ} : σ.runFits cpu = true ↔ ∀ t sc, σ.current cpu = some t →
    (σ.tasks t).state = .running → (σ.tasks t).schedCtx = some sc →
      (σ.scs sc).chargeFits σ.ticks = true := by
  simp only [runFits, Option.all_eq_true, Bool.or_eq_true, decide_eq_true_eq]
  constructor
  · intro h t sc ht hstate hsc
    exact (h t ht).resolve_left (not_not.mpr hstate) sc hsc
  · intro h t ht
    by_cases hstate : (σ.tasks t).state = .running
    · exact .inr fun sc hsc => h t sc ht hstate hsc
    · exact .inl hstate

theorem Scanned.scs_eq (h : Scanned σ.threadList σ.ticked mid) (hr : σ.resetsNothing = true) :
    mid.scs = σ.scs := by
  funext sc
  rw [h.scs]
  split_ifs with hover
  · obtain ⟨t, ht, hover, hsc⟩ := hover
    rw [resetsNothing, all_eq_true] at hr
    have hfull := hr t ht
    rw [hover, Bool.not_true, Bool.false_or, Option.all_eq_true] at hfull
    have hrem : (σ.scs sc).remainingBudget = (σ.scs sc).budgetTicks := by
      simpa using hfull sc hsc
    change { σ.scs sc with remainingBudget := (σ.scs sc).budgetTicks } = σ.scs sc
    rw [← hrem]
  · rfl

theorem keepsBooks_chargesAllowed (hk : σ.keepsBooks a = true) :
    ChargesAllowed (fun now c => c.chargeFits now = true) σ a where
  charge sc ha := by
    subst ha
    exact hk
  remote cpu t sc ha := by
    subst ha
    exact runFits_iff.mp hk t sc
  timer mid t sc ha hmid ht hstate hsc := by
    subst ha
    simp only [keepsBooks, Bool.and_eq_true] at hk
    rw [hmid.scs_eq hk.1.2]
    exact runFits_iff.mp hk.2 t sc ht hstate hsc

theorem act_balanced (hσ : ∀ sc, Balanced σ.ticks (σ.scs sc)) (hk : σ.keepsBooks a = true) :
    ∀ sc, Balanced (σ.act a).ticks ((σ.act a).scs sc) := by
  refine (act_effect σ a (keepsBooks_chargesAllowed hk)).keeps (fun hu h => h.use hu)
    .alloc (fun hc h => h.configure hc) (fun h => h.wholeBudget) (fun sc copied ha h => ?_)
    (fun mid ha hmid hσ sc => ?_) hσ
  · subst ha
    exact h.readConsumed (by simpa [keepsBooks] using hk)
  subst ha
  simp only [keepsBooks, Bool.and_eq_true, decide_eq_true_eq] at hk
  have hle : σ.ticks ≤ σ.ticked.ticks := by
    rw [ticked, u64, Nat.mod_eq_of_lt hk.1.1]
    exact Nat.le_succ _
  rw [hmid.frame.1, hmid.scs_eq hk.1.2]
  exact (hσ sc).later hle

theorem run_balanced (hσ : ∀ sc, Balanced σ.ticks (σ.scs sc)) {as : List Action}
    (hk : Meets (fun σ a => σ.keepsBooks a = true) σ as) (sc : ScId) :
    Balanced (σ.run as).ticks ((σ.run as).scs sc) := by
  induction as generalizing σ with
  | nil => exact hσ sc
  | cons a as ih => exact ih (act_balanced hσ hk.1) hk.2

end

def Initial (σ : Scheduler) : Prop := ∀ sc, σ.scs sc = kschedctxAllocAt 0

theorem Initial.balanced {σ : Scheduler} (h : Initial σ) (sc : ScId) :
    Balanced σ.ticks (σ.scs sc) := by
  rw [h sc]
  exact .alloc 0

/-- In every run that keeps the books, each context holds its budget as what is left, consumed and
pending, with a ring in range and in order. -/
theorem run_conserves {σ : Scheduler} (h : Initial σ) {as : List Action}
    (hk : Meets (fun σ a => σ.keepsBooks a = true) σ as) (sc : ScId) :
    let c := (σ.run as).scs sc
    c.remainingBudget + c.consumedRun + (c.pending.map KRefill.amount).sum = c.budgetTicks ∧
      c.refills.head < c.refills.max ∧ c.refills.count ≤ c.refills.max ∧
      (c.pending.map KRefill.due).Pairwise (· ≤ ·) := by
  have hb := run_balanced h.balanced hk sc
  exact ⟨hb.total_eq, hb.ring.head_lt, hb.ring.count_le, pairwise_map.mpr hb.sorted⟩

def plainTask : Task := { state := .suspended, timeSlice := 4, configured := true, priority := 1 }

/-- Thread 1 on a context of the given budget and period, and thread 2 without one. -/
def boundRun (budget period : UInt64) : List Action :=
  [.retype 2, .register 1 plainTask, .register 2 plainTask,
    .scConfigure true (.ok (0, rightWrite)) budget period,
    .scBind (.ok (0, rightWrite)) (some (.ok (1, rightWrite))), .wakeup 1,
    .dispatch 0 none .closed]

theorem run_conserves_boundRun :
    Meets (fun σ a => σ.keepsBooks a = true) {}
      (boundRun 2 5 ++ [.tick, .tick, .dispatch 0 (some 1) .closed]) ∧
    let c := (Scheduler.run {} (boundRun 2 5 ++ [.tick, .tick, .dispatch 0 (some 1) .closed])).scs 0
    c.remainingBudget + c.consumedRun + (c.pending.map KRefill.amount).sum = c.budgetTicks := by
  have hk : Meets (fun σ a => σ.keepsBooks a = true) {}
      (boundRun 2 5 ++ [.tick, .tick, .dispatch 0 (some 1) .closed]) := by decide
  exact ⟨hk, (run_conserves (fun _ => rfl) hk 0).1⟩

/-- One period after any tick of such a run, all of the budget that is not in use is back. -/
theorem budget_returns_within_a_period {σ : Scheduler} (h : Initial σ) {as : List Action}
    (hk : Meets (fun σ a => σ.keepsBooks a = true) σ as) (sc : ScId) {now : ℕ}
    (hnow : (σ.run as).ticks + ((σ.run as).scs sc).periodTicks ≤ now) :
    let c := (((σ.run as).scs sc).applyRefills now).1
    c.pending = [] ∧ c.remainingBudget + c.consumedRun = c.budgetTicks := by
  have hb := run_balanced h.balanced hk sc
  have hlater := (hb.later ((Nat.le_add_right _ _).trans hnow)).apply
  obtain ⟨ring, heq, -, -, hlist⟩ := applyRefills_spec hb.ring now
  have hnone : ring.toList = [] := by
    rw [hlist, dropWhile_eq_nil_iff]
    exact fun r hr => decide_eq_true ((hb.due_le r hr).trans hnow)
  have htotal := hlater.total_eq
  rw [heq] at htotal ⊢
  simp only [total, owed, pending, hnone] at htotal ⊢
  exact ⟨trivial, htotal⟩

theorem budget_returns_boundRun :
    (((Scheduler.run {} (boundRun 2 5 ++ [.tick, .tick])).scs 0).applyRefills 7).1.pending = [] := by
  have hk : Meets (fun σ a => σ.keepsBooks a = true) {} (boundRun 2 5 ++ [.tick, .tick]) := by decide
  exact (budget_returns_within_a_period (fun _ => rfl) hk 0 (by decide)).1

/-- The supervisor asks for the consumption during a run. -/
def readDuringRun : List Action := boundRun 3 10 ++ [.tick, .scConsumed true (.ok 0) true]

/-- A thread whose timeout handler is gone waits for its own deadline, while another one runs. -/
def timeoutResetRun : List Action :=
  boundRun 1 3 ++ [.setTimeoutEp 1 true, .wakeup 2, .tick, .dispatch 0 (some 1) .closed, .tick,
    .tick, .tick]

/-- Two runs with a period of almost `2 ^ 64` ticks. -/
def wrappedDueRun : List Action :=
  boundRun 2 0xfffffffffffffffe ++ [.tick, .dispatch 0 (some 1) .closed, .tick]

/-- Reading the consumption during a run loses it, the reset on a deadline leaves its refill in the
ring, and a release time that wraps is queued after a later one. -/
theorem run_conserves_fails :
    ((Scheduler.run {} readDuringRun).scs 0).total = 2 ∧
    ((Scheduler.run {} readDuringRun).scs 0).budgetTicks = 3 ∧
    ((Scheduler.run {} timeoutResetRun).scs 0).total = 2 ∧
    ((Scheduler.run {} timeoutResetRun).scs 0).budgetTicks = 1 ∧
    ((Scheduler.run {} wrappedDueRun).scs 0).pending.map KRefill.due = [2 ^ 64 - 1, 0] := by
  decide +kernel

end Scheduler
end IrisOS.Sched
