import IrisOS.Sched.Context
import IrisOS.Lib.Window

/-! The bandwidth of a scheduling context: every tick charged is set down with the tick at which its
run began, and falls into those that came back, those out as refills, and the current run. -/
namespace IrisOS.Sched
open Lib List KSchedContext

/-- What a context goes through while its configuration stays the same. -/
inductive ScOp
  | charge | flush | apply
  deriving DecidableEq

namespace KSchedContext

def perform (c : KSchedContext) (now : ℕ) : ScOp → KSchedContext
  | .charge => (c.chargeTick now).1
  | .flush => c.flushRun
  | .apply => (c.applyRefills now).1

def charges (c : KSchedContext) (op : ScOp) : Bool := op = .charge && 0 < c.remainingBudget

def chargedTicks : KSchedContext → List (ℕ × ScOp) → List ℕ
  | _, [] => []
  | c, (now, op) :: ops =>
    if c.charges op then now :: chargedTicks (c.perform now op) ops
    else chargedTicks (c.perform now op) ops

/-- A charge that continues a run is at the tick of the charge before it, or at the next. -/
def contiguous : KSchedContext → ℕ → List (ℕ × ScOp) → Bool
  | _, _, [] => true
  | c, last, (now, op) :: ops =>
    if c.charges op then
      (c.consumedRun = 0 || now ≤ last + 1) && contiguous (c.perform now op) now ops
    else contiguous (c.perform now op) last ops

end KSchedContext

/-- A tick that was charged, and the tick at which its run began. -/
structure Charge where
  time : ℕ
  start : ℕ
  deriving DecidableEq, Repr, Inhabited

namespace Charge

def timeAt (log : List Charge) (i : ℕ) : ℕ := (log.getD i default).time
def startAt (log : List Charge) (i : ℕ) : ℕ := (log.getD i default).start

section
variable {log : List Charge} {u : Charge} {i : ℕ}

theorem timeAt_append (h : i < log.length) : timeAt (log ++ [u]) i = timeAt log i := by
  simp [timeAt, getElem?_append_left h]

theorem startAt_append (h : i < log.length) : startAt (log ++ [u]) i = startAt log i := by
  simp [startAt, getElem?_append_left h]

@[simp] theorem timeAt_length : timeAt (log ++ [u]) log.length = u.time := by simp [timeAt]

@[simp] theorem startAt_length : startAt (log ++ [u]) log.length = u.start := by simp [startAt]

theorem exists_mem_at (h : i < log.length) :
    ∃ v ∈ log, timeAt log i = v.time ∧ startAt log i = v.start :=
  ⟨log[i], getElem_mem h, by simp [timeAt, h], by simp [startAt, h]⟩

theorem image_timeAt (log : List Charge) :
    (Finset.range log.length).image (timeAt log) = (log.map Charge.time).toFinset := by
  ext m
  simp only [Finset.mem_image, Finset.mem_range, mem_toFinset, mem_map]
  constructor
  · rintro ⟨i, hi, rfl⟩
    obtain ⟨v, hv, htime, -⟩ := exists_mem_at hi
    exact ⟨v, hv, htime.symm⟩
  · rintro ⟨v, hv, rfl⟩
    obtain ⟨i, hi, rfl⟩ := mem_iff_getElem.mp hv
    exact ⟨i, hi, by simp [timeAt, hi]⟩

end
end Charge

open Charge

/-- The record of the charges keeps the pace that the window bound asks for. -/
structure Paced (budget period : ℕ) (log : List Charge) : Prop where
  mono : ∀ i j, i ≤ j → j < log.length → timeAt log i ≤ timeAt log j
  run : ∀ i < log.length, ∃ g, RunFrom budget (timeAt log) (startAt log) g i
  gap : ∀ i, i + budget < log.length → startAt log i + period ≤ timeAt log (i + budget)

/-- A refill falls due no earlier than a period after the runs of the charges it returns. -/
def Repays (period : ℕ) (r : KRefill) (u : Charge) : Prop := u.start + period ≤ r.due

/-- The record falls into what came back by `now`, what is pending, and the current run, last
charged at `last`. -/
structure Ledger (budget period now last : ℕ) (c : KSchedContext) (log : List Charge) : Prop where
  ring : c.refills.Wf
  budget_eq : c.budgetTicks = budget
  period_eq : c.periodTicks = period
  fits : budget < 2 ^ 64
  paced : Paced budget period log
  time_le : ∀ u ∈ log, u.time ≤ now
  parts : ∃ returned lent run, log = returned ++ lent ++ run ∧
    (∀ u ∈ returned, u.start + period ≤ now) ∧
    Covers KRefill.amount (Repays period) c.pending lent ∧
    run.length = c.consumedRun ∧ (∀ u ∈ run, u.start = c.consumeStart) ∧
    c.remainingBudget + lent.length + run.length = budget
  current : c.consumedRun ≠ 0 → timeAt log (log.length - 1) = last ∧
    RunFrom budget (timeAt log) (startAt log) (log.length - c.consumedRun) (log.length - 1)

section
variable {budget period : ℕ} {log : List Charge} {u : Charge}

theorem Paced.append (h : Paced budget period log) (htime : ∀ v ∈ log, v.time ≤ u.time)
    (hrun : ∃ g, RunFrom budget (timeAt (log ++ [u])) (startAt (log ++ [u])) g log.length)
    (hgap : ∀ i, i + budget = log.length → startAt log i + period ≤ u.time) (hbudget : 0 < budget) :
    Paced budget period (log ++ [u]) where
  mono i j hij hj := by
    rw [length_append, length_singleton] at hj
    by_cases hjl : j < log.length
    · rw [timeAt_append hjl, timeAt_append (by omega)]
      exact h.mono i j hij hjl
    obtain rfl : j = log.length := by omega
    rw [timeAt_length]
    by_cases hil : i < log.length
    · obtain ⟨v, hv, heq, -⟩ := exists_mem_at hil
      rw [timeAt_append hil, heq]
      exact htime v hv
    · obtain rfl : i = log.length := by omega
      rw [timeAt_length]
  run i hi := by
    rw [length_append, length_singleton] at hi
    by_cases hil : i < log.length
    · obtain ⟨g, hg⟩ := h.run i hil
      exact ⟨g, hg.congr (fun j hj => timeAt_append (by omega)) fun j hj =>
        startAt_append (by omega)⟩
    · obtain rfl : i = log.length := by omega
      exact hrun
  gap i hi := by
    rw [length_append, length_singleton] at hi
    rw [startAt_append (by omega)]
    by_cases hil : i + budget < log.length
    · rw [timeAt_append hil]
      exact h.gap i hil
    · have hlast : i + budget = log.length := by omega
      rw [hlast, timeAt_length]
      exact hgap i hlast

theorem Paced.start_le (h : Paced budget period log) (hu : u ∈ log) : u.start ≤ u.time := by
  obtain ⟨i, hi, rfl⟩ := mem_iff_getElem.mp hu
  obtain ⟨g, hg⟩ := h.run i hi
  have hle := h.mono g i hg.le hi
  rw [hg.time_eq] at hle
  simpa [timeAt, startAt, hi] using hle

end

section
variable {budget period now now' last : ℕ} {c : KSchedContext} {log : List Charge}

section

variable (h : Ledger budget period now last c log)
include h

theorem Ledger.later (hle : now ≤ now') : Ledger budget period now' last c log where
  __ := h
  time_le u hu := (h.time_le u hu).trans hle
  parts := by
    obtain ⟨returned, lent, run, hlog, hret, hrest⟩ := h.parts
    exact ⟨returned, lent, run, hlog, fun u hu => (hret u hu).trans hle, hrest⟩

theorem Ledger.gap (hpos : 0 < c.remainingBudget)
    {i : ℕ} (hi : i + budget = log.length) : startAt log i + period ≤ now := by
  obtain ⟨returned, lent, run, rfl, hret, -, -, -, hsum⟩ := h.parts
  have hlt : i < returned.length := by
    simp only [length_append] at hi
    omega
  have hmem : (returned ++ lent ++ run).getD i default ∈ returned := by
    rw [append_assoc, getD_eq_getElem?_getD, getElem?_append_left hlt,
      getElem?_eq_getElem hlt, Option.getD_some]
    exact getElem_mem hlt
  exact hret _ hmem

theorem Ledger.start_last (hrun : c.consumedRun ≠ 0) :
    0 < log.length ∧ startAt log (log.length - 1) = c.consumeStart ∧ last ≤ now ∧
      c.consumeStart ≤ now := by
  obtain ⟨returned, lent, run, hlog, -, -, hlen, hstart, -⟩ := h.parts
  have hpos : 0 < log.length := by
    rw [hlog, length_append]
    omega
  have hsome : log[log.length - 1]? = run[run.length - 1]? := by
    rw [hlog, getElem?_append_right (by simp only [length_append]; omega)]
    congr 1
    simp only [length_append]
    omega
  have hlt : run.length - 1 < run.length := by omega
  have hmem : run[run.length - 1] ∈ run := getElem_mem hlt
  have hmem' : run[run.length - 1] ∈ log := by
    rw [hlog]
    exact mem_append_right _ hmem
  have htime : timeAt log (log.length - 1) = run[run.length - 1].time := by
    simp [timeAt, hsome, hlt]
  have hle := h.time_le _ hmem'
  refine ⟨hpos, ?_, ?_, ?_⟩
  · rw [← hstart _ hmem]
    simp [startAt, hsome, hlt]
  · rw [← (h.current hrun).1, htime]
    exact hle
  · rw [← hstart _ hmem]
    exact (h.paced.start_le hmem').trans hle

theorem Ledger.runFrom (hpos : 0 < c.remainingBudget)
    (hnext : c.consumedRun ≠ 0 → now ≤ last + 1) {u : Charge}
    (hu : u = ⟨now, if c.consumedRun = 0 then now else c.consumeStart⟩) :
    RunFrom budget (timeAt (log ++ [u])) (startAt (log ++ [u])) (log.length - c.consumedRun)
      log.length := by
  obtain ⟨returned, lent, run, hlog, -, -, hlen, -, hsum⟩ := h.parts
  by_cases hrun : c.consumedRun = 0
  · rw [hrun, Nat.sub_zero]
    refine RunFrom.begin (by omega) ?_
    rw [timeAt_length, startAt_length, hu, if_pos hrun]
  obtain ⟨hlast, hfrom⟩ := h.current hrun
  obtain ⟨hne, hstart, hle, -⟩ := h.start_last hrun
  obtain ⟨n, hn⟩ : ∃ n, log.length = n + 1 := ⟨log.length - 1, by omega⟩
  have hpred : log.length - 1 = n := by omega
  rw [hpred] at hfrom hlast hstart
  have hold : RunFrom budget (timeAt (log ++ [u])) (startAt (log ++ [u]))
      (log.length - c.consumedRun) n :=
    hfrom.congr (fun j hj => timeAt_append (by omega)) fun j hj => startAt_append (by omega)
  have htime : timeAt (log ++ [u]) (n + 1) = now := by rw [← hn, timeAt_length, hu]
  have hstart' : startAt (log ++ [u]) (n + 1) = c.consumeStart := by
    rw [← hn, startAt_length, hu, if_neg hrun]
  have hprev : timeAt (log ++ [u]) n = last := by rw [timeAt_append (by omega), hlast]
  rw [hn] at hold ⊢
  refine hold.extend ?_ ?_ ?_ ?_
  · rw [hstart', startAt_append (by omega), hstart]
  · rw [htime, hprev]
    exact hle
  · rw [htime, hprev]
    exact hnext hrun
  · omega

theorem Ledger.charge (hpos : 0 < c.remainingBudget)
    (hnext : c.consumedRun ≠ 0 → now ≤ last + 1) :
    ∃ u : Charge, u.time = now ∧
      Ledger budget period now now (c.chargeTick now).1 (log ++ [u]) := by
  obtain ⟨u, hu⟩ : ∃ u : Charge, u = ⟨now, if c.consumedRun = 0 then now else c.consumeStart⟩ :=
    ⟨_, rfl⟩
  have htime : u.time = now := by rw [hu]
  refine ⟨u, htime, ?_⟩
  have hfrom := h.runFrom hpos hnext hu
  obtain ⟨returned, lent, run, hlog, hret, hcov, hlen, hstart, hsum⟩ := h.parts
  rw [chargeTick_of_pos hpos]
  constructor
  · exact h.ring
  · exact h.budget_eq
  · exact h.period_eq
  · exact h.fits
  · apply h.paced.append _ ⟨_, hfrom⟩ _ (by omega)
    · rw [htime]
      exact h.time_le
    · intro i hi
      rw [htime]
      exact h.gap hpos hi
  · intro v hv
    cases mem_append.mp hv with
    | inl hv => exact h.time_le v hv
    | inr hv =>
      rw [mem_singleton] at hv
      rw [hv, htime]
  · refine ⟨returned, lent, run ++ [u], ?_, hret, hcov, ?_, ?_, ?_⟩
    · rw [hlog, append_assoc]
    · rw [length_append, hlen, length_singleton]
    · intro v hv
      cases mem_append.mp hv with
      | inl hv =>
        have hne : c.consumedRun ≠ 0 := by
          rw [← hlen]
          exact (length_pos_of_mem hv).ne'
        rw [hstart v hv, if_neg hne]
      | inr hv =>
        rw [mem_singleton] at hv
        rw [hv, hu]
    · rw [length_append, length_singleton]
      dsimp only
      omega
  · intro _
    rw [length_append, length_singleton, Nat.add_sub_cancel, timeAt_length]
    refine ⟨htime, ?_⟩
    rwa [Nat.add_sub_add_right]

theorem Ledger.flush (hfit : now + period < 2 ^ 64) :
    Ledger budget period now last c.flushRun log := by
  by_cases hrun : c.consumedRun = 0
  · rwa [flushRun, if_pos hrun]
  obtain ⟨-, -, -, hle⟩ := h.start_last hrun
  obtain ⟨returned, lent, run, hlog, hret, hcov, hlen, hstart, hsum⟩ := h.parts
  have hdue : u64 (c.consumeStart + c.periodTicks) = c.consumeStart + period := by
    rw [h.period_eq]
    exact Nat.mod_eq_of_lt (by omega)
  rw [flushRun, if_neg hrun, hdue]
  have hcov' : Covers KRefill.amount (Repays period)
      (queueRefill c.refills ⟨c.consumeStart + period, c.consumedRun⟩).toList
      (lent ++ run) := by
    cases queueRefill_toList h.ring ⟨c.consumeStart + period, c.consumedRun⟩ with
    | inl hpush =>
      rw [hpush]
      refine hcov.append (.single hlen fun u hu => ?_)
      exact (congrArg (· + period) (hstart u hu)).le
    | inr hmerge =>
      obtain ⟨init, newest, hinit, hmerge⟩ := hmerge
      rw [pending, hinit] at hcov
      obtain ⟨lent1, lent2, rfl, hcov1, hcov2⟩ := hcov.split
      have hlen2 : lent2.length = newest.amount := by simpa using hcov2.length_eq
      rw [hmerge, append_assoc]
      refine hcov1.append (.single ?_ fun u hu => ?_)
      · rw [length_append] at hsum ⊢
        have := h.fits
        have hfits : newest.amount + c.consumedRun < 2 ^ 64 := by omega
        rw [u64, Nat.mod_eq_of_lt hfits, hlen2, hlen]
      cases mem_append.mp hu with
      | inl hu =>
        obtain ⟨r, hr, hrepays⟩ := hcov2.exists_mem hu
        rw [mem_singleton] at hr
        subst hr
        exact le_max_of_le_left hrepays
      | inr hu => exact le_max_of_le_right (congrArg (· + period) (hstart u hu)).le
  refine { h with
    ring := queueRefill_wf h.ring _
    parts := ⟨returned, lent ++ run, [], ?_, hret, hcov', rfl, ?_, ?_⟩
    current := fun hne => absurd rfl hne }
  · rw [hlog, append_nil, append_assoc]
  · simp
  · rw [length_append, length_nil]
    dsimp only
    omega

theorem Ledger.apply : Ledger budget period now last (c.applyRefills now).1 log := by
  obtain ⟨ring, heq, hring, -, hlist⟩ := applyRefills_spec h.ring now
  obtain ⟨returned, lent, run, hlog, hret, hcov, hlen, hstart, hsum⟩ := h.parts
  have hsplit : c.pending = c.fallenDue now ++ c.pending.dropWhile fun r => r.due ≤ now :=
    (takeWhile_append_dropWhile ..).symm
  rw [hsplit] at hcov
  obtain ⟨lent1, lent2, rfl, hcov1, hcov2⟩ := hcov.split
  have hlen1 := hcov1.length_eq
  rw [length_append] at hsum
  have hgain : (c.fallenDue now).foldl (fun b (r : KRefill) => u64 (b + r.amount))
      c.remainingBudget = c.remainingBudget + lent1.length := by
    have := h.fits
    rw [foldl_u64_eq (by omega), hlen1]
  rw [heq, hgain]
  refine { h with
    ring := hring
    parts := ⟨returned ++ lent1, lent2, run, ?_, ?_, ?_, hlen, hstart, ?_⟩
    current := h.current }
  · rw [hlog]
    simp only [append_assoc]
  · intro u hu
    cases mem_append.mp hu with
    | inl hu => exact hret u hu
    | inr hu =>
      obtain ⟨r, hr, hrepays⟩ := hcov1.exists_mem hu
      have hdue : r.due ≤ now := by simpa using mem_takeWhile_imp hr
      exact le_trans hrepays hdue
  · rw [pending, hlist]
    exact hcov2
  · have := h.budget_eq
    dsimp only
    omega

theorem Ledger.perform (hle : now ≤ now')
    (hfit : now' + period < 2 ^ 64) (op : ScOp)
    (hnext : c.charges op = true → c.consumedRun ≠ 0 → now' ≤ last + 1) :
    if c.charges op then ∃ u : Charge, u.time = now' ∧
        Ledger budget period now' now' (c.perform now' op) (log ++ [u])
      else Ledger budget period now' last (c.perform now' op) log := by
  have h := h.later hle
  by_cases hcharge : c.charges op = true
  · rw [if_pos hcharge]
    simp only [charges, Bool.and_eq_true, decide_eq_true_eq] at hcharge hnext
    obtain ⟨rfl, hpos⟩ := hcharge
    exact h.charge hpos (hnext ⟨rfl, hpos⟩)
  rw [if_neg hcharge]
  cases op with
  | charge =>
    have hzero : ¬0 < c.remainingBudget := by simpa [charges] using hcharge
    simpa [KSchedContext.perform, KSchedContext.chargeTick, hzero] using h
  | flush => exact h.flush hfit
  | apply => exact h.apply

theorem Ledger.run {ops : List (ℕ × ScOp)}
    (hle : ∀ op ∈ ops, now ≤ op.1) (htimes : ops.Pairwise fun op op' => op.1 ≤ op'.1)
    (hfit : ∀ op ∈ ops, op.1 + period < 2 ^ 64) (hcont : c.contiguous last ops = true) :
    ∃ log', log'.map Charge.time = c.chargedTicks ops ∧ Paced budget period (log ++ log') := by
  induction ops generalizing c now last log with
  | nil => exact ⟨[], rfl, by simpa using h.paced⟩
  | cons op ops ih =>
    obtain ⟨now', op⟩ := op
    rw [pairwise_cons] at htimes
    rw [contiguous] at hcont
    have hstep := h.perform (hle _ mem_cons_self) (hfit _ mem_cons_self) op
    rw [chargedTicks]
    have hfit' : ∀ op ∈ ops, op.1 + period < 2 ^ 64 := fun op hop =>
      hfit op (mem_cons_of_mem _ hop)
    split_ifs at hcont hstep ⊢ with hcharge
    · rw [Bool.and_eq_true, Bool.or_eq_true, decide_eq_true_eq, decide_eq_true_eq] at hcont
      obtain ⟨u, htime, hu⟩ := hstep fun _ hrun => hcont.1.resolve_left hrun
      obtain ⟨log', hticks, hpaced⟩ := ih hu htimes.1 htimes.2 hfit' hcont.2
      refine ⟨u :: log', ?_, ?_⟩
      · rw [map_cons, hticks, htime]
      · rwa [append_cons]
    · exact ih (hstep fun hc => absurd hc hcharge) htimes.1 htimes.2 hfit' hcont

end

theorem Ledger.configured {c₀ : KSchedContext} (hring : 0 < c₀.refills.max)
    (hfits : budget < 2 ^ 64) (hc : c₀.configure budget period = .ok c) :
    Ledger budget period 0 0 c [] := by
  unfold configure at hc
  split_ifs at hc
  cases hc
  refine ⟨⟨hring, Nat.zero_le _⟩, rfl, rfl, hfits, ⟨by simp, by simp, by simp⟩, by simp,
    ⟨[], [], [], rfl, by simp, .nil, rfl, by simp, by simp [refillReset]⟩,
    fun hne => absurd rfl hne⟩

end

/-- Any sequence of charges, flushes and refills with contiguous runs charges at most `budget` ticks
in any window of `period`. -/
theorem chargedTicks_window {c₀ c : KSchedContext} {budget period : UInt64}
    (hring : 0 < c₀.refills.max) (hc : c₀.configure budget.toNat period.toNat = .ok c)
    {ops : List (ℕ × ScOp)} (htimes : ops.Pairwise fun op op' => op.1 ≤ op'.1)
    (hfit : ∀ op ∈ ops, op.1 + period.toNat < 2 ^ 64) (hcont : c.contiguous 0 ops = true) (t : ℕ) :
    (((c.chargedTicks ops).toFinset).filter fun m => t ≤ m ∧ m < t + period.toNat).card ≤
        budget.toNat ∧
      ((c.chargedTicks ops).Nodup →
        ((c.chargedTicks ops).filter fun m => t ≤ m ∧ m < t + period.toNat).length ≤
          budget.toNat) := by
  have hledger := Ledger.configured hring budget.toNat_lt hc
  obtain ⟨log, hticks, hpaced⟩ := hledger.run (fun _ _ => Nat.zero_le _) htimes hfit hcont
  have hwindow := window_card_le hpaced.mono hpaced.run hpaced.gap t
  rw [nil_append, image_timeAt, hticks] at hwindow
  refine ⟨hwindow, fun hnodup => ?_⟩
  rw [← toFinset_card_of_nodup (hnodup.filter _), toFinset_filter]
  simpa using hwindow

/-- A context with two refills, a budget of three ticks and a period of ten, just configured. -/
def threeInTen : KSchedContext :=
  KSchedContext.refillReset { kschedctxAllocAt 2 with
    budgetTicks := 3
    periodTicks := 10
    remainingBudget := 3
    configured := true }

/-- Three runs of one tick, of which the third finds the ring full, and the next period. -/
def overflowOps : List (ℕ × ScOp) :=
  [(0, .charge), (0, .flush), (2, .charge), (2, .flush), (4, .charge), (4, .flush), (5, .charge),
    (10, .apply), (10, .charge), (11, .charge), (11, .flush), (14, .apply), (14, .charge)]

theorem chargedTicks_window_overflowOps :
    threeInTen.chargedTicks overflowOps = [0, 2, 4, 10, 14] ∧
    ((threeInTen.chargedTicks overflowOps).filter fun m => 2 ≤ m ∧ m < 2 + 10).length ≤ 3 :=
  ⟨by decide, (@chargedTicks_window (kschedctxAllocAt 2) threeInTen 3 10 (by decide) (by rfl)
    overflowOps (by decide) (by decide) (by decide) 2).2 (by decide)⟩

/-- A budget of two ticks in three, of which the tick at 3 is charged twice. -/
def twiceOps : List (ℕ × ScOp) :=
  [(0, .charge), (1, .charge), (1, .flush), (3, .apply), (3, .charge), (3, .charge)]

theorem tick_charged_twice_passes_the_budget :
    ∃ c, (kschedctxAllocAt 2).configure 2 3 = .ok c ∧
      (twiceOps.Pairwise fun op op' => op.1 ≤ op'.1) ∧ (∀ op ∈ twiceOps, op.1 + 3 < 2 ^ 64) ∧
      c.contiguous 0 twiceOps = true ∧
      ((c.chargedTicks twiceOps).filter fun m => 1 ≤ m ∧ m < 1 + 3).length = 3 :=
  ⟨_, rfl, by decide, by decide, by decide, by decide⟩

end IrisOS.Sched
