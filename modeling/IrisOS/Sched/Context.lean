import IrisOS.Cap.Basic
import IrisOS.Lib.RingBuffer
import Mathlib.Data.List.TakeWhile

/-! Scheduling contexts (`kschedctx.c`). A context holds a budget of ticks; what a run of its
thread consumes is queued as a refill that falls due one period after the run began. -/
namespace IrisOS.Sched
open Lib Cap List

abbrev TaskId := ℕ

def u64 (n : ℕ) : ℕ := n % 2 ^ 64

/-- A pending replenishment: `amount` ticks that become available again at tick `due`. -/
structure KRefill where
  due : ℕ := 0
  amount : ℕ := 0
  deriving DecidableEq

def kschedctxRefillMin : ℕ := 2
def kschedctxRefillDefault : ℕ := 8
def kschedctxRefillLimit : ℕ := 64

structure KSchedContext where
  budgetTicks : ℕ := 0
  periodTicks : ℕ := 0
  remainingBudget : ℕ := 0
  boundTask : Option TaskId := none
  configured : Bool := false
  refills : RingBuffer KRefill
  consumedRun : ℕ := 0
  consumeStart : ℕ := 0
  consumedTotal : ℕ := 0

def kschedctxAllocAt (refillMax : ℕ) : KSchedContext where
  refills :=
    { max := if refillMax = 0 then kschedctxRefillDefault else refillMax
      head := 0
      count := 0
      cells := fun _ => {} }

namespace KSchedContext

/-- `kschedctx_refill_reset`. -/
def refillReset (c : KSchedContext) : KSchedContext :=
  { c with refills := c.refills.reset, consumedRun := 0, consumeStart := 0 }

/-- `kschedctx_configure`. -/
def configure (c : KSchedContext) (budget period : ℕ) : Except IrisError KSchedContext :=
  if budget = 0 ∨ period = 0 ∨ period < budget then .error .invalidArg
  else .ok (refillReset { c with
    budgetTicks := budget
    periodTicks := period
    remainingBudget := budget
    configured := true })

/-- `kschedctx_bind`. -/
def bind (c : KSchedContext) (t : TaskId) : Except IrisError KSchedContext :=
  match c.boundTask with
  | some u => if u ≠ t then .error .busy else .ok { c with boundTask := some t }
  | none => .ok { c with boundTask := some t }

/-- `kschedctx_unbind`, which takes a null thread for any. -/
def unbind (c : KSchedContext) (t : Option TaskId) : KSchedContext :=
  if c.boundTask = t ∨ t = none then { c with boundTask := none } else c

/-- `kschedctx_charge_tick`, with whether the budget is now exhausted. -/
def chargeTick (c : KSchedContext) (now : ℕ) : KSchedContext × Bool :=
  let c :=
    if 0 < c.remainingBudget then
      { c with
        consumeStart := if c.consumedRun = 0 then now else c.consumeStart
        remainingBudget := c.remainingBudget - 1
        consumedRun := c.consumedRun + 1 }
    else c
  (c, c.remainingBudget = 0)

/-- `kschedctx_has_refill`. -/
def hasRefill (c : KSchedContext) : Bool := 0 < c.refills.count

/-- Queue a refill as an entry, or as part of the newest when the ring is full, due at the later
tick. -/
def queueRefill (ring : RingBuffer KRefill) (r : KRefill) : RingBuffer KRefill :=
  if ring.count < ring.max then ring.push r
  else
    let last := ring.cells ring.newest
    ring.setNewest ⟨if last.due < r.due then r.due else last.due, u64 (last.amount + r.amount)⟩

/-- `kschedctx_flush_run`: the current run becomes a refill. -/
def flushRun (c : KSchedContext) : KSchedContext :=
  if c.consumedRun = 0 then c
  else { c with
    consumedRun := 0
    consumeStart := 0
    consumedTotal := u64 (c.consumedTotal + c.consumedRun)
    refills := queueRefill c.refills ⟨u64 (c.consumeStart + c.periodTicks), c.consumedRun⟩ }

/-- Take the oldest refill. -/
def takeRefill (c : KSchedContext) : KSchedContext :=
  { c with
    remainingBudget := u64 (c.remainingBudget + c.refills.front.amount)
    refills := c.refills.pop }

/-- The loop of `kschedctx_apply_refills`, with the passes it may still make. -/
def applyLoop (now : ℕ) : ℕ → KSchedContext × Bool → KSchedContext × Bool
  | 0, p => p
  | n+1, p =>
    if 0 < p.1.refills.count ∧ p.1.refills.front.due ≤ now
    then applyLoop now n (p.1.takeRefill, true) else p

/-- `kschedctx_apply_refills`, with whether anything was gained. Each pass takes one refill off
the ring. -/
def applyRefills (c : KSchedContext) (now : ℕ) : KSchedContext × Bool :=
  let p := applyLoop now c.refills.count (c, false)
  ({ p.1 with
    remainingBudget :=
      if p.1.budgetTicks < p.1.remainingBudget then p.1.budgetTicks else p.1.remainingBudget },
    p.2)

/-- The state in which a thread takes a context over. -/
def wholeBudget (c : KSchedContext) : KSchedContext :=
  { c with remainingBudget := c.budgetTicks }.refillReset

/-- What `sys_sc_consumed` leaves of the context it reads. -/
def readConsumed (c : KSchedContext) (now : ℕ) : KSchedContext :=
  { c with
    consumedTotal := 0
    consumedRun := 0
    consumeStart := if c.consumeStart ≠ 0 then now else 0 }

/-! ## The queue of refills -/

def pending (c : KSchedContext) : List KRefill := c.refills.toList

def owed (c : KSchedContext) : ℕ := (c.pending.map KRefill.amount).sum

/-- All the ticks of a context: available, consumed in the current run, and out as refills. -/
def total (c : KSchedContext) : ℕ := c.remainingBudget + c.consumedRun + c.owed

/-- The refills that have fallen due at a tick. -/
def fallenDue (c : KSchedContext) (now : ℕ) : List KRefill :=
  c.pending.takeWhile fun r => r.due ≤ now

section
variable {c : KSchedContext} {now : ℕ}

@[simp] theorem length_pending : c.pending.length = c.refills.count := RingBuffer.length_toList

theorem chargeTick_of_pos (hpos : 0 < c.remainingBudget) : (c.chargeTick now).1 = { c with
    consumeStart := if c.consumedRun = 0 then now else c.consumeStart
    remainingBudget := c.remainingBudget - 1
    consumedRun := c.consumedRun + 1 } := by
  simp [chargeTick, hpos]

theorem chargeTick_of_zero (hzero : c.remainingBudget = 0) : (c.chargeTick now).1 = c := by
  simp [chargeTick, hzero]

theorem takeRefill_pending (hc : 0 < c.refills.count) (hw : c.refills.Wf) :
    c.pending = c.refills.front :: c.takeRefill.pending :=
  RingBuffer.toList_pop hc hw

theorem applyLoop_spec (hw : c.refills.Wf) (g : Bool) :
    ∃ ring budget, applyLoop now c.refills.count (c, g) =
        ({ c with refills := ring, remainingBudget := budget }, g || c.fallenDue now ≠ []) ∧
      ring.Wf ∧ ring.max = c.refills.max ∧
      ring.toList = c.pending.dropWhile (fun r => r.due ≤ now) ∧
      budget = (c.fallenDue now).foldl (fun b r => u64 (b + r.amount)) c.remainingBudget := by
  generalize hn : c.refills.count = n
  induction n generalizing c g with
  | zero =>
    have hnil : c.pending = [] := RingBuffer.toList_eq_nil hn
    refine ⟨c.refills, c.remainingBudget, ?_, hw, rfl, ?_, ?_⟩
    · simp [applyLoop, fallenDue, hnil]
    · rw [hnil]
      exact hnil
    · simp [fallenDue, hnil]
  | succ n ih =>
    have hpos : 0 < c.refills.count := by omega
    have hcons := takeRefill_pending hpos hw
    by_cases hdue : c.refills.front.due ≤ now
    · have hpop : c.takeRefill.refills.count = n := by
        simp only [takeRefill, RingBuffer.pop]
        omega
      obtain ⟨ring, budget, heq, hring, hmax, hlist, hbudget⟩ := ih (c := c.takeRefill) hw.pop true hpop
      refine ⟨ring, budget, ?_, hring, hmax, ?_, ?_⟩
      · rw [applyLoop, if_pos ⟨hpos, hdue⟩, heq]
        simp [fallenDue, hcons, hdue, takeRefill]
      · rw [hlist, hcons, dropWhile_cons_of_pos (by simpa using hdue)]
      · rw [hbudget, fallenDue, fallenDue, hcons, takeWhile_cons_of_pos (by simpa using hdue)]
        rfl
    · have hstay : c.fallenDue now = [] := by
        rw [fallenDue, hcons, takeWhile_cons_of_neg (by simpa using hdue)]
      refine ⟨c.refills, c.remainingBudget, ?_, hw, rfl, ?_, ?_⟩
      · rw [applyLoop, if_neg fun h => hdue h.2]
        simp [hstay]
      · rw [hcons, dropWhile_cons_of_neg (by simpa using hdue), ← hcons]
        rfl
      · rw [hstay]
        rfl

theorem owed_eq (c : KSchedContext) (now : ℕ) : c.owed = ((c.fallenDue now).map KRefill.amount).sum +
    ((c.pending.dropWhile fun r => r.due ≤ now).map KRefill.amount).sum := by
  rw [← sum_append, ← map_append, fallenDue, takeWhile_append_dropWhile, owed]

theorem foldl_u64_eq {l : List KRefill} {b : ℕ} (h : b + (l.map KRefill.amount).sum < 2 ^ 64) :
    l.foldl (fun b r => u64 (b + r.amount)) b = b + (l.map KRefill.amount).sum := by
  induction l generalizing b with
  | nil => simp
  | cons r l ih =>
    simp only [map_cons, sum_cons] at h
    have hmod : u64 (b + r.amount) = b + r.amount := Nat.mod_eq_of_lt (by omega)
    rw [foldl_cons, hmod, ih (by omega), map_cons, sum_cons, Nat.add_assoc]

theorem applyRefills_spec (hw : c.refills.Wf) (now : ℕ) :
    ∃ ring, c.applyRefills now =
        ({ c with
            refills := ring
            remainingBudget := min c.budgetTicks
              ((c.fallenDue now).foldl (fun b (r : KRefill) => u64 (b + r.amount))
                c.remainingBudget) },
          decide (c.fallenDue now ≠ [])) ∧
      ring.Wf ∧ ring.max = c.refills.max ∧
      ring.toList = c.pending.dropWhile fun r => r.due ≤ now := by
  obtain ⟨ring, budget, heq, hring, hmax, hlist, rfl⟩ :=
    @applyLoop_spec _ now hw false
  refine ⟨ring, ?_, hring, hmax, hlist⟩
  simp only [applyRefills, heq, Bool.false_or]
  congr 2
  split_ifs <;> omega

variable {ring : RingBuffer KRefill}

theorem queueRefill_wf (hw : ring.Wf) (r : KRefill) : (queueRefill ring r).Wf := by
  unfold queueRefill
  split_ifs with hfree
  · exact hw.push hfree r
  · exact hw.setNewest _

theorem queueRefill_toList (hw : ring.Wf) (r : KRefill) :
    (queueRefill ring r).toList = ring.toList ++ [r] ∨
      ∃ init last, ring.toList = init ++ [last] ∧ (queueRefill ring r).toList =
        init ++ [⟨max last.due r.due, u64 (last.amount + r.amount)⟩] := by
  unfold queueRefill
  by_cases hfree : ring.count < ring.max
  · rw [if_pos hfree]
    exact .inl (RingBuffer.toList_push hfree r)
  have hpos : 0 < ring.count := by
    have := hw.head_lt
    omega
  rw [if_neg hfree]
  refine .inr ⟨_, _, RingBuffer.toList_newest hpos, ?_⟩
  rw [RingBuffer.toList_setNewest hpos hw, max_def_lt]

end
end KSchedContext
end IrisOS.Sched
