import IrisOS.Sched.Conserve

/-! No time without authority: without a SchedControl capability the budget a context has left
only ever grows by refills that have fallen due. -/
namespace IrisOS.Sched
open Cap Relation Function KSchedContext

/-- A context keeps or loses budget, or takes its oldest refill once due; its ticks never become
more. -/
inductive Spends (now : ℕ) (c c' : KSchedContext) : Prop
  | keep (remaining : c'.remainingBudget ≤ c.remainingBudget) (total : c'.total ≤ c.total)
  | refill {r rest} (pending : c.pending = r :: rest) (due : r.due ≤ now)
      (pending' : c'.pending = rest) (remaining : c'.remainingBudget ≤ c.remainingBudget + r.amount)
      (total : c'.total ≤ c.total)

section
variable {now now' : ℕ} {c c' : KSchedContext}

theorem Spends.later (h : Spends now c c') (hle : now ≤ now') : Spends now' c c' := by
  cases h with
  | keep hrem htotal => exact .keep hrem htotal
  | refill hp hdue hp' hrem htotal => exact .refill hp (hdue.trans hle) hp' hrem htotal

theorem chargeTick_spends : Spends now c (c.chargeTick now).1 := by
  by_cases hpos : 0 < c.remainingBudget
  · rw [chargeTick_of_pos hpos]
    refine .keep (Nat.sub_le _ _) ?_
    simp only [total, owed, pending]
    omega
  · rw [chargeTick_of_zero (by omega)]
    exact .keep le_rfl le_rfl

theorem flushRun_spends (hw : c.refills.Wf) : Spends now c c.flushRun := by
  unfold flushRun
  split_ifs with hrun
  · exact .keep le_rfl le_rfl
  refine .keep le_rfl ?_
  cases queueRefill_toList hw
    ⟨u64 (c.consumeStart + c.periodTicks), c.consumedRun⟩ with
  | inl hpush =>
    simp only [total, owed, pending, hpush,
      List.map_append, List.sum_append, List.map_singleton, List.sum_singleton]
    omega
  | inr hmerge =>
    obtain ⟨init, last, hinit, hmerge⟩ := hmerge
    have hmod : u64 (last.amount + c.consumedRun) ≤ last.amount + c.consumedRun :=
      Nat.mod_le _ _
    simp only [total, owed, pending, hmerge, hinit,
      List.map_append, List.sum_append, List.map_singleton, List.sum_singleton]
    omega

theorem takeRefill_spends (hw : c.refills.Wf) (hc : 0 < c.refills.count)
    (hdue : c.refills.front.due ≤ now) : Spends now c c.takeRefill := by
  have hpending := takeRefill_pending hc hw
  have hmod : u64 (c.remainingBudget + c.refills.front.amount) ≤
      c.remainingBudget + c.refills.front.amount := Nat.mod_le _ _
  refine .refill hpending hdue rfl hmod ?_
  have hrun : c.takeRefill.consumedRun = c.consumedRun := rfl
  have hrem : c.takeRefill.remainingBudget = u64 (c.remainingBudget + c.refills.front.amount) := rfl
  simp only [total, owed, hpending, List.map_cons, List.sum_cons, hrun,
    hrem]
  omega

theorem applyLoop_spends (now n : ℕ) (hw : c.refills.Wf) (g : Bool) :
    ReflTransGen (Spends now) c (KSchedContext.applyLoop now n (c, g)).1 := by
  induction n generalizing c g with
  | zero => exact .refl
  | succ n ih =>
    rw [applyLoop]
    split_ifs with hdue
    · exact (ih hw.pop true).head (takeRefill_spends hw hdue.1 hdue.2)
    · exact .refl

theorem applyRefills_spends (now : ℕ) (hw : c.refills.Wf) :
    ReflTransGen (Spends now) c (c.applyRefills now).1 := by
  refine (applyLoop_spends now c.refills.count hw false).tail ?_
  unfold applyRefills
  dsimp only
  split_ifs with hover
  · refine .keep hover.le ?_
    simp only [total, owed, pending]
    omega
  · exact .keep le_rfl le_rfl

variable {P : ℕ → KSchedContext → Prop} {p q : ℕ × KSchedContext}

theorem Uses.refills_wf (h : Uses P p q) (hw : p.2.refills.Wf) : q.2.refills.Wf := by
  cases h with
  | later => exact hw
  | @charge now c =>
    unfold chargeTick
    split_ifs <;> exact hw
  | flush =>
    unfold flushRun
    split_ifs
    · exact hw
    · exact queueRefill_wf hw _
  | @apply now c =>
    obtain ⟨ring, heq, hring, -, -⟩ := applyRefills_spec hw now
    rw [heq]
    exact hring
  | bind => exact hw

theorem Uses.spends (h : Uses P p q)
    (hw : p.2.refills.Wf) : p.1 ≤ q.1 ∧ ReflTransGen (Spends q.1) p.2 q.2 := by
  cases h with
  | later hle => exact ⟨hle, .refl⟩
  | charge => exact ⟨le_rfl, .single chargeTick_spends⟩
  | flush => exact ⟨le_rfl, .single (flushRun_spends hw)⟩
  | apply => exact ⟨le_rfl, applyRefills_spends _ hw⟩
  | bind => exact ⟨le_rfl, .single (.keep le_rfl le_rfl)⟩

theorem uses_spends (h : ReflTransGen (Uses P) p q) (hw : p.2.refills.Wf) :
    q.2.refills.Wf ∧ ReflTransGen (Spends q.1) p.2 q.2 := by
  induction h with
  | refl => exact ⟨hw, .refl⟩
  | tail _ hu ih =>
    obtain ⟨hle, hspends⟩ := hu.spends ih.1
    exact ⟨hu.refills_wf ih.1, (ReflTransGen.mono (fun _ _ h => h.later hle) _ _ ih.2).trans hspends⟩

end

namespace Scheduler

/-- No SchedControl is shown, no call attaches a context short of budget, and the tick resets none.
-/
def mintsNothing (σ : Scheduler) : Action → Bool
  | .scConfigure control _ _ _ => !control
  | .tick => σ.resetsNothing
  | a => (σ.attachedBy a).all fun sc => (σ.scs sc).remainingBudget = (σ.scs sc).budgetTicks

section
variable {σ τ : Scheduler} {a : Action}

theorem chargesAllowed_true (σ : Scheduler) (a : Action) : ChargesAllowed (fun _ _ => True) σ a :=
  ⟨fun _ _ => trivial, fun _ _ _ _ _ _ _ => trivial, fun _ _ _ _ _ _ _ _ => trivial⟩

theorem Scanned.refills_eq {L : List TaskId} (h : Scanned L σ τ) (sc : ScId) :
    (τ.scs sc).refills = (σ.scs sc).refills := by
  rw [h.scs]
  split_ifs <;> rfl

theorem act_refills_wf (hw : ∀ sc, (σ.scs sc).refills.Wf) (a : Action) :
    ∀ sc, ((σ.act a).scs sc).refills.Wf := by
  refine (act_effect σ a (chargesAllowed_true σ a)).keeps (I := fun _ c => c.refills.Wf)
    (fun hu => hu.refills_wf) (fun objArg => (Balanced.alloc objArg : Balanced 0 _).ring)
    (fun hc h => ?_) (fun h => h.reset) (fun _ _ _ h => h) (fun mid _ hmid hw sc => ?_) hw
  · unfold configure at hc
    split_ifs at hc
    cases hc
    exact h.reset
  · rw [hmid.refills_eq]
    exact hw sc

theorem run_refills_wf (hw : ∀ sc, (σ.scs sc).refills.Wf) (as : List Action) (sc : ScId) :
    ((σ.run as).scs sc).refills.Wf := by
  induction as generalizing σ with
  | nil => exact hw sc
  | cons a as ih => exact ih (act_refills_wf hw a)

theorem Attaches.spends {sc : ScId} (h : Attaches σ τ sc)
    (hfull : (σ.scs sc).remainingBudget = (σ.scs sc).budgetTicks) (sc' : ScId) :
    Spends τ.ticks (σ.scs sc') (τ.scs sc') := by
  obtain ⟨υ, hbind, -, hscs⟩ := h.mid
  obtain ⟨t, ht⟩ := hbind.scs sc'
  rw [hscs]
  by_cases hsc : sc' = sc
  · subst hsc
    rw [update_self, ht]
    refine .keep hfull.ge ?_
    change (σ.scs sc').budgetTicks ≤ (σ.scs sc').total
    rw [← hfull, total]
    omega
  · rw [update_of_ne hsc, ht]
    exact .keep le_rfl le_rfl

theorem act_spends (hw : ∀ sc, (σ.scs sc).refills.Wf) (hm : σ.mintsNothing a = true) (sc : ScId) :
    ReflTransGen (Spends (σ.act a).ticks) (σ.scs sc) ((σ.act a).scs sc) := by
  have heffect := act_effect σ a (chargesAllowed_true σ a)
  generalize σ.act a = τ at heffect ⊢
  cases heffect with
  | uses h => exact (uses_spends (h.chain sc) (hw sc)).2
  | @retype objArg _ _ _ hscs =>
    rw [hscs]
    by_cases hsc : sc = σ.numScs
    · subst hsc
      rw [update_self]
      exact .single (.keep (Nat.zero_le _) (Nat.zero_le _))
    · rw [update_of_ne hsc]
  | configure hc => simp [mintsNothing] at hm
  | @attach a _ sc' ha h =>
    have hfull : (σ.scs sc').remainingBudget = (σ.scs sc').budgetTicks := by
      cases a with
      | scConfigure => cases ha
      | tick => cases ha
      | _ => simpa [mintsNothing, ha] using hm
    exact .single (h.spends hfull sc)
  | @consumed sc' _ =>
    by_cases hsc : sc = sc'
    · subst hsc
      rw [scs_setSc_self]
      refine .single (.keep le_rfl ?_)
      change (σ.scs sc).remainingBudget + 0 + (σ.scs sc).owed ≤ (σ.scs sc).total
      rw [total]
      omega
    · rw [scs_setSc_of_ne _ _ _ hsc]
  | tick hmid h =>
    have hscs := hmid.scs_eq hm
    have hchain := (uses_spends (h.chain sc) (by rw [hscs]; exact hw sc)).2
    rwa [hscs] at hchain

theorem run_append (σ : Scheduler) (as bs : List Action) :
    σ.run (as ++ bs) = (σ.run as).run bs := List.foldl_append

theorem Meets.append {P : Scheduler → Action → Prop} {as bs : List Action}
    (h : Meets P σ (as ++ bs)) : Meets P (σ.run as) bs := by
  induction as generalizing σ with
  | nil => exact h
  | cons a as ih => exact ih h.2

end

end Scheduler
end IrisOS.Sched
