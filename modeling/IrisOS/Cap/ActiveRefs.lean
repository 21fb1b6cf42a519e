import IrisOS.Cap.EntryAccounts

/-! Active references. The active count of an object is the number of slots of other objects that
name it and of active references held outside; the relocating primitives break this when they take a
CNode's own capability into or out of it. -/
namespace IrisOS.Cap
open Lib Kernel Account

namespace Kernel

/-- The slots that hold an active reference to `o`, and the holders outside the slots. -/
def activeHolders (σ : Kernel) (o : ObjId) : ℕ := Account.active.slots σ o + (σ.held o).active

/-- No install takes the first active reference to its object only to be refused. -/
def installSettled (σ : Kernel) (a : Action) : Bool :=
  (σ.request a).all fun r =>
    !(σ.TakesRefs r && σ.refuses r) || r.obj = r.cn || 0 < (σ.objs r.obj).activeRefs

end Kernel

section
variable {σ τ : Kernel} {F : Forest SlotRef} {f : Call} {k : List Call} {hooks : Hooks}
  {l : List Call}

theorem Outcome.held_le (h : Outcome hooks σ F f τ l) (o : ObjId) :
    (τ.held o).active ≤ (σ.held o).active := by
  cases h with
  | @giveActive x | @giveRef x =>
    by_cases ho : o = x
    · simp [setHeld, ho]
    · simp [setHeld, ho]
  | _ => exact le_rfl

theorem held_returns_le (h : (machine hooks).Returns σ k τ) (hI : InOrder σ k) (o : ObjId) :
    (τ.held o).active ≤ (σ.held o).active := by
  refine (h.preserves (I := fun s k => InOrder s k ∧ (s.held o).active ≤ (σ.held o).active)
    (fun s f k _ hI => ⟨⟨hI.1.1, by simp⟩, hI.2⟩) (fun s f k _ hI => ⟨hI.1.call hooks, ?_⟩)
    ⟨hI, le_rfl⟩).2
  obtain ⟨⟨F, hw⟩, -⟩ := hI.1
  unfold machine
  simp only
  split_ifs
  · exact ((perform_outcome hooks hw f).held_le o).trans hI.2
  · exact hI.2

theorem Step.held_le {a : Action} (hstep : Step hooks σ a τ) (hw : Wf σ F) (ha : a.holds = false)
    (o : ObjId) : (τ.held o).active ≤ (σ.held o).active := by
  obtain ⟨F', hw', -⟩ := act_refines hw a
  have hI : InOrder (σ.act a).1 (σ.act a).2 :=
    ⟨⟨F', hw'⟩, fun f hf => (act_isEntry hw a f hf).frameOk _⟩
  exact (held_returns_le hstep.2 hI o).trans ((act_entryFrame hw a).held ha o)

end

theorem Initial.accounted {A : Account} {σ : Kernel} (h : Initial σ) : Accounted A σ [] := by
  have hslots : ∀ o, A.slots σ o = 0 := fun o => by
    refine List.countP_eq_zero.mpr fun s _ => ?_
    simp [names, h.slots, KCSlot.empty]
  refine ⟨⟨h.wf, by simp⟩, fun _ o => ?_, fun _ o ho => ?_, ?_⟩
  · rw [hslots, h.quiet.1]
    cases A with
    | active => simpa [Account.counter, Account.held, Account.queued] using (h.counts o).2
    | refs => simpa [Account.counter, Account.held, Account.queued] using (h.counts o).1
  · rw [(h.fresh o ho).1]
    cases A <;> rfl
  · rw [h.quiet.2.2.2]
    simp

section
variable {σ τ : Kernel} {F : Forest SlotRef} {a : Action} {o : ObjId}

theorem act_activeRefs (hw : Wf σ F) (hfresh : Account.active.Fresh σ) (hholds : a.holds = false)
    (hinst : a.isInstall = false) : ((σ.act a).1.objs o).activeRefs = (σ.objs o).activeRefs := by
  have hnew : ∀ type n, ((σ.addObject type n).objs o).activeRefs = (σ.objs o).activeRefs := by
    by_cases ho : o = σ.numObjs
    · have hzero : (σ.objs o).activeRefs = 0 := hfresh o ho.ge
      rw [hzero, ho]
      simp [addObject]
    · simp [addObject, ho]
  have h := act_entered hw a
  generalize σ.act a = x at h ⊢
  cases h with
  | refused | idle | call | guard => rfl
  | install ha => simp [ha] at hinst
  | shuffle _ hr => rw [hr.slotsOnly.objs]
  | delete cn idx => simp only [returning, (slotDeleteLocked_slotsOnly hw cn idx).objs]
  | create => exact hnew _ _
  | _ => cases hholds

theorem slots_pos_of_names (hw : Wf σ F) {cn : ObjId} {idx : ℕ}
    (h : σ.names o (.slot cn idx) = true) (ho : o ≠ cn) : 0 < Account.active.slots σ o := by
  have hocc := occupied_of_names h
  refine List.countP_pos_iff.mpr ⟨.slot cn idx, hw.mem_allSlots (hw.mem hocc), ?_⟩
  simp [h, counts, ho]

theorem install_activeRefs (hw : Wf σ F) (r : Install)
    (hsettled : ¬ σ.TakesRefs r ∨ σ.refuses r = false ∨ r.obj = r.cn ∨
      0 < (σ.objs r.obj).activeRefs) :
    (σ.objs o).activeRefs ≤ ((σ.install r).1.objs o).activeRefs ∧
      (0 < ((σ.install r).1.objs o).activeRefs →
        0 < (σ.objs o).activeRefs ∨ (σ.install r).1.names o (.slot r.cn r.idx) = true ∧ o ≠ r.cn) := by
  obtain ⟨e, hr⟩ | ⟨-, hr⟩ | ⟨htakes, hrest, hfill⟩ := (install_installed σ r).begins hw
  · rw [hr]
    exact ⟨le_rfl, .inl⟩
  · obtain ⟨p, hp⟩ := kobjectRetain_eq σ r.obj
    have hsame : ((σ.kobjectRetain r.obj).objs o).activeRefs = (σ.objs o).activeRefs := by
      rw [hp]
      by_cases ho : o = r.obj
      · simp [setObj, ho]
      · simp [setObj, ho]
    rw [hr]
    exact ⟨hsame.ge, fun h => .inl (hsame ▸ h)⟩
  · have hcount : ((σ.takeRefs r.cn r.obj).objs o).activeRefs =
        (σ.objs o).activeRefs + (r.obj = o ∧ o ≠ r.cn : Bool).toNat :=
      takeRefs_counter (A := .active) σ r.cn r.obj o
    rw [hrest.objs, hcount]
    refine ⟨Nat.le_add_right _ _, fun hpos => ?_⟩
    by_cases ho : r.obj = o ∧ o ≠ r.cn
    · obtain ⟨rfl, hne⟩ := ho
      rcases hsettled with hno | hok | heq | hact
      · exact absurd htakes hno
      · exact .inr ⟨hfill hok, hne⟩
      · exact absurd heq hne
      · exact .inl hact
    · simp only [ho, decide_false, Bool.toNat_false, Nat.add_zero] at hpos
      exact .inl hpos

theorem act_activeRefs_pos (h : Accounted .active σ []) (hp : σ.panic = none)
    (hholds : a.holds = false) (hborder : σ.keepsBorders a = true)
    (hsettled : σ.installSettled a = true) (hp' : (σ.act a).1.panic = none) :
    0 < ((σ.act a).1.objs o).activeRefs ↔
      0 < σ.activeHolders o ∨ 0 < (σ.act a).1.activeHolders o := by
  obtain ⟨F, hw⟩ := h.inOrder.1
  obtain ⟨F', hw', -⟩ := act_refines hw a
  have hσ : (σ.objs o).activeRefs = σ.activeHolders o := h.balanced hp o
  have hE : ((σ.act a).1.objs o).activeRefs = (σ.act a).1.activeHolders o + 0 +
    active.dueSum o (σ.act a).2 := (h.balanced hp).act hw (h.fresh hp) (fun _ => hborder) hp' o
  have hentry : (σ.objs o).activeRefs ≤ ((σ.act a).1.objs o).activeRefs ∧
      (0 < ((σ.act a).1.objs o).activeRefs →
        0 < (σ.objs o).activeRefs ∨ 0 < active.slots (σ.act a).1 o) := by
    cases hinst : a.isInstall with
    | false =>
      rw [act_activeRefs hw (h.fresh hp) hholds hinst]
      exact ⟨le_rfl, .inl⟩
    | true =>
      obtain ⟨e, -, he⟩ | ⟨r, hreq, he⟩ := act_isInstall hw hinst
      · rw [he]
        exact ⟨le_rfl, .inl⟩
      rw [installSettled, hreq, Option.all_some] at hsettled
      simp only [Bool.or_eq_true, Bool.not_eq_true', Bool.and_eq_false_iff, decide_eq_true_eq,
        decide_eq_false_iff_not, or_assoc] at hsettled
      rw [he] at hw' ⊢
      obtain ⟨hle, hpos⟩ := install_activeRefs (o := o) hw r hsettled
      refine ⟨hle, fun h => (hpos h).imp_right fun hn => slots_pos_of_names hw' hn.1 hn.2⟩
  constructor
  · intro hpos
    rcases hentry.2 hpos with h' | h'
    · exact .inl (hσ ▸ h')
    · exact .inr (Nat.add_pos_left h' _)
  · rintro (h' | h')
    · exact (hσ ▸ h').trans_le hentry.1
    · omega

theorem StepPerforms.count_close {hooks : Hooks} (h : Accounted .active σ [])
    (hstep : StepPerforms hooks σ a l τ) (hholds : a.holds = false)
    (hborder : σ.keepsBorders a = true) (hsettled : σ.installSettled a = true)
    (hτ : τ.panic = none) (o : ObjId) :
    l.count (.dispatchClose o) =
      if (0 < σ.activeHolders o ∨ 0 < (σ.act a).1.activeHolders o) ∧ τ.activeHolders o = 0
      then 1 else 0 := by
  obtain ⟨hp, hperf⟩ := hstep
  obtain ⟨F, hw⟩ := h.inOrder.1
  have hE := h.act hp fun _ => hborder
  have hp' : (σ.act a).1.panic = none := by
    by_contra hne
    have := (CallMachine.Returns.halted_iff (M := machine hooks)
      (by simpa [machine, Option.isSome_iff_ne_none] using hne)).mp hperf.returns
    exact hne (this ▸ hτ)
  have hentry : (σ.act a).2.count (.dispatchClose o) = 0 :=
    List.count_eq_zero_of_not_mem fun hmem => act_isEntry hw a _ hmem
  have hcount := hE.count_hook hperf hτ o
  have hend : (τ.objs o).activeRefs = τ.activeHolders o := (hE.returns hperf.returns).balanced hτ o
  simp only [← act_activeRefs_pos h hp hholds hborder hsettled hp', ← hend]
  simp only [pending, hook, counter, hentry, Nat.add_zero] at hcount
  by_cases hE' : 0 < ((σ.act a).1.objs o).activeRefs
  · by_cases hτ' : (τ.objs o).activeRefs = 0
    · simpa [hE', hτ'] using hcount
    · simpa [hE', hτ', Nat.pos_of_ne_zero hτ'] using hcount
  · have hle : l.count (.dispatchClose o) = 0 := by
      simp only [hE', decide_false, Bool.toNat_false] at hcount
      omega
    simp [hE', hle]

end

/-- In every run that takes no CNode's own capability across its border, the active count of an
object is the number of slots outside it that name it and of active references held elsewhere. A
step that does not refuse an install too late runs the close hook once if it takes the last holder,
and otherwise not. -/
theorem runs_activeRefs {hooks : Hooks} {σ τ : Kernel} {as : List Action} (hσ : Initial σ)
    (h : Runs hooks (fun σ a => a.holds = false ∧ σ.keepsBorders a = true) σ as τ) :
    τ.panic ≠ some .activeRefsUnderflow ∧
    (τ.panic = none → ∀ o, (τ.objs o).activeRefs = Account.active.slots τ o + (τ.held o).active) ∧
    (∀ o, (τ.held o).active ≤ (σ.held o).active) ∧
    ∀ a l υ, a.holds = false → τ.keepsBorders a = true → τ.installSettled a = true →
      StepPerforms hooks τ a l υ → υ.panic = none → ∀ o,
        l.count (.dispatchClose o) =
          if (0 < τ.activeHolders o ∨ 0 < (τ.act a).1.activeHolders o) ∧ υ.activeHolders o = 0
          then 1 else 0 := by
  obtain ⟨hacc, hheld⟩ := h.keeps
    (I := fun υ => Accounted .active υ [] ∧ ∀ o, (υ.held o).active ≤ (σ.held o).active)
    (fun s a t hI ok hstep => ⟨hI.1.step (fun _ => ok.2) hstep, fun o => by
      obtain ⟨F, hw⟩ := hI.1.inOrder.1
      exact (Step.held_le hstep hw ok.1 o).trans (hI.2 o)⟩)
    ⟨hσ.accounted, fun _ => le_rfl⟩
  refine ⟨hacc.noUnderflow, fun hp o => hacc.balanced hp o, hheld, ?_⟩
  intro a l υ hholds hborder hsettled hstep hυ o
  exact hstep.count_close hacc hholds hborder hsettled hυ o

/-- Two capabilities to an endpoint, of which the first is deleted. -/
def lastSlotRun : List Action :=
  [.allocCNode 2, .initObject .endpoint, .installLinked 0 0 1 rightDuplicate 0 none none true true,
    .derive 0 0 0 1 rightSameRights 0, .delete 0 0]

theorem runs_activeRefs_lastSlotRun : ∃ τ l υ,
    exec inertHooks (fun σ a => a.holds = false ∧ σ.keepsBorders a = true) 16 {} lastSlotRun =
      some τ ∧
    (τ.objs 1).activeRefs = Account.active.slots τ 1 + (τ.held 1).active ∧ 0 < τ.activeHolders 1 ∧
    StepPerforms inertHooks τ (.delete 0 1) l υ ∧ υ.activeHolders 1 = 0 ∧
    l.count (.dispatchClose 1) = 1 := by
  obtain ⟨τ, hτ, hp, hpos, ⟨l, υ⟩, hrec, hpυ, hzero⟩ :
      ∃ τ ∈ exec inertHooks (fun σ a => a.holds = false ∧ σ.keepsBorders a = true) 16 {} lastSlotRun,
        τ.panic = none ∧ 0 < τ.activeHolders 1 ∧
        ∃ r ∈ (machine inertHooks).record 16 (τ.act (.delete 0 1)).1 (τ.act (.delete 0 1)).2,
          r.2.panic = none ∧ r.2.activeHolders 1 = 0 := by decide
  have hstep : StepPerforms inertHooks τ (.delete 0 1) l υ :=
    ⟨hp, CallMachine.performs_of_record hrec⟩
  obtain ⟨-, hcount, -, hclose⟩ := runs_activeRefs initial_empty (.of_exec hτ)
  refine ⟨τ, l, υ, hτ, hcount hp 1, hpos, hstep, hzero, ?_⟩
  rw [hclose _ l υ rfl rfl rfl hstep hpυ 1, if_pos ⟨.inl hpos, hzero⟩]

/-! ## Where the counts go wrong -/

/-- A CNode's own capability is moved out of it to another CNode. -/
def movedOutRun : List Action :=
  [.allocCNode 2, .allocCNode 2, .installLinked 0 0 0 rightRead 0 none none true true,
    .move 0 0 1 0]

/-- A slot is filled; the next install into it, of another endpoint, will be refused. -/
def occupiedRun : List Action :=
  [.allocCNode 2, .initObject .endpoint, .initObject .endpoint,
    .installLinked 0 0 1 rightRead 0 none none true true]

def refusedInstall : Action := .installLinked 0 0 2 rightRead 0 none none true true

/-- After the move deleting the slot stops the kernel, and a refused install runs the close hook of
an object that no slot has named. -/
theorem movedOutRun_underflows : Initial {} ∧
    (∃ τ υ, Runs inertHooks (fun _ a => a.holds = false) {} movedOutRun τ ∧ τ.panic = none ∧
      (τ.objs 0).activeRefs = 0 ∧ (τ.held 0).active = 0 ∧ Account.active.slots τ 0 = 1 ∧
      Step inertHooks τ (.delete 1 0) υ ∧ υ.panic = some .activeRefsUnderflow) ∧
    ∃ τ l υ, Runs inertHooks (fun _ a => a.holds = false) {} occupiedRun τ ∧
      StepPerforms inertHooks τ refusedInstall l υ ∧ υ.panic = none ∧ .dispatchClose 2 ∈ l ∧
      τ.activeHolders 2 = 0 ∧ (τ.act refusedInstall).1.activeHolders 2 = 0 := by
  refine ⟨initial_empty, ?_, ?_⟩
  · obtain ⟨τ, hτ, hp, hactive, hheld, hslots, υ, hret, hpυ⟩ :
        ∃ τ ∈ exec inertHooks (fun _ a => a.holds = false) 16 {} movedOutRun, τ.panic = none ∧
          (τ.objs 0).activeRefs = 0 ∧ (τ.held 0).active = 0 ∧ active.slots τ 0 = 1 ∧
          ∃ υ ∈ (machine inertHooks).run 16 (τ.act (.delete 1 0)).1 (τ.act (.delete 1 0)).2,
            υ.panic = some .activeRefsUnderflow := by decide
    exact ⟨τ, υ, .of_exec hτ, hp, hactive, hheld, hslots,
      step_iff.mpr ⟨hp, CallMachine.returns_of_run hret⟩, hpυ⟩
  · obtain ⟨τ, hτ, hp, hbefore, hentry, ⟨l, υ⟩, hrec, hpυ, hmem⟩ :
        ∃ τ ∈ exec inertHooks (fun _ a => a.holds = false) 16 {} occupiedRun, τ.panic = none ∧
          τ.activeHolders 2 = 0 ∧ (τ.act refusedInstall).1.activeHolders 2 = 0 ∧
          ∃ r ∈ (machine inertHooks).record 16 (τ.act refusedInstall).1 (τ.act refusedInstall).2,
            r.2.panic = none ∧ .dispatchClose 2 ∈ r.1 := by decide
    exact ⟨τ, l, υ, .of_exec hτ, ⟨hp, CallMachine.performs_of_record hrec⟩, hpυ, hmem,
      hbefore, hentry⟩

end IrisOS.Cap
