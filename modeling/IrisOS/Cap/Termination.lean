import IrisOS.Cap.Refine
import IrisOS.Lib.Count
import Mathlib.Algebra.BigOperators.Group.Finset.Piecewise

/-! Every action ends. Each call of the machine either makes the amount of work left in the
state and the waiting calls smaller, or keeps it and shortens what is waiting. -/
namespace IrisOS.Cap
open Lib Kernel Finset

/-- The work a waiting call stands for: an occupied slot is three, an active reference five, another
two. -/
def Call.load : Call → ℕ
  | slotDropOld _ _ => 2
  | finaliseOrphans _ | dispatchDestroy _ => 1
  | dispatchClose _ => 4
  | _ => 0

/-- How many rounds a waiting call has left when it finds nothing to do. -/
def Call.rounds (σ : Kernel) : Call → ℕ
  | emptySlots cn i | objDestroy cn i => (σ.objs cn).slotCount - i + 1
  | heldActiveRelease _ | heldRelease _ => 2
  | _ => 1

def loadSum (k : List Call) : ℕ := (k.map Call.load).sum
def roundsSum (σ : Kernel) (k : List Call) : ℕ := (k.map (Call.rounds σ)).sum

def KObject.load (x : KObject) : ℕ := 5 * x.activeRefs + 2 * x.refcount

namespace Kernel

def occupiedCount (σ : Kernel) : ℕ := σ.allSlots.countP σ.occupied

/-- The work left in the state. -/
def load (σ : Kernel) : ℕ :=
  (∑ o ∈ Finset.range σ.numObjs, (σ.objs o).load) + 3 * σ.occupiedCount + σ.cascade.length

end Kernel

@[simp] theorem loadSum_nil : loadSum [] = 0 := rfl
@[simp] theorem loadSum_cons (f : Call) (k : List Call) : loadSum (f :: k) = f.load + loadSum k := by
  simp [loadSum]
@[simp] theorem loadSum_append (k l : List Call) : loadSum (k ++ l) = loadSum k + loadSum l := by
  simp [loadSum]
@[simp] theorem roundsSum_nil (σ : Kernel) : roundsSum σ [] = 0 := rfl
@[simp] theorem roundsSum_cons (σ : Kernel) (f : Call) (k : List Call) :
    roundsSum σ (f :: k) = f.rounds σ + roundsSum σ k := by simp [roundsSum]
@[simp] theorem roundsSum_append (σ : Kernel) (k l : List Call) :
    roundsSum σ (k ++ l) = roundsSum σ k + roundsSum σ l := by simp [roundsSum]

section
variable {σ τ : Kernel} {F : Forest SlotRef}

theorem loadSum_hookCalls (l : List HookCall) : loadSum (l.map HookCall.toCall) = 0 := by
  induction l with
  | nil => rfl
  | cons c l ih =>
    rw [List.map_cons, loadSum_cons, ih]
    cases c <;> rfl

theorem roundsSum_congr (h : SameShape σ τ) (k : List Call) : roundsSum τ k = roundsSum σ k := by
  have : Call.rounds τ = Call.rounds σ := by
    funext f
    cases f <;> simp [Call.rounds, h.slotCount]
  simp [roundsSum, this]

variable {o : ObjId} {hooks : Hooks} {f : Call} {k : List Call}

theorem load_setObj {f : KObject → KObject} (ho : o < σ.numObjs)
    (hf : (f (σ.objs o)).slotCount = (σ.objs o).slotCount) :
    (σ.setObj o f).load + (σ.objs o).load = σ.load + (f (σ.objs o)).load := by
  have hcount : (σ.setObj o f).occupiedCount = σ.occupiedCount := by
    have hall : (σ.setObj o f).allSlots = σ.allSlots := by
      simp only [allSlots, setObj]
      congr 2
      funext x
      by_cases hx : x = o
      · simp [hx, hf]
      · simp [hx]
    simp only [occupiedCount, hall]
    rfl
  have hsum : (∑ x ∈ range σ.numObjs, ((σ.setObj o f).objs x).load) + (σ.objs o).load =
      (∑ x ∈ range σ.numObjs, (σ.objs x).load) + (f (σ.objs o)).load := by
    have hmem : o ∈ range σ.numObjs := mem_range.mpr ho
    have hrest : ∑ x ∈ (range σ.numObjs).erase o, ((σ.setObj o f).objs x).load =
        ∑ x ∈ (range σ.numObjs).erase o, (σ.objs x).load := by
      refine sum_congr rfl fun x hx => ?_
      simp [setObj, ne_of_mem_erase hx]
    have hself : ((σ.setObj o f).objs o).load = (f (σ.objs o)).load := by simp [setObj]
    rw [← sum_erase_add _ _ hmem, ← sum_erase_add _ (fun x => (σ.objs x).load) hmem,
      hrest, hself, Nat.add_right_comm]
  simp only [load, hcount]
  change (∑ x ∈ range σ.numObjs, ((σ.setObj o f).objs x).load) + _ + σ.cascade.length + _ = _
  omega

theorem allSlots_nodup (σ : Kernel) : σ.allSlots.Nodup := by
  refine List.nodup_cons.mpr ⟨by simp, List.nodup_flatMap.mpr ⟨fun o _ => ?_, ?_⟩⟩
  · exact List.nodup_range.map fun i j h => (SlotRef.slot.inj h).2
  refine List.nodup_range.pairwise_of_forall_ne fun a _ b _ hab => ?_
  intro s hsa hsb
  obtain ⟨i, -, rfl⟩ := List.mem_map.mp hsa
  obtain ⟨j, -, hj⟩ := List.mem_map.mp hsb
  exact hab (SlotRef.slot.inj hj).1.symm

theorem load_without (hw : Wf σ F) {s : SlotRef} (hs : σ.occupied s = true) (st : Stats) :
    (σ.without s st).load + 3 ≤ σ.load := by
  have hcount := countP_change (p := (σ.without s st).occupied) (q := σ.occupied) (allSlots_nodup σ)
    (hw.mem_allSlots (hw.mem hs)) fun x hx => by simp [Wf.occupied_without, hx]
  simp only [hs, Wf.occupied_without, if_true, Bool.toNat_true, Bool.toNat_false] at hcount
  change (∑ o ∈ range σ.numObjs, (σ.objs o).load) +
    3 * σ.allSlots.countP (σ.without s st).occupied + σ.cascade.length + 3 ≤ _
  simp only [load, occupiedCount]
  omega

theorem load_storageFree (ho : o < σ.numObjs) : (σ.kobjectStorageFree o).load = σ.load := by
  have h := load_setObj (f := fun x => { x with live := false }) ho rfl
  simp only [KObject.load] at h
  unfold kobjectStorageFree
  omega

theorem load_queue {g : KObject → KObject} {p : Option Panic} :
    load { σ.setObj o g with panic := p, cascade := o :: σ.cascade } =
      load { σ.setObj o g with panic := p } + 1 := rfl

/-- A call that ends in `r` brings the execution forward. -/
def Advances (σ : Kernel) (f : Call) (r : Kernel × List Call) : Prop :=
  r.1.load + loadSum r.2 < σ.load + f.load ∨
    r.1.load + loadSum r.2 ≤ σ.load + f.load ∧ roundsSum σ r.2 < f.rounds σ

theorem Call.rounds_pos (σ : Kernel) (f : Call) : 0 < f.rounds σ := by
  cases f <;> simp [Call.rounds]

theorem advances_of_load_eq (h : τ.load ≤ σ.load) : Advances σ f (τ, []) := by
  refine .inr ⟨?_, f.rounds_pos σ⟩
  simp only [loadSum_nil]
  omega

theorem advances_of_without (hw : Wf σ F) {cn : ObjId} {idx : ℕ} {st : Stats}
    {next : List Call} (ho : (σ.slots (.slot cn idx)).object = some o) (hnext : loadSum next = 0) :
    Advances σ f (σ.without (.slot cn idx) st, .slotDropOld cn o :: next) := by
  have hload := load_without (s := .slot cn idx) hw (by simp [occupied, ho]) st
  refine .inl ?_
  simp only [loadSum_cons, hnext, Call.load]
  omega

theorem Outcome.advances {l : List Call} (h : Outcome hooks σ F f τ l)
    (hw : Wf σ F) (hf : ∀ o ∈ f.subject, (σ.objs o).live = true) : Advances σ f (τ, l) := by
  have hsub : ∀ o ∈ f.subject, o < σ.numObjs := fun o ho => hw.fresh o (hf o ho)
  have hobj : ∀ o ∈ f.subject, ∀ (g : KObject → KObject) (p : Option Panic),
      (g (σ.objs o)).slotCount = (σ.objs o).slotCount →
      load { σ.setObj o g with panic := p } + (σ.objs o).load = σ.load + (g (σ.objs o)).load :=
    fun o ho _ _ hg => load_setObj (hsub o ho) hg
  cases h with
  | pass | emptied | queued | drained | revoked => exact advances_of_load_eq le_rfl
  | blank hd hidx =>
    cases hd with
    | one => exact advances_of_load_eq le_rfl
    | empty | destroy =>
      refine .inr ⟨le_rfl, ?_⟩
      simp only [roundsSum_cons, roundsSum_nil, Call.rounds]
      omega
  | delete hd _ ho => exact advances_of_without hw ho (by cases hd <;> rfl)
  | revoke _ ho => exact advances_of_without hw ho rfl
  | dropOld => exact .inl (by split_ifs <;> simp [Call.load])
  | @activeRelease o p =>
    have hload := hobj o rfl (fun x => { x with activeRefs := x.activeRefs - 1 }) p rfl
    simp only [KObject.load] at hload
    unfold Advances
    split_ifs
    · simp only [loadSum_cons, loadSum_nil, Call.load]
      omega
    · simp only [loadSum_nil, roundsSum_nil, Call.load, Call.rounds]
      omega
  | @release o p =>
    have hload := hobj o rfl (fun x => { x with refcount := x.refcount - 1 }) p rfl
    simp only [KObject.load] at hload
    unfold Advances
    split_ifs
    · simp only [loadSum_cons, loadSum_nil, Call.load]
      omega
    · simp only [loadSum_nil, roundsSum_nil, Call.load, Call.rounds]
      omega
  | @resurrect o p | @queue o p =>
    have hload := hobj o rfl (fun x => { x with refcount := x.refcount + 1 }) p rfl
    simp only [KObject.load] at hload
    refine .inl ?_
    simp only [load_queue, loadSum_nil, Call.load]
    omega
  | @destroyed o =>
    exact advances_of_load_eq (load_storageFree (σ := σ.setStats _) (hsub o rfl)).le
  | @storageFree o => exact advances_of_load_eq (load_storageFree (hsub o rfl)).le
  | finaliseOrphans | close => exact .inl (by simp [loadSum_hookCalls, Call.load])
  | cascade => exact .inl (show σ.load + 0 < σ.load + 4 by omega)
  | noDestructor => exact .inl (show σ.load + 0 < σ.load + 1 by omega)
  | objDestroy | destroy => exact .inl (by simp [loadSum_hookCalls, Call.load])
  | drain hc =>
    refine .inl ?_
    simp only [load, hc, List.length_cons, loadSum_cons, loadSum_nil, Call.load]
    exact Nat.lt_succ_self _
  | giveActive | giveRef => exact .inr ⟨le_rfl, by simp [Call.rounds]⟩

theorem body_advances (hooks : Hooks) (hw : Wf σ F) (f : Call) :
    Advances σ f ((machine hooks).body σ f) := by
  unfold machine
  simp only
  split_ifs with h
  · exact (perform_outcome hooks hw f).advances hw fun o ho => by
      rw [Option.mem_def.mp ho] at h
      exact h
  · exact advances_of_load_eq le_rfl

theorem returns_load (h : InOrder σ k)
    (hret : (machine hooks).Returns σ k τ) : τ.load ≤ σ.load + loadSum k := by
  refine (CallMachine.Returns.preserves
    (I := fun s l => InOrder s l ∧ s.load + loadSum l ≤ σ.load + loadSum k) ?_ ?_ hret
    ⟨h, le_rfl⟩).2
  · rintro s f l - ⟨hI, hle⟩
    refine ⟨⟨hI.1, nofun⟩, ?_⟩
    rw [loadSum_nil]
    omega
  rintro s f l - ⟨hI, hle⟩
  refine ⟨hI.call hooks, ?_⟩
  obtain ⟨F, hw⟩ := hI.1
  have hadv := body_advances hooks hw f
  unfold Advances at hadv
  rw [loadSum_cons] at hle
  rw [loadSum_append]
  omega

theorem exists_returns (hooks : Hooks) (h : InOrder σ k) : ∃ τ, (machine hooks).Returns σ k τ := by
  refine CallMachine.exists_returns (WellFounded.prod_lex wellFounded_lt wellFounded_lt)
    (fun (σ : Kernel) k => (σ.load + loadSum k, roundsSum σ k)) InOrder ?_ h
  intro σ f k _ hI
  refine ⟨hI.call hooks, ?_⟩
  obtain ⟨⟨F, hw⟩, hk⟩ := hI
  have hshape := (body_effect hooks hw (hk f (by simp))).1.sameShape
  rcases body_advances hooks hw f with hlt | ⟨hle, hrounds⟩
  · refine .left _ _ ?_
    simp only [loadSum_append, loadSum_cons]
    omega
  · rw [roundsSum_congr hshape]
    simp only [Prod.lex_def, loadSum_append, loadSum_cons, roundsSum_append, roundsSum_cons]
    omega

theorem Step.exists_outcome (hw : Wf σ F) (hp : σ.panic = none) (a : Action) :
    ∃ τ, Step hooks σ a τ := by
  obtain ⟨F', hw', -⟩ := act_refines hw a
  obtain ⟨τ, h⟩ := exists_returns hooks
    ⟨⟨F', hw'⟩, fun f hf => (act_isEntry hw a f hf).frameOk _⟩
  exact ⟨τ, step_iff.mpr ⟨hp, h⟩⟩

end

/-- Every sequence of entries runs to its end, with any hooks, unless an assertion stops the
kernel. -/
theorem runs_to_the_end (hooks : Hooks) {σ : Kernel} (hσ : Initial σ) (as : List Action) :
    ∃ bs τ, bs <+: as ∧ Runs hooks (fun _ _ => True) σ bs τ ∧ (τ.panic = none → bs = as) := by
  induction as using List.reverseRecOn with
  | nil => exact ⟨[], σ, List.prefix_rfl, .nil σ, fun _ => rfl⟩
  | append_singleton as a ih =>
    obtain ⟨bs, τ, hpre, hrun, hall⟩ := ih
    by_cases hp : τ.panic = none
    · obtain rfl := hall hp
      obtain ⟨F, hw⟩ := hrun.wf hσ
      obtain ⟨υ, hstep⟩ := Step.exists_outcome hw hp a
      exact ⟨_, υ, List.prefix_rfl, .snoc hrun trivial hstep, fun _ => rfl⟩
    · exact ⟨bs, τ, hpre.trans (List.prefix_append as [a]), hrun, fun h => absurd h hp⟩

theorem runs_to_the_end_twoCNodes :
    let as := [.allocCNode 2, .allocCNode 2, .delete 0 0]
    ∃ bs τ, bs <+: as ∧ Runs inertHooks (fun _ _ => True) {} bs τ ∧ (τ.panic = none → bs = as) :=
  runs_to_the_end inertHooks initial_empty _

end IrisOS.Cap
