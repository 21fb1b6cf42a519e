import IrisOS.Cap.FinalCap

/-! The reference counts of the objects: each is the number of slots, of references held outside
them, of entries in the teardown list and of releases still waiting. Every call keeps this balance.
-/
namespace IrisOS.Cap
open Lib Kernel List Call

/-- The two counts of an object: active references and lifecycle references. -/
inductive Account
  | active | refs
  deriving DecidableEq

namespace Account

def counter : Account → KObject → ℕ
  | active, x => x.activeRefs
  | refs, x => x.refcount

/-- Whether a slot that names `o` holds a reference: a CNode has no active reference from its
own slots. -/
def counts : Account → ObjId → SlotRef → Bool
  | active, o, .slot cn _ => o ≠ cn
  | _, _, _ => true

def held : Account → Held → ℕ
  | active, x => x.active
  | refs, x => x.refs

/-- The teardown list holds a lifecycle reference to each of its entries. -/
def queued : Account → List ObjId → ObjId → ℕ
  | active, _, _ => 0
  | refs, l, o => l.count o

/-- The references to `o` that a waiting call is about to drop. -/
def due : Account → ObjId → Call → ℕ
  | active, o, .slotDropOld cn old => (old = o ∧ o ≠ cn : Bool).toNat
  | refs, o, .slotDropOld _ old => (old = o : Bool).toNat
  | active, o, .activeRelease x => (x = o : Bool).toNat
  | refs, o, .release x => (x = o : Bool).toNat
  | _, _, _ => 0

def dueSum (A : Account) (o : ObjId) (k : List Call) : ℕ := (k.map (A.due o)).sum

/-- The slots that hold a reference to `o`. -/
def slots (A : Account) (σ : Kernel) (o : ObjId) : ℕ :=
  σ.allSlots.countP fun s => σ.names o s && A.counts o s

/-- Every reference is accounted for. -/
def Balanced (A : Account) (σ : Kernel) (k : List Call) : Prop :=
  ∀ o, A.counter (σ.objs o) =
    A.slots σ o + A.held (σ.held o) + A.queued σ.cascade o + A.dueSum o k

@[simp] theorem dueSum_nil (A : Account) (o : ObjId) : A.dueSum o [] = 0 := rfl
@[simp] theorem dueSum_cons (A : Account) (o : ObjId) (f : Call) (k : List Call) :
    A.dueSum o (f :: k) = A.due o f + A.dueSum o k := by simp [dueSum]
@[simp] theorem dueSum_append (A : Account) (o : ObjId) (k l : List Call) :
    A.dueSum o (k ++ l) = A.dueSum o k + A.dueSum o l := by simp [dueSum]

theorem slots_le (A : Account) (σ : Kernel) (o : ObjId) : A.slots σ o ≤ refs.slots σ o := by
  refine countP_mono_left fun s _ hs => ?_
  simp only [Bool.and_eq_true, counts, and_true] at hs ⊢
  exact hs.1

theorem queued_nil (A : Account) (o : ObjId) : A.queued [] o = 0 := by cases A <;> rfl

theorem due_le_dueSum (A : Account) (o : ObjId) {f : Call} {k : List Call} (hf : f ∈ k) :
    A.due o f ≤ A.dueSum o k := by
  obtain ⟨k1, k2, rfl⟩ := append_of_mem hf
  rw [dueSum_append, dueSum_cons]
  omega

end Account

section
variable {A : Account} {σ : Kernel} {F : Forest SlotRef} {k : List Call} {o : ObjId}

theorem Account.slots_without (hw : Wf σ F) {s : SlotRef} {old : ObjId} (st : Stats)
    (hs : (σ.slots s).object = some old) :
    A.slots (σ.without s st) o + (old = o && A.counts o s : Bool).toNat = A.slots σ o := by
  have hmem := hw.mem_allSlots (hw.mem (s := s) (by simp [occupied, hs]))
  have h := countP_change (p := fun x => (σ.without s st).names o x && A.counts o x)
    (q := fun x => σ.names o x && A.counts o x) (allSlots_nodup σ) hmem fun x hx => by
      simp [names, without, hx]
  have hq : σ.names o s = decide (old = o) := by simp [names, hs]
  have hp : (σ.without s st).names o s = false := by simp [names, without, KCSlot.empty]
  simp only [hq, hp, Bool.false_and, Bool.toNat_false, Nat.add_zero] at h
  exact h

theorem Account.due_slotDropOld (A : Account) (o : ObjId) (cn old : ObjId) (idx : ℕ) :
    A.due o (.slotDropOld cn old) = (old = o && A.counts o (.slot cn idx) : Bool).toNat := by
  cases A <;> simp [due, counts]

theorem Account.Balanced.without (h : A.Balanced σ k) (hw : Wf σ F) {cn : ObjId} {idx : ℕ}
    {old : ObjId} {st : Stats} (hs : (σ.slots (.slot cn idx)).object = some old) :
    A.Balanced (σ.without (.slot cn idx) st) (.slotDropOld cn old :: k) := by
  intro o
  have hslots := A.slots_without (o := o) hw st hs
  have hbal := h o
  rw [dueSum_cons, A.due_slotDropOld o cn old idx]
  change A.counter (σ.objs o) = _ + A.held (σ.held o) + A.queued σ.cascade o + _
  omega

theorem Account.Balanced.slotDeleteLocked (h : A.Balanced σ k) (hw : Wf σ F) (cn : ObjId) (idx : ℕ) :
    A.Balanced (σ.slotDeleteLocked cn idx).1
      (Kernel.dropOldCalls cn (σ.slotDeleteLocked cn idx).2 ++ k) := by
  unfold Kernel.slotDeleteLocked
  cases ho : (σ.slots (.slot cn idx)).object with
  | none => exact h
  | some old =>
    obtain ⟨st, hst⟩ := removeCap_eq (s := .slot cn idx) hw (by simp [occupied, ho])
    simp only [hst]
    exact h.without hw ho

end

/-! ## Calls -/

section
variable {A : Account} {σ τ : Kernel} {F : Forest SlotRef} {f : Call} {k l : List Call}
  {hooks : Hooks} {o : ObjId}

theorem Account.Balanced.same (h : A.Balanced σ (f :: k)) (hslots : ∀ o, A.slots τ o = A.slots σ o)
    (hobjs : ∀ o, A.counter (τ.objs o) = A.counter (σ.objs o)) (hheld : τ.held = σ.held)
    (hqueue : τ.cascade = σ.cascade) (hdue : ∀ o, A.dueSum o l = A.due o f) :
    A.Balanced τ (l ++ k) := by
  intro o
  have hbal := h o
  rw [dueSum_cons] at hbal
  rw [dueSum_append, hobjs, hslots, hheld, hqueue, hdue]
  omega

variable {g : KObject → KObject} {p : Option Panic} {x : ObjId}

theorem Account.slots_setObj (hg : (g (σ.objs x)).slotCount = (σ.objs x).slotCount) :
    A.slots (σ.setObj x g) o = A.slots σ o := by
  have hall : (σ.setObj x g).allSlots = σ.allSlots := by
    simp only [allSlots, setObj]
    congr 2
    funext y
    by_cases hy : y = x
    · simp [hy, hg]
    · simp [hy]
  unfold Account.slots
  rw [hall]
  rfl

theorem Account.dueSum_hookCalls (A : Account) (o : ObjId) (l : List HookCall) :
    A.dueSum o (l.map HookCall.toCall) = 0 := by
  induction l with
  | nil => rfl
  | cons c l ih =>
    rw [map_cons, dueSum_cons, ih]
    cases A <;> cases c <;> rfl

theorem Account.Balanced.skip (h : A.Balanced σ (f :: k)) (hf : ∀ o, A.due o f = 0) :
    A.Balanced σ k :=
  h.same (l := []) (fun _ => rfl) (fun _ => rfl) rfl rfl fun o => (hf o).symm

theorem Account.Balanced.issue (h : A.Balanced σ k) (hl : ∀ o, A.dueSum o l = 0) :
    A.Balanced σ (l ++ k) := by
  intro o
  rw [dueSum_append, hl, Nat.zero_add]
  exact h o

theorem Account.frame_setObj (hτ : τ = { σ.setObj x g with panic := p })
    (hg : (g (σ.objs x)).slotCount = (σ.objs x).slotCount) (o : ObjId) :
    A.slots τ o = A.slots σ o ∧ τ.held o = σ.held o ∧ τ.cascade = σ.cascade ∧
      τ.objs o = if o = x then g (σ.objs x) else σ.objs o := by
  subst hτ
  refine ⟨A.slots_setObj hg, rfl, rfl, ?_⟩
  by_cases ho : o = x
  · simp [setObj, ho]
  · simp [setObj, ho]

theorem Account.Balanced.setObj
    (h : A.Balanced σ (f :: k)) (hg : (g (σ.objs x)).slotCount = (σ.objs x).slotCount)
    (hx : A.counter (g (σ.objs x)) = A.counter (σ.objs x) - A.due x f)
    (hf : ∀ o ≠ x, A.due o f = 0) : A.Balanced { σ.setObj x g with panic := p } k := by
  intro o
  have hbal := h o
  obtain ⟨hslots, hheld, hqueue, hobj⟩ := A.frame_setObj (p := p) rfl hg o
  rw [dueSum_cons] at hbal
  rw [hslots, hheld, hqueue, hobj]
  by_cases ho : o = x
  · subst ho
    rw [if_pos rfl]
    omega
  · have hdue := hf o ho
    rw [if_neg ho]
    omega

theorem Account.Balanced.setHeld (h : A.Balanced σ k) (x : ObjId) (g : Held → Held)
    (hl : ∀ o, A.held (σ.held o) =
      A.held (if o = x then g (σ.held x) else σ.held o) + A.dueSum o l) :
    A.Balanced (σ.setHeld x g) (l ++ k) := by
  intro o
  have hbal := h o
  have hh := hl o
  have hheld : (σ.setHeld x g).held o = if o = x then g (σ.held x) else σ.held o := by
    by_cases ho : o = x
    · simp [Kernel.setHeld, ho]
    · simp [Kernel.setHeld, ho]
  rw [hheld, dueSum_append]
  change A.counter (σ.objs o) = A.slots σ o + _ + A.queued σ.cascade o + _
  omega

theorem Account.Balanced.queue
    (h : A.Balanced σ k) (hg : (g (σ.objs x)).slotCount = (σ.objs x).slotCount)
    (hx : A.counter (g (σ.objs x)) = A.counter (σ.objs x) + A.queued [x] x) :
    A.Balanced { σ.setObj x g with panic := p, cascade := x :: σ.cascade } k := by
  intro o
  have hbal := h o
  have hslots : A.slots (σ.setObj x g) o = A.slots σ o := A.slots_setObj hg
  change A.counter (Function.update σ.objs x (g (σ.objs x)) o) = A.slots (σ.setObj x g) o +
    A.held (σ.held o) + A.queued (x :: σ.cascade) o + A.dueSum o k
  rw [hslots]
  by_cases ho : o = x
  · subst ho
    rw [Function.update_self, hx]
    cases A <;> simp only [queued, count_cons_self, count_nil] at hbal ⊢ <;> omega
  · have hq : A.queued (x :: σ.cascade) o = A.queued σ.cascade o := by
      cases A <;> simp [queued, Ne.symm ho]
    rw [Function.update_of_ne ho, hq]
    exact hbal

theorem Account.Balanced.drain {rest : List ObjId} {budget done : ℕ}
    (h : A.Balanced σ k) (hc : σ.cascade = x :: rest) : A.Balanced { σ with cascade := rest }
      (.emptySlots x 0 :: .release x :: .cascadeDrain budget done :: k) := by
  intro o
  have hbal := h o
  have hq : A.queued σ.cascade o = A.queued rest o + A.due o (.release x) := by
    rw [hc]
    cases A <;> simp [queued, due, count_cons, Bool.toNat, beq_iff_eq]
  have hslots : A.slots { σ with cascade := rest } o = A.slots σ o := rfl
  have hzero : A.due o (.emptySlots x 0) = 0 ∧ A.due o (.cascadeDrain budget done) = 0 := by
    cases A <;> exact ⟨rfl, rfl⟩
  simp only [dueSum_cons, hslots, hzero.1, hzero.2]
  omega

theorem Account.Balanced.dropOld {cn old : ObjId} (h : A.Balanced σ (.slotDropOld cn old :: k)) :
    A.Balanced σ (((if old = cn then [] else [.activeRelease old]) ++
      (if (σ.objs old).type = .frame ∨ (σ.objs old).type = .pageTable
        then [.finaliseOrphans old] else []) ++ [.release old]) ++ k) := by
  refine h.same (fun _ => rfl) (fun _ => rfl) rfl rfl fun o => ?_
  have hfin : A.dueSum o (if (σ.objs old).type = .frame ∨ (σ.objs old).type = .pageTable
      then [.finaliseOrphans old] else []) = 0 := by
    split_ifs
    · cases A <;> rfl
    · rfl
  simp only [dueSum_append, dueSum_cons, dueSum_nil, hfin]
  by_cases hcn : old = cn
  · by_cases hold : old = o
    · cases A <;> simp [due, hcn, ← hold]
    · cases A <;> simp [due, hcn, hcn ▸ hold]
  · by_cases hold : old = o
    · cases A <;> simp [due, hcn, ← hold]
    · cases A <;> simp [due, hcn, hold]

theorem Account.Balanced.outcome (h : A.Balanced σ (f :: k)) (hw : Wf σ F)
    (hr : Outcome hooks σ F f τ l) (hp : τ.panic = none) : A.Balanced τ (l ++ k) := by
  cases hr with
  | pass hf => exact h.skip fun o => by cases A <;> cases f <;> cases hf <;> rfl
  | blank hd => cases hd <;> exact (h.skip fun o => by cases A <;> rfl).issue fun o => by cases A <;> rfl
  | @delete _ _ _ next _ _ hd _ ho =>
    have hk : A.Balanced σ (next ++ k) := by
      cases hd <;> exact (h.skip fun o => by cases A <;> rfl).issue fun o => by cases A <;> rfl
    exact hk.without hw ho
  | revoke _ ho =>
    have hk := h.skip fun o => by cases A <;> rfl
    exact (hk.issue (l := [_]) fun o => by cases A <;> rfl).without hw ho
  | dropOld => exact h.dropOld
  | activeRelease | release =>
    refine (h.setObj rfl ?_ fun o ho => ?_).issue fun o => by split_ifs <;> cases A <;> rfl
    · cases A <;> simp [counter, due]
    · cases A <;> simp [due, Ne.symm ho]
  | @destroyed x | @storageFree x =>
    exact h.setObj (x := x) (g := fun y => { y with live := false }) (p := σ.panic) rfl
      (by cases A <;> rfl) fun o _ => by cases A <;> rfl
  | finaliseOrphans | close =>
    exact (h.skip fun o => by cases A <;> rfl).issue fun o => A.dueSum_hookCalls o _
  | destroy =>
    refine (h.skip fun o => by cases A <;> rfl).issue fun o => ?_
    rw [dueSum_append, A.dueSum_hookCalls]
    cases A <;> rfl
  | resurrect hp' _ _ _ href =>
    have hone : ¬ 1 ≤ (σ.objs _).refcount := not_le.mpr href
    simp [kobjectRetain, irisAssert, hone, stop, ← hp'] at hp
  | queue => exact (h.skip fun o => by cases A <;> rfl).queue rfl (by cases A <;> simp [counter, queued])
  | drain hc => exact (h.skip fun o => by cases A <;> rfl).drain hc
  | @giveActive x hpos | @giveRef x hpos =>
    refine (h.skip fun o => by cases A <;> rfl).setHeld x _ fun o => ?_
    by_cases ho : o = x
    · subst ho
      cases A <;> simp only [if_true, dueSum_cons, dueSum_nil, due, held, decide_true,
        Bool.toNat_true] <;> omega
    · cases A <;> simp [due, ho, Ne.symm ho]
  | _ => exact h.same (fun _ => rfl) (fun _ => rfl) rfl rfl fun o => by cases A <;> rfl

/-! ## The objects a call changes -/

/-- The two states differ in their slots, links, statistics and results only. -/
structure SlotsOnly (σ τ : Kernel) : Prop where
  objs : τ.objs = σ.objs
  numObjs : τ.numObjs = σ.numObjs
  held : τ.held = σ.held
  cascade : τ.cascade = σ.cascade
  running : τ.running = σ.running
  panic : τ.panic = σ.panic

theorem SlotsOnly.refl (σ : Kernel) : SlotsOnly σ σ := ⟨rfl, rfl, rfl, rfl, rfl, rfl⟩

theorem SlotsOnly.trans {υ : Kernel} (h1 : SlotsOnly σ τ) (h2 : SlotsOnly τ υ) : SlotsOnly σ υ :=
  ⟨h2.objs.trans h1.objs, h2.numObjs.trans h1.numObjs, h2.held.trans h1.held,
    h2.cascade.trans h1.cascade, h2.running.trans h1.running, h2.panic.trans h1.panic⟩

theorem slotDeleteLocked_slotsOnly (hw : Wf σ F) (cn : ObjId) (idx : ℕ) :
    SlotsOnly σ (σ.slotDeleteLocked cn idx).1 := by
  unfold slotDeleteLocked
  cases ho : (σ.slots (.slot cn idx)).object with
  | none => exact .refl σ
  | some old =>
    obtain ⟨st, hst⟩ := removeCap_eq (s := .slot cn idx) hw (by simp [occupied, ho])
    simp only [hst]
    exact ⟨rfl, rfl, rfl, rfl, rfl, rfl⟩

theorem setObj_objs_of_ne (g : KObject → KObject) (ho : x ≠ o) :
    (σ.setObj x g).objs o = σ.objs o := by simp [setObj, Ne.symm ho]

theorem kobjectRetain_objs_of_ne (ho : x ≠ o) : (σ.kobjectRetain x).objs o = σ.objs o := by
  obtain ⟨p, hp⟩ := kobjectRetain_eq σ x
  rw [hp]
  exact setObj_objs_of_ne (σ := σ) (fun y => { y with refcount := y.refcount + 1 }) ho

theorem Outcome.objs (h : Outcome hooks σ F f τ l)
    (ho : f.subject ≠ some o) : τ.objs o = σ.objs o := by
  cases h with
  | activeRelease | release | resurrect | queue | destroyed | storageFree =>
    exact Function.update_of_ne (fun hx => ho (congrArg some hx.symm)) _ _
  | _ => rfl

/-- The call gives back a reference held outside the slots. -/
def Call.givesBack : Call → Bool
  | heldActiveRelease _ | heldRelease _ => true
  | _ => false

theorem Outcome.held (h : Outcome hooks σ F f τ l) (hf : f.givesBack = false) :
    τ.held = σ.held := by
  cases h with
  | giveActive | giveRef => cases hf
  | _ => rfl

def Call.drives : Call → Bool
  | dispatchClose _ | cascadeDrain _ _ => true
  | _ => false

theorem Outcome.undriven (h : Outcome hooks σ F f τ l) (hf : f.drives = false) :
    τ.cascade = σ.cascade ∧ τ.running = σ.running := by
  cases h with
  | queue | cascade | drained | drain => cases hf
  | _ => exact ⟨rfl, rfl⟩

/-- The assertion that a call fails, if it does. -/
def Call.fails (σ : Kernel) : Call → Option Panic
  | .activeRelease o => if 1 ≤ (σ.objs o).activeRefs then none else some .activeRefsUnderflow
  | .release o => if 1 ≤ (σ.objs o).refcount then none else some .refcountUnderflow
  | .dispatchClose o =>
    if (σ.objs o).type = .cnode ∧ σ.running = true ∧ o ∉ σ.cascade ∧ (σ.objs o).refcount < 1
    then some .resurrect else none
  | .dispatchDestroy o => if (σ.objs o).type = .reserved then some .noDestructor else none
  | _ => none

theorem panic_irisAssert (hp : σ.panic = none) (c : Prop) [Decidable c] (p : Panic) :
    (σ.irisAssert c p).panic = if c then none else some p := by
  unfold irisAssert
  split_ifs
  · exact hp
  · simp [stop, hp]

theorem Outcome.panic_eq (h : Outcome hooks σ F f τ l) (hp : σ.panic = none) :
    τ.panic = f.fails σ := by
  have hretain : ∀ x, (σ.kobjectRetain x).panic =
      if 1 ≤ (σ.objs x).refcount then none else some .resurrect := fun x =>
    panic_irisAssert (σ := σ.setObj x _) hp _ _
  cases h with
  | pass hf => cases f <;> cases hf <;> exact hp
  | blank hd | delete hd => cases hd <;> exact hp
  | activeRelease hp' | release hp' => exact hp'.symm.trans (panic_irisAssert (σ := σ.setObj _ _) hp _ _)
  | queued hmem => simp [fails, hmem, hp]
  | resurrect hp' htype hrun hmem href =>
    simp [← hp', hretain, fails, htype, hrun, hmem, Nat.lt_one_iff.mp href]
  | queue hp' href => simp [← hp', hretain, fails, href, Nat.not_lt.mpr href]
  | cascade _ hrun => simp [fails, hrun, hp]
  | close htype => simp [fails, htype, hp]
  | objDestroy htype | noDestructor htype => simp [fails, htype, stop, hp]
  | destroy _ hres => simp [fails, hres, hp]
  | _ => exact hp

theorem body_of_not_halted (h : ((machine hooks).body σ f).1.panic = none) :
    (∀ o ∈ f.subject, (σ.objs o).live = true) ∧
      (machine hooks).body σ f = σ.perform hooks f := by
  unfold machine at h ⊢
  simp only at h ⊢
  split_ifs at h ⊢ with hlive
  · refine ⟨fun o ho => ?_, rfl⟩
    rw [Option.mem_def.mp ho] at hlive
    exact hlive
  · simp [stop] at h

end

/-! ## Executions -/

/-- The names not yet given to an object have no references. -/
def Account.Fresh (A : Account) (σ : Kernel) : Prop :=
  ∀ o, σ.numObjs ≤ o → A.counter (σ.objs o) = 0

/-- What fails when a count that is zero is lowered. -/
def Account.underflow : Account → Panic
  | active => .activeRefsUnderflow
  | refs => .refcountUnderflow

/-- A state in good order whose references are all accounted for, unless the kernel has stopped. -/
structure Accounted (A : Account) (σ : Kernel) (k : List Call) : Prop where
  inOrder : InOrder σ k
  balanced : σ.panic = none → A.Balanced σ k
  fresh : σ.panic = none → A.Fresh σ
  noUnderflow : σ.panic ≠ some A.underflow

namespace Accounted
variable {A : Account} {σ τ : Kernel} {f : Call} {k : List Call} {hooks : Hooks}

theorem counter_pos (h : A.Balanced σ (f :: k)) (hf : A.due o f = 1) :
    1 ≤ A.counter (σ.objs o) := by
  have hbal := h o
  rw [Account.dueSum_cons, hf] at hbal
  omega

theorem fails_ne (h : A.Balanced σ (f :: k)) : f.fails σ ≠ some A.underflow := by
  cases f with
  | activeRelease o =>
    cases A with
    | active =>
      have hpos : 1 ≤ (σ.objs o).activeRefs := counter_pos h (by simp [Account.due])
      simp only [fails, if_pos hpos]
      simp
    | refs =>
      simp only [fails, Account.underflow]
      split_ifs <;> simp
  | release o =>
    cases A with
    | refs =>
      have hpos : 1 ≤ (σ.objs o).refcount := counter_pos h (by simp [Account.due])
      simp only [fails, if_pos hpos]
      simp
    | active =>
      simp only [fails, Account.underflow]
      split_ifs <;> simp
  | _ => cases A <;> simp [fails, Account.underflow]

theorem call (h : Accounted A σ (f :: k)) (hσ : σ.panic = none) :
    Accounted A ((machine hooks).body σ f).1 (((machine hooks).body σ f).2 ++ k) := by
  obtain ⟨⟨F, hw⟩, hk⟩ := h.inOrder
  have hshape := (body_effect hooks hw (hk f (by simp))).1.sameShape
  refine ⟨h.inOrder.call hooks, fun hp => ?_, fun hp o ho => ?_, fun hp => ?_⟩
  · obtain ⟨-, hbody⟩ := body_of_not_halted hp
    rw [hbody] at hp ⊢
    exact (h.balanced hσ).outcome hw (perform_outcome hooks hw f) hp
  · obtain ⟨hlive, hbody⟩ := body_of_not_halted hp
    rw [hshape.numObjs] at ho
    rw [hbody, (perform_outcome hooks hw f).objs fun hsub => not_lt.mpr ho (hw.fresh o (hlive o hsub))]
    exact h.fresh hσ o ho
  unfold machine at hp
  simp only at hp
  split_ifs at hp
  · rw [(perform_outcome hooks hw f).panic_eq hσ] at hp
    exact fails_ne (h.balanced hσ) hp
  · cases A <;> simp [stop, hσ, Account.underflow] at hp

theorem returns (h : Accounted A σ k) (hret : (machine hooks).Returns σ k τ) :
    Accounted A τ [] := by
  refine hret.preserves (I := Accounted A) (fun s f k hs h => ?_) (fun s f k hs h => ?_) h
  · have hne : s.panic ≠ none := Option.isSome_iff_ne_none.mp hs
    exact ⟨⟨h.inOrder.1, by simp⟩, fun hp => absurd hp hne, fun hp => absurd hp hne, h.noUnderflow⟩
  · exact h.call (Option.isSome_eq_false_iff.mp hs |> Option.isNone_iff_eq_none.mp)

end Accounted

/-! ## Counts that reach zero -/

def Account.drop : Account → ObjId → Call
  | active => .activeRelease
  | refs => .release

/-- The hook that runs when a count has reached zero. -/
def Account.hook : Account → ObjId → Call
  | active => .dispatchClose
  | refs => .dispatchDestroy

section
variable {A : Account} {σ τ : Kernel} {F : Forest SlotRef} {f : Call} {k : List Call} {o : ObjId}

theorem hook_notMem_hookCalls (l : List HookCall) : A.hook o ∉ l.map HookCall.toCall := by
  intro h
  obtain ⟨c, -, hc⟩ := mem_map.mp h
  cases A <;> cases c <;> cases hc

variable {l : List Call}

theorem Outcome.count_hook (h : Outcome hooks σ F f τ l) :
    l.count (A.hook o) = if f = A.drop o ∧ A.counter (σ.objs o) = 1 then 1 else 0 := by
  have hnone : f ≠ A.drop o → A.hook o ∉ l →
      l.count (A.hook o) = if f = A.drop o ∧ A.counter (σ.objs o) = 1 then 1 else 0 :=
    fun hf hl => by rw [count_eq_zero_of_not_mem hl, if_neg fun h => hf h.1]
  cases h with
  | pass hf => exact hnone (by rintro rfl; cases A <;> cases hf) not_mem_nil
  | blank hd | delete hd =>
    cases hd <;> exact hnone (by cases A <;> nofun) (by cases A <;> simp [Account.hook])
  | @activeRelease x =>
    cases A with
    | active =>
      simp only [Account.hook, Account.drop, Account.counter]
      by_cases hx : x = o
      · subst hx
        split_ifs with h1 h2 <;> simp_all
      · split_ifs <;> simp [hx]
    | refs => exact hnone nofun (by split_ifs <;> simp [Account.hook])
  | @release x =>
    cases A with
    | refs =>
      simp only [Account.hook, Account.drop, Account.counter]
      by_cases hx : x = o
      · subst hx
        split_ifs with h1 h2 <;> simp_all
      · split_ifs <;> simp [hx]
    | active => exact hnone nofun (by split_ifs <;> simp [Account.hook])
  | finaliseOrphans | close => exact hnone (by cases A <;> nofun) (hook_notMem_hookCalls _)
  | destroy =>
    refine hnone (by cases A <;> nofun) fun hmem => ?_
    rcases mem_append.mp hmem with hmem | hmem
    · exact hook_notMem_hookCalls _ hmem
    · cases A <;> simp [Account.hook] at hmem
  | _ => exact hnone (by cases A <;> nofun) (by cases A <;> simp [Account.hook])

theorem Outcome.counter_pos_iff (h : Outcome hooks σ F f τ l)
    (hσ : σ.panic = none) (hf : f ≠ A.drop o) (hp : τ.panic = none) :
    0 < A.counter (τ.objs o) ↔ 0 < A.counter (σ.objs o) := by
  by_cases ho : f.subject = some o
  · have hfails := (h.panic_eq hσ).symm.trans hp
    cases h with
    | activeRelease =>
      cases ho
      cases A with
      | active => exact absurd rfl hf
      | refs => simp [Account.counter, setObj]
    | release =>
      cases ho
      cases A with
      | active => simp [Account.counter, setObj]
      | refs => exact absurd rfl hf
    | resurrect _ htype hrun hmem href => simp [fails, htype, hrun, hmem, href] at hfails
    | queue _ href =>
      cases ho
      cases A with
      | active => simp [Account.counter, setObj]
      | refs => simp [Account.counter, setObj, Nat.lt_of_succ_le href]
    | destroyed | storageFree =>
      cases ho
      cases A <;> simp [Account.counter, kobjectStorageFree, setStats, setObj]
    | _ => rfl
  · rw [h.objs ho]

theorem counter_drop (hooks : Hooks) (h : 1 ≤ A.counter (σ.objs o)) :
    A.counter ((σ.perform hooks (A.drop o)).1.objs o) + 1 = A.counter (σ.objs o) := by
  cases A with
  | active =>
    obtain ⟨p, hp⟩ := dropActiveRefs_eq σ o
    simp only [Account.counter] at h ⊢
    simp only [Account.drop, perform, hp, setObj, Function.update_self]
    omega
  | refs =>
    obtain ⟨p, hp⟩ := dropRefcount_eq σ o
    simp only [Account.counter] at h ⊢
    simp only [Account.drop, perform, hp, setObj, Function.update_self]
    omega

/-- Whether the hook of a count is still to come: the count is not zero, or the hook waits. -/
def Account.pending (A : Account) (o : ObjId) (σ : Kernel) (k : List Call) : ℕ :=
  (0 < A.counter (σ.objs o) : Bool).toNat + k.count (A.hook o)

theorem Accounted.pending_perform (h : Accounted A σ (f :: k)) (hσ : σ.panic = none)
    (hp : (σ.perform hooks f).1.panic = none) (o : ObjId) :
    A.pending o (σ.perform hooks f).1 ((σ.perform hooks f).2 ++ k) + (f == A.hook o).toNat =
      A.pending o σ (f :: k) := by
  obtain ⟨F, hw⟩ := h.inOrder.1
  simp only [Account.pending, count_append, (perform_outcome hooks hw f).count_hook,
    count_cons]
  by_cases hf : f = A.drop o
  · subst hf
    have hne : (A.drop o == A.hook o) = false := by cases A <;> rfl
    have hpos : 1 ≤ A.counter (σ.objs o) :=
      Accounted.counter_pos (h.balanced hσ) (by cases A <;> simp [Account.due, Account.drop])
    have hdrop := counter_drop hooks hpos
    rw [hne]
    by_cases hone : A.counter (σ.objs o) = 1
    · have hzero : A.counter ((σ.perform hooks (A.drop o)).1.objs o) = 0 := by omega
      simp [hone, hzero]
    · have hmore : 0 < A.counter ((σ.perform hooks (A.drop o)).1.objs o) := by omega
      simp [hone, hmore, Nat.lt_of_succ_le hpos]
  · have hpos := (perform_outcome hooks hw f).counter_pos_iff hσ hf hp
    simp only [hf, hpos]
    cases hh : f == A.hook o
    · simp
    · simp
      omega

theorem Accounted.count_hook (h : Accounted A σ k)
    (hl : (machine hooks).Performs σ k l τ) (hp : τ.panic = none) (o : ObjId) :
    l.count (A.hook o) + (0 < A.counter (τ.objs o) : Bool).toNat = A.pending o σ k := by
  have hcount := hl.countP (p := fun f => f == A.hook o) (Φ := A.pending o) (I := Accounted A)
    (fun s f k hs hI hnext => ?_) h (by simp [machine, hp])
  · simpa [Account.pending, count] using hcount
  have hs' : s.panic = none := by simpa [machine] using hs
  have hnext' : ((machine hooks).body s f).1.panic = none := by simpa [machine] using hnext
  refine ⟨hI.call hs', ?_⟩
  obtain ⟨-, hbody⟩ := body_of_not_halted hnext'
  rw [hbody] at hnext' ⊢
  exact hI.pending_perform hs' hnext' o

end
end IrisOS.Cap
