import IrisOS.Cap.ActiveRefs
import IrisOS.Cap.Depth

/-! Destroying a CNode. An action gives up one reference in a quiet state; what falls with it is
emptied, closed and destroyed once, and the state in the end is quiet again. -/
namespace IrisOS.Cap
open Lib Kernel Function List Account Call Draining

/-- Nothing is being torn down, and the objects that are there are those with references. -/
structure Quiet (σ : Kernel) : Prop where
  wf : ∃ F, Wf σ F
  panic : σ.panic = none
  cascade : σ.cascade = []
  running : σ.running = false
  live : ∀ o, (σ.objs o).live = true ↔ 0 < (σ.objs o).refcount
  typed : ∀ o, (σ.objs o).type = .reserved → (σ.objs o).refcount = 0

/-- A quiet state whose counts are right and whose active holders hold a lifecycle reference too. -/
structure Settled (σ : Kernel) : Prop extends Quiet σ where
  balanced : ∀ A : Account, A.Balanced σ []
  held : ∀ o, (σ.held o).active ≤ (σ.held o).refs

theorem Settled.of_runs {σ τ : Kernel} {as : List Action} (hσ : Initial σ)
    (h : Runs inertHooks (fun σ a => σ.keepsBorders a = true) σ as τ)
    (hquiet : τ.panic = none ∧ τ.cascade = [] ∧ τ.running = false)
    (hobjs : ∀ o < τ.numObjs, (τ.objs o).live = decide (0 < (τ.objs o).refcount) ∧
      ((τ.objs o).type = .reserved → (τ.objs o).refcount = 0) ∧
      (τ.held o).active ≤ (τ.held o).refs) : Settled τ := by
  have hacc : ∀ A : Account, Accounted A τ [] := fun A =>
    h.keeps (I := fun υ => Accounted A υ []) (fun s a t hI ok hstep => hI.step (fun _ => ok) hstep)
      hσ.accounted
  obtain ⟨F, hw⟩ := (hacc .refs).inOrder.1
  obtain ⟨hp, hc, hr⟩ := hquiet
  have hfresh : ∀ o, τ.numObjs ≤ o → (τ.objs o).refcount = 0 ∧ (τ.objs o).activeRefs = 0 :=
    fun o ho => ⟨(hacc .refs).fresh hp o ho, (hacc .active).fresh hp o ho⟩
  refine ⟨⟨⟨F, hw⟩, hp, hc, hr, fun o => ?_, fun o => ?_⟩, fun A => (hacc A).balanced hp,
    fun o => ?_⟩
  · rcases lt_or_ge o τ.numObjs with ho | ho
    · rw [(hobjs o ho).1, decide_eq_true_eq]
    · have hdead : (τ.objs o).live ≠ true := fun hl => absurd (hw.fresh o hl) (not_lt.mpr ho)
      simp [hdead, (hfresh o ho).1]
  · rcases lt_or_ge o τ.numObjs with ho | ho
    · exact (hobjs o ho).2.1
    · exact fun _ => (hfresh o ho).1
  rcases lt_or_ge o τ.numObjs with ho | ho
  · exact (hobjs o ho).2.2
  · have hactive : (τ.objs o).activeRefs = _ := (hacc .active).balanced hp o
    have hzero := (hfresh o ho).2
    simp only [Account.held] at hactive
    omega

/-! ## Starting -/

theorem Settled.fresh {σ : Kernel} (h : Settled σ) (A : Account) : A.Fresh σ := by
  intro o ho
  obtain ⟨F, hw⟩ := h.wf
  have hzero : (σ.objs o).refcount = 0 := by
    by_contra hne
    exact absurd (hw.fresh o ((h.live o).mpr (Nat.pos_of_ne_zero hne))) (not_lt.mpr ho)
  have hrefs : (σ.objs o).refcount = _ := h.balanced .refs o
  have hbal := h.balanced A o
  have hle := A.slots_le σ o
  have hheld := h.held o
  rw [h.cascade, queued_nil, dueSum_nil] at hrefs hbal
  cases A with
  | active =>
    simp only [Account.held] at hrefs hbal
    omega
  | refs => exact hzero

variable {k : List Call}

theorem Draining.start {σ0 σ : Kernel} {R : SlotRef → Prop} (hq : Quiet σ0)
    (hframe : SlotsOnly σ0 σ) (hstaged : σ.staged = σ0.staged)
    (hprune : ∃ F0 F, Wf σ0 F0 ∧ Wf σ F ∧ Prunes F0 σ0.slots F σ.slots)
    (hfresh : ∀ A : Account, A.Fresh σ0) (hbal : ∀ A : Account, A.Balanced σ k)
    (hk : ∀ f ∈ k, f.Due σ0 R ∧ FrameOk σ f ∧ f.isDrain = false ∧ ∀ o, f.destroys o = false)
    (hguard : Guarded σ0.held k)
    (hemptied : ∀ s, σ0.occupied s = true → σ.occupied s = false → σ0.Falls R s) :
    Draining σ0 R σ k where
  accounted A := {
    inOrder := ⟨hprune.elim fun _ h => h.imp fun _ h => h.2.1, fun f hf => (hk f hf).2.1⟩
    balanced := fun _ => hbal A
    fresh := fun _ o ho => by
      rw [hframe.objs]
      exact hfresh A o (hframe.numObjs ▸ ho)
    noUnderflow := by simp [hframe.panic, hq.panic] }
  panic := hframe.panic.trans hq.panic
  held := hframe.held
  shape := ⟨hframe.numObjs, hstaged, by simp [hframe.objs], by simp [hframe.objs]⟩
  pruned := hprune
  emptied := hemptied
  zero A o h := by rwa [hframe.objs]
  typed := hq.typed
  due f hf := (hk f hf).1
  queue := by simp [hframe.cascade, hq.cascade]
  guarded := hguard
  alive o := by
    rw [countP_eq_zero.mpr fun f hf => by simp [(hk f hf).2.2.2 o], hframe.objs]
    have hlive := hq.live o
    cases hl : (σ0.objs o).live <;> simp_all
  owed A o hpos hzero := by
    rw [hframe.objs] at hzero
    omega
  drain := by
    rw [countP_eq_zero.mpr fun f hf => by simp [(hk f hf).2.2.1], hframe.running, hq.running]
    rfl

/-! ## Giving up a reference -/

/-- Deleting a capability, or dropping a reference held outside, the active one first. -/
def Kernel.GivesUp (σ : Kernel) : Action → Prop
  | .delete _ _ => True
  | .unhold o => (σ.held o).active < (σ.held o).refs
  | .unholdActive o => 0 < (σ.held o).active
  | _ => False

/-- The state without the held reference that is given up. -/
def Kernel.withdrawn (σ : Kernel) : Action → Kernel
  | .unhold o => σ.setHeld o fun x => { x with refs := x.refs - 1 }
  | .unholdActive o => σ.setHeld o fun x => { x with active := x.active - 1 }
  | _ => σ

/-- The slots that the action itself empties. -/
def Action.removed : Action → SlotRef → Prop
  | .delete cn idx => fun s => s = .slot cn idx
  | _ => fun _ => False

/-- The state and the calls of the action once it has given up its reference. -/
def Kernel.begun (σ : Kernel) : Action → Kernel × List Call
  | .unhold o => (σ.withdrawn (.unhold o), [.release o])
  | .unholdActive o => (σ.withdrawn (.unholdActive o), [.activeRelease o])
  | a => σ.act a

/-- What the action calls before that. -/
def Action.prologue : Action → List Call
  | .unhold o => [.heldRelease o]
  | .unholdActive o => [.heldActiveRelease o]
  | _ => []

section
variable {σ τ : Kernel} {a : Action} {l : List Call} {o : ObjId} {f : Call}

theorem kept_withdrawn (σ : Kernel) (a : Action) : Kept σ (σ.withdrawn a) := by
  refine Kept.of_objs ?_ ?_ ?_ ?_ fun o => ⟨?_, ?_, ?_⟩
  all_goals cases a <;> rfl

theorem Settled.quiet_withdrawn (h : Settled σ) (a : Action) : Quiet (σ.withdrawn a) := by
  obtain ⟨F, hw⟩ := h.wf
  refine ⟨⟨F, (kept_withdrawn σ a).wf hw⟩, ?_, ?_, ?_, ?_, ?_⟩
  · cases a <;> exact h.panic
  · cases a <;> exact h.cascade
  · cases a <;> exact h.running
  · cases a <;> exact h.live
  · cases a <;> exact h.typed

theorem body_heldRelease (ho : (σ.held o).refs ≠ 0) :
    (machine inertHooks).body σ (.heldRelease o) = (σ.withdrawn (.unhold o), [.release o]) := by
  simp [machine, subject, perform, ho, withdrawn]

theorem body_heldActiveRelease (ho : (σ.held o).active ≠ 0) :
    (machine inertHooks).body σ (.heldActiveRelease o) =
      (σ.withdrawn (.unholdActive o), [.activeRelease o]) := by
  simp [machine, subject, perform, ho, withdrawn]

theorem stepPerforms_begun (hp : σ.panic = none) (ha : σ.GivesUp a)
    (hl : (machine inertHooks).Performs (σ.begun a).1 (σ.begun a).2 l τ) :
    StepPerforms inertHooks σ a (a.prologue ++ l) τ := by
  refine ⟨hp, ?_⟩
  have hhalt : (machine inertHooks).halted σ = false := by simp [machine, hp]
  cases a with
  | delete => exact hl
  | unhold o =>
    have hne : (σ.held o).refs ≠ 0 := Nat.ne_zero_of_lt ha
    refine .call (s := σ) hhalt ?_
    rw [body_heldRelease hne, append_nil]
    exact hl
  | unholdActive o =>
    have hne : (σ.held o).active ≠ 0 := Nat.ne_zero_of_lt ha
    refine .call (s := σ) hhalt ?_
    rw [body_heldActiveRelease hne, append_nil]
    exact hl
  | _ => exact ha.elim

section

variable (h : Settled σ)
include h

theorem Settled.balanced_perform
    (hf : ∀ (A : Account) o, A.due o f = 0) (hbody : σ.perform inertHooks f = (τ, k))
    (hp : τ.panic = none) (A : Account) : A.Balanced τ k := by
  obtain ⟨F, hw⟩ := h.wf
  have hbal : A.Balanced σ [f] := (h.balanced A).issue (l := [f]) fun o => by simp [hf]
  have hnext := hbal.outcome hw (perform_outcome inertHooks hw f) (by rw [hbody]; exact hp)
  simpa [hbody] using hnext

theorem Settled.draining_delete (cn : ObjId) (idx : ℕ) :
    Draining σ (Action.removed (.delete cn idx)) (σ.act (.delete cn idx)).1
      (σ.act (.delete cn idx)).2 := by
  obtain ⟨F, hw⟩ := h.wf
  have hkept : ∀ (τ : Kernel) e, Kept τ (τ.returning e) := fun τ e =>
    Kept.of_objs rfl rfl rfl rfl fun _ => ⟨rfl, rfl, rfl⟩
  simp only [act, kcnodeSlotDelete]
  split_ifs with hex
  · exact start h.toQuiet ⟨rfl, rfl, rfl, rfl, rfl, rfl⟩ rfl
      ⟨F, F, hw, (hkept σ _).wf hw, .refl⟩ h.fresh h.balanced (by rintro _ ⟨⟩) trivial
      (fun s hs hs' => absurd (hs.symm.trans hs') (by decide))
  have hframe := slotDeleteLocked_slotsOnly hw cn idx
  have heffect := (slotDeleteLocked_effect hw cn idx).1
  obtain ⟨F', hw', hprune⟩ := heffect.prunes hw
  refine start h.toQuiet ⟨hframe.objs, hframe.numObjs, hframe.held, hframe.cascade,
    hframe.running, hframe.panic⟩ heffect.sameShape.staged
    ⟨F, F', hw, (hkept _ .ok).wf hw', hprune⟩ h.fresh ?_ ?_ ?_ ?_
  · intro A
    have hbal := (h.balanced A).slotDeleteLocked hw cn idx
    rw [append_nil] at hbal
    exact hbal
  · intro f hf
    obtain ⟨old, -, rfl⟩ := mem_dropOldCalls.mp hf
    simp [Due, FrameOk, isDrain, destroys]
  · have hguard := @Tearing.guarded_append σ.held [] _
      (@Tearing.guarded_dropOldCalls cn (σ.slotDeleteLocked cn idx).2) trivial
    rwa [append_nil] at hguard
  · exact fun s hs hs' => .cut (slotDeleteLocked_removes hw hs hs')

theorem Settled.draining_unhold (ho : (σ.held o).active < (σ.held o).refs) :
    Draining (σ.withdrawn (.unhold o)) (Action.removed (.unhold o)) (σ.withdrawn (.unhold o))
      [.release o] := by
  have hq := h.quiet_withdrawn (.unhold o)
  obtain ⟨F, hw⟩ := hq.wf
  have hne : (σ.held o).refs ≠ 0 := Nat.ne_zero_of_lt ho
  have hbal := h.balanced_perform (f := .heldRelease o) (k := [.release o])
    (fun A _ => by cases A <;> rfl) (by simp [perform, hne, withdrawn]) hq.panic
  exact start hq (SlotsOnly.refl _) rfl ⟨F, F, hw, hw, .refl⟩ h.fresh hbal
    (by simp [Due, FrameOk, isDrain, destroys]) ⟨by rintro _ ⟨⟩, trivial⟩
    (fun s hs hs' => absurd (hs.symm.trans hs') (by decide))

theorem Settled.draining_unholdActive (ho : 0 < (σ.held o).active) :
    Draining (σ.withdrawn (.unholdActive o)) (Action.removed (.unholdActive o))
      (σ.withdrawn (.unholdActive o)) [.activeRelease o] := by
  have hq := h.quiet_withdrawn (.unholdActive o)
  obtain ⟨F, hw⟩ := hq.wf
  have hne : (σ.held o).active ≠ 0 := Nat.ne_zero_of_lt ho
  have hbal := h.balanced_perform (f := .heldActiveRelease o) (k := [.activeRelease o])
    (fun A _ => by cases A <;> rfl) (by simp [perform, hne, withdrawn]) hq.panic
  have hrefs : 0 < ((σ.withdrawn (.unholdActive o)).held o).refs := by
    simp only [withdrawn, setHeld, update_self]
    exact lt_of_lt_of_le ho (h.held o)
  exact start hq (SlotsOnly.refl _) rfl ⟨F, F, hw, hw, .refl⟩ h.fresh hbal
    (by simp [Due, FrameOk, isDrain, destroys])
    ⟨fun x hx => .inr (by cases hx; exact hrefs), trivial⟩
    (fun s hs hs' => absurd (hs.symm.trans hs') (by decide))

theorem Settled.draining (ha : σ.GivesUp a) :
    Draining (σ.withdrawn a) a.removed (σ.begun a).1 (σ.begun a).2 := by
  cases a with
  | delete cn idx => exact h.draining_delete cn idx
  | unhold o => exact h.draining_unhold ha
  | unholdActive o => exact h.draining_unholdActive ha
  | _ => exact ha.elim

theorem Settled.held_withdrawn (ha : σ.GivesUp a) (o : ObjId) :
    ((σ.withdrawn a).held o).active ≤ ((σ.withdrawn a).held o).refs := by
  have hheld := h.held o
  cases a with
  | delete => exact hheld
  | unhold x =>
    by_cases hx : o = x
    · subst hx
      have hlt : (σ.held o).active < (σ.held o).refs := ha
      simp only [withdrawn, setHeld, update_self]
      omega
    · simpa [withdrawn, setHeld, hx] using hheld
  | unholdActive x =>
    by_cases hx : o = x
    · subst hx
      simp only [withdrawn, setHeld, update_self]
      omega
    · simpa [withdrawn, setHeld, hx] using hheld
  | _ => exact ha.elim

theorem Settled.slots_withdrawn (a : Action) (o : ObjId) :
    Account.active.slots (σ.withdrawn a) o ≤ ((σ.withdrawn a).objs o).activeRefs := by
  have hbal : (σ.objs o).activeRefs = _ := h.balanced .active o
  have hslots : active.slots (σ.withdrawn a) o = active.slots σ o := by
    cases a <;> rfl
  have hobjs : (σ.withdrawn a).objs = σ.objs := by cases a <;> rfl
  rw [hslots, hobjs, hbal]
  omega

end

end

/-! ## The end -/

section
variable {σ0 σ τ : Kernel} {R : SlotRef → Prop} {o : ObjId} {A : Account} {l : List Call} {bs : List ℕ}

theorem Draining.settled (h : Draining σ0 R σ []) (hc : σ.cascade = [])
    (hheld : ∀ o, (σ0.held o).active ≤ (σ0.held o).refs) : Settled σ where
  wf := h.inOrder.1
  panic := h.panic
  cascade := hc
  running := by
    have hdrain : σ.running.toNat = 0 := h.drain
    cases hr : σ.running with
    | false => rfl
    | true => simp [hr] at hdrain
  live o := by
    have halive := h.alive o
    by_cases hpos : 0 < (σ.objs o).refcount
    · simp only [hpos, decide_true, Bool.toNat_true] at halive
      cases hl : (σ.objs o).live <;> simp_all
    · simp only [hpos, decide_false, Bool.toNat_false] at halive
      cases hl : (σ.objs o).live <;> simp_all
  typed o htype := h.zero .refs o (h.typed o (by rw [← h.shape.type]; exact htype))
  balanced A := (h.accounted A).balanced h.panic
  held o := by
    rw [h.held]
    exact hheld o

theorem Draining.slices_count_hook (h : Draining σ0 R σ []) (hs : Slices σ bs l τ) :
    l.count (A.hook o) + (0 < A.counter (τ.objs o) : Bool).toNat =
      (0 < A.counter (σ.objs o) : Bool).toNat := by
  induction hs with
  | nil => simp
  | @cons σ τ υ b bs l l' slice rest ih =>
    have hnext : Draining σ0 R τ [] := h.starting.returns slice.returns
    have hslice := ((h.starting (b := b) (d := 0)).accounted A).count_hook slice hnext.panic o
    have hrest := ih hnext
    have hpend : A.pending o σ.starting [.cascadeDrain b 0] =
        (0 < A.counter (σ.objs o) : Bool).toNat := by
      have hnone : [cascadeDrain b 0].count (A.hook o) = 0 := by
        cases A <;> simp [hook]
      rw [pending, hnone]
      rfl
    rw [count_append]
    omega

/-! ## Emptied once -/

/-- The times that the slots of a CNode are still to be emptied. -/
def emptyings (o : ObjId) (σ : Kernel) (k : List Call) : ℕ :=
  k.count (.emptySlots o 0) + σ.cascade.count o + Account.active.pending o σ k

variable {F : Forest SlotRef}

theorem Outcome.count_emptySlots
    (hr : Outcome inertHooks σ F f τ l) (hf : f.drives = false) : l.count (.emptySlots o 0) = 0 := by
  refine count_eq_zero.mpr fun hg => ?_
  generalize hcall : emptySlots o 0 = g at hg
  cases hr.issues hg with
  | cascadeEmpty | drainEmpty => cases hf
  | orphansHook hc | closeHook hc | destroyHook hc => cases hc
  | _ => cases hcall

theorem Draining.count_emptySlots_queued
    (h : Draining σ0 R σ (f :: k)) (hr : Outcome inertHooks σ F f τ l)
    (htype : (σ.objs o).type = .cnode) (hfree : f = .dispatchClose o → o ∉ σ.cascade) :
    l.count (.emptySlots o 0) + τ.cascade.count o =
      σ.cascade.count o + (f == .dispatchClose o).toNat := by
  cases hf : f.drives with
  | false =>
    have hnot : (f == .dispatchClose o) = false := by
      rw [beq_eq_false_iff_ne]
      rintro rfl
      cases hf
    rw [hr.count_emptySlots hf, (hr.undriven hf).1, hnot]
    simp
  | true =>
    cases hr with
    | pass hp => cases f <;> cases hp <;> cases hf
    | blank hd | delete hd => cases hd <;> cases hf
    | @queued x hmem =>
      have hx : x ≠ o := by
        rintro rfl
        exact hfree rfl hmem
      simp [hx]
    | resurrect _ _ _ _ hlt =>
      exact absurd (h.refcount_pos mem_cons_self rfl) (not_le.mpr hlt)
    | @queue x => by_cases hx : x = o <;> simp [hx]
    | @cascade x => by_cases hx : x = o <;> simp [hx, Nat.add_comm]
    | @close x _ hcn hl =>
      have hx : x ≠ o := by
        rintro rfl
        exact hcn htype
      cases eq_nil_iff_forall_not_mem.mpr fun c hc => nomatch hl c hc
      simp [hx]
    | drained => simp
    | @drain _ _ x _ hc =>
      rw [hc, count_cons, count_cons]
      change _ = _ + 0
      by_cases hx : x = o
      · simp [hx]
        omega
      · simp [hx]
    | _ => cases hf

theorem Draining.emptyings_perform (h : Draining σ0 R σ (f :: k))
    (htype : (σ.objs o).type = .cnode) (hone : emptyings o σ (f :: k) ≤ 1) :
    emptyings o (σ.perform inertHooks f).1 ((σ.perform inertHooks f).2 ++ k) +
      (f == .emptySlots o 0).toNat = emptyings o σ (f :: k) := by
  obtain ⟨F0, F, -, hw, -⟩ := h.pruned
  have hpend := (h.accounted .active).pending_perform h.panic (h.body_eq inertHooks).2 o
  have hcons : (f :: k).count (.emptySlots o 0) =
      k.count (.emptySlots o 0) + (f == .emptySlots o 0).toNat := by
    rw [count_cons]
    cases f == .emptySlots o 0 <;> rfl
  unfold emptyings at hone ⊢
  rw [count_append]
  have hfree : f = .dispatchClose o → o ∉ σ.cascade := by
    rintro rfl hmem
    have hcount := count_pos_iff.mpr hmem
    simp only [pending, hook, count_cons_self] at hone
    omega
  have hcount := h.count_emptySlots_queued (perform_outcome inertHooks hw f) htype hfree
  simp only [hook] at hpend
  omega

theorem Draining.count_emptySlots (h : Draining σ0 R σ k)
    (htype : (σ.objs o).type = .cnode) (hone : emptyings o σ k ≤ 1)
    (hl : (machine inertHooks).Performs σ k l τ) :
    l.count (.emptySlots o 0) + emptyings o τ [] = emptyings o σ k := by
  have hend : Draining σ0 R τ [] := by
    rw [← append_nil k] at h
    exact h.returns hl.returns
  have hcount := hl.countP (p := fun f => f == emptySlots o 0) (Φ := emptyings o)
    (I := fun s k => Draining σ0 R s k ∧ (s.objs o).type = .cnode ∧ emptyings o s k ≤ 1)
    (fun s f k _ hI _ => ?_) ⟨h, htype, hone⟩ (by simp [machine, hend.panic])
  · simpa [count] using hcount
  obtain ⟨hdrain, hty, hle⟩ := hI
  have hstep := hdrain.emptyings_perform hty hle
  have hcall := hdrain.call
  have hty' : (((machine inertHooks).body s f).1.objs o).type = .cnode := by
    rw [hcall.shape.type, ← hdrain.shape.type, hty]
  rw [(hdrain.body_eq inertHooks).1] at hcall hty' ⊢
  exact ⟨⟨hcall, hty', by omega⟩, hstep⟩

theorem Draining.slices_count_emptySlots (h : Draining σ0 R σ [])
    (htype : (σ0.objs o).type = .cnode) (hone : emptyings o σ [] ≤ 1) (hs : Slices σ bs l τ) :
    l.count (.emptySlots o 0) + emptyings o τ [] = emptyings o σ [] := by
  induction hs with
  | nil => simp
  | @cons σ τ υ b bs l l' slice rest ih =>
    have hnext : Draining σ0 R τ [] := h.starting.returns slice.returns
    have hstart : Draining σ0 R σ.starting [.cascadeDrain b 0] := h.starting
    have hempty : emptyings o σ.starting [.cascadeDrain b 0] = emptyings o σ [] := by
      rfl
    have hslice := hstart.count_emptySlots (o := o) (by rw [hstart.shape.type, htype])
      (by omega) slice
    have hrest := ih hnext (by omega)
    rw [count_append]
    omega

end

/-! ## What is emptied stays empty -/

section
variable {σ0 σ τ : Kernel} {R : SlotRef → Prop} {s : SlotRef} {l : List Call} {bs : List ℕ}
  {a : Action}

theorem Draining.free_of_returns (h : Draining σ0 R σ k) (hs : σ.occupied s = false)
    (hret : (machine inertHooks).Returns σ k τ) : τ.occupied s = false := by
  obtain ⟨⟨F, hw⟩, hk⟩ := h.inOrder
  obtain ⟨F', hw', hprune, -⟩ := returns_prunes hw hk hret
  by_contra hne
  exact hw.not_mem hs (hprune.mem (hw'.mem (by simpa using hne)))

theorem Draining.free_of_slices (h : Draining σ0 R σ []) (hs : σ.occupied s = false)
    (hslices : Slices σ bs l τ) : τ.occupied s = false := by
  induction hslices with
  | nil => exact hs
  | cons slice _ ih =>
    exact ih (h.starting.returns slice.returns) (h.starting.free_of_returns hs slice.returns)

theorem Settled.free_of_removed (h : Settled σ) (hs : a.removed s) :
    (σ.begun a).1.occupied s = false := by
  obtain ⟨F, hw⟩ := h.wf
  cases a with
  | delete cn idx =>
    obtain rfl : s = .slot cn idx := hs
    simp only [begun, act, kcnodeSlotDelete]
    split_ifs with hex
    · change σ.occupied (.slot cn idx) = false
      by_contra hne
      obtain ⟨cn', idx', hslot, -, hex'⟩ := hw.home (.slot cn idx) (by simpa using hne)
      cases hslot
      simp [hex'] at hex
    · exact (slotDeleteLocked_effect hw cn idx).2
  | _ => exact hs.elim

theorem Settled.within (h : Settled σ) (ha : σ.GivesUp a)
    (hret : (machine inertHooks).Returns (σ.begun a).1 (σ.begun a).2 τ) :
    (machine inertHooks).Within Call.continues teardownDepth (σ.act a).1
      ((σ.act a).2.map fun f => (0, f)) := by
  have hdrain := h.draining ha
  have hheld := h.held_withdrawn ha
  have hslots := h.slots_withdrawn a
  have hhalt : (machine inertHooks).halted σ = false := by simp [machine, h.panic]
  cases a with
  | delete cn idx =>
    have hmap : ((σ.act (.delete cn idx)).2.map fun f => (0, f)).map Prod.snd =
        (σ.act (.delete cn idx)).2 := by
      simp [comp_def]
    refine within (by rw [hmap]; exact hdrain) hheld hslots ?_ (by rw [hmap]; exact hret)
    have hshallow := @Shallow.append σ ((σ.act (.delete cn idx)).2.map fun f => (0, f))
      [] trivial fun p hp => ?_
    · rwa [append_nil] at hshallow
    obtain ⟨f, hf, rfl⟩ := mem_map.mp hp
    simp only [act, kcnodeSlotDelete] at hf
    split_ifs at hf
    · cases hf
    · obtain ⟨old, -, rfl⟩ := mem_dropOldCalls.mp hf
      simp only [isDrain, rank, any_nil, teardownDepth]
      split_ifs <;> simp
  | unhold o =>
    have hne : (σ.held o).refs ≠ 0 := Nat.ne_zero_of_lt ha
    refine .call (s := σ) hhalt (Nat.zero_le _) ?_
    rw [body_heldRelease hne]
    refine within (k := [(1, .release o)]) hdrain hheld hslots ?_ hret
    refine shallow_cons.mpr ⟨?_, trivial⟩
    simp only [rank, teardownDepth]
    split_ifs <;> simp
  | unholdActive o =>
    have hne : (σ.held o).active ≠ 0 := Nat.ne_zero_of_lt ha
    refine .call (s := σ) hhalt (Nat.zero_le _) ?_
    rw [body_heldActiveRelease hne]
    refine within (k := [(1, .activeRelease o)]) hdrain hheld hslots ?_ hret
    exact shallow_cons.mpr ⟨by simp [rank, teardownDepth], trivial⟩
  | _ => exact ha.elim

end

/-! ## The teardown as a whole -/

/-- What the teardown that starts with `a` has done in the end, with the calls `l`: exactly what
falls is emptied, closed and destroyed, once each. -/
structure TornDown (σ : Kernel) (a : Action) (τ : Kernel) (l : List Call) : Prop where
  settled : Settled τ
  emptied : ∀ s, σ.occupied s = true →
    (τ.occupied s = false ↔ (σ.withdrawn a).Falls a.removed s)
  kept : ∀ s, τ.occupied s = true → τ.slots s = σ.slots s
  queued : ∀ o, (σ.objs o).type = .cnode → l.count (.emptySlots o 0) ≤ 1 ∧
    (l.count (.emptySlots o 0) = 1 ↔ (σ.withdrawn a).Loses a.removed .active o)
  destroyed : ∀ o, l.count (.dispatchDestroy o) ≤ 1 ∧
    (l.count (.dispatchDestroy o) = 1 ↔ (σ.withdrawn a).Loses a.removed .refs o)
  live : ∀ o, (τ.objs o).live = true ↔
    (σ.objs o).live = true ∧ ¬ (σ.withdrawn a).Loses a.removed .refs o

section
variable {σ τ₁ τ : Kernel} {a : Action} {l₁ l₂ : List Call} {bs : List ℕ}

theorem withdrawn_objs (σ : Kernel) (a : Action) : (σ.withdrawn a).objs = σ.objs := by
  cases a <;> rfl

theorem withdrawn_slots (σ : Kernel) (a : Action) : (σ.withdrawn a).slots = σ.slots := by
  cases a <;> rfl

theorem count_prologue (a : Action) (hf : f.givesBack = false) : a.prologue.count f = 0 := by
  refine count_eq_zero.mpr fun hmem => ?_
  cases a with
  | unhold o | unholdActive o =>
    rw [mem_singleton.mp hmem] at hf
    cases hf
  | _ => cases hmem

section

variable (h : Settled σ) (ha : σ.GivesUp a)
include h ha

theorem Settled.begun_frame :
    (σ.begun a).1.objs = σ.objs ∧ (σ.begun a).1.cascade = [] ∧
      ∀ f ∈ (σ.begun a).2, (∀ A o, f ≠ Account.hook A o) ∧ ∀ o, f ≠ .emptySlots o 0 := by
  obtain ⟨F, hw⟩ := h.wf
  cases a with
  | delete cn idx =>
    have hframe := slotDeleteLocked_slotsOnly hw cn idx
    simp only [begun, act, kcnodeSlotDelete]
    split_ifs with hex
    · exact ⟨rfl, h.cascade, by rintro _ ⟨⟩⟩
    · refine ⟨hframe.objs, hframe.cascade.trans h.cascade, fun f hf => ?_⟩
      obtain ⟨old, -, rfl⟩ := mem_dropOldCalls.mp hf
      exact ⟨fun A o => by cases A <;> simp [hook], by simp⟩
  | unhold o | unholdActive o =>
    refine ⟨rfl, h.cascade, fun f hf => ?_⟩
    rw [mem_singleton.mp hf]
    exact ⟨fun A o => by cases A <;> simp [hook], by simp⟩
  | _ => exact ha.elim

section

variable (h₁ : (machine inertHooks).Performs (σ.begun a).1 (σ.begun a).2 l₁ τ₁)
  (h2 : Slices τ₁ bs l₂ τ)
include h₁ h2

theorem Settled.count_hook (A : Account) (o : ObjId) :
    (l₁ ++ l₂).count (A.hook o) + (0 < A.counter (τ.objs o) : Bool).toNat =
      (0 < A.counter (σ.objs o) : Bool).toNat := by
  have hdrain := h.draining ha
  have hnext : Draining _ _ τ₁ [] := returns (by simpa using hdrain) h₁.returns
  obtain ⟨hobjs, -, hk⟩ := h.begun_frame ha
  have hfirst := (hdrain.accounted A).count_hook h₁ hnext.panic o
  have hslices := hnext.slices_count_hook (A := A) (o := o) h2
  have hnone : (σ.begun a).2.count (A.hook o) = 0 :=
    count_eq_zero.mpr fun hmem => (hk _ hmem).1 A o rfl
  rw [pending, hnone, hobjs] at hfirst
  rw [count_append]
  omega

theorem Settled.count_emptySlots (hc : τ.cascade = []) (ho : (σ.objs o).type = .cnode) :
    (l₁ ++ l₂).count (.emptySlots o 0) + (0 < (τ.objs o).activeRefs : Bool).toNat =
      (0 < (σ.objs o).activeRefs : Bool).toNat := by
  have hdrain := h.draining ha
  have hnext : Draining _ _ τ₁ [] := returns (by simpa using hdrain) h₁.returns
  obtain ⟨hobjs, hcascade, hk⟩ := h.begun_frame ha
  have hstart : emptyings o (σ.begun a).1 (σ.begun a).2 =
      (0 < (σ.objs o).activeRefs : Bool).toNat := by
    have hnone : (σ.begun a).2.count (.emptySlots o 0) = 0 :=
      count_eq_zero.mpr fun hmem => (hk _ hmem).2 o rfl
    have hhook : (σ.begun a).2.count (active.hook o) = 0 :=
      count_eq_zero.mpr fun hmem => (hk _ hmem).1 .active o rfl
    rw [emptyings, pending, hnone, hhook, hcascade, hobjs]
    simp only [count_nil, Nat.zero_add, Nat.add_zero]
    rfl
  have hend : emptyings o τ [] = (0 < (τ.objs o).activeRefs : Bool).toNat := by
    rw [emptyings, pending, hc]
    simp only [count_nil, Nat.zero_add, Nat.add_zero]
    rfl
  have hle : (0 < (σ.objs o).activeRefs : Bool).toNat ≤ 1 := Bool.toNat_le _
  have hfirst := hdrain.count_emptySlots (o := o) (by rw [hobjs, ho]) (by omega) h₁
  have hslices := hnext.slices_count_emptySlots (o := o) (by rw [withdrawn_objs, ho]) (by omega) h2
  rw [count_append]
  omega

end

end

theorem count_of_zero {n c c' : ℕ} (h : n + (0 < c' : Bool).toNat = (0 < c : Bool).toNat) :
    n ≤ 1 ∧ (n = 1 ↔ 0 < c ∧ c' = 0) := by
  by_cases hc : 0 < c
  · by_cases hc' : 0 < c'
    · simp only [hc, hc', decide_true, Bool.toNat_true] at h
      omega
    · simp only [hc, hc', decide_true, decide_false, Bool.toNat_true, Bool.toNat_false] at h
      omega
  · simp only [hc, decide_false, Bool.toNat_false] at h
    omega

theorem Settled.tornDown (h : Settled σ) (ha : σ.GivesUp a)
    (h₁ : (machine inertHooks).Performs (σ.begun a).1 (σ.begun a).2 l₁ τ₁)
    (h2 : Slices τ₁ bs l₂ τ) (hc : τ.cascade = []) : TornDown σ a τ (a.prologue ++ l₁ ++ l₂) := by
  have hdrain := h.draining ha
  have hnext : Draining _ _ τ₁ [] := returns (by simpa using hdrain) h₁.returns
  have hend := hnext.slices h2
  have hsettled := hend.settled hc (h.held_withdrawn ha)
  have hcut : ∀ s, a.removed s → τ.occupied s = false := fun s hs =>
    hnext.free_of_slices (hdrain.free_of_returns (h.free_of_removed hs) h₁.returns) h2
  have hloses : ∀ A o, (σ.withdrawn a).Loses a.removed A o ↔
      0 < A.counter (σ.objs o) ∧ A.counter (τ.objs o) = 0 := fun A o => by
    rw [hend.loses_iff hc hcut, withdrawn_objs]
  have hlog : ∀ f : Call, f.givesBack = false →
      (a.prologue ++ l₁ ++ l₂).count f = (l₁ ++ l₂).count f := fun f hf => by
    rw [append_assoc, count_append, count_prologue a hf, Nat.zero_add]
  exact {
    settled := hsettled
    emptied := fun s hs => by
      have hs0 : (σ.withdrawn a).occupied s = true := by
        rwa [occupied, withdrawn_slots]
      exact ⟨hend.emptied s hs0, hend.free_of_falls hc hcut⟩
    kept := fun s hs => by rw [hend.slots_eq hs, withdrawn_slots]
    queued := fun o ho => by
      rw [hlog _ rfl, hloses]
      exact count_of_zero (h.count_emptySlots ha h₁ h2 hc ho)
    destroyed := fun o => by
      rw [hlog _ rfl, hloses]
      exact count_of_zero (h.count_hook ha h₁ h2 .refs o)
    live := fun o => by
      have hzero := hend.zero .refs o
      rw [withdrawn_objs] at hzero
      rw [hloses, hsettled.live, h.live]
      simp only [counter] at hzero ⊢
      omega }

end

/-- However CNodes name one another, giving up a reference tears down exactly what falls with it, in
finitely many slices that end as a single drain would, at a bounded depth. -/
theorem teardown_exact {σ : Kernel} {a : Action} (h : Settled σ) (ha : σ.GivesUp a) :
    ∃ l₁ τ₁ τ, StepPerforms inertHooks σ a l₁ τ₁ ∧ AtOnce τ₁.starting τ ∧
      (∀ bs : List ℕ, τ₁.load ≤ bs.length →
        ∃ l₂, Slices τ₁ bs l₂ τ ∧ TornDown σ a τ (l₁ ++ l₂)) ∧
      (∀ bs l₂ τ', Slices τ₁ bs l₂ τ' → τ'.cascade = [] → τ' = τ) ∧
      Runs inertHooks (fun _ _ => True) τ₁ (List.replicate τ₁.load .drainSlice) τ ∧
      (machine inertHooks).Within Call.continues teardownDepth (σ.act a).1
        ((σ.act a).2.map fun f => (0, f)) ∧
      ∀ bs l₂ τ' b, Slices τ₁ bs l₂ τ' → (machine inertHooks).Within Call.continues teardownDepth
        τ'.starting [(0, .cascadeDrain b 0)] := by
  have hdrain := h.draining ha
  have hheld := h.held_withdrawn ha
  have hslots := h.slots_withdrawn a
  obtain ⟨τ₁, hret⟩ := exists_returns inertHooks hdrain.inOrder
  obtain ⟨l₁, h₁⟩ := hret.exists_performs
  have hnext : Draining _ _ τ₁ [] := returns (by simpa using hdrain) hret
  obtain ⟨l₀, τ, hslices, hdone⟩ :=
    hnext.exists_slices (replicate τ₁.load irisCascadeSlice)
  have hc : τ.cascade = [] := hdone (.inr (by simp))
  have hatOnce := hnext.slices_atOnce hslices hc
  have hunique : ∀ bs l₂ τ', Slices τ₁ bs l₂ τ' → τ'.cascade = [] → τ' = τ :=
    fun bs l₂ τ' hs hc' => ((hnext.slices_atOnce hs hc') 0).unique (hatOnce 0)
  refine ⟨a.prologue ++ l₁, τ₁, τ, stepPerforms_begun h.panic ha h₁, hatOnce, ?_, hunique,
    hnext.runs_drainSlice hslices, h.within ha hret, ?_⟩
  · intro bs hbs
    obtain ⟨l₂, τ', hs, hdone'⟩ := hnext.exists_slices bs
    have hc' := hdone' (.inr hbs)
    obtain rfl := hunique bs l₂ τ' hs hc'
    exact ⟨l₂, hs, h.tornDown ha h₁ hs hc'⟩
  · intro bs l₂ τ' b hs
    have hstart : Draining (σ.withdrawn a) a.removed τ'.starting [.cascadeDrain b 0] :=
      (hnext.slices hs).starting
    obtain ⟨υ, hυ⟩ := exists_returns inertHooks hstart.inOrder
    refine within (k := [(0, .cascadeDrain b 0)]) hstart hheld hslots ?_ hυ
    exact shallow_cons.mpr ⟨by simp [rank, teardownDepth], trivial⟩

/-- A CNode in a CNode, both with a capability to themselves, and an endpoint in the inner one. -/
def nestedRun : List Action :=
  [.allocCNode 2, .allocCNode 2, .allocCNode 2, .initObject .endpoint,
    .installLinked 0 0 1 rightRead 0 none none true true,
    .installLinked 1 0 2 rightRead 0 none none true true,
    .installLinked 1 1 1 rightRead 0 none none true true,
    .installLinked 2 0 2 rightRead 0 none none true true,
    .installLinked 2 1 3 rightRead 0 none none true true, .unhold 1, .unhold 2, .unhold 3]

theorem teardown_exact_nestedRun : ∃ σ l₁ τ₁ τ l₂, Settled σ ∧
    (∀ i : ℕ, i < 2 → σ.occupied (.slot 1 i) = true ∧ σ.occupied (.slot 2 i) = true) ∧
    StepPerforms inertHooks σ (.delete 0 0) l₁ τ₁ ∧
    Slices τ₁ (List.replicate τ₁.load irisCascadeSlice) l₂ τ ∧
    TornDown σ (.delete 0 0) τ (l₁ ++ l₂) := by
  obtain ⟨σ, hσ, hquiet, hobjs, hocc⟩ :
      ∃ σ ∈ exec inertHooks (fun σ a => σ.keepsBorders a = true) 16 {} nestedRun,
        (σ.panic = none ∧ σ.cascade = [] ∧ σ.running = false) ∧
        (∀ o < σ.numObjs, (σ.objs o).live = decide (0 < (σ.objs o).refcount) ∧
          ((σ.objs o).type = .reserved → (σ.objs o).refcount = 0) ∧
          (σ.held o).active ≤ (σ.held o).refs) ∧
        ∀ i : ℕ, i < 2 → σ.occupied (.slot 1 i) = true ∧ σ.occupied (.slot 2 i) = true := by decide
  have hsettled := Settled.of_runs initial_empty (.of_exec hσ) hquiet hobjs
  obtain ⟨l₁, τ₁, τ, hstep, -, hslices, -⟩ := teardown_exact hsettled (a := .delete 0 0) trivial
  obtain ⟨l₂, hs, htorn⟩ := hslices (replicate τ₁.load irisCascadeSlice) (by simp)
  exact ⟨σ, l₁, τ₁, τ, l₂, hsettled, hocc, hstep, hs, htorn⟩

end IrisOS.Cap
