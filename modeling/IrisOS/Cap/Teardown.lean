import IrisOS.Cap.EntryAccounts
import IrisOS.Lib.Collapse

/-! Tearing CNodes down. An object that has lost its last reference of one kind takes its slots with
it, and so on; the calls that empty them never stop the kernel and empty nothing else. -/
namespace IrisOS.Cap
open Lib Kernel List Call

/-! ## What falls -/

/-- Every object is two nodes, one for each count; it stays if that count is zero already or held
outside. -/
def Kernel.refGraph (σ : Kernel) : RefGraph (Account × ObjId) SlotRef where
  held n := n.1.counter (σ.objs n.2) = 0 ∨ 0 < n.1.held (σ.held n.2)
  refs n s := σ.names n.2 s = true ∧ n.1.counts n.2 s = true
  owns n s := ∃ i, s = .slot n.2 i

/-- The capability in the slot goes when those in the slots `R` are removed. -/
abbrev Kernel.Falls (σ : Kernel) (R : SlotRef → Prop) : SlotRef → Prop := σ.refGraph.Falls R

/-- The object loses its last reference of the kind. -/
abbrev Kernel.Loses (σ : Kernel) (R : SlotRef → Prop) (A : Account) (o : ObjId) : Prop :=
  σ.refGraph.Loses R (A, o)

theorem Kernel.Loses.slot_falls {σ : Kernel} {R : SlotRef → Prop} {A : Account} {o : ObjId}
    (h : σ.Loses R A o) (i : ℕ) : σ.Falls R (.slot o i) :=
  RefGraph.Loses.falls (n := (A, o)) h ⟨i, rfl⟩

/-! ## The calls of a teardown -/

/-- What a waiting call may be sure of, when `σ₀` is the state the teardown started in. -/
def Call.Due (σ₀ : Kernel) (R : SlotRef → Prop) : Call → Prop
  | .dispatchClose o => σ₀.Loses R .active o
  | .emptySlots o _ => ∀ i, σ₀.Falls R (.slot o i)
  | .dispatchDestroy o | .objDestroy o _ | .storageFree o => σ₀.Loses R .refs o
  | .revokeLoop cn idx _ _ => ∀ v, σ₀.Ancestor (.slot cn idx) v → R v
  | .slotDelete _ _ | .heldActiveRelease _ | .heldRelease _ => False
  | _ => True

/-- The object that a call uses and that something further down still has a reference to. -/
def Call.guarded : Call → Option ObjId
  | .activeRelease o | .finaliseOrphans o | .dispatchClose o | .emptySlots o _
  | .revokeLoop o _ _ _ => some o
  | _ => none

/-- Every object in use is released later, or held outside. -/
def Guarded (held : ObjId → Held) : List Call → Prop
  | [] => True
  | f :: k => (∀ o ∈ f.guarded, .release o ∈ k ∨ 0 < (held o).refs) ∧ Guarded held k

variable {held : ObjId → Held} {k : List Call}

theorem Guarded.mem {f : Call} {o : ObjId} (h : Guarded held k) (hf : f ∈ k) (ho : o ∈ f.guarded) :
    .release o ∈ k ∨ 0 < (held o).refs := by
  induction k with
  | nil => cases hf
  | cons g k ih =>
    rcases mem_cons.mp hf with rfl | hf
    · exact (h.1 o ho).imp_left (mem_cons_of_mem f)
    · exact (ih h.2 hf).imp_left (mem_cons_of_mem g)

/-- The call is a stage of the destruction of `o`. -/
def Call.destroys (o : ObjId) : Call → Bool
  | .dispatchDestroy x | .objDestroy x _ | .storageFree x => x = o
  | _ => false

/-- A state on the way of a teardown that started in `σ₀`, with the calls still to be run. -/
structure Tearing (σ₀ : Kernel) (R : SlotRef → Prop) (σ : Kernel) (k : List Call) : Prop where
  accounted : ∀ A, Accounted A σ k
  panic : σ.panic = none
  held : σ.held = σ₀.held
  shape : SameShape σ₀ σ
  pruned : ∃ F₀ F, Wf σ₀ F₀ ∧ Wf σ F ∧ Prunes F₀ σ₀.slots F σ.slots
  emptied : ∀ s, σ₀.occupied s = true → σ.occupied s = false → σ₀.Falls R s
  zero : ∀ (A : Account) o, A.counter (σ₀.objs o) = 0 → A.counter (σ.objs o) = 0
  typed : ∀ o, (σ₀.objs o).type = .reserved → (σ₀.objs o).refcount = 0
  due : ∀ f ∈ k, f.Due σ₀ R
  queue : ∀ o ∈ σ.cascade, σ₀.Loses R .active o
  guarded : Guarded σ₀.held k
  alive : ∀ o, (σ.objs o).live.toNat =
    (0 < (σ.objs o).refcount : Bool).toNat + k.countP (Call.destroys o)

namespace Tearing
variable {σ₀ σ : Kernel} {R : SlotRef → Prop} {f : Call} {A : Account} {o : ObjId}

theorem inOrder (h : Tearing σ₀ R σ k) : InOrder σ k := (h.accounted .refs).inOrder

theorem slots_eq (h : Tearing σ₀ R σ k) {s : SlotRef} (hs : σ.occupied s = true) :
    σ.slots s = σ₀.slots s := by
  obtain ⟨F₀, F, -, hw, hp⟩ := h.pruned
  exact hp.content (hw.mem hs)

theorem loses (h : Tearing σ₀ R σ (A.drop o :: k)) (hone : A.counter (σ.objs o) = 1) :
    σ₀.Loses R A o := by
  have hbal := (h.accounted A).balanced h.panic o
  have hdue : A.due o (A.drop o) = 1 := by cases A <;> simp [Account.due, Account.drop]
  rw [Account.dueSum_cons, hdue, hone] at hbal
  refine ⟨?_, fun s hs => ?_⟩
  · rintro (hzero | hheld)
    · simp [h.zero A o hzero] at hone
    · simp only [← h.held] at hheld
      omega
  refine h.emptied s (occupied_of_names hs.1) ?_
  by_contra hne
  have hs' : σ.occupied s = true := by simpa using hne
  obtain ⟨F₀, F, -, hw, -⟩ := h.pruned
  have hnames : σ.names o s = true := by
    rw [names_iff, h.slots_eq hs', names_iff.mp hs.1]
  have hpos : 0 < A.slots σ o :=
    countP_pos_iff.mpr ⟨s, hw.mem_allSlots (hw.mem hs'), by simp [hnames, hs.2]⟩
  omega

/-! ## The kernel does not stop -/

theorem refcount_pos_of_due (h : Tearing σ₀ R σ k) (hf : f ∈ k) (hdue : Account.refs.due o f = 1) :
    1 ≤ (σ.objs o).refcount := by
  have hbal : (σ.objs o).refcount = _ := (h.accounted .refs).balanced h.panic o
  have hle := Account.refs.due_le_dueSum o hf
  omega

theorem refcount_pos (h : Tearing σ₀ R σ k) (hf : f ∈ k) (ho : o ∈ f.guarded) :
    1 ≤ (σ.objs o).refcount := by
  rcases h.guarded.mem hf ho with hmem | hheld
  · exact h.refcount_pos_of_due hmem (by simp [Account.due])
  · have hbal : (σ.objs o).refcount = _ := (h.accounted .refs).balanced h.panic o
    simp only [Account.held, h.held] at hbal
    omega

theorem live_of_refcount (h : Tearing σ₀ R σ k) (ho : 1 ≤ (σ.objs o).refcount) :
    (σ.objs o).live = true := by
  have halive := h.alive o
  simp only [Nat.lt_of_succ_le ho, decide_true, Bool.toNat_true] at halive
  by_contra hne
  simp only [Bool.not_eq_true] at hne
  simp only [hne, Bool.toNat_false] at halive
  omega

section

variable (h : Tearing σ₀ R σ (f :: k))
include h

theorem live_of_destroys (ho : f.destroys o = true) : (σ.objs o).live = true := by
  have halive := h.alive o
  rw [countP_cons_of_pos ho] at halive
  by_contra hne
  simp only [Bool.not_eq_true] at hne
  simp only [hne, Bool.toNat_false] at halive
  omega

theorem subject_live : ∀ o ∈ f.subject, (σ.objs o).live = true := by
  intro o ho
  cases f with
  | slotDelete | cascadeDrain | heldActiveRelease | heldRelease => cases ho
  | slotDropOld | release =>
    cases ho
    exact h.live_of_refcount (h.refcount_pos_of_due mem_cons_self (by simp [Account.due]))
  | activeRelease | finaliseOrphans | dispatchClose | emptySlots | revokeLoop =>
    exact h.live_of_refcount (h.refcount_pos mem_cons_self ho)
  | dispatchDestroy | objDestroy | storageFree =>
    cases ho
    exact h.live_of_destroys (by simp [destroys])

theorem fails_none : f.fails σ = none := by
  cases f with
  | activeRelease o =>
    have hpos : 1 ≤ (σ.objs o).activeRefs :=
      Accounted.counter_pos ((h.accounted .active).balanced h.panic) (by simp [Account.due])
    simp only [fails, if_pos hpos]
  | release o =>
    have hpos := h.refcount_pos_of_due (o := o) mem_cons_self (by simp [Account.due])
    simp only [fails, if_pos hpos]
  | dispatchClose o =>
    have hpos := h.refcount_pos (o := o) mem_cons_self rfl
    have hnot : ¬ (σ.objs o).refcount < 1 := not_lt.mpr hpos
    simp only [fails, hnot, and_false, if_false]
  | dispatchDestroy o =>
    have hdue : σ₀.Loses R .refs o := h.due _ mem_cons_self
    have hne : (σ.objs o).type ≠ .reserved := fun htype => by
      rw [h.shape.type] at htype
      exact hdue.1 (.inl (h.typed o htype))
    simp only [fails, if_neg hne]
  | _ => rfl

end

theorem body_eq (hooks : Hooks) (h : Tearing σ₀ R σ (f :: k)) :
    (machine hooks).body σ f = σ.perform hooks f ∧ (σ.perform hooks f).1.panic = none := by
  obtain ⟨F₀, F, -, hw, -⟩ := h.pruned
  refine ⟨?_, by rw [(perform_outcome hooks hw f).panic_eq h.panic, h.fails_none]⟩
  have hlive : (f.subject.all fun o => (σ.objs o).live) = true := by
    cases hf : f.subject with
    | none => rfl
    | some o => exact h.subject_live o hf
  unfold machine
  simp only [hlive, if_true]

end Tearing

/-! ## What a call removes and issues -/

section
variable {σ τ : Kernel} {F : Forest SlotRef} {f : Call} {s : SlotRef} {l : List Call} {cn : ObjId}

/-- The calls that a call can issue. -/
inductive Issues (hooks : Hooks) (σ : Kernel) : Call → Call → Prop
  | deleteOld {cn idx old} : Issues hooks σ (.slotDelete cn idx) (.slotDropOld cn old)
  | dropActive {cn old} (h : old ≠ cn) : Issues hooks σ (.slotDropOld cn old) (.activeRelease old)
  | dropOrphans {cn old} : Issues hooks σ (.slotDropOld cn old) (.finaliseOrphans old)
  | dropRef {cn old} : Issues hooks σ (.slotDropOld cn old) (.release old)
  | close {o} (h : (σ.objs o).activeRefs = 1) : Issues hooks σ (.activeRelease o) (.dispatchClose o)
  | destroy {o} (h : (σ.objs o).refcount = 1) : Issues hooks σ (.release o) (.dispatchDestroy o)
  | orphansHook {o g} (h : g ∈ hooks.finaliseOrphans σ.objs σ.slots o) :
      Issues hooks σ (.finaliseOrphans o) g.toCall
  | closeHook {o g} (h : g ∈ hooks.close σ.objs σ.slots o) :
      Issues hooks σ (.dispatchClose o) g.toCall
  | destroyHook {o g} (h : g ∈ hooks.destroy σ.objs σ.slots o) :
      Issues hooks σ (.dispatchDestroy o) g.toCall
  | cascadeEmpty {o} (h : (σ.objs o).type = .cnode) (hrun : σ.running = false) :
      Issues hooks σ (.dispatchClose o) (.emptySlots o 0)
  | cascadeDrain {o} (h : (σ.objs o).type = .cnode) (hrun : σ.running = false) :
      Issues hooks σ (.dispatchClose o) (.cascadeDrain (irisCascadeSlice - 1) 0)
  | objDestroy {o} (h : (σ.objs o).type = .cnode) :
      Issues hooks σ (.dispatchDestroy o) (.objDestroy o 0)
  | storageFree {o} : Issues hooks σ (.dispatchDestroy o) (.storageFree o)
  | emptyOld {cn idx old} (h : (σ.slots (.slot cn idx)).object = some old) :
      Issues hooks σ (.emptySlots cn idx) (.slotDropOld cn old)
  | emptyNext {cn idx} : Issues hooks σ (.emptySlots cn idx) (.emptySlots cn (idx + 1))
  | destroyOld {cn idx old} (h : (σ.slots (.slot cn idx)).object = some old) :
      Issues hooks σ (.objDestroy cn idx) (.slotDropOld cn old)
  | destroyNext {cn idx} : Issues hooks σ (.objDestroy cn idx) (.objDestroy cn (idx + 1))
  | drainEmpty {o budget done} (h : o ∈ σ.cascade) :
      Issues hooks σ (.cascadeDrain budget done) (.emptySlots o 0)
  | drainRelease {o budget done} (h : o ∈ σ.cascade) :
      Issues hooks σ (.cascadeDrain budget done) (.release o)
  | drainNext {budget done} :
      Issues hooks σ (.cascadeDrain budget done) (.cascadeDrain budget (done + 1))
  | revokeOld {cn idx budget revoked vcn old} :
      Issues hooks σ (.revokeLoop cn idx budget revoked) (.slotDropOld vcn old)
  | revokeNext {cn idx budget revoked} :
      Issues hooks σ (.revokeLoop cn idx budget revoked) (.revokeLoop cn idx budget (revoked + 1))
  | heldActive {o} : Issues hooks σ (.heldActiveRelease o) (.activeRelease o)
  | heldRef {o} : Issues hooks σ (.heldRelease o) (.release o)

theorem mem_dropOldCalls {old : Option ObjId} {g : Call} :
    g ∈ Kernel.dropOldCalls cn old ↔ ∃ o, old = some o ∧ g = .slotDropOld cn o := by
  cases old <;> simp [dropOldCalls]

variable {hooks : Hooks}

theorem Outcome.issues {g : Call} (h : Outcome hooks σ F f τ l) (hg : g ∈ l) :
    Issues hooks σ f g := by
  cases h with
  | blank hd =>
    cases hd with
    | one => cases hg
    | empty => exact mem_singleton.mp hg ▸ .emptyNext
    | destroy => exact mem_singleton.mp hg ▸ .destroyNext
  | delete hd _ ho =>
    rcases mem_cons.mp hg with rfl | hg
    · cases hd with
      | one => exact .deleteOld
      | empty => exact .emptyOld ho
      | destroy => exact .destroyOld ho
    · cases hd with
      | one => cases hg
      | empty => exact mem_singleton.mp hg ▸ .emptyNext
      | destroy => exact mem_singleton.mp hg ▸ .destroyNext
  | dropOld =>
    simp only [mem_append, mem_singleton] at hg
    rcases hg with (hg | hg) | rfl
    · split_ifs at hg with hne
      · cases hg
      · exact mem_singleton.mp hg ▸ .dropActive hne
    · split_ifs at hg
      · exact mem_singleton.mp hg ▸ .dropOrphans
      · cases hg
    · exact .dropRef
  | activeRelease =>
    split_ifs at hg with hone
    · exact mem_singleton.mp hg ▸ .close hone
    · cases hg
  | release =>
    split_ifs at hg with hone
    · exact mem_singleton.mp hg ▸ .destroy hone
    · cases hg
  | finaliseOrphans =>
    obtain ⟨c, hc, rfl⟩ := mem_map.mp hg
    exact .orphansHook hc
  | cascade htype hrun =>
    rcases mem_pair.mp hg with rfl | rfl
    · exact .cascadeEmpty htype hrun
    · exact .cascadeDrain htype hrun
  | close _ hl =>
    obtain ⟨c, hc, rfl⟩ := mem_map.mp hg
    exact .closeHook (hl c hc)
  | objDestroy htype => exact mem_singleton.mp hg ▸ .objDestroy htype
  | destroy =>
    rcases mem_append.mp hg with hg | hg
    · obtain ⟨c, hc, rfl⟩ := mem_map.mp hg
      exact .destroyHook hc
    · exact mem_singleton.mp hg ▸ .storageFree
  | @drain _ _ o _ hc =>
    have ho : o ∈ σ.cascade := by simp [hc]
    simp only [mem_cons, not_mem_nil, or_false] at hg
    rcases hg with rfl | rfl | rfl
    · exact .drainEmpty ho
    · exact .drainRelease ho
    · exact .drainNext
  | revoke =>
    rcases mem_pair.mp hg with rfl | rfl
    · exact .revokeOld
    · exact .revokeNext
  | giveActive => exact mem_singleton.mp hg ▸ .heldActive
  | giveRef => exact mem_singleton.mp hg ▸ .heldRef
  | _ => cases hg

theorem slotDeleteLocked_removes (hw : Wf σ F) {idx : ℕ} (hs : σ.occupied s = true)
    (hs' : (σ.slotDeleteLocked cn idx).1.occupied s = false) : s = .slot cn idx := by
  by_contra hne
  simp [occupied, slotDeleteLocked_slots_of_ne hw hne] at hs hs'
  simp [hs'] at hs

/-- The call gives the storage of `o` back. -/
def Call.frees (σ : Kernel) (o : ObjId) : Call → Bool
  | .storageFree x => x = o
  | .objDestroy x i => x = o ∧ (σ.objs x).slotCount ≤ i
  | _ => false

theorem Outcome.live_eq (h : Outcome hooks σ F f τ l) (o : ObjId) :
    (τ.objs o).live = ((σ.objs o).live && !f.frees σ o) := by
  cases h with
  | pass hf => cases f <;> cases hf <;> simp [frees]
  | blank hd hidx | delete hd hidx => cases hd <;> simp [frees, without, not_le.mpr hidx]
  | @destroyed x i hidx =>
    by_cases ho : o = x
    · simp [frees, kobjectStorageFree, setObj, setStats, ho, not_lt.mp hidx]
    · simp [frees, kobjectStorageFree, setObj, setStats, ho, Ne.symm ho]
  | @storageFree x =>
    by_cases ho : o = x
    · simp [frees, kobjectStorageFree, setObj, ho]
    · simp [frees, kobjectStorageFree, setObj, ho, Ne.symm ho]
  | @activeRelease x | @release x | @resurrect x | @queue x =>
    by_cases ho : o = x <;> simp [setObj, frees, ho]
  | _ => simp [frees, stop, setHeld, without]

theorem Outcome.destroys (h : Outcome inertHooks σ F f τ l) (hf : f.fails σ = none) (o : ObjId) :
    l.countP (Call.destroys o) = (f.destroys o && !f.frees σ o).toNat +
      (f = .release o ∧ (σ.objs o).refcount = 1 : Bool).toNat := by
  cases h with
  | pass hf => cases f <;> cases hf <;> simp [destroys]
  | blank hd hidx | delete hd hidx =>
    cases hd <;> simp [destroys, frees, not_le.mpr hidx, Bool.toNat, Bool.cond_decide]
  | destroyed hidx => simp [destroys, frees, not_lt.mp hidx]
  | storageFree => simp [destroys, frees]
  | @release x =>
    by_cases ho : x = o
    · subst ho
      split_ifs with hone <;> simp [destroys, hone]
    · split_ifs <;> simp [destroys, ho]
  | noDestructor htype => simp [fails, htype] at hf
  | @objDestroy x | @destroy x =>
    by_cases ho : x = o <;> simp [destroys, frees, ho, inertHooks]
  | close _ hl =>
    cases eq_nil_iff_forall_not_mem.mpr fun c hc => by cases hl c hc
    simp [destroys]
  | _ => simp [destroys, inertHooks]

theorem live_perform {o : ObjId} (hw : Wf σ F) (hσ : σ.panic = none)
    (hp : (σ.perform inertHooks f).1.panic = none) (halive : (σ.objs o).live.toNat =
      (0 < (σ.objs o).refcount : Bool).toNat + (f :: k).countP (Call.destroys o)) :
    ((σ.perform inertHooks f).1.objs o).live.toNat =
      (0 < ((σ.perform inertHooks f).1.objs o).refcount : Bool).toNat +
        ((σ.perform inertHooks f).2 ++ k).countP (Call.destroys o) := by
  have hr := perform_outcome inertHooks hw f
  have hfails : f.fails σ = none := (hr.panic_eq hσ).symm.trans hp
  rw [countP_append, hr.destroys hfails, hr.live_eq o]
  rw [countP_cons] at halive
  by_cases hf : f = .release o
  · subst hf
    have hpos : 1 ≤ (σ.objs o).refcount := by
      by_contra hne
      simp [fails, hne] at hfails
    have hdrop : ((σ.perform inertHooks (.release o)).1.objs o).refcount + 1 = _ :=
      counter_drop (A := .refs) inertHooks hpos
    simp only [Account.counter] at hdrop
    simp only [frees, destroys, Bool.not_false, Bool.and_true, Bool.toNat_false,
      true_and, halive, Bool.false_eq_true, if_false]
    by_cases hone : (σ.objs o).refcount = 1
    · have hzero : ((σ.perform inertHooks (.release o)).1.objs o).refcount = 0 := by omega
      simp [hone, hzero]
    · have hmore : 0 < ((σ.perform inertHooks (.release o)).1.objs o).refcount := by omega
      simp [hone, hmore, Nat.lt_of_succ_le hpos]
  · have hpos : 0 < ((σ.perform inertHooks f).1.objs o).refcount ↔ 0 < (σ.objs o).refcount :=
      hr.counter_pos_iff (A := .refs) hσ hf hp
    have hfree : f.frees σ o = true → f.destroys o = true := by
      cases f <;> simp +contextual [frees, destroys]
    simp only [hpos, hf, false_and, decide_false, Bool.toNat_false, Nat.add_zero]
    have hlive := Bool.toNat_le (σ.objs o).live
    cases hd : f.destroys o with
    | false =>
      have hkeep : f.frees σ o = false := by
        cases hfr : f.frees σ o with
        | false => rfl
        | true => simp [hfree hfr] at hd
      simpa [hd, hkeep] using halive
    | true =>
      rw [hd, if_pos rfl] at halive
      cases hfr : f.frees σ o with
      | false =>
        simp only [Bool.not_false, Bool.and_true, Bool.toNat_true]
        omega
      | true =>
        simp only [Bool.not_true, Bool.and_false, Bool.toNat_false]
        omega

theorem Outcome.removes (h : Outcome hooks σ F f τ l) (hs : σ.occupied s = true)
    (hs' : τ.occupied s = false) :
    (∃ cn i, s = .slot cn i ∧
      (f = .slotDelete cn i ∨ f = .emptySlots cn i ∨ f = .objDestroy cn i)) ∨
    ∃ cn idx b r, f = .revokeLoop cn idx b r ∧ F.Anc (.slot cn idx) s := by
  cases h with
  | delete hd =>
    rw [Wf.occupied_without, hs, ite_eq_left_iff] at hs'
    obtain rfl := not_not.mp fun hne => nomatch hs' hne
    cases hd <;> exact .inl ⟨_, _, rfl, by simp⟩
  | revoke hanc =>
    rw [Wf.occupied_without, hs, ite_eq_left_iff] at hs'
    obtain rfl := not_not.mp fun hne => nomatch hs' hne
    exact .inr ⟨_, _, _, _, rfl, hanc⟩
  | _ => exact absurd hs (ne_true_of_eq_false hs')

theorem Outcome.mem_cascade (h : Outcome hooks σ F f τ l) {o : ObjId}
    (ho : o ∈ τ.cascade) : o ∈ σ.cascade ∨ f = .dispatchClose o := by
  cases h with
  | queue =>
    rcases mem_cons.mp ho with rfl | ho
    · exact .inr rfl
    · exact .inl ho
  | drain hc => exact .inl (hc ▸ mem_cons_of_mem _ ho)
  | _ => exact .inl ho

end

namespace Tearing
variable {σ₀ σ : Kernel} {R : SlotRef → Prop} {f : Call}

theorem due_perform (h : Tearing σ₀ R σ (f :: k)) :
    ∀ g ∈ (σ.perform inertHooks f).2, g.Due σ₀ R := by
  intro g hg
  have hf := h.due f mem_cons_self
  obtain ⟨F₀, F, -, hw, -⟩ := h.pruned
  cases (perform_outcome inertHooks hw f).issues hg with
  | deleteOld | dropActive | dropOrphans | dropRef | emptyOld | destroyOld | revokeOld => trivial
  | cascadeDrain | drainRelease | drainNext => trivial
  | close hone => exact h.loses (A := .active) hone
  | destroy hone => exact h.loses (A := .refs) hone
  | orphansHook hc | closeHook hc | destroyHook hc => cases hc
  | cascadeEmpty => exact Loses.slot_falls hf
  | objDestroy | storageFree | emptyNext | destroyNext | revokeNext => exact hf
  | drainEmpty hc => exact Loses.slot_falls (h.queue _ hc)
  | heldActive | heldRef => exact hf.elim

theorem queue_perform (h : Tearing σ₀ R σ (f :: k)) :
    ∀ o ∈ (σ.perform inertHooks f).1.cascade, σ₀.Loses R .active o := by
  obtain ⟨F₀, F, -, hw, -⟩ := h.pruned
  intro o ho
  rcases (perform_outcome inertHooks hw f).mem_cascade ho with ho | rfl
  · exact h.queue o ho
  · exact h.due _ mem_cons_self

theorem guarded_append {l : List Call} (hl : ∀ g ∈ l, g.guarded = none)
    (hk : Guarded held k) : Guarded held (l ++ k) := by
  induction l with
  | nil => exact hk
  | cons g l ih =>
    refine ⟨?_, ih fun g' hg' => hl g' (mem_cons_of_mem g hg')⟩
    rw [hl g mem_cons_self]
    nofun

theorem guarded_dropOldCalls {old : Option ObjId} :
    ∀ g ∈ Kernel.dropOldCalls cn old, g.guarded = none := by
  cases old <;> simp [dropOldCalls, Call.guarded]

section

variable (h : Tearing σ₀ R σ (f :: k))
include h

theorem guarded_outcome {τ : Kernel} {F : Forest SlotRef} {l : List Call}
    (hr : Outcome inertHooks σ F f τ l) : Guarded σ₀.held (l ++ k) := by
  have hdue := h.due f mem_cons_self
  obtain ⟨hf, hk⟩ := h.guarded
  cases hr with
  | blank hd | delete hd =>
    cases hd with
    | one => exact hdue.elim
    | empty => simpa [Guarded, Call.guarded] using ⟨hf _ rfl, hk⟩
    | destroy => simpa [Guarded, Call.guarded] using hk
  | dropOld => split_ifs <;> simp [Guarded, Call.guarded, hk]
  | activeRelease =>
    split_ifs
    · exact ⟨hf, hk⟩
    · exact hk
  | release =>
    split_ifs
    · exact ⟨nofun, hk⟩
    · exact hk
  | cascade => exact ⟨fun x hx => (hf x hx).imp_left (mem_cons_of_mem _), nofun, hk⟩
  | close _ hl =>
    cases eq_nil_iff_forall_not_mem.mpr fun c hc => nomatch hl c hc
    exact hk
  | objDestroy | destroy => exact ⟨nofun, hk⟩
  | drain => exact ⟨by simp [Call.guarded], nofun, nofun, hk⟩
  | revoke => exact ⟨nofun, hf, hk⟩
  | giveActive | giveRef => exact hdue.elim
  | _ => exact hk

theorem alive_perform (o : ObjId) :
    ((σ.perform inertHooks f).1.objs o).live.toNat =
      (0 < ((σ.perform inertHooks f).1.objs o).refcount : Bool).toNat +
        ((σ.perform inertHooks f).2 ++ k).countP (Call.destroys o) := by
  obtain ⟨F₀, F, -, hw, -⟩ := h.pruned
  exact live_perform hw h.panic (h.body_eq inertHooks).2 (h.alive o)

theorem emptied_perform (s : SlotRef) (hs0 : σ₀.occupied s = true)
    (hs' : (σ.perform inertHooks f).1.occupied s = false) : σ₀.Falls R s := by
  cases hs : σ.occupied s with
  | false => exact h.emptied s hs0 hs
  | true =>
    obtain ⟨F₀, F, hw0, hw, hprune⟩ := h.pruned
    have hdue := h.due f mem_cons_self
    rcases (perform_outcome inertHooks hw f).removes hs hs' with
      ⟨cn, i, rfl, hf⟩ | ⟨cn, idx, b, r, rfl, hanc⟩
    · rcases hf with rfl | rfl | rfl
      · exact hdue.elim
      · exact hdue i
      · exact Loses.slot_falls hdue i
    · refine .cut (hdue s ?_)
      rw [hw0.ancestor_eq]
      exact (hprune.anc_iff (Forest.Anc.owner hanc) (hw.mem hs)).mp hanc

theorem zero_perform (A : Account) (o : ObjId)
    (hzero : A.counter (σ₀.objs o) = 0) : A.counter ((σ.perform inertHooks f).1.objs o) = 0 := by
  obtain ⟨F₀, F, -, hw, -⟩ := h.pruned
  have hσ := h.zero A o hzero
  have hf : f ≠ A.drop o := by
    rintro rfl
    have hpos : 1 ≤ A.counter (σ.objs o) := Accounted.counter_pos
      ((h.accounted A).balanced h.panic) (by cases A <;> simp [Account.due, Account.drop])
    omega
  have hiff := (perform_outcome inertHooks hw f).counter_pos_iff h.panic hf (h.body_eq inertHooks).2
  omega

theorem call :
    Tearing σ₀ R ((machine inertHooks).body σ f).1 (((machine inertHooks).body σ f).2 ++ k) := by
  have hbody := h.body_eq inertHooks
  obtain ⟨F₀, F, hw0, hw, hprune⟩ := h.pruned
  have hframe := h.inOrder.2 f mem_cons_self
  have heffect := (perform_effect inertHooks hw f hframe).1
  obtain ⟨F', hw', hprune'⟩ := heffect.prunes hw
  have hacc : ∀ A, Accounted A ((machine inertHooks).body σ f).1
      (((machine inertHooks).body σ f).2 ++ k) := fun A => (h.accounted A).call h.panic
  rw [hbody.1] at hacc ⊢
  exact {
    accounted := hacc
    panic := hbody.2
    held := by
      rw [← h.held]
      refine (perform_outcome inertHooks hw f).held ?_
      have hdue := h.due f mem_cons_self
      cases f with
      | heldActiveRelease | heldRelease => exact hdue.elim
      | _ => rfl
    shape := h.shape.trans heffect.sameShape
    pruned := ⟨F₀, F', hw0, hw', hprune.trans hprune'⟩
    emptied := h.emptied_perform
    zero := h.zero_perform
    typed := h.typed
    due := fun g hg => (mem_append.mp hg).elim (h.due_perform g)
      fun hg => h.due g (mem_cons_of_mem f hg)
    queue := h.queue_perform
    guarded := h.guarded_outcome (perform_outcome inertHooks hw f)
    alive := h.alive_perform }

end

end Tearing
end IrisOS.Cap
