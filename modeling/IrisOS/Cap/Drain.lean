import IrisOS.Cap.Teardown

/-! The drain of a teardown. Everything that has to be emptied is waiting somewhere, and when
nothing waits any more, all that falls is gone. -/
namespace IrisOS.Cap
open Lib Kernel List

/-! ## What is still to be emptied -/

/-- The call will have the slots of `o` emptied; a loop has done those before its index. -/
def Call.Empties (σ : Kernel) (o : ObjId) : Account → Call → Prop
  | .active, .dispatchClose x | .refs, .dispatchDestroy x => x = o
  | .active, .emptySlots x i | .refs, .objDestroy x i =>
    x = o ∧ ∀ j < i, σ.occupied (.slot o j) = false
  | _, _ => False

/-- The slots of `o` are empty, or something waits that will empty them. -/
def Owed (A : Account) (σ : Kernel) (k : List Call) (o : ObjId) : Prop :=
  (∃ f ∈ k, f.Empties σ o A) ∨ (A = .active ∧ o ∈ σ.cascade) ∨
    ∀ i, σ.occupied (.slot o i) = false

def Call.isDrain : Call → Bool
  | .cascadeDrain _ _ => true
  | _ => false

/-- A teardown that forgets nothing. -/
structure Draining (σ₀ : Kernel) (R : SlotRef → Prop) (σ : Kernel) (k : List Call) : Prop
    extends Tearing σ₀ R σ k where
  owed : ∀ (A : Account) o, 0 < A.counter (σ₀.objs o) → A.counter (σ.objs o) = 0 → Owed A σ k o
  drain : σ.running.toNat = k.countP Call.isDrain

section
variable {σ τ : Kernel} {F : Forest SlotRef} {f g : Call} {k : List Call} {o : ObjId} {i : ℕ}
  {A : Account}

theorem Call.Empties.mono (h : g.Empties σ o A)
    (hmono : ∀ s, σ.occupied s = false → τ.occupied s = false) : g.Empties τ o A := by
  cases A with
  | active =>
    cases g with
    | emptySlots => exact ⟨h.1, fun j hj => hmono _ (h.2 j hj)⟩
    | _ => exact h
  | refs =>
    cases g with
    | objDestroy => exact ⟨h.1, fun j hj => hmono _ (h.2 j hj)⟩
    | _ => exact h

theorem perform_free (hooks : Hooks) (hw : Wf σ F) (hf : FrameOk σ f) (s : SlotRef)
    (hs : σ.occupied s = false) : (σ.perform hooks f).1.occupied s = false := by
  obtain ⟨F', hw', hprune⟩ := (perform_effect hooks hw f hf).1.prunes hw
  by_contra hne
  exact hw.not_mem hs (hprune.mem (hw'.mem (by simpa using hne)))

theorem Wf.free_of_not_cnode (hw : Wf σ F) (ho : (σ.objs o).type ≠ .cnode) (i : ℕ) :
    σ.occupied (.slot o i) = false := by
  by_contra hne
  obtain ⟨cn, idx, hs, -, hex⟩ := hw.home _ (by simpa using hne)
  cases hs
  exact ho (Wf.slotExists_iff.mp hex).2.1

theorem Wf.free_of_le (hw : Wf σ F) (hi : (σ.objs o).slotCount ≤ i) :
    σ.occupied (.slot o i) = false := by
  by_contra hne
  obtain ⟨cn, idx, hs, -, hex⟩ := hw.home _ (by simpa using hne)
  cases hs
  exact absurd (Wf.slotExists_iff.mp hex).2.2 (not_lt.mpr hi)

theorem Wf.free_of_loop (hw : Wf σ F) (hfree : ∀ j < i, σ.occupied (.slot o j) = false)
    (hi : ¬ i < (σ.objs o).slotCount) (j : ℕ) : σ.occupied (.slot o j) = false := by
  by_cases hj : j < i
  · exact hfree j hj
  · exact hw.free_of_le (le_trans (not_lt.mp hi) (not_lt.mp hj))

theorem slotDeleteLocked_free (hw : Wf σ F) (hfree : ∀ j < i, σ.occupied (.slot o j) = false) :
    ∀ j < i + 1, (σ.slotDeleteLocked o i).1.occupied (.slot o j) = false := by
  intro j hj
  obtain ⟨heffect, hempty⟩ := slotDeleteLocked_effect hw o i
  by_cases hji : j = i
  · exact hji ▸ hempty
  · have hs : SlotRef.slot o j ≠ .slot o i := by simpa using hji
    rw [occupied, slotDeleteLocked_slots_of_ne hw hs]
    exact hfree j (by omega)

variable {l : List Call}

theorem Outcome.mem_cascade_or {hooks : Hooks} (h : Outcome hooks σ F f τ l)
    (ho : o ∈ σ.cascade) : o ∈ τ.cascade ∨ .emptySlots o 0 ∈ l := by
  cases h with
  | queue => exact .inl (mem_cons_of_mem _ ho)
  | drain hc =>
    rw [hc] at ho
    rcases mem_cons.mp ho with rfl | ho
    · exact .inr mem_cons_self
    · exact .inl ho
  | _ => exact .inl ho

theorem Outcome.isDrain (h : Outcome inertHooks σ F f τ l) (hf : f.drives = false) :
    l.countP Call.isDrain = 0 := by
  refine countP_eq_zero.mpr fun g hg hdrain => ?_
  cases h.issues hg with
  | cascadeDrain | drainNext => cases hf
  | orphansHook hc | closeHook hc | destroyHook hc => cases hc
  | _ => cases hdrain

theorem Outcome.running_eq (h : Outcome inertHooks σ F f τ l)
    (hdrain : σ.running.toNat = (f :: k).countP Call.isDrain) :
    τ.running.toNat = (l ++ k).countP Call.isDrain := by
  have hle := Bool.toNat_le σ.running
  cases hf : f.drives with
  | false =>
    have hnot : f.isDrain = false := by
      cases f with
      | cascadeDrain => cases hf
      | _ => rfl
    rw [countP_append, h.isDrain hf, (h.undriven hf).2, hdrain, Nat.zero_add,
      countP_cons_of_neg (by simp [hnot])]
  | true =>
    cases h with
    | pass hp => cases f <;> cases hp <;> cases hf
    | blank hd | delete hd => cases hd <;> cases hf
    | queued | resurrect | queue | drain => exact hdrain
    | cascade _ hrun =>
      have hnone : 0 = k.countP Call.isDrain := by simpa [hrun, Call.isDrain] using hdrain
      simp [countP_cons, Call.isDrain, ← hnone]
    | close _ hl =>
      cases eq_nil_iff_forall_not_mem.mpr fun c hc => nomatch hl c hc
      exact hdrain
    | drained =>
      rw [countP_cons_of_pos rfl] at hdrain
      have hnone : k.countP Call.isDrain = 0 := by omega
      simp [hnone]
    | _ => cases hf

end

namespace Draining
variable {σ₀ σ : Kernel} {R : SlotRef → Prop} {f : Call} {k : List Call} {o : ObjId} {A : Account}

section

variable (h : Tearing σ₀ R σ (f :: k))
include h

theorem owed_of_empties (hf : f.Empties σ o A) :
    Owed A (σ.perform inertHooks f).1 (σ.perform inertHooks f).2 o := by
  obtain ⟨F0, F, -, hw, -⟩ := h.pruned
  have hmono := perform_free inertHooks hw (h.inOrder.2 f mem_cons_self)
  cases A with
  | active =>
    cases f with
    | dispatchClose x =>
      obtain rfl : x = o := hf
      by_cases htype : (σ.objs x).type = .cnode
      · simp only [perform, kobjectDispatchClose, htype, kcnodeCascade]
        split_ifs with hrun hmem hzero
        · exact .inr (.inl ⟨rfl, hmem⟩)
        · exact absurd (h.refcount_pos (o := x) mem_cons_self rfl) (not_le.mpr hzero)
        · exact .inr (.inl ⟨rfl, mem_cons_self⟩)
        · exact .inl ⟨_, mem_cons_self, rfl, by simp⟩
      · exact .inr (.inr fun i => hmono _ (hw.free_of_not_cnode htype i))
    | emptySlots x i =>
      obtain ⟨rfl, hfree⟩ := hf
      simp only [perform]
      split_ifs with hi
      · exact .inl ⟨.emptySlots x (i + 1), by simp, rfl, slotDeleteLocked_free hw hfree⟩
      · exact .inr (.inr (hw.free_of_loop hfree hi))
    | _ => exact hf.elim
  | refs =>
    cases f with
    | dispatchDestroy x =>
      obtain rfl : x = o := hf
      by_cases htype : (σ.objs x).type = .cnode
      · simp only [perform, kobjectDispatchDestroy, htype]
        exact .inl ⟨_, mem_cons_self, rfl, by simp⟩
      · exact .inr (.inr fun i => hmono _ (hw.free_of_not_cnode htype i))
    | objDestroy x i =>
      obtain ⟨rfl, hfree⟩ := hf
      simp only [perform]
      split_ifs with hi
      · exact .inl ⟨.objDestroy x (i + 1), by simp, rfl, slotDeleteLocked_free hw hfree⟩
      · exact .inr (.inr (hw.free_of_loop hfree hi))
    | _ => exact hf.elim

theorem owed_of_queued (ho : o ∈ σ.cascade) :
    Owed .active (σ.perform inertHooks f).1 (σ.perform inertHooks f).2 o := by
  obtain ⟨F0, F, -, hw, -⟩ := h.pruned
  rcases (perform_outcome inertHooks hw f).mem_cascade_or ho with ho | ho
  · exact .inr (.inl ⟨rfl, ho⟩)
  · exact .inl ⟨_, ho, rfl, nofun⟩

theorem owed_call (ho : Owed A σ (f :: k) o) :
    Owed A (σ.perform inertHooks f).1 ((σ.perform inertHooks f).2 ++ k) o := by
  have hissued : Owed A (σ.perform inertHooks f).1 (σ.perform inertHooks f).2 o →
      Owed A (σ.perform inertHooks f).1 ((σ.perform inertHooks f).2 ++ k) o :=
    fun hnew => hnew.imp_left fun ⟨g, hg, hemp⟩ => ⟨g, mem_append_left k hg, hemp⟩
  obtain ⟨F0, F, -, hw, -⟩ := h.pruned
  have hmono := perform_free inertHooks hw (h.inOrder.2 f mem_cons_self)
  rcases ho with ⟨g, hg, hemp⟩ | ⟨rfl, ho⟩ | ho
  · rcases mem_cons.mp hg with rfl | hg
    · exact hissued (owed_of_empties h hemp)
    · exact .inl ⟨g, mem_append_right _ hg, hemp.mono hmono⟩
  · exact hissued (owed_of_queued h ho)
  · exact .inr (.inr fun i => hmono _ (ho i))

end

theorem owed_perform (h : Draining σ₀ R σ (f :: k)) (A : Account) (o : ObjId)
    (hpos : 0 < A.counter (σ₀.objs o)) (hzero : A.counter ((σ.perform inertHooks f).1.objs o) = 0) :
    Owed A (σ.perform inertHooks f).1 ((σ.perform inertHooks f).2 ++ k) o := by
  obtain ⟨F0, F, -, hw, -⟩ := h.pruned
  by_cases hσ : A.counter (σ.objs o) = 0
  · exact owed_call h.toTearing (h.owed A o hpos hσ)
  have hf : f = A.drop o := by
    by_contra hne
    have hiff := (perform_outcome inertHooks hw f).counter_pos_iff h.panic hne (h.body_eq inertHooks).2
    omega
  have hdrop := counter_drop (σ := σ) (A := A) (o := o) inertHooks (Nat.pos_of_ne_zero hσ)
  rw [← hf, hzero] at hdrop
  have hcount := (perform_outcome inertHooks hw f).count_hook (A := A) (o := o)
  rw [if_pos ⟨hf, hdrop.symm⟩] at hcount
  have hmem : A.hook o ∈ (σ.perform inertHooks f).2 := count_pos_iff.mp (by omega)
  refine .inl ⟨A.hook o, mem_append_left k hmem, ?_⟩
  cases A <;> rfl

theorem call (h : Draining σ₀ R σ (f :: k)) :
    Draining σ₀ R ((machine inertHooks).body σ f).1 (((machine inertHooks).body σ f).2 ++ k) where
  toTearing := h.toTearing.call
  owed := by
    rw [(h.body_eq inertHooks).1]
    exact h.owed_perform
  drain := by
    obtain ⟨F0, F, -, hw, -⟩ := h.pruned
    rw [(h.body_eq inertHooks).1]
    exact (perform_outcome inertHooks hw f).running_eq h.drain

theorem returns {τ : Kernel} {k' : List Call} (h : Draining σ₀ R σ (k ++ k'))
    (hret : (machine inertHooks).Returns σ k τ) : Draining σ₀ R τ k' := by
  refine CallMachine.Returns.preserves (I := fun s l => Draining σ₀ R s (l ++ k')) ?_ ?_ hret h
  · intro s f l hs hdrain
    simp [machine, hdrain.panic] at hs
  · intro s f l _ hdrain
    rw [append_assoc]
    exact hdrain.call

/-! ## The end of a teardown -/

section

variable (h : Draining σ₀ R σ []) (hc : σ.cascade = [])
include h hc

theorem counter_eq_zero_iff :
    A.counter (σ.objs o) = 0 ↔ A.held (σ₀.held o) = 0 ∧
      ∀ s, σ₀.names o s = true → A.counts o s = true → σ.occupied s = false := by
  obtain ⟨F0, F, -, hw, -⟩ := h.pruned
  have hbal := (h.accounted A).balanced h.panic o
  rw [hc, Account.queued_nil, Account.dueSum_nil, h.held] at hbal
  have hslots : A.slots σ o = 0 ↔
      ∀ s, σ₀.names o s = true → A.counts o s = true → σ.occupied s = false := by
    rw [Account.slots, countP_eq_zero]
    constructor
    · intro hnone s hs hcounts
      by_contra hne
      have hocc : σ.occupied s = true := by simpa using hne
      refine hnone s (hw.mem_allSlots (hw.mem hocc)) ?_
      rw [names_iff] at hs
      rw [Bool.and_eq_true, names_iff, h.slots_eq hocc]
      exact ⟨hs, hcounts⟩
    · intro hall s _ hs
      obtain ⟨hnames, hcounts⟩ := (Bool.and_eq_true _ _).mp hs
      have hocc := occupied_of_names hnames
      have hnames0 : σ₀.names o s = true := by
        rw [names_iff, ← h.slots_eq hocc, names_iff.mp hnames]
      simp [hall s hnames0 hcounts] at hocc
  rw [← hslots]
  omega

theorem free_of_falls
    (hcut : ∀ s, R s → σ.occupied s = false) {s : SlotRef} (hs : σ₀.Falls R s) :
    σ.occupied s = false := by
  refine RefGraph.Falls.least (S := fun s => σ.occupied s = false) hcut ?_ hs
  rintro ⟨A, o⟩ hn hrefs e ⟨i, rfl⟩
  obtain ⟨hpos, hheld⟩ := not_or.mp hn
  have hzero := (h.counter_eq_zero_iff (A := A) (o := o) hc).mpr
    ⟨Nat.eq_zero_of_not_pos hheld, fun s hs hcounts => hrefs s ⟨hs, hcounts⟩⟩
  rcases h.owed A o (Nat.pos_of_ne_zero hpos) hzero with ⟨f, hf, -⟩ | ⟨-, hmem⟩ | hfree
  · cases hf
  · simp [hc] at hmem
  · exact hfree i

theorem loses_iff
    (hcut : ∀ s, R s → σ.occupied s = false) :
    σ₀.Loses R A o ↔ 0 < A.counter (σ₀.objs o) ∧ A.counter (σ.objs o) = 0 := by
  rw [h.counter_eq_zero_iff hc]
  constructor
  · rintro ⟨hn, hrefs⟩
    obtain ⟨hpos, hheld⟩ := not_or.mp hn
    exact ⟨Nat.pos_of_ne_zero hpos, Nat.eq_zero_of_not_pos hheld,
      fun s hs hcounts => h.free_of_falls hc hcut (hrefs s ⟨hs, hcounts⟩)⟩
  · rintro ⟨hpos, hheld, hrefs⟩
    refine ⟨not_or.mpr ⟨hpos.ne', fun hlt => hlt.ne' hheld⟩, fun s hs => ?_⟩
    exact h.emptied s (occupied_of_names hs.1) (hrefs s hs.1 hs.2)

end

end Draining
end IrisOS.Cap
