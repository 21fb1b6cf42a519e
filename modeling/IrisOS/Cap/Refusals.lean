import IrisOS.Cap.EntryAccounts
import IrisOS.Cap.Renaming

/-! What a slot primitive that returns an error leaves behind: nothing, where the references it took
can be dropped again and the slot was free. -/
namespace IrisOS.Cap
open Lib Kernel

/-! ## Calls that change something -/

/-- There is a capability for the call to delete, or a reference for it to drop. -/
def Call.Bites (σ : Kernel) : Call → Prop
  | .slotDelete cn idx => σ.occupied (.slot cn idx) = true
  | .emptySlots cn idx => ∃ i, idx ≤ i ∧ σ.occupied (.slot cn i) = true
  | .heldActiveRelease o => (σ.held o).active ≠ 0
  | .heldRelease o => (σ.held o).refs ≠ 0
  | _ => False

section
variable {hooks : Hooks} {σ τ υ : Kernel} {F : Forest SlotRef} {k : List Call} {f : Call}

theorem Call.bites_congr (hocc : τ.occupied = σ.occupied) (hheld : τ.held = σ.held) :
    f.Bites τ ↔ f.Bites σ := by
  unfold Call.Bites
  rw [hocc, hheld]

/-- Capabilities and references held outside the slots only become fewer. -/
structure Shrinks (σ τ : Kernel) : Prop where
  occupied : ∀ s, τ.occupied s = true → σ.occupied s = true
  active : ∀ o, (τ.held o).active ≤ (σ.held o).active
  refs : ∀ o, (τ.held o).refs ≤ (σ.held o).refs

namespace Shrinks

theorem refl (σ : Kernel) : Shrinks σ σ := ⟨fun _ => id, fun _ => le_rfl, fun _ => le_rfl⟩

theorem trans (h : Shrinks σ τ) (h' : Shrinks τ υ) : Shrinks σ υ :=
  ⟨fun s hs => h.occupied s (h'.occupied s hs), fun o => (h'.active o).trans (h.active o),
    fun o => (h'.refs o).trans (h.refs o)⟩

/-- A state between two that agree agrees with them. -/
theorem between (h : Shrinks σ τ) (h' : Shrinks τ υ) (hocc : υ.occupied = σ.occupied)
    (hheld : υ.held = σ.held) : τ.occupied = σ.occupied ∧ τ.held = σ.held := by
  refine ⟨funext fun s => Bool.eq_iff_iff.mpr ⟨h.occupied s, fun hs => h'.occupied s (hocc ▸ hs)⟩,
    funext fun o => ?_⟩
  have hactive := h'.active o
  have hrefs := h'.refs o
  rw [hheld] at hactive hrefs
  have h1 : (τ.held o).active = (σ.held o).active := (h.active o).antisymm hactive
  have h2 : (τ.held o).refs = (σ.held o).refs := (h.refs o).antisymm hrefs
  cases hτ : τ.held o
  cases hσ : σ.held o
  rw [hτ, hσ] at h1 h2
  exact congr (congrArg Held.mk ‹_›) ‹_›

theorem body (hooks : Hooks) (hw : Wf σ F) (hf : FrameOk σ f) :
    Shrinks σ ((machine hooks).body σ f).1 := by
  obtain ⟨F', hw', hprunes⟩ := (body_effect hooks hw hf).1.prunes hw
  have hheld : ∀ o, (((machine hooks).body σ f).1.held o).active ≤ (σ.held o).active ∧
      (((machine hooks).body σ f).1.held o).refs ≤ (σ.held o).refs := by
    intro o
    simp only [machine]
    split_ifs
    · have hout := perform_outcome hooks hw f
      have hdrop : ∀ o' (g : Held → Held), (∀ x, (g x).active ≤ x.active ∧ (g x).refs ≤ x.refs) →
          ((σ.setHeld o' g).held o).active ≤ (σ.held o).active ∧
            ((σ.setHeld o' g).held o).refs ≤ (σ.held o).refs := by
        intro o' g hg
        by_cases ho : o = o'
        · simpa [setHeld, ho] using hg (σ.held o')
        · simp [setHeld, ho]
      cases f with
      | heldActiveRelease o' | heldRelease o' =>
        simp only [perform]
        split_ifs
        · exact ⟨le_rfl, le_rfl⟩
        · dsimp only
          refine hdrop o' _ fun x => ⟨?_, ?_⟩ <;> simp
      | _ =>
        rw [hout.held rfl]
        exact ⟨le_rfl, le_rfl⟩
    · exact ⟨le_rfl, le_rfl⟩
  exact ⟨fun s hs => (hw.mem_iff s).mp (hprunes.mem ((hw'.mem_iff s).mpr hs)),
    fun o => (hheld o).1, fun o => (hheld o).2⟩

theorem returns (h : InOrder σ k) (hret : (machine hooks).Returns σ k τ) : Shrinks σ τ := by
  induction hret with
  | done | halt => exact .refl _
  | @call σ f k τ hs _ ih =>
    obtain ⟨⟨F, hw⟩, hk⟩ := h
    exact (Shrinks.body hooks hw (hk f (.head _))).trans (ih (InOrder.call hooks ⟨⟨F, hw⟩, hk⟩))

end Shrinks

theorem slotDeleteLocked_occupied (hw : Wf σ F) {cn : ObjId} {idx : ℕ}
    (hs : σ.occupied (.slot cn idx) = true) :
    (σ.slotDeleteLocked cn idx).1.occupied (.slot cn idx) = false := by
  obtain ⟨o, ho⟩ := Option.isSome_iff_exists.mp hs
  obtain ⟨st, hst⟩ := removeCap_eq hw hs
  simp only [slotDeleteLocked, ho, hst, Wf.occupied_without, if_true]

/-- A call that bites changes something at once, or leaves the rest to a call that does. -/
theorem body_bites (hw : Wf σ F) (hb : f.Bites σ) (hocc : ((machine hooks).body σ f).1.occupied =
    σ.occupied) (hheld : ((machine hooks).body σ f).1.held = σ.held) :
    ∃ g ∈ ((machine hooks).body σ f).2, g.Bites σ := by
  cases f with
  | slotDelete cn idx =>
    obtain ⟨cn', idx', heq, -, hex⟩ := hw.home _ hb
    cases heq
    obtain ⟨hlive, htype, hidx⟩ := Wf.slotExists_iff.mp hex
    have hcn : σ.isCNode cn = true := by simp [isCNode, hlive, htype]
    simp only [machine, Call.subject, Option.all_none, if_true, perform, if_pos (And.intro hcn hidx)]
      at hocc
    exact absurd ((congrFun hocc _).symm.trans (slotDeleteLocked_occupied hw hb))
      (by simp [show σ.occupied _ = true from hb])
  | emptySlots cn idx =>
    obtain ⟨i, hi, hs⟩ := hb
    obtain ⟨cn', idx', heq, -, hex⟩ := hw.home _ hs
    cases heq
    obtain ⟨hlive, htype, hlt⟩ := Wf.slotExists_iff.mp hex
    have hidx : idx < (σ.objs cn).slotCount := by omega
    simp only [machine, Call.subject, Option.all_some, hlive, if_true, perform, if_pos hidx]
      at hocc ⊢
    have hne : i ≠ idx := by
      rintro rfl
      exact absurd ((congrFun hocc _).symm.trans (slotDeleteLocked_occupied hw hs)) (by simp [hs])
    exact ⟨.emptySlots cn (idx + 1), by simp, i, by omega, hs⟩
  | heldActiveRelease o =>
    have hne : (σ.held o).active ≠ 0 := hb
    have hactive := congrArg Held.active (congrFun hheld o)
    simp [machine, Call.subject, perform, hne, setHeld] at hactive
    omega
  | heldRelease o =>
    have hne : (σ.held o).refs ≠ 0 := hb
    have hrefs := congrArg Held.refs (congrFun hheld o)
    simp [machine, Call.subject, perform, hne, setHeld] at hrefs
    omega
  | _ => cases hb

theorem returns_bites (h : InOrder σ k) (hret : (machine hooks).Returns σ k τ) (hp : τ.panic = none)
    (hf : f ∈ k) (hb : f.Bites σ) (hocc : τ.occupied = σ.occupied) : τ.held ≠ σ.held := by
  induction hret generalizing f with
  | done => cases hf
  | halt hs => simp [machine, hp] at hs
  | @call σ g k τ hs hret ih =>
    intro hheld
    obtain ⟨⟨F, hw⟩, hk⟩ := h
    have hnext := InOrder.call hooks (f := g) ⟨⟨F, hw⟩, hk⟩
    obtain ⟨hocc1, hheld1⟩ := (Shrinks.body hooks hw (hk g (.head _))).between
      (.returns hnext hret) hocc hheld
    have hlater : ∀ f' ∈ ((machine hooks).body σ g).2 ++ k, ¬ f'.Bites σ := fun f' hf' hb' =>
      ih hnext hp hf' ((Call.bites_congr hocc1 hheld1).mpr hb') (hocc.trans hocc1.symm)
        (hheld.trans hheld1.symm)
    rcases List.mem_cons.mp hf with rfl | hf
    · obtain ⟨f', hf', hb'⟩ := body_bites hw hb hocc1 hheld1
      exact hlater f' (List.mem_append_left _ hf') hb'
    · exact hlater f (List.mem_append_right _ hf) hb

end

/-- The calls that can close no object unless they first delete a capability or drop a reference
held outside the slots. -/
def Call.calm : Call → Bool
  | .slotDelete _ _ | .emptySlots _ _ | .objDestroy _ _ | .heldActiveRelease _ | .heldRelease _
  | .release _ | .dispatchDestroy _ | .storageFree _ | .cascadeDrain _ _ => true
  | _ => false

section
variable {hooks : Hooks} {σ τ : Kernel} {F : Forest SlotRef} {k : List Call} {f : Call}

/-- Where nothing is deleted or dropped, no CNode is handed to the drain. -/
theorem Outcome.calm {l : List Call} (h : Outcome hooks σ F f τ l) (hf : f.calm = true)
    (hocc : τ.occupied = σ.occupied) (hheld : τ.held = σ.held) :
    τ.cascade <:+ σ.cascade ∧ ∀ g ∈ l, g.calm = true := by
  have hhooks : ∀ cs : List HookCall, ∀ g ∈ cs.map HookCall.toCall, g.calm = true := by
    intro cs g hg
    obtain ⟨c, -, rfl⟩ := List.mem_map.mp hg
    cases c <;> rfl
  cases h with
  | @delete _ cn idx _ _ _ _ _ ho =>
    have hs := congrFun hocc (.slot cn idx)
    rw [Wf.occupied_without, if_pos rfl, occupied, ho] at hs
    cases hs
  | @giveActive o hne =>
    have := congrArg Held.active (congrFun hheld o)
    simp only [setHeld, Function.update_self] at this
    omega
  | @giveRef o hne =>
    have := congrArg Held.refs (congrFun hheld o)
    simp only [setHeld, Function.update_self] at this
    omega
  | drain hc =>
    refine ⟨hc ▸ List.suffix_cons _ _, ?_⟩
    simp [Call.calm]
  | blank hd =>
    refine ⟨List.suffix_rfl, ?_⟩
    cases hd <;> simp [Call.calm]
  | release =>
    refine ⟨List.suffix_rfl, ?_⟩
    split_ifs <;> simp [Call.calm]
  | objDestroy => exact ⟨List.suffix_rfl, by simp [Call.calm]⟩
  | destroy =>
    refine ⟨List.suffix_rfl, fun g hg => ?_⟩
    rcases List.mem_append.mp hg with hg | hg
    · exact hhooks _ g hg
    · rw [List.mem_singleton.mp hg]
      rfl
  | pass | emptied | destroyed | noDestructor | storageFree | drained =>
    exact ⟨List.suffix_rfl, List.forall_mem_nil _⟩
  | _ => cases hf

theorem returns_calm (h : InOrder σ k) (hret : (machine hooks).Returns σ k τ)
    (hk : ∀ f ∈ k, f.calm = true) (hocc : τ.occupied = σ.occupied) (hheld : τ.held = σ.held) :
    τ.cascade <:+ σ.cascade := by
  induction hret with
  | done | halt => exact List.suffix_rfl
  | @call σ g k τ hs hret ih =>
    obtain ⟨⟨F, hw⟩, hk'⟩ := h
    have hnext := InOrder.call hooks (f := g) ⟨⟨F, hw⟩, hk'⟩
    obtain ⟨hocc1, hheld1⟩ := (Shrinks.body hooks hw (hk' g (.head _))).between
      (.returns hnext hret) hocc hheld
    have hcalm : ((machine hooks).body σ g).1.cascade <:+ σ.cascade ∧
        ∀ f ∈ ((machine hooks).body σ g).2, f.calm = true := by
      simp only [machine] at hocc1 hheld1 ⊢
      split_ifs at hocc1 hheld1 ⊢
      · exact (perform_outcome hooks hw g).calm (hk g (.head _)) hocc1 hheld1
      · exact ⟨List.suffix_rfl, List.forall_mem_nil _⟩
    refine (ih hnext (fun f hf => ?_) (hocc.trans hocc1.symm) (hheld.trans hheld1.symm)).trans
      hcalm.1
    rcases List.mem_append.mp hf with hf | hf
    · exact hcalm.2 f hf
    · exact hk f (.tail _ hf)

end

/-! ## Closing -/

def HookCall.idle (σ : Kernel) : HookCall → Bool
  | .delete cn idx => !σ.occupied (.slot cn idx)
  | .dropActive o => (σ.held o).active = 0
  | .dropRef o => (σ.held o).refs = 0

/-- Closing the object changes nothing: a CNode waits for the drain that is running already, or no
drain is running, no CNode waits for one and it has no capabilities; the close hook of another type
finds nothing to do. -/
def Kernel.ClosesIdly (hooks : Hooks) (σ : Kernel) (o : ObjId) : Prop :=
  match (σ.objs o).type with
  | .cnode => if σ.running then o ∈ σ.cascade
      else σ.cascade = [] ∧ ∀ i < (σ.objs o).slotCount, σ.occupied (.slot o i) = false
  | .tcb | .reserved => True
  | _ => ∀ c ∈ hooks.close σ.objs σ.slots o, c.idle σ = true

instance (hooks : Hooks) (σ : Kernel) (o : ObjId) : Decidable (σ.ClosesIdly hooks o) := by
  unfold ClosesIdly
  split <;> infer_instance

section
variable {hooks : Hooks} {σ τ : Kernel} {F : Forest SlotRef} {e : IrisError} {cn obj o : ObjId}
  {k : List Call}

theorem HookCall.bites_of_not_idle {c : HookCall} (h : c.idle σ = false) : c.toCall.Bites σ := by
  cases c <;> simpa [HookCall.idle, HookCall.toCall, Call.Bites] using h

theorem returns_perform {f : Call} (hp : σ.panic = none)
    (hlive : f.subject.all fun o => (σ.objs o).live) :
    (machine hooks).Returns σ (f :: k) τ ↔
      (machine hooks).Returns (σ.perform hooks f).1 ((σ.perform hooks f).2 ++ k) τ := by
  rw [CallMachine.Returns.cons_iff (by simp [machine, hp])]
  simp only [machine, if_pos hlive]

theorem returns_idle {c : HookCall} (hp : σ.panic = none) (hidle : c.idle σ = true) :
    (machine hooks).Returns σ (c.toCall :: k) τ ↔ (machine hooks).Returns σ k τ := by
  have hperform : σ.perform hooks c.toCall = (σ, []) := by
    cases c with
    | delete cn idx =>
      have hnone : (σ.slots (.slot cn idx)).object = none := by
        simpa [HookCall.idle, occupied] using hidle
      simp [HookCall.toCall, perform, slotDeleteLocked, hnone, dropOldCalls]
    | dropActive o | dropRef o => simpa [HookCall.toCall, perform, HookCall.idle] using hidle
  rw [returns_perform hp (by cases c <;> rfl), hperform]
  rfl

theorem returns_emptySlots (hp : σ.panic = none) (hlive : (σ.objs o).live = true)
    (hempty : ∀ i < (σ.objs o).slotCount, σ.occupied (.slot o i) = false) (idx : ℕ) :
    (machine hooks).Returns σ (.emptySlots o idx :: k) τ ↔ (machine hooks).Returns σ k τ := by
  generalize hn : (σ.objs o).slotCount - idx = n
  induction n generalizing idx with
  | zero =>
    rw [returns_perform hp (by simpa [Call.subject] using hlive)]
    simp only [perform, if_neg (show ¬ idx < (σ.objs o).slotCount by omega), List.nil_append]
  | succ n ih =>
    have hlt : idx < (σ.objs o).slotCount := by omega
    have hnone : (σ.slots (.slot o idx)).object = none := by simpa [occupied] using hempty idx hlt
    rw [returns_perform hp (by simpa [Call.subject] using hlive)]
    simp only [perform, if_pos hlt, slotDeleteLocked, hnone, dropOldCalls]
    exact ih (idx + 1) (by omega)

theorem returns_idles (hp : σ.panic = none) {l : List HookCall}
    (h : ∀ c ∈ l, c.idle σ = true) :
    (machine hooks).Returns σ (l.map HookCall.toCall ++ k) τ ↔ (machine hooks).Returns σ k τ := by
  induction l with
  | nil => rfl
  | cons c l ih =>
    rw [List.map_cons, List.cons_append, returns_idle hp (h c (.head _))]
    exact ih fun c hc => h c (.tail _ hc)

theorem ClosesIdly.returns (h : σ.ClosesIdly hooks o) (hp : σ.panic = none)
    (hlive : (σ.objs o).live = true) :
    (machine hooks).Returns σ (.dispatchClose o :: k) τ ↔ (machine hooks).Returns σ k τ := by
  rw [returns_perform hp (by simpa [Call.subject] using hlive)]
  cases htype : (σ.objs o).type with
  | cnode =>
    simp only [ClosesIdly, htype] at h
    simp only [perform, kobjectDispatchClose, htype, kcnodeCascade]
    split_ifs at h ⊢ with hrunning
    · rfl
    obtain ⟨hcascade, hempty⟩ := h
    rw [List.cons_append, List.cons_append, List.nil_append]
    rw [returns_emptySlots (σ := { σ with running := true }) hp hlive hempty,
      returns_perform (by exact hp) (by simp [Call.subject])]
    simp only [perform, cascadeDrain, hcascade, List.nil_append]
    have hsame : { σ with running := false, cascade := [] } = σ := by
      rw [← (Bool.not_eq_true _).mp hrunning, ← hcascade]
    rw [hsame]
  | tcb | reserved => simp only [perform, kobjectDispatchClose, htype, List.nil_append]
  | _ =>
    simp only [ClosesIdly, htype] at h
    simp only [perform, kobjectDispatchClose, htype]
    exact returns_idles hp h

theorem kobjectRetain_eq_setObj (href : 1 ≤ (σ.objs obj).refcount) :
    σ.kobjectRetain obj = σ.setObj obj fun x => { x with refcount := x.refcount + 1 } := by
  simp [kobjectRetain, irisAssert, href]

/-- A CNode whose closing changes nothing: handed to a running drain it would wait there, and a
drain that it starts takes the first of those that wait. -/
theorem closes_cnode_idly (hw : Wf σ F) (hpanic : σ.panic = none) (hp : τ.panic = none)
    (hlive : (σ.objs o).live = true) (href : 1 ≤ (σ.objs o).refcount)
    (hret : (machine hooks).Returns (σ.kcnodeCascade o).1 ((σ.kcnodeCascade o).2 ++ [.release o]) τ)
    (hocc : τ.occupied = σ.occupied) (hheld : τ.held = σ.held) (hcascade : τ.cascade = σ.cascade) :
    if σ.running then o ∈ σ.cascade
    else σ.cascade = [] ∧ ∀ i < (σ.objs o).slotCount, σ.occupied (.slot o i) = false := by
  unfold kcnodeCascade at hret
  split_ifs at hret ⊢ with hrunning hmem hzero
  · exact hmem
  · omega
  · rw [kobjectRetain_eq_setObj href, List.nil_append,
      returns_perform (by exact hpanic) (by simp [Call.subject, setObj, hlive])] at hret
    have hne : (σ.objs o).refcount ≠ 0 := by omega
    simp [perform, dropRefcount, irisAssert, setObj, hne, CallMachine.Returns.nil_iff] at hret
    rw [hret] at hcascade
    exact absurd hcascade (List.cons_ne_self _ _)
  have hstart : ∀ cs, Kept σ { σ with running := true, cascade := cs } := fun cs =>
    .of_objs rfl rfl rfl rfl fun _ => ⟨rfl, rfl, rfl⟩
  have hempty : ∀ i < (σ.objs o).slotCount, σ.occupied (.slot o i) = false := by
    intro i hi
    by_contra hs
    have hbites : Call.Bites { σ with running := true } (.emptySlots o 0) :=
      ⟨i, Nat.zero_le i, (Bool.not_eq_false _).mp hs⟩
    refine returns_bites ⟨⟨F, (hstart σ.cascade).wf hw⟩, fun f hf => ?_⟩ hret hp (.head _) hbites
      hocc hheld
    simp only [List.cons_append, List.nil_append, List.mem_cons, List.not_mem_nil, or_false] at hf
    obtain rfl | rfl | rfl := hf <;> trivial
  refine ⟨?_, hempty⟩
  rw [List.cons_append, List.cons_append, List.nil_append,
    returns_emptySlots (σ := { σ with running := true }) hpanic hlive hempty,
    returns_perform (by exact hpanic) (by simp [Call.subject])] at hret
  cases hc : σ.cascade with
  | nil => rfl
  | cons c rest =>
    have hdrain : perform hooks { σ with running := true } (.cascadeDrain (irisCascadeSlice - 1) 0) =
        ({ σ with running := true, cascade := rest }, [.emptySlots c 0, .release c,
          .cascadeDrain (irisCascadeSlice - 1) 1]) := by
      simp [perform, cascadeDrain, hc, irisCascadeSlice]
    rw [hdrain] at hret
    have hrest := returns_calm ⟨⟨F, (hstart rest).wf hw⟩, fun f hf => by
        simp only [List.cons_append, List.nil_append, List.mem_cons, List.not_mem_nil,
          or_false] at hf
        obtain rfl | rfl | rfl | rfl := hf <;> trivial⟩ hret
      (by simp [Call.calm]) hocc hheld
    have hlen : τ.cascade.length ≤ rest.length := hrest.length_le
    rw [hcascade, hc, List.length_cons] at hlen
    omega

theorem ClosesIdly.of_returns (hw : Wf σ F) (hp : τ.panic = none) (hpanic : σ.panic = none)
    (hlive : (σ.objs o).live = true) (href : 1 ≤ (σ.objs o).refcount)
    (hret : (machine hooks).Returns σ [.dispatchClose o, .release o] τ)
    (hocc : τ.occupied = σ.occupied) (hheld : τ.held = σ.held) (hcascade : τ.cascade = σ.cascade) :
    σ.ClosesIdly hooks o := by
  rw [returns_perform hpanic (by simpa [Call.subject] using hlive)] at hret
  cases htype : (σ.objs o).type with
  | cnode =>
    simp only [perform, kobjectDispatchClose, htype] at hret
    simp only [ClosesIdly, htype]
    exact closes_cnode_idly hw hpanic hp hlive href hret hocc hheld hcascade
  | tcb | reserved => simp only [ClosesIdly, htype]
  | _ =>
    simp only [perform, kobjectDispatchClose, htype] at hret
    simp only [ClosesIdly, htype]
    intro c hc
    by_contra hidle
    refine returns_bites ⟨⟨F, hw⟩, fun f hf => ?_⟩ hret hp
      (List.mem_append_left _ (List.mem_map_of_mem hc))
      (HookCall.bites_of_not_idle ((Bool.not_eq_true _).mp hidle)) hocc hheld
    rcases List.mem_append.mp hf with hf | hf
    · exact frameOk_hookCalls f hf
    · rw [List.mem_singleton.mp hf]
      trivial

end

/-! ## Undoing -/

/-- If the install comes to take its references, dropping them again closes nothing that matters,
and no occupant is displaced for a parent that is refused. -/
def Install.Undoable (hooks : Hooks) (σ : Kernel) (r : Install) : Prop :=
  σ.TakesRefs r →
    (r.obj = r.cn ∨ 1 ≤ (σ.objs r.obj).activeRefs ∨
      (σ.kobjectRetain r.obj).ClosesIdly hooks r.obj) ∧
    (r.exclusive = true ∨ σ.occupied (.slot r.cn r.idx) = false ∨
      σ.parentRefused (.slot r.cn r.idx) r.expect r.parent = false)

instance (hooks : Hooks) (σ : Kernel) (r : Install) : Decidable (r.Undoable hooks σ) :=
  inferInstanceAs (Decidable (_ → _))

def Kernel.Undoable (hooks : Hooks) (σ : Kernel) (a : Action) : Prop :=
  ∀ r ∈ σ.request a, r.Undoable hooks σ

instance (hooks : Hooks) (σ : Kernel) (a : Action) : Decidable (σ.Undoable hooks a) :=
  inferInstanceAs (Decidable (∀ r ∈ σ.request a, _))

section
variable {hooks : Hooks} {σ τ : Kernel} {F : Forest SlotRef} {a : Action} {e : IrisError}
  {cn obj : ObjId}

/-- The last reference is still there when the one of the install is dropped. -/
theorem returns_release_retained (hp : σ.panic = none) (hlive : (σ.objs obj).live = true)
    (href : 1 ≤ (σ.objs obj).refcount) :
    (machine hooks).Returns ((σ.kobjectRetain obj).returning e) [.release obj] τ ↔
      τ = σ.returning e := by
  have hne : (σ.objs obj).refcount ≠ 0 := by omega
  rw [kobjectRetain_eq_setObj href, returns_perform (by exact hp)
    (by simp [Call.subject, returning, setObj, hlive])]
  simp [perform, dropRefcount, irisAssert, returning, setObj, hne, CallMachine.Returns.nil_iff]

theorem returns_dropRefs (hp : σ.panic = none) (hlive : (σ.objs obj).live = true)
    (href : 1 ≤ (σ.objs obj).refcount) :
    (machine hooks).Returns ((σ.takeRefs cn obj).returning e) (Kernel.dropRefsCalls cn obj) τ ↔
      (machine hooks).Returns ((σ.kobjectRetain obj).returning e)
        (if obj ≠ cn ∧ (σ.objs obj).activeRefs = 0 then [.dispatchClose obj, .release obj]
          else [.release obj]) τ := by
  by_cases hcn : obj = cn
  · simp [takeRefs, dropRefsCalls, hcn]
  · rw [takeRefs_eq href hcn, kobjectRetain_eq_setObj href, dropRefsCalls, if_neg hcn,
      List.singleton_append, returns_perform (by exact hp)
        (by simp [Call.subject, returning, setObj, hlive])]
    by_cases hact : (σ.objs obj).activeRefs = 0 <;>
      simp [perform, dropActiveRefs, irisAssert, returning, setObj, hcn, hact]

theorem undo_iff (hw : Wf σ F) (hp : σ.panic = none) (hlive : (σ.objs obj).live = true)
    (href : 1 ≤ (σ.objs obj).refcount)
    (h : (machine hooks).Returns ((σ.takeRefs cn obj).returning e) (Kernel.dropRefsCalls cn obj) τ) :
    (obj = cn ∨ 1 ≤ (σ.objs obj).activeRefs ∨ (σ.kobjectRetain obj).ClosesIdly hooks obj) ↔
      τ = σ.returning e := by
  rw [returns_dropRefs hp hlive href] at h
  have hretain := kobjectRetain_eq_setObj href
  have hlive' : (((σ.kobjectRetain obj).returning e).objs obj).live = true := by
    simp [hretain, returning, setObj, hlive]
  have hp' : ((σ.kobjectRetain obj).returning e).panic = none := by
    simpa [hretain, returning, setObj] using hp
  split_ifs at h with hclose
  · refine ⟨fun hcase => ?_, fun heq => .inr (.inr ?_)⟩
    · have hidle := (hcase.resolve_left hclose.1).resolve_left (by omega)
      rw [ClosesIdly.returns (o := obj) (by exact hidle) hp' hlive',
        returns_release_retained hp hlive href] at h
      exact h
    · have hkept : Kept σ ((σ.kobjectRetain obj).returning e) := by
        rw [hretain]
        refine .of_objs rfl rfl rfl rfl fun o => ?_
        by_cases ho : o = obj <;> simp [returning, setObj, ho]
      have hfields : τ.occupied = ((σ.kobjectRetain obj).returning e).occupied ∧
          τ.held = ((σ.kobjectRetain obj).returning e).held ∧
          τ.cascade = ((σ.kobjectRetain obj).returning e).cascade := by
        rw [heq, hretain]
        exact ⟨rfl, rfl, rfl⟩
      obtain ⟨hocc, hheld, hcascade⟩ := hfields
      have href' : 1 ≤ (((σ.kobjectRetain obj).returning e).objs obj).refcount := by
        simp [hretain, returning, setObj]
      exact ClosesIdly.of_returns (σ := (σ.kobjectRetain obj).returning e) (hkept.wf hw)
        (by rw [heq]; exact hp) hp' hlive' href' h hocc hheld hcascade
  · rw [returns_release_retained hp hlive href] at h
    refine iff_of_true ?_ h
    by_cases hcn : obj = cn
    · exact .inl hcn
    · rw [not_and] at hclose
      exact .inr (.inl (Nat.one_le_iff_ne_zero.mpr (hclose hcn)))

theorem frameOk_drops (σ : Kernel) (cn obj : ObjId) (old : Option ObjId) :
    ∀ f ∈ dropOldCalls cn old ++ dropRefsCalls cn obj, FrameOk σ f := by
  intro f hf
  rcases List.mem_append.mp hf with hf | hf
  · obtain ⟨o, -, rfl⟩ := List.mem_map.mp hf
    trivial
  · unfold dropRefsCalls at hf
    split_ifs at hf <;> simp only [List.nil_append, List.singleton_append, List.mem_cons,
      List.not_mem_nil, or_false] at hf
    · rw [hf]
      trivial
    · obtain rfl | rfl := hf <;> trivial

theorem Installed.undo {r : Install} {x : Kernel × List Call} (hx : Installed σ r x) (hw : Wf σ F)
    (hp : σ.panic = none) (hret : (machine hooks).Returns x.1 x.2 τ) (hpanic : x.1.panic = none)
    (herr : x.1.ret.err ≠ .ok) : r.Undoable hooks σ ↔ τ = σ.returning x.1.ret.err := by
  cases hx with
  | refused _ hno =>
    exact iff_of_true (fun htakes => absurd htakes hno) (CallMachine.Returns.nil_iff.1 hret)
  | stopped _ href => simp [kobjectRetain, irisAssert, Nat.not_le.2 href, stop, setObj, hp] at hpanic
  | filled => exact absurd rfl herr
  | @undone υ old e htakes ht _ hfull =>
    obtain ⟨-, hlive, -, -, hrange, href⟩ := id htakes
    have hfits := ht.fits hw
    cases ht with
    | exclusive hexcl =>
      refine Iff.trans ?_ (undo_iff hw hp hlive href hret)
      exact ⟨fun h => (h htakes).1, fun h _ => ⟨h, .inl hexcl⟩⟩
    | overwrite hexcl =>
      cases hocc : σ.occupied (.slot r.cn r.idx) with
      | false =>
        have hnone : ((σ.takeRefs r.cn r.obj).slots (.slot r.cn r.idx)).object = none := by
          simpa [(Kept.takeRefs σ r.cn r.obj).slots, occupied] using hocc
        simp only [slotDeleteLocked, hnone] at hret ⊢
        refine Iff.trans ?_ (undo_iff hw hp hlive href hret)
        exact ⟨fun h => (h htakes).1, fun h _ => ⟨h, .inr (.inl hocc)⟩⟩
      | true =>
        refine ⟨fun h => ?_, fun heq => ?_⟩
        · -- The overwritten slot was emptied, so that nothing but the parent could be refused.
          have hparent := ((h htakes).2.resolve_left (by simp [hexcl])).resolve_left (by simp [hocc])
          obtain ⟨hex, hpar, hempty⟩ := hfits (by simp [refuses, hrange hexcl, hparent, hexcl])
          rw [hfull hex hpar] at hempty
          cases hempty
        · -- The slot has lost its occupant for good.
          have hw' := (Kept.takeRefs σ r.cn r.obj).wf hw
          have hs : (σ.takeRefs r.cn r.obj).occupied (.slot r.cn r.idx) = true :=
            ((Kept.takeRefs σ r.cn r.obj).occupied _).trans hocc
          obtain ⟨F', hdel, -⟩ := (slotDeleteLocked_effect hw' r.cn r.idx).1.prunes hw'
          have hshrinks := Shrinks.returns
            ⟨⟨F', ((Kept.refl _).returning _).wf hdel⟩, frameOk_drops _ _ _ _⟩ hret
          have hback := hshrinks.occupied (.slot r.cn r.idx) (by rw [heq]; exact hocc)
          cases (slotDeleteLocked_occupied hw' hs).symm.trans hback

theorem act_of_request (hw : Wf σ F) {r : Install} (hr : σ.request a = some r) :
    σ.act a = σ.install r := by
  cases a with
  | installLinked =>
    cases hr
    rfl
  | derive srcCn srcIdx dstCn dstIdx requested reqBadge =>
    simp only [request] at hr
    split_ifs at hr with hex hdup
    obtain ⟨obj, ho, hr⟩ := Option.bind_eq_some_iff.mp hr
    obtain ⟨badge, hb, rfl⟩ := Option.map_eq_some_iff.mp hr
    have hok : mdbBadgeDerive (σ.slots (.slot srcCn srcIdx)).badge reqBadge (σ.objs obj).type =
        .ok badge := by
      cases hd : mdbBadgeDerive (σ.slots (.slot srcCn srcIdx)).badge reqBadge (σ.objs obj).type with
      | error e => simp [hd, Except.toOption] at hb
      | ok b => simpa [hd, Except.toOption] using hb
    simp only [Bool.or_eq_true, decide_eq_true_eq, not_or] at hex hdup
    simp only [act, kcnodeSlotDerive, Bool.or_eq_true, not_or.mpr hex.1, hex.2, ho, hdup.1, hdup.2, hok,
      if_false]
    rfl
  | installSibling srcCn srcIdx dstCn dstIdx =>
    simp only [request] at hr
    split_ifs at hr with hex
    simp only [act, kcnodeSlotInstallSibling, if_neg hex]
    have hcopy : ∀ {p expect}, σ.copyRequest (srcCn, srcIdx) p (dstCn, dstIdx) expect = some r →
        ∃ obj, (σ.slots (.slot srcCn srcIdx)).object = some obj ∧ r = ⟨dstCn, dstIdx, obj,
          (σ.slots (.slot srcCn srcIdx)).rights, (σ.slots (.slot srcCn srcIdx)).badge, some p, expect,
          true, false⟩ := fun h => by
      obtain ⟨obj, ho, rfl⟩ := Option.map_eq_some_iff.mp h
      exact ⟨obj, ho, rfl⟩
    split at hr
    · rename_i pcn pidx hp
      obtain ⟨obj, ho, rfl⟩ := hcopy hr
      have hc := hw.layout.parent_eq_some.mp hp
      obtain ⟨cn', idx', heq, hcn, -⟩ := hw.home _ ((hw.mem_iff _).mp hc.owner)
      cases heq
      simp only [ho, hp, hcn]
      rfl
    · obtain ⟨obj, ho, rfl⟩ := hcopy hr
      simp only [ho]
      rfl
  | installForThread srcCn srcIdx dstCn dstIdx =>
    simp only [request, copyRequest] at hr
    split_ifs at hr with hex
    obtain ⟨obj, ho, rfl⟩ := Option.map_eq_some_iff.mp hr
    simp only [act, kcnodeSlotInstallForThread, if_neg hex, ho]
    rfl
  | _ => cases hr

/-- In every reachable state, a primitive that returns an error changes nothing exactly if what it
did until then could be undone. -/
theorem refused_primitives_change_nothing {σ₀ : Kernel} {as : List Action} (h₀ : Initial σ₀)
    (hrun : Runs hooks (fun _ _ => True) σ₀ as σ) (ha : a.isPrimitive = true)
    (hstep : Step hooks σ a τ) (hpanic : (σ.act a).1.panic = none)
    (herr : (σ.act a).1.ret.err ≠ .ok) :
    τ = σ.returning (σ.act a).1.ret.err ↔ σ.Undoable hooks a := by
  obtain ⟨F, hw⟩ := hrun.wf h₀
  obtain ⟨hp, hret⟩ := step_iff.mp hstep
  cases hreq : σ.request a with
  | some r =>
    rw [act_of_request hw hreq] at hret hpanic herr ⊢
    rw [← (install_installed σ r).undo hw hp hret hpanic herr]
    simp [Undoable, hreq]
  | none =>
    have hsame : τ = σ.returning (σ.act a).1.ret.err := by
      have hent := act_entered hw a
      generalize σ.act a = x at hent hret hpanic herr ⊢
      cases hent with
      | refused => exact CallMachine.Returns.nil_iff.1 hret
      | install _ hr => cases hr.symm.trans hreq
      | shuffle _ hr =>
        generalize σ.act a = x at hr hret herr ⊢
        obtain ⟨e, -, rfl⟩ | ⟨l, p, υ, st, -, -, -, -, -, rfl⟩ := hr
        · exact CallMachine.Returns.nil_iff.1 hret
        · exact absurd rfl herr
      | guard => exact absurd rfl herr
      | idle hf | create hf => simp [hf] at ha
      | call hf => cases a <;> cases ha <;> cases hf
      | _ => cases ha
    exact iff_of_true hsame (by simp [Undoable, hreq])

end

/-- The slot a copy of a capability goes to is occupied, and that stays; a replacing install there
is refused for its parent, an empty slot, and the occupant is gone. -/
theorem refused_primitives_change_nothing_derivedRun : ∃ σ,
    Runs inertHooks (fun _ _ => True) {} derivedRun σ ∧
    (∃ τ, Step inertHooks σ (.derive 0 0 0 1 rightRead 0) τ ∧ τ = σ.returning .alreadyExists) ∧
    ∃ τ, Step inertHooks σ (.installLinked 0 1 1 rightRead 0 (some (0, 3)) none false false) τ ∧
      τ ≠ σ.returning .invalidArg := by
  obtain ⟨σ, hσ, hp, ⟨τ, hτ, hundo, hpanic, herr⟩, υ, hυ, hlost, hpanic', herr'⟩ :
      ∃ σ ∈ exec inertHooks (fun _ _ => True) 16 {} derivedRun, σ.panic = none ∧
        (∃ τ ∈ (machine inertHooks).run 16 (σ.act (.derive 0 0 0 1 rightRead 0)).1
            (σ.act (.derive 0 0 0 1 rightRead 0)).2,
          σ.Undoable inertHooks (.derive 0 0 0 1 rightRead 0) ∧
          (σ.act (.derive 0 0 0 1 rightRead 0)).1.panic = none ∧
          (σ.act (.derive 0 0 0 1 rightRead 0)).1.ret.err = .alreadyExists) ∧
        ∃ υ ∈ (machine inertHooks).run 16
            (σ.act (.installLinked 0 1 1 rightRead 0 (some (0, 3)) none false false)).1
            (σ.act (.installLinked 0 1 1 rightRead 0 (some (0, 3)) none false false)).2,
          ¬ σ.Undoable inertHooks (.installLinked 0 1 1 rightRead 0 (some (0, 3)) none false false) ∧
          (σ.act (.installLinked 0 1 1 rightRead 0 (some (0, 3)) none false false)).1.panic = none ∧
          (σ.act (.installLinked 0 1 1 rightRead 0 (some (0, 3)) none false false)).1.ret.err =
            .invalidArg := by
    decide
  have hrun := ActionSystem.Runs.of_exec hσ
  have hstep := step_iff.mpr ⟨hp, CallMachine.returns_of_run hτ⟩
  have hstep' := step_iff.mpr ⟨hp, CallMachine.returns_of_run hυ⟩
  refine ⟨σ, hrun, ⟨τ, hstep, ?_⟩, υ, hstep', ?_⟩
  · rw [← herr, refused_primitives_change_nothing initial_empty hrun rfl hstep hpanic
      (by rw [herr]; decide)]
    exact hundo
  · rw [← herr', ne_eq, refused_primitives_change_nothing initial_empty hrun rfl hstep' hpanic'
      (by rw [herr']; decide)]
    exact hlost

/-- Two CNodes, with a capability to an endpoint in each. -/
def twoCNodesRun : List Action :=
  [.allocCNode 4, .allocCNode 2, .initObject .endpoint,
    .installLinked 0 0 2 rightRead 0 none none true true,
    .installLinked 1 0 2 rightRead 0 none none true true]

/-- A replacing install is refused after it has deleted what it was to replace, and a refused
install of the only capability to a CNode empties the CNode. -/
theorem refused_installs_delete : ∃ σ, Runs inertHooks (fun _ _ => True) {} twoCNodesRun σ ∧
    σ.occupied (.slot 0 0) = true ∧ σ.occupied (.slot 1 0) = true ∧
    (∃ τ, Step inertHooks σ (.installLinked 0 0 2 rightRead 0 (some (0, 3)) none false false) τ ∧
      τ.panic = none ∧ τ.ret.err = .invalidArg ∧ τ.occupied (.slot 0 0) = false) ∧
    ∃ τ, Step inertHooks σ (.installLinked 0 0 1 rightRead 0 none none true true) τ ∧
      τ.panic = none ∧ τ.ret.err = .alreadyExists ∧ τ.occupied (.slot 1 0) = false := by
  obtain ⟨σ, hσ, hp, h₀, h₁, ⟨τ, hτ, hparent⟩, υ, hυ, hclosed⟩ :
      ∃ σ ∈ exec inertHooks (fun _ _ => True) 16 {} twoCNodesRun, σ.panic = none ∧
        σ.occupied (.slot 0 0) = true ∧ σ.occupied (.slot 1 0) = true ∧
        (∃ τ ∈ (machine inertHooks).run 16
            (σ.act (.installLinked 0 0 2 rightRead 0 (some (0, 3)) none false false)).1
            (σ.act (.installLinked 0 0 2 rightRead 0 (some (0, 3)) none false false)).2,
          τ.panic = none ∧ τ.ret.err = .invalidArg ∧ τ.occupied (.slot 0 0) = false) ∧
        ∃ τ ∈ (machine inertHooks).run 16
            (σ.act (.installLinked 0 0 1 rightRead 0 none none true true)).1
            (σ.act (.installLinked 0 0 1 rightRead 0 none none true true)).2,
          τ.panic = none ∧ τ.ret.err = .alreadyExists ∧ τ.occupied (.slot 1 0) = false := by decide
  exact ⟨σ, .of_exec hσ, h₀, h₁, ⟨τ, step_iff.mpr ⟨hp, CallMachine.returns_of_run hτ⟩, hparent⟩,
    υ, step_iff.mpr ⟨hp, CallMachine.returns_of_run hυ⟩, hclosed⟩

end IrisOS.Cap
