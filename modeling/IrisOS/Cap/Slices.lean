import IrisOS.Cap.Drain

/-! Draining in slices: however the budgets are chosen, the last of finitely many drains ends in the
state that a single drain without a budget ends in. -/
namespace IrisOS.Cap
open Lib Kernel List

/-- The flag that a drain is running, set by whoever starts one. -/
def Kernel.starting (σ : Kernel) : Kernel := { σ with running := true }

/-- Drains one after the other, with their budgets and the calls they perform. -/
inductive Slices : Kernel → List ℕ → List Call → Kernel → Prop
  | nil (σ) : Slices σ [] [] σ
  | cons {σ τ υ b bs l l'}
      (slice : (machine inertHooks).Performs σ.starting [.cascadeDrain b 0] l τ)
      (rest : Slices τ bs l' υ) : Slices σ (b :: bs) (l ++ l') υ

section
variable {σ τ : Kernel} {o : ObjId} {rest : List ObjId} {b d : ℕ}

theorem returns_cascadeDrain (hp : σ.panic = none) :
    (machine inertHooks).Returns σ [.cascadeDrain b d] τ ↔
    (machine inertHooks).Returns (σ.cascadeDrain b d).1 (σ.cascadeDrain b d).2 τ := by
  rw [CallMachine.Returns.cons_iff (by simp [machine, hp])]
  simp [machine, Call.subject, perform]

theorem cascadeDrain_stop (h : σ.cascade = [] ∨ b ≠ 0 ∧ b ≤ d) :
    σ.cascadeDrain b d = ({ σ with running := false }, []) := by
  unfold cascadeDrain
  split
  · rfl
  · rename_i o rest hc
    rw [if_pos (h.resolve_left (by simp [hc]))]

theorem cascadeDrain_round (hc : σ.cascade = o :: rest) (hb : ¬ (b ≠ 0 ∧ b ≤ d)) :
    σ.cascadeDrain b d = ({ σ with cascade := rest },
      [.emptySlots o 0, .release o] ++ [.cascadeDrain b (d + 1)]) := by
  simp only [cascadeDrain, hc, if_neg hb]
  rfl

end

/-! ## At once -/

/-- A single drain without a budget leads from `σ` to `τ`. -/
def AtOnce (σ τ : Kernel) : Prop := ∀ d, (machine inertHooks).Returns σ [.cascadeDrain 0 d] τ

theorem AtOnce.of_empty {σ : Kernel} (hp : σ.panic = none) (hc : σ.cascade = [])
    (hr : σ.running = false) : AtOnce σ.starting σ := by
  intro d
  have hp' : σ.starting.panic = none := hp
  have hc' : σ.starting.cascade = [] := hc
  rw [returns_cascadeDrain hp', cascadeDrain_stop (.inl hc'), CallMachine.Returns.nil_iff]
  simp [starting, ← hr]

namespace Draining
variable {σ0 σ τ υ : Kernel} {R : SlotRef → Prop} {b d : ℕ} {l : List Call}

theorem starting (h : Draining σ0 R σ []) : Draining σ0 R σ.starting [.cascadeDrain b d] := by
  obtain ⟨F0, F, hw0, hw, hprune⟩ := h.pruned
  have hkept : Kept σ σ.starting := Kept.of_objs rfl rfl rfl rfl fun _ => ⟨rfl, rfl, rfl⟩
  exact {
    accounted := fun A => {
      inOrder := ⟨⟨F, hkept.wf hw⟩, by simp [FrameOk]⟩
      balanced := fun _ o => by
        have hbal := (h.accounted A).balanced h.panic o
        have hdue : A.due o (.cascadeDrain b d) = 0 := by cases A <;> rfl
        rw [Account.dueSum_cons, hdue]
        exact hbal
      fresh := (h.accounted A).fresh
      noUnderflow := (h.accounted A).noUnderflow }
    panic := h.panic
    held := h.held
    shape := h.shape.trans (Effect.kept hkept).sameShape
    pruned := ⟨F0, F, hw0, hkept.wf hw, hprune⟩
    emptied := h.emptied
    zero := h.zero
    typed := h.typed
    due := by simp [Call.Due]
    queue := h.queue
    guarded := ⟨nofun, trivial⟩
    alive := fun o => by
      exact h.alive o
    owed := fun A o hpos hzero => by
      rcases h.owed A o hpos hzero with ⟨f, hf, -⟩ | hrest
      · cases hf
      · exact .inr hrest
    drain := rfl }

section

variable (h : Draining σ0 R σ [.cascadeDrain b d])
include h

theorem running_of_drain : σ.running = true := by
  have hdrain : σ.running.toNat = 1 := h.drain
  cases hr : σ.running with
  | false => simp [hr] at hdrain
  | true => rfl

theorem round {o : ObjId} {rest : List ObjId} {u : Kernel} (hc : σ.cascade = o :: rest)
    (hb : ¬ (b ≠ 0 ∧ b ≤ d))
    (hu : (machine inertHooks).Returns { σ with cascade := rest } [.emptySlots o 0, .release o] u) :
    Draining σ0 R u [.cascadeDrain b (d + 1)] := by
  have hcall := h.call
  rw [(h.body_eq inertHooks).1, perform, cascadeDrain_round hc hb, append_nil] at hcall
  exact hcall.returns hu

theorem atOnce_of_slice
    (hl : (machine inertHooks).Performs σ [.cascadeDrain b d] l τ) (hrest : AtOnce τ.starting υ) :
    AtOnce σ υ := by
  generalize hn : l.length = n
  induction n using Nat.strong_induction_on generalizing σ d l with
  | _ n ih =>
    have hp := h.panic
    cases hl with
    | halt hs => simp [machine, hp] at hs
    | @call _ _ _ l _ _ htail =>
      rw [(h.body_eq inertHooks).1, append_nil] at htail
      simp only [perform] at htail
      by_cases hstop : σ.cascade = [] ∨ b ≠ 0 ∧ b ≤ d
      · rw [cascadeDrain_stop hstop] at htail
        cases htail
        have hσ : Kernel.starting { σ with running := false } = σ := by
          simp [Kernel.starting, ← h.running_of_drain]
        exact hσ ▸ hrest
      · obtain ⟨hne, hb⟩ := not_or.mp hstop
        obtain ⟨o, rest, hc⟩ := exists_cons_of_ne_nil hne
        rw [cascadeDrain_round hc hb] at htail
        obtain ⟨u, l1, l2, rfl, h1, h2⟩ := CallMachine.Performs.append_iff.mp htail
        have hlen : l2.length < n := by
          simp only [length_cons, length_append] at hn
          omega
        have hu := ih _ hlen (h.round hc hb h1.returns) h2 rfl
        intro d'
        have hb' : ¬ ((0 : ℕ) ≠ 0 ∧ 0 ≤ d') := by simp
        rw [returns_cascadeDrain hp, cascadeDrain_round hc hb', CallMachine.Returns.append_iff]
        exact ⟨u, h1.returns, hu (d' + 1)⟩

end

theorem slices {bs : List ℕ} (h : Draining σ0 R σ []) (hs : Slices σ bs l τ) :
    Draining σ0 R τ [] := by
  induction hs with
  | nil => exact h
  | cons slice _ ih => exact ih (h.starting.returns slice.returns)

theorem slices_atOnce {bs : List ℕ} (h : Draining σ0 R σ []) (hs : Slices σ bs l τ)
    (hc : τ.cascade = []) : AtOnce σ.starting τ := by
  induction hs with
  | nil σ =>
    have hrun : σ.running.toNat = 0 := h.drain
    refine .of_empty h.panic hc ?_
    cases hr : σ.running with
    | false => rfl
    | true => simp [hr] at hrun
  | cons slice _ ih =>
    exact h.starting.atOnce_of_slice slice (ih (h.starting.returns slice.returns) hc)

/-! ## The drain stops -/

theorem slice_load (h : Draining σ0 R σ []) (hne : σ.cascade ≠ [])
    (hret : (machine inertHooks).Returns σ.starting [.cascadeDrain b 0] τ) : τ.load < σ.load := by
  obtain ⟨o, rest, hc⟩ := exists_cons_of_ne_nil hne
  have hstart : Draining σ0 R σ.starting [.cascadeDrain b 0] := h.starting
  have hc' : σ.starting.cascade = o :: rest := hc
  have hb : ¬ (b ≠ 0 ∧ b ≤ 0) := by omega
  have hcall := hstart.call
  rw [(hstart.body_eq inertHooks).1, perform, cascadeDrain_round hc' hb,
    append_nil] at hcall
  rw [returns_cascadeDrain hstart.panic, cascadeDrain_round hc' hb] at hret
  have hle : τ.load ≤ load { σ.starting with cascade := rest } :=
    returns_load hcall.inOrder hret
  have hload : load { σ.starting with cascade := rest } + 1 = σ.load := by
    simp only [load, hc, length_cons]
    rfl
  omega

theorem exists_slices (h : Draining σ0 R σ []) (bs : List ℕ) :
    ∃ l τ, Slices σ bs l τ ∧ (σ.cascade = [] ∨ σ.load ≤ bs.length → τ.cascade = []) := by
  induction bs generalizing σ with
  | nil =>
    refine ⟨[], σ, .nil σ, fun hdone => hdone.elim id fun hload => ?_⟩
    have hlen : σ.cascade.length = 0 := by
      unfold load at hload
      simp only [length_nil] at hload
      omega
    exact eq_nil_of_length_eq_zero hlen
  | cons b bs ih =>
    have hstart : Draining σ0 R σ.starting [.cascadeDrain b 0] := h.starting
    obtain ⟨τ, hret⟩ := exists_returns inertHooks hstart.inOrder
    obtain ⟨l, hl⟩ := hret.exists_performs
    obtain ⟨l', υ, hrest, hdone⟩ := ih (hstart.returns hret)
    refine ⟨l ++ l', υ, .cons hl hrest, fun hor => hdone ?_⟩
    by_cases hc : σ.cascade = []
    · have hc' : σ.starting.cascade = [] := hc
      rw [returns_cascadeDrain hstart.panic, cascadeDrain_stop (.inl hc'),
        CallMachine.Returns.nil_iff] at hret
      exact .inl (hret ▸ hc)
    · have hlt := h.slice_load hc hret
      have hle := hor.resolve_left hc
      rw [length_cons] at hle
      exact .inr (by omega)

theorem runs_drainSlice {n : ℕ} (h : Draining σ0 R σ [])
    (hs : Slices σ (List.replicate n irisCascadeSlice) l τ) :
    Runs inertHooks (fun _ _ => True) σ (List.replicate n .drainSlice) τ := by
  induction n generalizing σ l with
  | zero =>
    cases hs
    exact .nil _
  | succ n ih =>
    cases hs with
    | @cons _ υ _ _ _ _ _ slice rest =>
      have hstart : Draining σ0 R σ.starting [.cascadeDrain irisCascadeSlice 0] := h.starting
      have hrun : σ.running = false := by
        have hdrain : σ.running.toNat = 0 := h.drain
        cases hr : σ.running with
        | false => rfl
        | true => simp [hr] at hdrain
      refine .cons trivial (step_iff.mpr ⟨h.panic, ?_⟩) (ih (hstart.returns slice.returns) rest)
      have hret := slice.returns
      simp only [act, kcnodeCascadeDrainSlice, hrun, Bool.false_or]
      by_cases hc : σ.cascade = []
      · have hc' : σ.starting.cascade = [] := hc
        rw [returns_cascadeDrain hstart.panic, cascadeDrain_stop (.inl hc'),
          CallMachine.Returns.nil_iff] at hret
        have hsame : υ = σ := hret.trans (by simp [Kernel.starting, ← hrun])
        simp only [hc, isEmpty_nil, if_true, CallMachine.Returns.nil_iff]
        exact hsame
      · have hne : σ.cascade.isEmpty = false := by simpa using hc
        simp only [hne, Bool.false_eq_true, if_false]
        exact hret

end Draining
end IrisOS.Cap
