import IrisOS.Lib.CallMachine

/-! Systems that take actions. The entry point of an action changes the state and issues calls,
which a call machine then runs to their end; a halted system takes no more actions. -/
namespace IrisOS.Lib

structure ActionSystem (σ c α : Type*) extends CallMachine σ c where
  act : σ → α → σ × List c

namespace ActionSystem
variable {σ c α : Type*} (S : ActionSystem σ c α)

/-- One action, run to its end. -/
def Step (s : σ) (a : α) (t : σ) : Prop :=
  S.halted s = false ∧ S.Returns (S.act s a).1 (S.act s a).2 t

/-- A finite run of actions that all meet a condition on the state they start in. -/
inductive Runs (P : σ → α → Prop) : σ → List α → σ → Prop
  | nil (s : σ) : Runs P s [] s
  | snoc {s as t a u} (run : Runs P s as t) (ok : P t a) (step : S.Step t a u) :
      Runs P s (as ++ [a]) u

def exec (P : σ → α → Prop) [∀ s a, Decidable (P s a)] (fuel : ℕ) : σ → List α → Option σ
  | s, [] => some s
  | s, a :: as =>
    if S.halted s = false ∧ P s a then
      (S.run fuel (S.act s a).1 (S.act s a).2).bind fun t => exec P fuel t as
    else none

variable {S} {P : σ → α → Prop} {s t u : σ} {a : α} {as : List α}

theorem Runs.cons (ok : P s a) (step : S.Step s a t) (run : S.Runs P t as u) :
    S.Runs P s (a :: as) u := by
  induction run with
  | nil => exact .snoc (.nil s) ok step
  | snoc _ ok' step' ih => exact .snoc ih ok' step'

theorem Runs.of_exec [∀ s a, Decidable (P s a)] {fuel : ℕ} (h : S.exec P fuel s as = some t) :
    S.Runs P s as t := by
  induction as generalizing s with
  | nil =>
    cases h
    exact .nil _
  | cons a as ih =>
    rw [exec] at h
    split_ifs at h with hok
    obtain ⟨u, hrun, hrest⟩ := Option.bind_eq_some_iff.mp h
    exact .cons hok.2 ⟨hok.1, CallMachine.returns_of_run hrun⟩ (ih hrest)

theorem exists_step [∀ s a, Decidable (P s a)] (fuel : ℕ) {T : σ → σ → Prop}
    (h : ∃ t ∈ S.exec P fuel s as, S.halted t = false ∧
      ∃ u ∈ S.run fuel (S.act t a).1 (S.act t a).2, T t u) :
    ∃ t u, S.Runs P s as t ∧ S.Step t a u ∧ T t u := by
  obtain ⟨t, ht, hhalt, u, hu, hT⟩ := h
  exact ⟨t, u, .of_exec ht, ⟨hhalt, CallMachine.returns_of_run hu⟩, hT⟩

/-- What every action keeps holds at the end of a run. -/
theorem Runs.keeps {I : σ → Prop} (hstep : ∀ s a t, I s → P s a → S.Step s a t → I t)
    (h : S.Runs P s as t) (hI : I s) : I t := by
  induction h with
  | nil => exact hI
  | snoc _ ok step ih => exact hstep _ _ _ ih ok step

/-- The same for an invariant of the state and the calls that wait. -/
theorem Runs.preserves {I : σ → List c → Prop}
    (hact : ∀ s a, S.halted s = false → I s [] → P s a → I (S.act s a).1 (S.act s a).2)
    (hcall : ∀ s f k, S.halted s = false → I s (f :: k) → I (S.body s f).1 ((S.body s f).2 ++ k))
    (hhalt : ∀ s f k, S.halted s = true → I s (f :: k) → I s [])
    (h : S.Runs P s as t) (hI : I s []) : I t [] := by
  refine h.keeps (I := fun s => I s []) (fun s a t hs ok step => ?_) hI
  exact step.2.preserves hhalt hcall (hact s a step.1 hs ok)

end ActionSystem
end IrisOS.Lib
