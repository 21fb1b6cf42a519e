import Mathlib.Data.List.Induction

/-! Runs of a deterministic system: a state, a function that says what each action does to it,
and a condition that every action of a run meets in the state it is taken in. -/
namespace IrisOS.Lib
open Function List
variable {S A : Type*}

def runFrom (act : S → A → S) (s : S) (as : List A) : S := as.foldl act s

/-- The actions of a run, the latest first, each with the state it was taken in. -/
def history (act : S → A → S) : S → List A → List (S × A)
  | _, [] => []
  | s, a :: as => history act (act s a) as ++ [(s, a)]

/-- Every action of a sequence meets a condition in the state it is taken in. -/
def Meets (act : S → A → S) (P : S → A → Prop) : S → List A → Prop
  | _, [] => True
  | s, a :: as => P s a ∧ Meets act P (act s a) as

instance decidableMeets (act : S → A → S) (P : S → A → Prop) [∀ s a, Decidable (P s a)] :
    ∀ (s : S) (as : List A), Decidable (Meets act P s as)
  | _, [] => inferInstanceAs (Decidable True)
  | s, a :: as =>
    have := decidableMeets act P (act s a) as
    inferInstanceAs (Decidable (P s a ∧ Meets act P (act s a) as))

section
variable {act : S → A → S} {P Q : S → A → Prop} {I : S → Prop} {s : S} {as bs : List A} {a : A}

@[simp] theorem runFrom_nil : runFrom act s [] = s := rfl

@[simp] theorem runFrom_cons : runFrom act s (a :: as) = runFrom act (act s a) as := rfl

theorem runFrom_append : runFrom act s (as ++ bs) = runFrom act (runFrom act s as) bs :=
  foldl_append

theorem history_append :
    history act s (as ++ bs) = history act (runFrom act s as) bs ++ history act s as := by
  induction as generalizing s with
  | nil => exact (append_nil _).symm
  | cons a as ih => simp only [cons_append, history, ih, runFrom_cons, append_assoc]

theorem runFrom_keeps (hs : I s) (hstep : ∀ s a, I s → I (act s a)) (as : List A) :
    I (runFrom act s as) := by
  induction as generalizing s with
  | nil => exact hs
  | cons a as ih => exact ih (hstep s a hs)

theorem history_keeps {I : List (S × A) → S → Prop} (h0 : I [] s)
    (hstep : ∀ h s a, I h s → I ((s, a) :: h) (act s a)) (as : List A) :
    I (history act s as) (runFrom act s as) := by
  induction as using reverseRecOn with
  | nil => exact h0
  | append_singleton as a ih =>
    rw [history_append, runFrom_append]
    exact hstep _ _ a ih

theorem Meets.keeps (h : Meets act P s as) (hs : I s)
    (hstep : ∀ s a, I s → P s a → I (act s a)) : I (runFrom act s as) := by
  induction as generalizing s with
  | nil => exact hs
  | cons a as ih => exact ih h.2 (hstep s a hs h.1)

theorem Meets.and (h : Meets act P s as) (h' : Meets act Q s as) :
    Meets act (fun s a => P s a ∧ Q s a) s as := by
  induction as generalizing s with
  | nil => trivial
  | cons a as ih => exact ⟨⟨h.1, h'.1⟩, ih h.2 h'.2⟩

theorem meets_append :
    Meets act P s (as ++ bs) ↔ Meets act P s as ∧ Meets act P (runFrom act s as) bs := by
  induction as generalizing s with
  | nil => simp [Meets]
  | cons a as ih => simp only [cons_append, Meets, ih, runFrom_cons, and_assoc]

end

/-- A loop that works on one entry of a family after the other, each at most once. -/
theorem foldl_update_apply {J I V : Type*} [DecidableEq I] {k : J → I} {f : J → V → V}
    {l : List J} (hl : (l.map k).Nodup) (g : I → V) :
    (∀ j ∈ l, l.foldl (fun g j => update g (k j) (f j (g (k j)))) g (k j) =
      f j (g (k j))) ∧
    ∀ i ∉ l.map k, l.foldl (fun g j => update g (k j) (f j (g (k j)))) g i = g i := by
  induction l generalizing g with
  | nil => simp
  | cons j l ih =>
    obtain ⟨hj, hl⟩ := nodup_cons.mp hl
    obtain ⟨hin, hout⟩ := ih hl (update g (k j) (f j (g (k j))))
    constructor
    · intro x hx
      rcases mem_cons.mp hx with rfl | hx
      · rw [foldl_cons, hout _ hj, update_self]
      · have hne : k x ≠ k j := fun e => hj (e ▸ mem_map_of_mem hx)
        rw [foldl_cons, hin x hx, update_of_ne hne]
    · intro i hi
      rw [map_cons, mem_cons, not_or] at hi
      rw [foldl_cons, hout i hi.2, update_of_ne hi.1]

end IrisOS.Lib
