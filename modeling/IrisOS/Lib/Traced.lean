import Mathlib.Data.List.Basic
import Mathlib.Logic.Unique

/-! Computations that record what they touch and may be refused, with specifications of every
recorded step and of the result. -/
namespace IrisOS.Lib

/-- The result of a computation, if it was not refused, and its record in order. -/
structure Traced (A α : Type*) where
  result : Option α
  log : List A
  deriving DecidableEq

namespace Traced
universe u
variable {A ι : Type*} {α β σ : Type u}

/-- Continue with the result of a computation. -/
def andThen (m : Traced A α) (f : α → Traced A β) : Traced A β :=
  match m.result with
  | none => ⟨none, m.log⟩
  | some a => ⟨(f a).result, m.log ++ (f a).log⟩

instance : Monad (Traced A) where
  pure a := ⟨some a, []⟩
  bind := andThen

def emit (a : A) : Traced A Unit := ⟨some (), [a]⟩

def refuse : Traced A α := ⟨none, []⟩

/-- Give up unless a condition holds. -/
def check (p : Prop) [Decidable p] : Traced A Unit := if p then pure () else refuse

/-- Every recorded step is fine. -/
def Within (ok : A → Prop) (m : Traced A α) : Prop := ∀ a ∈ m.log, ok a

/-- Every recorded step is fine, and the result, if there is one, is as stated. -/
def Spec (ok : A → Prop) (m : Traced A α) (Q : α → Prop) : Prop :=
  Within ok m ∧ ∀ x, m.result = some x → Q x

variable {ok : A → Prop} {P Q : α → Prop} {m : Traced A α} {f : σ → ι → Traced A σ} {l : List ι}
  {s : σ}

@[simp] theorem result_pure (a : α) : (pure a : Traced A α).result = some a := rfl

@[simp] theorem result_emit (a : A) : (emit a).result = some () := rfl

@[simp] theorem result_refuse : (refuse : Traced A α).result = none := rfl

@[simp] theorem result_bind (m : Traced A α) (f : α → Traced A β) :
    (m >>= f).result = m.result.bind fun x => (f x).result := by
  show (andThen m f).result = _
  unfold andThen
  cases m.result <;> rfl

@[simp] theorem within_pure (a : α) : Within ok (pure a : Traced A α) :=
  fun _ hmem => absurd hmem List.not_mem_nil

@[simp] theorem within_refuse : Within ok (refuse : Traced A α) :=
  fun _ hmem => absurd hmem List.not_mem_nil

@[simp] theorem within_emit {a : A} : Within ok (emit a) ↔ ok a := List.forall_mem_singleton

/-- A computation stays within bounds when its first part does and what follows the result of that
part does. -/
@[simp] theorem within_bind {f : α → Traced A β} :
    Within ok (m >>= f) ↔ Within ok m ∧ ∀ x ∈ m.result, Within ok (f x) := by
  show Within ok (andThen m f) ↔ _
  unfold andThen Within
  cases m.result <;> simp [or_imp, forall_and]

theorem within_check_bind {β : Type} {p : Prop} [Decidable p] {f : Unit → Traced A β} :
    Within ok ((check p : Traced A Unit) >>= f) ↔ (p → Within ok (f ())) := by
  rw [within_bind]
  unfold check
  split_ifs with h <;> simp [h, Unique.forall_iff]

instance instLawfulMonad : LawfulMonad (Traced A) :=
  LawfulMonad.mk' (Traced A)
    (fun m => by
      show andThen m _ = m
      rcases m with ⟨_ | a, log⟩ <;> simp [andThen])
    (fun a f => by
      show andThen (pure a) f = f a
      simp [andThen, pure])
    (fun m f g => by
      show andThen (andThen m f) g = andThen m fun a => andThen (f a) g
      rcases m with ⟨_ | a, log⟩
      · rfl
      · rcases hf : f a with ⟨_ | b, log'⟩ <;> simp [andThen, hf])

@[simp] theorem result_map (f : α → β) (m : Traced A α) : (f <$> m).result = m.result.map f := by
  rw [map_eq_pure_bind, result_bind]
  cases m.result <;> rfl

@[simp] theorem within_map {f : α → β} : Within ok (f <$> m) ↔ Within ok m := by
  simp [map_eq_pure_bind, -bind_pure_comp]

theorem foldlM_range_succ {f : σ → ℕ → Traced A σ} (n : ℕ) :
    (List.range (n + 1)).foldlM f s = (List.range n).foldlM f s >>= fun s' => f s' n := by
  rw [List.range_succ, List.foldlM_append]
  exact congrArg _ (funext fun s' => List.foldlM_cons.trans (bind_pure _))

/-- A loop stays within bounds when each round that is reached does. -/
theorem within_foldlM_range {f : σ → ℕ → Traced A σ} (n : ℕ) :
    Within ok ((List.range n).foldlM f s) ↔
      ∀ i < n, ∀ s' ∈ ((List.range i).foldlM f s).result, Within ok (f s' i) := by
  induction n with
  | zero => exact iff_of_true (within_pure s) fun i hi => absurd hi (Nat.not_lt_zero i)
  | succ n ih => rw [foldlM_range_succ, within_bind, ih, Nat.forall_lt_succ_right]

/-- A loop that comes to its end is refused in no round. -/
theorem isSome_of_foldlM_range {f : σ → ℕ → Traced A σ} {n : ℕ}
    (h : ((List.range n).foldlM f s).result.isSome) :
    ∀ i < n, ∀ s' ∈ ((List.range i).foldlM f s).result, (f s' i).result.isSome := by
  induction n with
  | zero => exact fun i hi => absurd hi (Nat.not_lt_zero i)
  | succ n ih =>
    rw [foldlM_range_succ, result_bind] at h
    obtain ⟨x, hx⟩ := Option.isSome_iff_exists.mp h
    obtain ⟨s', hs', hx'⟩ := Option.bind_eq_some_iff.mp hx
    refine Nat.forall_lt_succ_right.mpr ⟨ih (Option.isSome_iff_exists.mpr ⟨s', hs'⟩), ?_⟩
    intro s'' hs''
    obtain rfl := Option.some.inj (hs'.symm.trans hs'')
    exact Option.isSome_iff_exists.mpr ⟨x, hx'⟩

/-- A loop over steps that are never refused, and what follows it. -/
theorem within_steps_bind {f : ι → Traced A PUnit.{u + 1}} {g : PUnit → Traced A β}
    (h : ∀ i ∈ l, (f i).result = some ⟨⟩) :
    Within ok (l.foldlM (fun _ i => f i) ⟨⟩ >>= g) ↔
      (∀ i ∈ l, Within ok (f i)) ∧ Within ok (g ⟨⟩) := by
  induction l with
  | nil => simp
  | cons i l ih =>
    have hrest := ih fun j hj => h j (List.mem_cons_of_mem i hj)
    rw [List.foldlM_cons, bind_assoc, within_bind, h i List.mem_cons_self, List.forall_mem_cons,
      and_assoc, ← hrest]
    simp [Unique.forall_iff]

theorem Spec.mono (h : Spec ok m P) (hPQ : ∀ x, P x → Q x) : Spec ok m Q :=
  ⟨h.1, fun x hx => hPQ x (h.2 x hx)⟩

theorem spec_pure {a : α} (h : Q a) : Spec ok (pure a) Q :=
  ⟨within_pure a, fun _ hx => Option.some.inj hx ▸ h⟩

theorem spec_refuse : Spec ok (refuse : Traced A α) Q :=
  ⟨within_refuse, fun _ hx => nomatch hx⟩

theorem spec_check {p : Prop} [Decidable p] : Spec ok (check p : Traced A Unit) fun _ => p := by
  unfold check
  split_ifs with h
  · exact spec_pure h
  · exact spec_refuse

theorem spec_bind {f : α → Traced A β} {R : β → Prop} (h : Spec ok m P)
    (hf : ∀ a, P a → Spec ok (f a) R) : Spec ok (m >>= f) R := by
  refine ⟨within_bind.mpr ⟨h.1, fun a ha => (hf a (h.2 a ha)).1⟩, fun x hx => ?_⟩
  rw [result_bind] at hx
  obtain ⟨a, ha, hx'⟩ := Option.bind_eq_some_iff.mp hx
  exact (hf a (h.2 a ha)).2 x hx'

theorem spec_foldlM {I : σ → Prop} (hs : I s)
    (hstep : ∀ i ∈ l, ∀ s, I s → Spec ok (f s i) I) : Spec ok (l.foldlM f s) I := by
  induction l generalizing s with
  | nil => exact spec_pure hs
  | cons i l ih =>
    exact spec_bind (hstep i List.mem_cons_self s hs) fun s' hs' =>
      ih hs' fun j hj => hstep j (List.mem_cons_of_mem i hj)

end Traced
end IrisOS.Lib
