import Mathlib.Order.WellFounded
import Mathlib.Data.List.Basic

/-! Machines that run a stack of calls. A call acts on the state once and then issues further calls,
which run before those already waiting; a halted state drops everything. -/
namespace IrisOS.Lib

structure CallMachine (σ c : Type*) where
  body : σ → c → σ × List c
  halted : σ → Bool

namespace CallMachine
variable {σ c : Type*} (M : CallMachine σ c)

/-- A complete execution of the calls on the stack, ending in the state they leave behind. -/
inductive Returns : σ → List c → σ → Prop
  | done (s) : Returns s [] s
  | halt {s f k} (h : M.halted s = true) : Returns s (f :: k) s
  | call {s f k t} (h : M.halted s = false)
      (tail : Returns (M.body s f).1 ((M.body s f).2 ++ k) t) : Returns s (f :: k) t

/-- A complete execution together with the calls it performs, in their order. -/
inductive Performs : σ → List c → List c → σ → Prop
  | done (s) : Performs s [] [] s
  | halt {s f k} (h : M.halted s = true) : Performs s (f :: k) [] s
  | call {s f k l t} (h : M.halted s = false)
      (tail : Performs (M.body s f).1 ((M.body s f).2 ++ k) l t) : Performs s (f :: k) (f :: l) t

/-- The executable form: at most `n` calls. -/
def run : ℕ → σ → List c → Option σ
  | _, s, [] => some s
  | 0, _, _ :: _ => none
  | n+1, s, f :: k =>
    if M.halted s then some s else run n (M.body s f).1 ((M.body s f).2 ++ k)

/-- The executable form that also records the calls. -/
def record : ℕ → σ → List c → Option (List c × σ)
  | _, s, [] => some ([], s)
  | 0, _, _ :: _ => none
  | n+1, s, f :: k =>
    if M.halted s then some ([], s)
    else (record n (M.body s f).1 ((M.body s f).2 ++ k)).map fun r => (f :: r.1, r.2)

variable {M} {s s' t t' : σ} {f : c} {k k1 k2 l : List c} {I : σ → List c → Prop} {n : ℕ}

theorem returns_of_run (h : M.run n s k = some t) : M.Returns s k t := by
  induction n generalizing s k with
  | zero =>
    cases k with
    | nil => cases h; exact .done _
    | cons f k => simp [run] at h
  | succ n ih =>
    cases k with
    | nil => cases h; exact .done _
    | cons f k =>
      simp only [run] at h
      cases hs : M.halted s with
      | true =>
        rw [hs, if_pos rfl] at h
        cases h
        exact .halt hs
      | false => exact .call hs (ih (by simpa [hs] using h))

namespace Returns

theorem nil_iff : M.Returns s [] t ↔ t = s := by
  constructor
  · intro h; cases h; rfl
  · rintro rfl; exact .done _

theorem cons_iff (hs : M.halted s = false) :
    M.Returns s (f :: k) t ↔ M.Returns (M.body s f).1 ((M.body s f).2 ++ k) t := by
  constructor
  · intro h
    cases h with
    | halt h => simp [hs] at h
    | call _ h => exact h
  · exact .call hs

theorem halted_iff (hs : M.halted s = true) : M.Returns s k t ↔ t = s := by
  constructor
  · intro h
    cases h with
    | done => rfl
    | halt _ => rfl
    | call h _ => simp [hs] at h
  · rintro rfl
    cases k with
    | nil => exact .done _
    | cons f k => exact .halt hs

theorem unique (h : M.Returns s k t) (h' : M.Returns s k t') : t = t' := by
  induction h generalizing t' with
  | done s => exact (nil_iff.mp h').symm
  | halt hs => exact ((halted_iff hs).mp h').symm
  | call hs _ ih => exact ih ((cons_iff hs).mp h')

theorem preserves (hhalt : ∀ s f k, M.halted s = true → I s (f :: k) → I s [])
    (hcall : ∀ s f k, M.halted s = false → I s (f :: k) →
      I (M.body s f).1 ((M.body s f).2 ++ k))
    (h : M.Returns s k t) (hI : I s k) : I t [] := by
  induction h with
  | done s => exact hI
  | halt hs => exact hhalt _ _ _ hs hI
  | call hs _ ih => exact ih (hcall _ _ _ hs hI)

end Returns

/-! ## Calls performed -/

theorem Performs.returns (h : M.Performs s k l t) : M.Returns s k t := by
  induction h with
  | done s => exact .done s
  | halt hs => exact .halt hs
  | call hs _ ih => exact .call hs ih

theorem Returns.exists_performs (h : M.Returns s k t) : ∃ l, M.Performs s k l t := by
  induction h with
  | done s => exact ⟨[], .done s⟩
  | halt hs => exact ⟨[], .halt hs⟩
  | @call s f k t hs _ ih =>
    obtain ⟨l, hl⟩ := ih
    exact ⟨f :: l, .call hs hl⟩

theorem Performs.halted_iff (hs : M.halted s = true) : M.Performs s k l t ↔ l = [] ∧ t = s := by
  constructor
  · intro h
    cases h with
    | done => exact ⟨rfl, rfl⟩
    | halt _ => exact ⟨rfl, rfl⟩
    | call h _ => simp [hs] at h
  · rintro ⟨rfl, rfl⟩
    cases k with
    | nil => exact .done _
    | cons f k => exact .halt hs

theorem Performs.append_iff : M.Performs s (k1 ++ k2) l t ↔
    ∃ u l1 l2, l = l1 ++ l2 ∧ M.Performs s k1 l1 u ∧ M.Performs u k2 l2 t := by
  constructor
  · generalize hk : k1 ++ k2 = k
    intro h
    induction h generalizing k1 with
    | done s =>
      obtain ⟨rfl, rfl⟩ := List.append_eq_nil_iff.mp hk
      exact ⟨s, [], [], rfl, .done _, .done _⟩
    | @halt s f k hs =>
      exact ⟨s, [], [], rfl, (halted_iff hs).mpr ⟨rfl, rfl⟩, (halted_iff hs).mpr ⟨rfl, rfl⟩⟩
    | @call s f k l t hs ht ih =>
      cases k1 with
      | nil =>
        rw [List.nil_append] at hk
        exact ⟨s, [], f :: l, rfl, .done _, hk ▸ .call hs ht⟩
      | cons g k' =>
        obtain ⟨rfl, rfl⟩ := List.cons.inj hk
        obtain ⟨u, l1, l2, rfl, h1, h2⟩ := ih (List.append_assoc _ _ _)
        exact ⟨u, g :: l1, l2, rfl, .call hs h1, h2⟩
  · rintro ⟨u, l1, l2, rfl, h1, h2⟩
    induction h1 with
    | done s => exact h2
    | halt hs =>
      rw [halted_iff hs] at h2 ⊢
      exact h2
    | @call s f k l u hs _ ih =>
      refine .call hs ?_
      change M.Performs _ (_ ++ (_ ++ k2)) (l ++ l2) t
      rw [← List.append_assoc]
      exact ih h2

theorem Returns.append_iff : M.Returns s (k1 ++ k2) t ↔ ∃ u, M.Returns s k1 u ∧ M.Returns u k2 t := by
  constructor
  · intro h
    obtain ⟨l, hl⟩ := h.exists_performs
    obtain ⟨u, l1, l2, -, h1, h2⟩ := Performs.append_iff.mp hl
    exact ⟨u, h1.returns, h2.returns⟩
  · rintro ⟨u, h1, h2⟩
    obtain ⟨l1, hl1⟩ := h1.exists_performs
    obtain ⟨l2, hl2⟩ := h2.exists_performs
    exact (Performs.append_iff.mpr ⟨u, l1, l2, rfl, hl1, hl2⟩).returns

theorem performs_of_record (h : M.record n s k = some (l, t)) : M.Performs s k l t := by
  induction n generalizing s k l with
  | zero =>
    cases k with
    | nil => cases h; exact .done _
    | cons f k => simp [record] at h
  | succ n ih =>
    cases k with
    | nil => cases h; exact .done _
    | cons f k =>
      simp only [record] at h
      cases hs : M.halted s with
      | true =>
        rw [hs, if_pos rfl] at h
        cases h
        exact .halt hs
      | false =>
        rw [hs, if_neg (by simp)] at h
        obtain ⟨⟨l', t'⟩, hr, he⟩ := Option.map_eq_some_iff.mp h
        cases he
        exact .call hs (ih hr)

theorem Performs.countP {p : c → Bool} {Φ : σ → List c → ℕ}
    (hcall : ∀ s f k, M.halted s = false → I s (f :: k) → M.halted (M.body s f).1 = false →
      I (M.body s f).1 ((M.body s f).2 ++ k) ∧
        Φ (M.body s f).1 ((M.body s f).2 ++ k) + (p f).toNat = Φ s (f :: k))
    (h : M.Performs s k l t) (hI : I s k) (ht : M.halted t = false) :
    l.countP p + Φ t [] = Φ s k := by
  induction h with
  | done s => simp
  | halt hs => simp [hs] at ht
  | @call s f k l t hs htail ih =>
    have hnext : M.halted (M.body s f).1 = false := by
      by_contra hne
      have := (Returns.halted_iff (by simpa using hne)).mp htail.returns
      exact hne (this ▸ ht)
    obtain ⟨hI', hΦ⟩ := hcall s f k hs hI hnext
    have hrest := ih hI' ht
    rw [List.countP_cons]
    cases hp : p f with
    | false =>
      rw [hp] at hΦ
      simp only [Bool.toNat_false, Bool.false_eq_true, if_false] at hΦ ⊢
      omega
    | true =>
      rw [hp] at hΦ
      simp only [Bool.toNat_true, if_true] at hΦ ⊢
      omega

/-! ## Depth -/

/-- The calls that `f` issues, with their depth; one that goes on with its caller's loop adds none.
-/
def nested (cont : c → c → Bool) (d : ℕ) (f : c) (l : List c) : List (ℕ × c) :=
  l.map fun g => (if cont f g then d else d + 1, g)

@[simp] theorem map_snd_nested (cont : c → c → Bool) (d : ℕ) (f : c) (l : List c) :
    (nested cont d f l).map Prod.snd = l := by
  simp [nested, Function.comp_def]

/-- The calls on the stack run to their end, and no call is nested deeper than `n`. -/
inductive Within (M : CallMachine σ c) (cont : c → c → Bool) (n : ℕ) : σ → List (ℕ × c) → Prop
  | done (s : σ) : Within M cont n s []
  | halt {s p k} (h : M.halted s = true) : Within M cont n s (p :: k)
  | call {s d f k} (h : M.halted s = false) (hd : d ≤ n)
      (tail : Within M cont n (M.body s f).1 (nested cont d f (M.body s f).2 ++ k)) :
      Within M cont n s ((d, f) :: k)

theorem Returns.within {cont : c → c → Bool} {I : σ → List (ℕ × c) → Prop} {k : List (ℕ × c)}
    (hcall : ∀ s d f k, M.halted s = false → I s ((d, f) :: k) →
      d ≤ n ∧ I (M.body s f).1 (nested cont d f (M.body s f).2 ++ k))
    (h : M.Returns s (k.map Prod.snd) t) (hI : I s k) : M.Within cont n s k := by
  generalize hl : k.map Prod.snd = l at h
  induction h generalizing k with
  | done s =>
    cases List.map_eq_nil_iff.mp hl
    exact .done s
  | halt hs =>
    obtain ⟨p, k', rfl, -, -⟩ := List.map_eq_cons_iff.mp hl
    exact .halt hs
  | call hs _ ih =>
    obtain ⟨⟨d, f⟩, k', rfl, rfl, rfl⟩ := List.map_eq_cons_iff.mp hl
    obtain ⟨hd, hI'⟩ := hcall _ d f k' hs hI
    exact .call hs hd (ih hI' (by simp))

theorem exists_returns {α : Type*} {r : α → α → Prop} (hr : WellFounded r) (μ : σ → List c → α)
    (I : σ → List c → Prop) (hcall : ∀ s f k, M.halted s = false → I s (f :: k) →
      I (M.body s f).1 ((M.body s f).2 ++ k) ∧ r (μ (M.body s f).1 ((M.body s f).2 ++ k)) (μ s (f :: k)))
    (hI : I s k) : ∃ t, M.Returns s k t := by
  generalize hm : μ s k = m
  induction m using hr.induction generalizing s k with
  | _ m ih =>
    cases k with
    | nil => exact ⟨s, .done _⟩
    | cons f k =>
      cases hs : M.halted s with
      | true => exact ⟨s, .halt hs⟩
      | false =>
        obtain ⟨hI', hlt⟩ := hcall s f k hs hI
        obtain ⟨t, ht⟩ := ih _ (hm ▸ hlt) hI' rfl
        exact ⟨t, .call hs ht⟩

/-! ## Calls that come to their end -/

/-- Whatever waits behind them, the calls turn the one state into the other. -/
def Leads (M : CallMachine σ c) (s : σ) (l : List c) (s' : σ) : Prop :=
  ∀ k t, M.Returns s (l ++ k) t ↔ M.Returns s' k t

namespace Leads
variable {l' : List c} {s'' : σ}

theorem refl (s : σ) : M.Leads s [] s := fun _ _ => Iff.rfl

theorem trans (h : M.Leads s l s') (h' : M.Leads s' l' s'') : M.Leads s (l ++ l') s'' :=
  fun k t => by rw [List.append_assoc, h, h']

theorem each {I : ℕ → σ → Prop} {g : ℕ → c} {start count : ℕ}
    (hstep : ∀ i s, start ≤ i → i < start + count → I i s → ∃ s', I (i + 1) s' ∧ M.Leads s [g i] s')
    (h : I start s) :
    ∃ s', I (start + count) s' ∧ M.Leads s ((List.range' start count).map g) s' := by
  induction count generalizing start s with
  | zero => exact ⟨s, h, .refl s⟩
  | succ count ih =>
    obtain ⟨s1, h1, hlead1⟩ := hstep start s le_rfl (Nat.lt_add_of_pos_right count.succ_pos) h
    obtain ⟨s2, h2, hlead2⟩ := ih (fun i s hi hlt => hstep i s (Nat.le_of_succ_le hi)
      (by omega)) h1
    refine ⟨s2, by rwa [Nat.succ_add_eq_add_succ] at h2, ?_⟩
    exact hlead1.trans hlead2

end Leads
end CallMachine
end IrisOS.Lib
