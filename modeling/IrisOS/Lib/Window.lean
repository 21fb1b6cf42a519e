import Mathlib.Tactic

/-! Sequences of events cut into consecutive segments, and how many ticks of a sequence of events
fall into a window. -/
namespace IrisOS.Lib

open Finset

section
variable {α β : Type*} {size : α → ℕ} {ok : α → β → Prop}

/-- The second list falls into one segment for each entry of the first, of its size and as it wants.
-/
inductive Covers (size : α → ℕ) (ok : α → β → Prop) : List α → List β → Prop
  | nil : Covers size ok [] []
  | cons {a as bs cs} (length : bs.length = size a) (members : ∀ b ∈ bs, ok a b)
      (rest : Covers size ok as cs) : Covers size ok (a :: as) (bs ++ cs)

namespace Covers

variable {bs : List β} {as as' : List α}

theorem length_eq (h : Covers size ok as bs) : bs.length = (as.map size).sum := by
  induction h with
  | nil => rfl
  | cons hlen _ _ ih => simp [hlen, ih]

theorem single {a : α} (hlen : bs.length = size a) (hok : ∀ b ∈ bs, ok a b) :
    Covers size ok [a] bs := by
  simpa using Covers.cons hlen hok .nil

theorem append {bs bs' : List β} (h : Covers size ok as bs)
    (h' : Covers size ok as' bs') : Covers size ok (as ++ as') (bs ++ bs') := by
  induction h with
  | nil => exact h'
  | cons hlen hok _ ih =>
    rw [List.append_assoc]
    exact .cons hlen hok ih

theorem split (h : Covers size ok (as ++ as') bs) :
    ∃ bs1 bs2, bs = bs1 ++ bs2 ∧ Covers size ok as bs1 ∧ Covers size ok as' bs2 := by
  induction as generalizing bs with
  | nil => exact ⟨[], bs, rfl, .nil, h⟩
  | cons a as ih =>
    cases h with
    | cons hlen hok hrest =>
      obtain ⟨bs1, bs2, rfl, h1, h2⟩ := ih hrest
      exact ⟨_, bs2, (List.append_assoc ..).symm, .cons hlen hok h1, h2⟩

theorem exists_mem (h : Covers size ok as bs) {b : β} (hb : b ∈ bs) : ∃ a ∈ as, ok a b := by
  induction h with
  | nil => simp at hb
  | cons _ hok _ ih =>
    cases List.mem_append.mp hb with
    | inl hb => exact ⟨_, List.mem_cons_self, hok b hb⟩
    | inr hb =>
      obtain ⟨a, ha, hab⟩ := ih hb
      exact ⟨a, List.mem_cons_of_mem _ ha, hab⟩

end Covers
end

section
variable {n budget period : ℕ} {time start : ℕ → ℕ}

/-- Event `i` belongs to the run that event `g` began, which has an event at every tick on the way
and fewer than `budget` before it. -/
structure RunFrom (budget : ℕ) (time start : ℕ → ℕ) (g i : ℕ) : Prop where
  le : g ≤ i
  lt : i < g + budget
  start_eq : start g = start i
  time_eq : time g = start i
  ticks : ∀ m, start i ≤ m → m ≤ time i → ∃ j, g ≤ j ∧ j ≤ i ∧ time j = m

theorem RunFrom.begin (hbudget : 0 < budget) {i : ℕ} (h : time i = start i) :
    RunFrom budget time start i i where
  le := le_rfl
  lt := by omega
  start_eq := rfl
  time_eq := h
  ticks m hs ht := ⟨i, le_rfl, le_rfl, by omega⟩

theorem RunFrom.extend {g i : ℕ} (h : RunFrom budget time start g i)
    (hstart : start (i + 1) = start i) (hle : time i ≤ time (i + 1))
    (hnext : time (i + 1) ≤ time i + 1) (hlt : i + 1 < g + budget) :
    RunFrom budget time start g (i + 1) where
  le := h.le.trans (Nat.le_succ i)
  lt := hlt
  start_eq := h.start_eq.trans hstart.symm
  time_eq := h.time_eq.trans hstart.symm
  ticks m hs ht := by
    by_cases hm : m ≤ time i
    · obtain ⟨j, hgj, hji, hj⟩ := h.ticks m (hstart ▸ hs) hm
      exact ⟨j, hgj, hji.trans (Nat.le_succ i), hj⟩
    · exact ⟨i + 1, h.le.trans (Nat.le_succ i), le_rfl, by omega⟩

theorem RunFrom.congr {time' start' : ℕ → ℕ} {g i : ℕ} (h : RunFrom budget time start g i)
    (htime : ∀ j ≤ i, time' j = time j) (hstart : ∀ j ≤ i, start' j = start j) :
    RunFrom budget time' start' g i where
  le := h.le
  lt := h.lt
  start_eq := by rw [hstart g h.le, hstart i le_rfl, h.start_eq]
  time_eq := by rw [htime g h.le, hstart i le_rfl, h.time_eq]
  ticks m hs ht := by
    rw [hstart i le_rfl] at hs
    rw [htime i le_rfl] at ht
    obtain ⟨j, hgj, hji, hj⟩ := h.ticks m hs ht
    exact ⟨j, hgj, hji, by rw [htime j hji, hj]⟩

/-- If each event is at least a period after the run of the event `budget` places before, no window
of a period holds events at more than `budget` ticks. -/
theorem window_card_le (hmono : ∀ i j, i ≤ j → j < n → time i ≤ time j)
    (hrun : ∀ i < n, ∃ g, RunFrom budget time start g i)
    (hgap : ∀ i, i + budget < n → start i + period ≤ time (i + budget)) (t : ℕ) :
    (((Finset.range n).image time).filter fun m => t ≤ m ∧ m < t + period).card ≤ budget := by
  by_cases hex : ∃ f, f < n ∧ t ≤ time f
  · obtain ⟨f, ⟨hf, htf⟩, hleast⟩ := Nat.findX hex
    obtain ⟨g, hg⟩ := hrun f hf
    have hbefore : t - start f ≤ f - g := by
      have hsub : Ico (start f) t ⊆ (Ico g f).image time := by
        intro m hm
        obtain ⟨hsm, hmt⟩ := mem_Ico.mp hm
        obtain ⟨j, hgj, hjf, rfl⟩ := hg.ticks m hsm (by omega)
        have hne : j ≠ f := by
          rintro rfl
          omega
        exact mem_image_of_mem time (mem_Ico.mpr ⟨hgj, by omega⟩)
      have hcard := (card_le_card hsub).trans card_image_le
      simpa using hcard
    have hcover : ((range n).image time).filter (fun m => t ≤ m ∧ m < t + period) ⊆
        (Ico f (g + budget)).image time ∪ Ico (start f + period) (t + period) := by
      intro m hm
      simp only [mem_filter, mem_image, mem_range] at hm
      obtain ⟨⟨i, hi, rfl⟩, hti, hlt⟩ := hm
      have hfi : f ≤ i := not_lt.mp fun h => hleast i h ⟨hi, hti⟩
      by_cases hnear : i < g + budget
      · exact mem_union_left _
          (mem_image_of_mem time (mem_Ico.mpr ⟨hfi, hnear⟩))
      · have hfar := hgap g (by omega)
        have := hmono (g + budget) i (by omega) hi
        have := hg.start_eq
        exact mem_union_right _ (mem_Ico.mpr ⟨by omega, hlt⟩)
    have hcard := (card_le_card hcover).trans (card_union_le _ _)
    have himage : ((Ico f (g + budget)).image time).card ≤ g + budget - f := by
      simpa using card_image_le (s := Ico f (g + budget)) (f := time)
    have hlate : (Ico (start f + period) (t + period)).card = t - start f := by
      rw [Nat.card_Ico]
      omega
    have := hg.le
    have := hg.lt
    omega
  · have hempty : ((range n).image time).filter (fun m => t ≤ m ∧ m < t + period) = ∅ := by
      apply filter_eq_empty_iff.mpr
      intro m hm hwin
      obtain ⟨i, hi, rfl⟩ := mem_image.mp hm
      exact hex ⟨i, mem_range.mp hi, hwin.1⟩
    rw [hempty]
    simp

end
end IrisOS.Lib
