import Mathlib.Tactic

/-! A bounded ring: a queue kept in an array, from a head index and a count, both taken modulo
the size of the array. The queue it stands for is `toList`. -/
namespace IrisOS.Lib
open Function List

structure RingBuffer (α : Type*) where
  max : ℕ
  head : ℕ
  count : ℕ
  cells : ℕ → α

namespace RingBuffer
variable {α : Type*} (r : RingBuffer α)

def toList : List α := (List.range r.count).map fun i => r.cells ((r.head + i) % r.max)

/-- The indices are in range. -/
structure Wf : Prop where
  head_lt : r.head < r.max
  count_le : r.count ≤ r.max

/-- Forget the queue; what the array holds is left as it is. -/
def reset : RingBuffer α := { r with head := 0, count := 0 }

def front : α := r.cells r.head

/-- The place after the newest entry. -/
def tail : ℕ := (r.head + r.count) % r.max

/-- The place of the newest entry. -/
def newest : ℕ := (r.head + r.count - 1) % r.max

def push (a : α) : RingBuffer α :=
  { r with cells := update r.cells r.tail a, count := r.count + 1 }

def pop : RingBuffer α := { r with head := (r.head + 1) % r.max, count := r.count - 1 }

def setNewest (a : α) : RingBuffer α := { r with cells := update r.cells r.newest a }

variable {r}

@[simp] theorem length_toList : r.toList.length = r.count := by simp [toList]

theorem toList_eq_nil (h : r.count = 0) : r.toList = [] := by simp [toList, h]

/-- A push brings no other entry in. -/
theorem mem_toList_push {a x : α} (hx : x ∈ (r.push a).toList) : x ∈ r.toList ∨ x = a := by
  obtain ⟨i, hi, rfl⟩ := mem_map.mp hx
  have hi : i < r.count + 1 := mem_range.mp hi
  show update r.cells r.tail a ((r.head + i) % r.max) ∈ _ ∨
    update r.cells r.tail a ((r.head + i) % r.max) = a
  by_cases hplace : (r.head + i) % r.max = r.tail
  · rw [hplace, update_self]
    exact .inr rfl
  · have hne : i ≠ r.count := fun e => hplace (e ▸ rfl)
    rw [update_of_ne hplace]
    exact .inl (mem_map.mpr ⟨i, mem_range.mpr (by omega), rfl⟩)

theorem mem_toList_setNewest {a x : α} (hx : x ∈ (r.setNewest a).toList) :
    x ∈ r.toList ∨ x = a := by
  obtain ⟨i, hi, rfl⟩ := mem_map.mp hx
  show update r.cells r.newest a ((r.head + i) % r.max) ∈ _ ∨
    update r.cells r.newest a ((r.head + i) % r.max) = a
  by_cases hplace : (r.head + i) % r.max = r.newest
  · rw [hplace, update_self]
    exact .inr rfl
  · rw [update_of_ne hplace]
    exact .inl (mem_map.mpr ⟨i, hi, rfl⟩)

theorem place_ne {i j : ℕ} (hij : i < j) (hj : j < r.max) :
    (r.head + i) % r.max ≠ (r.head + j) % r.max := by
  intro h
  have hmod : i % r.max = j % r.max := Nat.ModEq.add_left_cancel' r.head h
  rw [Nat.mod_eq_of_lt (hij.trans hj), Nat.mod_eq_of_lt hj] at hmod
  omega

theorem Wf.reset (h : r.Wf) : r.reset.Wf := ⟨Nat.zero_lt_of_lt h.head_lt, Nat.zero_le _⟩

theorem Wf.push (h : r.Wf) (hc : r.count < r.max) (a : α) : (r.push a).Wf := ⟨h.head_lt, hc⟩

theorem Wf.pop (h : r.Wf) : r.pop.Wf :=
  ⟨Nat.mod_lt _ (Nat.zero_lt_of_lt h.head_lt), (Nat.sub_le _ _).trans h.count_le⟩

theorem Wf.setNewest (h : r.Wf) (a : α) : (r.setNewest a).Wf := ⟨h.head_lt, h.count_le⟩

theorem map_update_cells {n : ℕ} (hn : n < r.max) (a : α) :
    ((List.range n).map fun i =>
      update r.cells ((r.head + n) % r.max) a ((r.head + i) % r.max)) =
    (List.range n).map fun i => r.cells ((r.head + i) % r.max) := by
  apply map_congr_left
  intro i hi
  exact update_of_ne (place_ne (mem_range.mp hi) hn) _ _

theorem toList_push (hc : r.count < r.max) (a : α) : (r.push a).toList = r.toList ++ [a] := by
  simp only [toList, push, tail, range_succ, map_append, map_singleton,
    update_self, map_update_cells hc]

theorem toList_pop (hc : 0 < r.count) (h : r.Wf) : r.toList = r.front :: r.pop.toList := by
  obtain ⟨n, hn⟩ := Nat.exists_eq_succ_of_ne_zero hc.ne'
  simp only [toList, pop, front, hn, Nat.succ_eq_add_one, Nat.add_sub_cancel, range_succ_eq_map,
    map_cons, map_map, Nat.add_zero, Nat.mod_eq_of_lt h.head_lt]
  congr 1
  apply map_congr_left
  intro i _
  simp only [comp_apply, Nat.succ_eq_add_one, Nat.mod_add_mod]
  congr 2
  omega

theorem toList_newest (hc : 0 < r.count) : r.toList = r.toList.dropLast ++ [r.cells r.newest] := by
  obtain ⟨n, hn⟩ := Nat.exists_eq_succ_of_ne_zero hc.ne'
  simp [toList, newest, hn, range_succ]

theorem toList_setNewest (hc : 0 < r.count) (h : r.Wf) (a : α) :
    (r.setNewest a).toList = r.toList.dropLast ++ [a] := by
  obtain ⟨n, hn⟩ := Nat.exists_eq_succ_of_ne_zero hc.ne'
  have hlt : n < r.max := by have := h.count_le; omega
  have hplace : r.newest = (r.head + n) % r.max := by simp [newest, hn]
  simp only [toList, setNewest, hplace, hn, Nat.succ_eq_add_one, range_succ, map_append,
    map_singleton, update_self, map_update_cells hlt, dropLast_concat]

end RingBuffer
end IrisOS.Lib
