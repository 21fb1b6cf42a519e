import Mathlib.Algebra.Order.Ring.Nat
import Mathlib.Data.Nat.Bitwise

/-! Buddy systems: free blocks of `2 ^ k` pages at multiples of their size, in a list for each order
and a tag on their first page, that tile a set of pages. -/
namespace IrisOS.Lib
open Function

/-- Free lists by order, and `k + 1` for every page where a free block of order `k` starts. -/
structure Buddy where
  fl : ℕ → List ℕ := fun _ => []
  tag : ℕ → ℕ := fun _ => 0

/-- The pages of the block of order `k` at `p`. -/
def InBlock (p k q : ℕ) : Prop := p ≤ q ∧ q < p + 2 ^ k

instance (p k q : ℕ) : Decidable (InBlock p k q) := inferInstanceAs (Decidable (_ ∧ _))

namespace Buddy

def insert (B : Buddy) (p k : ℕ) : Buddy where
  fl := update B.fl k (p :: B.fl k)
  tag := update B.tag p (k + 1)

def remove (B : Buddy) (p k : ℕ) : Buddy where
  fl := update B.fl k ((B.fl k).erase p)
  tag := update B.tag p 0

/-- The blocks of a system, of orders up to `top` within `n` pages, tile the free pages. -/
structure Tiles (B : Buddy) (top n : ℕ) (free : ℕ → Prop) : Prop where
  listed : ∀ p k, p ∈ B.fl k ↔ B.tag p = k + 1
  nodup : ∀ k, (B.fl k).Nodup
  aligned : ∀ p k, B.tag p = k + 1 → k ≤ top ∧ 2 ^ k ∣ p ∧ p + 2 ^ k ≤ n
  inside : ∀ p k q, B.tag p = k + 1 → InBlock p k q → free q
  covers : ∀ q, free q → ∃ p k, B.tag p = k + 1 ∧ InBlock p k q
  apart : ∀ p k p' k' q, B.tag p = k + 1 → B.tag p' = k' + 1 → InBlock p k q → InBlock p' k' q →
    p = p'

section
variable {B : Buddy} {top n p k : ℕ} {free : ℕ → Prop}

theorem inBlock_self (p k : ℕ) : InBlock p k p :=
  ⟨le_rfl, Nat.lt_add_of_pos_right (Nat.two_pow_pos k)⟩

theorem tiles_empty (top n : ℕ) : Tiles {} top n fun _ => False where
  listed _ _ := ⟨nofun, nofun⟩
  nodup _ := List.nodup_nil
  aligned := nofun
  inside := nofun
  covers := nofun
  apart := nofun

theorem Tiles.congr {free' : ℕ → Prop} (h : Tiles B top n free) (heq : ∀ q, free q ↔ free' q) :
    Tiles B top n free' := by
  have : free = free' := funext fun q => propext (heq q)
  exact this ▸ h

theorem tag_insert (B : Buddy) (p k q : ℕ) :
    (B.insert p k).tag q = if q = p then k + 1 else B.tag q := update_apply _ _ _ _

theorem tag_remove (B : Buddy) (p k q : ℕ) :
    (B.remove p k).tag q = if q = p then 0 else B.tag q := update_apply _ _ _ _

theorem fl_insert (B : Buddy) (p k j : ℕ) :
    (B.insert p k).fl j = if j = k then p :: B.fl k else B.fl j := update_apply _ _ _ _

theorem fl_remove (B : Buddy) (p k j : ℕ) :
    (B.remove p k).fl j = if j = k then (B.fl k).erase p else B.fl j := update_apply _ _ _ _

theorem Tiles.tag_eq_zero (h : Tiles B top n free) (hnew : ∀ q, InBlock p k q → ¬ free q) :
    B.tag p = 0 := by
  cases htag : B.tag p with
  | zero => rfl
  | succ j => exact absurd (h.inside p j p htag (inBlock_self p j)) (hnew p (inBlock_self p k))

theorem Tiles.insert (h : Tiles B top n free) (hk : k ≤ top) (hdvd : 2 ^ k ∣ p)
    (hn : p + 2 ^ k ≤ n) (hnew : ∀ q, InBlock p k q → ¬ free q) :
    Tiles (B.insert p k) top n fun q => free q ∨ InBlock p k q := by
  have hzero := h.tag_eq_zero hnew
  -- a tag after the insertion is the new one or an old one elsewhere
  have htag : ∀ q j, (B.insert p k).tag q = j + 1 → q = p ∧ j = k ∨ q ≠ p ∧ B.tag q = j + 1 := by
    intro q j hj
    rw [tag_insert] at hj
    split at hj
    · rename_i hq
      exact .inl ⟨hq, by omega⟩
    · rename_i hq
      exact .inr ⟨hq, hj⟩
  have hold : ∀ q j, B.tag q = j + 1 → (B.insert p k).tag q = j + 1 := by
    intro q j hj
    have hne : q ≠ p := by
      rintro rfl
      omega
    rw [tag_insert, if_neg hne, hj]
  have hself : (B.insert p k).tag p = k + 1 := by rw [tag_insert, if_pos rfl]
  refine ⟨fun q j => ?_, fun j => ?_, fun q j hj => ?_, fun q j r hj hr => ?_, fun r hr => ?_,
    fun q j q' j' r hj hj' hr hr' => ?_⟩
  · rw [fl_insert]
    constructor
    · intro hmem
      split at hmem
      · rename_i hjk
        subst hjk
        obtain rfl | hmem := List.mem_cons.mp hmem
        · exact hself
        · exact hold q j ((h.listed q j).mp hmem)
      · exact hold q j ((h.listed q j).mp hmem)
    · intro hj
      obtain ⟨rfl, rfl⟩ | ⟨-, hwas⟩ := htag q j hj
      · rw [if_pos rfl]
        exact List.mem_cons_self
      · split
        · rename_i hjk
          exact List.mem_cons_of_mem _ (hjk ▸ (h.listed q j).mpr hwas)
        · exact (h.listed q j).mpr hwas
  · rw [fl_insert]
    split
    · refine List.nodup_cons.mpr ⟨fun hmem => ?_, h.nodup k⟩
      have := (h.listed p k).mp hmem
      omega
    · exact h.nodup j
  · obtain ⟨rfl, rfl⟩ | ⟨-, hj⟩ := htag q j hj
    · exact ⟨hk, hdvd, hn⟩
    · exact h.aligned q j hj
  · obtain ⟨rfl, rfl⟩ | ⟨-, hj⟩ := htag q j hj
    · exact .inr hr
    · exact .inl (h.inside q j r hj hr)
  · obtain hr | hr := hr
    · obtain ⟨q, j, hj, hin⟩ := h.covers r hr
      exact ⟨q, j, hold q j hj, hin⟩
    · exact ⟨p, k, hself, hr⟩
  · obtain ⟨rfl, rfl⟩ | ⟨-, hwas⟩ := htag q j hj
    · obtain ⟨rfl, -⟩ | ⟨-, hwas'⟩ := htag q' j' hj'
      · rfl
      · exact absurd (h.inside q' j' r hwas' hr') (hnew r hr)
    · obtain ⟨rfl, rfl⟩ | ⟨-, hwas'⟩ := htag q' j' hj'
      · exact absurd (h.inside q j r hwas hr) (hnew r hr')
      · exact h.apart q j q' j' r hwas hwas' hr hr'

theorem Tiles.remove (h : Tiles B top n free) (hp : B.tag p = k + 1) :
    Tiles (B.remove p k) top n fun q => free q ∧ ¬ InBlock p k q := by
  have htag : ∀ q j, (B.remove p k).tag q = j + 1 ↔ q ≠ p ∧ B.tag q = j + 1 := by
    intro q j
    rw [tag_remove]
    by_cases hq : q = p
    · simp [hq]
    · simp [hq]
  refine ⟨fun q j => ?_, fun j => ?_, fun q j hj => ?_, fun q j r hj hr => ?_, fun r hr => ?_,
    fun q j q' j' r hj hj' hr hr' => ?_⟩
  · rw [htag, fl_remove]
    by_cases hjk : j = k
    · subst hjk
      rw [if_pos rfl, (h.nodup j).mem_erase_iff, h.listed]
    · rw [if_neg hjk, h.listed]
      refine ⟨fun hj => ⟨?_, hj⟩, fun hj => hj.2⟩
      rintro rfl
      omega
  · rw [fl_remove]
    split
    · exact (h.nodup k).erase p
    · exact h.nodup j
  · exact h.aligned q j ((htag q j).mp hj).2
  · obtain ⟨hne, hj⟩ := (htag q j).mp hj
    exact ⟨h.inside q j r hj hr, fun hin => hne (h.apart q j p k r hj hp hr hin)⟩
  · obtain ⟨q, j, hj, hin⟩ := h.covers r hr.1
    refine ⟨q, j, (htag q j).mpr ⟨?_, hj⟩, hin⟩
    rintro rfl
    obtain rfl : j = k := by omega
    exact hr.2 hin
  · exact h.apart q j q' j' r ((htag q j).mp hj).2 ((htag q' j').mp hj').2 hr hr'

end

theorem xor_two_pow (hdvd : 2 ^ k ∣ p) :
    2 ^ (k + 1) ∣ p ∧ p ^^^ 2 ^ k = p + 2 ^ k ∨
      2 ^ k ≤ p ∧ 2 ^ (k + 1) ∣ p - 2 ^ k ∧ p ^^^ 2 ^ k = p - 2 ^ k := by
  obtain ⟨m, rfl⟩ := hdvd
  have hshift : 2 ^ k * m ^^^ 2 ^ k = 2 ^ k * (m ^^^ 1) := by
    have := Nat.shiftLeft_xor_distrib (a := m) (b := 1) (i := k)
    simp only [Nat.shiftLeft_eq, Nat.one_mul] at this
    rw [Nat.mul_comm (2 ^ k), Nat.mul_comm (2 ^ k), this]
  rw [hshift]
  obtain heven | hodd := Nat.even_or_odd m
  · refine .inl ⟨?_, ?_⟩
    · rw [pow_succ]
      exact Nat.mul_dvd_mul_left _ heven.two_dvd
    · rw [Nat.xor_one_of_even heven, Nat.mul_add, Nat.mul_one]
  have hpos : 1 ≤ m := by
    obtain ⟨j, rfl⟩ := hodd
    omega
  have hsub : 2 ^ k * m - 2 ^ k = 2 ^ k * (m - 1) := by rw [Nat.mul_sub, Nat.mul_one]
  refine .inr ⟨Nat.le_mul_of_pos_right _ hpos, ?_, ?_⟩
  · rw [hsub, pow_succ]
    exact Nat.mul_dvd_mul_left _ (Nat.Odd.sub_odd hodd odd_one).two_dvd
  · rw [Nat.xor_one_of_odd hodd, hsub]

theorem merge (hdvd : 2 ^ k ∣ p) :
    2 ^ (k + 1) ∣ (if p ^^^ 2 ^ k < p then p ^^^ 2 ^ k else p) ∧
      ∀ q, InBlock (if p ^^^ 2 ^ k < p then p ^^^ 2 ^ k else p) (k + 1) q ↔
        InBlock p k q ∨ InBlock (p ^^^ 2 ^ k) k q := by
  unfold InBlock
  obtain ⟨hnext, hbuddy⟩ | ⟨hle, hnext, hbuddy⟩ := xor_two_pow hdvd
  · rw [hbuddy, if_neg (by omega)]
    exact ⟨hnext, fun q => by omega⟩
  · rw [hbuddy, if_pos (by omega)]
    exact ⟨hnext, fun q => by omega⟩

end Buddy
end IrisOS.Lib
