import Mathlib.Data.List.Basic
import Mathlib.Tactic.Ring

/-! `qsort` and `bsearch` of the C library. An array is a number of elements of `sz` bytes at an
address, and `qsort` is an insertion sort that exchanges neighbours byte by byte. -/
namespace IrisOS.Libc
open Function List

/-- The sign of a comparison orders its arguments. -/
structure TotalPreorder {α : Type*} (cmp : α → α → ℤ) : Prop where
  swap : ∀ x y, 0 < cmp x y ↔ cmp y x < 0
  trans : ∀ x y z, cmp x y ≤ 0 → cmp y z ≤ 0 → cmp x z ≤ 0

/-- The list `r` is `l` in order, with equivalent elements in the order they had. -/
structure Sorts {α : Type*} (cmp : α → α → ℤ) (l r : List α) : Prop where
  sorted : r.Pairwise (cmp · · ≤ 0)
  perm : r ~ l
  stable : ∀ x, r.filter (cmp x · = 0) = l.filter (cmp x · = 0)

theorem Sorts.insert {α : Type*} {cmp : α → α → ℤ} {l p q : List α} {y : α}
    (h : Sorts cmp l (p ++ q)) (hcmp : TotalPreorder cmp) (hq : ∀ x ∈ q, 0 < cmp x y)
    (hp : ∀ x ∈ p.getLast?, cmp x y ≤ 0) : Sorts cmp (l ++ [y]) (p ++ y :: q) := by
  obtain ⟨hpp, hqq, hpq⟩ := pairwise_append.mp h.sorted
  have hle : ∀ x ∈ p, cmp x y ≤ 0 := by
    rcases eq_nil_or_concat' p with rfl | ⟨p, z, rfl⟩
    · nofun
    have hz : cmp z y ≤ 0 := hp z (by simp)
    intro x hx
    rcases mem_append.mp hx with hx | hx
    · exact hcmp.trans x z y ((pairwise_append.mp hpp).2.2 x hx z (by simp)) hz
    · rwa [mem_singleton.mp hx]
  refine ⟨pairwise_append.mpr ⟨hpp, pairwise_cons.mpr ⟨fun z hz => ?_, hqq⟩, fun x hx z hz => ?_⟩,
    ?_, fun x => ?_⟩
  · exact ((hcmp.swap z y).mp (hq z hz)).le
  · rcases mem_cons.mp hz with rfl | hz
    · exact hle x hx
    · exact hpq x hx z hz
  · exact perm_middle.trans ((h.perm.cons y).trans (perm_append_singleton y l).symm)
  · rw [filter_append, filter_append, ← h.stable, filter_append]
    by_cases hxy : cmp x y = 0
    · have hnone : q.filter (cmp x · = 0) = [] := by
        refine filter_eq_nil_iff.mpr fun z hz hxz => ?_
        have hxz : cmp x z = 0 := of_decide_eq_true hxz
        have hzx : cmp z x ≤ 0 := not_lt.mp fun hlt => by
          have := (hcmp.swap z x).mp hlt
          omega
        exact (hq z hz).not_ge (hcmp.trans z x y hzx hxy.le)
      simp [hxy, hnone]
    · simp [hxy]

section
variable (cmp : List UInt8 → List UInt8 → ℤ) (sz a : ℕ)

/-- Element `i` of the array at `a`. -/
def elem (m : ℕ → UInt8) (i : ℕ) : List UInt8 := (range sz).map fun k => m (a + i * sz + k)

def elems (m : ℕ → UInt8) (n : ℕ) : List (List UInt8) := (range n).map (elem sz a m)

/-- The byte loop, which exchanges the first bytes of two elements. -/
def exchange (m : ℕ → UInt8) (x y : ℕ) : ℕ → ℕ → UInt8
  | 0 => m
  | k + 1 =>
    let m := exchange m x y k
    update (update m (x + k) (m (y + k))) (y + k) (m (x + k))

/-- The inner loop, from `j` down. -/
def sift (m : ℕ → UInt8) : ℕ → ℕ → UInt8
  | 0 => m
  | j + 1 =>
    if cmp (elem sz a m j) (elem sz a m (j + 1)) > 0 then
      sift (exchange m (a + j * sz) (a + (j + 1) * sz) sz) j
    else m

/-- The first rounds of the outer loop, from `i = 1` up. -/
def rounds (m : ℕ → UInt8) : ℕ → ℕ → UInt8
  | 0 => m
  | i + 1 => sift cmp sz a (rounds m i) (i + 1)

def qsort (m : ℕ → UInt8) (n : ℕ) : ℕ → UInt8 :=
  if sz = 0 then m else rounds cmp sz a m (n - 1)

def bsearchFrom (m : ℕ → UInt8) (key : List UInt8) (lo hi : ℕ) : Option ℕ :=
  if lo < hi then
    let mid := lo + (hi - lo) / 2
    let r := cmp key (elem sz a m mid)
    if r = 0 then some (a + mid * sz)
    else if r < 0 then bsearchFrom m key lo mid else bsearchFrom m key (mid + 1) hi
  else none
termination_by hi - lo

/-- The address of the element found, or nothing for a null pointer. -/
def bsearch (m : ℕ → UInt8) (key : List UInt8) (n : ℕ) : Option ℕ :=
  if sz = 0 then none else bsearchFrom cmp sz a m key 0 n

end

section
variable {cmp : List UInt8 → List UInt8 → ℤ} {sz a : ℕ} {m : ℕ → UInt8}

theorem exchange_eq {x y k : ℕ} (h : x + k ≤ y) (z : ℕ) : exchange m x y k z =
    if x ≤ z ∧ z < x + k then m (y + (z - x))
    else if y ≤ z ∧ z < y + k then m (x + (z - y)) else m z := by
  induction k generalizing z with
  | zero => simp [exchange, show ¬ (x ≤ z ∧ z < x) by omega, show ¬ (y ≤ z ∧ z < y) by omega]
  | succ k ih =>
    have hih := ih (by omega)
    simp only [exchange, update_apply]
    rw [hih z, hih (x + k), hih (y + k)]
    split_ifs <;> first | rfl | omega | (congr 1; omega)

theorem elem_exchange (j i : ℕ) :
    elem sz a (exchange m (a + j * sz) (a + (j + 1) * sz) sz) i =
      if i = j then elem sz a m (j + 1) else if i = j + 1 then elem sz a m j else elem sz a m i := by
  have hnext : (j + 1) * sz = j * sz + sz := by ring
  have heq := fun z => exchange_eq (show a + j * sz + sz ≤ a + (j + 1) * sz by omega) z (m := m)
  split_ifs with hj hj1
  · refine map_congr_left fun k hk => ?_
    have hk := mem_range.mp hk
    rw [heq, hj, if_pos (by omega)]
    congr 1
    omega
  · refine map_congr_left fun k hk => ?_
    have hk := mem_range.mp hk
    rw [heq, hj1, if_neg (by omega), if_pos (by omega)]
    congr 1
    omega
  · refine map_congr_left fun k hk => ?_
    have hk := mem_range.mp hk
    have hoff : i * sz + sz ≤ j * sz ∨ (j + 1) * sz + sz ≤ i * sz := by
      rcases Nat.lt_or_gt_of_ne hj with hlt | hgt
      · left
        calc i * sz + sz = (i + 1) * sz := by ring
          _ ≤ j * sz := Nat.mul_le_mul_right sz hlt
      · right
        calc (j + 1) * sz + sz = (j + 2) * sz := by ring
          _ ≤ i * sz := Nat.mul_le_mul_right sz (by omega)
    rw [heq, if_neg (by omega), if_neg (by omega)]

theorem elems_succ (n : ℕ) : elems sz a m (n + 1) = elems sz a m n ++ [elem sz a m n] := by
  simp [elems, range_succ]

theorem elems_congr {m' : ℕ → UInt8} {n : ℕ} (h : ∀ i < n, elem sz a m' i = elem sz a m i) :
    elems sz a m' n = elems sz a m n :=
  map_congr_left fun i hi => h i (mem_range.mp hi)

/-- The inner loop puts element `j` behind the last one before it that is not larger. -/
theorem sift_spec (cmp : List UInt8 → List UInt8 → ℤ) (m : ℕ → UInt8) (j : ℕ) :
    ∃ p q, elems sz a m j = p ++ q ∧
      elems sz a (sift cmp sz a m j) (j + 1) = p ++ elem sz a m j :: q ∧
      (∀ i, j < i → elem sz a (sift cmp sz a m j) i = elem sz a m i) ∧
      (∀ x ∈ q, 0 < cmp x (elem sz a m j)) ∧ ∀ x ∈ p.getLast?, cmp x (elem sz a m j) ≤ 0 := by
  induction j generalizing m with
  | zero => exact ⟨[], [], rfl, rfl, fun _ _ => rfl, nofun, nofun⟩
  | succ j ih =>
    rw [sift]
    split_ifs with hgt
    · have hswap := @elem_exchange sz a m j
      generalize exchange m (a + j * sz) (a + (j + 1) * sz) sz = m' at hswap
      obtain ⟨p, q, hpq, hall, hrest, hq, hp⟩ := ih m'
      have hj : elem sz a m' j = elem sz a m (j + 1) := by rw [hswap, if_pos rfl]
      have hnext : elem sz a m' (j + 1) = elem sz a m j := by simp [hswap]
      have hbelow : elems sz a m' j = elems sz a m j :=
        elems_congr fun i hi => by rw [hswap, if_neg (by omega), if_neg (by omega)]
      rw [hj] at hall hq hp
      refine ⟨p, q ++ [elem sz a m j], ?_, ?_, fun i hi => ?_, fun x hx => ?_, hp⟩
      · rw [elems_succ, ← hbelow, hpq, append_assoc]
      · rw [elems_succ, hall, hrest _ (Nat.lt_succ_self j), hnext]
        simp
      · rw [hrest i (by omega), hswap, if_neg (by omega), if_neg (by omega)]
      · rcases mem_append.mp hx with hx | hx
        · exact hq x hx
        · rwa [mem_singleton.mp hx]
    · refine ⟨elems sz a m (j + 1), [], (append_nil _).symm, elems_succ _, fun _ _ => rfl, nofun,
        fun x hx => ?_⟩
      rw [elems_succ, getLast?_concat, Option.mem_some_iff] at hx
      rw [← hx]
      exact not_lt.mp hgt

theorem rounds_spec (hcmp : TotalPreorder cmp) (i : ℕ) :
    Sorts cmp (elems sz a m (i + 1)) (elems sz a (rounds cmp sz a m i) (i + 1)) ∧
      ∀ j, i < j → elem sz a (rounds cmp sz a m i) j = elem sz a m j := by
  induction i with
  | zero => exact ⟨⟨by simp [elems], .rfl, fun _ => rfl⟩, fun _ _ => rfl⟩
  | succ i ih =>
    obtain ⟨hsorts, hrest⟩ := ih
    obtain ⟨p, q, hpq, hall, hkeep, hq, hp⟩ := sift_spec cmp (rounds cmp sz a m i) (i + 1)
    rw [hrest _ (Nat.lt_succ_self i)] at hall hq hp
    refine ⟨?_, fun j hj => ?_⟩
    · rw [elems_succ, rounds, hall]
      exact (hpq ▸ hsorts).insert hcmp hq hp
    · rw [rounds, hkeep j hj, hrest j (by omega)]

theorem qsort_sorts (hcmp : TotalPreorder cmp) (n : ℕ) :
    Sorts cmp (elems sz a m n) (elems sz a (qsort cmp sz a m n) n) := by
  unfold qsort
  split_ifs with hsz
  · have hrefl : cmp [] [] ≤ 0 := not_lt.mp fun h => absurd ((hcmp.swap _ _).mp h) h.not_gt
    refine ⟨pairwise_of_forall_mem_list fun x hx y hy => ?_, .rfl, fun _ => rfl⟩
    obtain ⟨i, -, rfl⟩ := mem_map.mp hx
    obtain ⟨j, -, rfl⟩ := mem_map.mp hy
    simpa [elem, hsz] using hrefl
  · cases n with
    | zero => exact ⟨.nil, .rfl, fun _ => rfl⟩
    | succ n => exact (rounds_spec hcmp n).1

theorem bsearchFrom_some {key : List UInt8} {lo hi p : ℕ}
    (h : bsearchFrom cmp sz a m key lo hi = some p) :
    ∃ i < hi, p = a + i * sz ∧ cmp key (elem sz a m i) = 0 := by
  fun_induction bsearchFrom cmp sz a m key lo hi with
  | case1 lo hi hlt mid r hr => exact ⟨mid, by omega, (Option.some.inj h).symm, hr⟩
  | case2 lo hi hlt mid r hr hneg ih =>
    obtain ⟨i, hi', hp⟩ := ih h
    exact ⟨i, by omega, hp⟩
  | case3 lo hi hlt mid r hr hneg ih => exact ih h
  | case4 => cases h

theorem bsearchFrom_none (hcmp : TotalPreorder cmp) {key : List UInt8} {n lo hi : ℕ}
    (hsorted : (elems sz a m n).Pairwise (cmp · · ≤ 0))
    (h : bsearchFrom cmp sz a m key lo hi = none) (hhi : hi ≤ n)
    (hbelow : ∀ i < lo, cmp key (elem sz a m i) ≠ 0)
    (habove : ∀ i, hi ≤ i → i < n → cmp key (elem sz a m i) ≠ 0) :
    ∀ i < n, cmp key (elem sz a m i) ≠ 0 := by
  have hle : ∀ i j, i < j → j < n → cmp (elem sz a m i) (elem sz a m j) ≤ 0 := fun i j hij hj => by
    simpa [elems] using pairwise_iff_getElem.mp hsorted i j (by simp [elems]; omega)
      (by simpa [elems]) hij
  fun_induction bsearchFrom cmp sz a m key lo hi with
  | case1 => cases h
  | case2 lo hi hlt mid r hr hneg ih =>
    refine ih h (by omega) hbelow fun i hmid hi hzero => ?_
    rcases hmid.eq_or_lt with rfl | hmid
    · exact hr hzero
    have hback : cmp (elem sz a m i) key ≤ 0 := not_lt.mp fun hlt => by
      have := (hcmp.swap _ _).mp hlt
      omega
    exact ((hcmp.swap _ _).mpr hneg).not_ge (hcmp.trans _ _ _ (hle mid i hmid hi) hback)
  | case3 lo hi hlt mid r hr hneg ih =>
    refine ih h hhi (fun i hi hzero => ?_) habove
    rcases (Nat.le_of_lt_succ hi).eq_or_lt with rfl | hmid
    · exact hr hzero
    have := hcmp.trans _ _ _ hzero.le (hle i mid hmid (by omega))
    omega
  | case4 lo hi hlt =>
    intro i hi
    rcases lt_or_ge i lo with hlo | hlo
    · exact hbelow i hlo
    · exact habove i (by omega) hi

/-- Sorting leaves a stable permutation in order, and a search in order finds a match if there is
one. -/
theorem sorted_and_found (hcmp : TotalPreorder cmp) (n : ℕ) :
    Sorts cmp (elems sz a m n) (elems sz a (qsort cmp sz a m n) n) ∧
      ((elems sz a m n).Pairwise (cmp · · ≤ 0) → 0 < sz → ∀ key,
        (∀ p, bsearch cmp sz a m key n = some p →
          ∃ i < n, p = a + i * sz ∧ cmp key (elem sz a m i) = 0) ∧
        ((bsearch cmp sz a m key n).isSome ↔ ∃ i < n, cmp key (elem sz a m i) = 0)) := by
  refine ⟨qsort_sorts hcmp n, fun hsorted hsz key => ?_⟩
  rw [bsearch, if_neg hsz.ne']
  refine ⟨fun p hp => bsearchFrom_some hp, fun hsome => ?_, fun ⟨i, hi, hzero⟩ => ?_⟩
  · obtain ⟨p, hp⟩ := Option.isSome_iff_exists.mp hsome
    obtain ⟨i, hi, -, hzero⟩ := bsearchFrom_some hp
    exact ⟨i, hi, hzero⟩
  · by_contra hnone
    exact bsearchFrom_none hcmp hsorted (by simpa using hnone) le_rfl
      (fun _ h => absurd h (Nat.not_lt_zero _)) (fun _ h h' => absurd h' h.not_gt) i hi hzero

end

/-- Compare by the first byte. -/
def byKey (x y : List UInt8) : ℤ := (x.headD 0).toNat - (y.headD 0).toNat

/-- Four elements of two bytes at address 16, a key and the place it starts at. -/
def pairs (p : ℕ) : UInt8 := [3, 0, 1, 1, 3, 2, 2, 3].getD (p - 16) 0

/-- Three elements are moved, and the two with key 3 stay in their order; of the keys 2 and 4, the
first is found. -/
theorem sorted_and_found_pairs :
    Sorts byKey [[3, 0], [1, 1], [3, 2], [2, 3]] [[1, 1], [2, 3], [3, 0], [3, 2]] ∧
      (bsearch byKey 2 16 (qsort byKey 2 16 pairs 4) [2] 4).isSome = true ∧
      (bsearch byKey 2 16 (qsort byKey 2 16 pairs 4) [4] 4).isSome ≠ true := by
  have hcmp : TotalPreorder byKey :=
    ⟨fun x y => by simp only [byKey]; omega, fun x y z => by simp only [byKey]; omega⟩
  have hbefore : elems 2 16 pairs 4 = [[3, 0], [1, 1], [3, 2], [2, 3]] := by decide
  have hafter : elems 2 16 (qsort byKey 2 16 pairs 4) 4 = [[1, 1], [2, 3], [3, 0], [3, 2]] := by
    decide
  have hsort := (@sorted_and_found _ 2 16 pairs hcmp 4).1
  have hfind := (@sorted_and_found _ 2 16 (qsort byKey 2 16 pairs 4) hcmp 4).2 hsort.sorted two_pos
  rw [hbefore, hafter] at hsort
  exact ⟨hsort, (hfind [2]).2.mpr (by decide), mt (hfind [4]).2.mp (by decide)⟩

/-- In an array of elements without bytes nothing is found. -/
theorem bsearch_misses_empty_element :
    TotalPreorder (fun _ _ : List UInt8 => (0 : ℤ)) ∧
      (elems 0 0 (fun _ => 0) 1).Pairwise (fun _ _ => (0 : ℤ) ≤ 0) ∧
      bsearch (fun _ _ => 0) 0 0 (fun _ => 0) [] 1 = none ∧ [] ∈ elems 0 0 (fun _ => 0) 1 :=
  ⟨⟨by simp, by simp⟩, by simp [elems], rfl, by simp [elems, elem]⟩

end IrisOS.Libc
