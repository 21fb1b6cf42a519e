import Mathlib.Data.Nat.Digits.Defs

/-! Little-endian integers in byte memories, which are functions from addresses to bytes; 64-bit
words have their own loads and stores. -/
namespace IrisOS.Lib

/-- The little-endian number in the first bytes of a memory. -/
def loadLe (mem : ℕ → UInt8) : ℕ → ℕ
  | 0 => 0
  | width + 1 => loadLe mem width + (mem width).toNat * 256 ^ width

/-- Byte `i` of a number. -/
def byteOf (value i : ℕ) : UInt8 := UInt8.ofNat (value / 256 ^ i)

@[simp] theorem toNat_byteOf (value i : ℕ) : (byteOf value i).toNat = value / 256 ^ i % 256 :=
  UInt8.toNat_ofNat'

theorem loadLe_lt (mem : ℕ → UInt8) (width : ℕ) : loadLe mem width < 256 ^ width := by
  induction width with
  | zero => exact Nat.one_pos
  | succ width ih =>
    have hbyte : (mem width).toNat + 1 ≤ 256 := (mem width).toNat_lt
    calc loadLe mem width + (mem width).toNat * 256 ^ width
        < 256 ^ width + (mem width).toNat * 256 ^ width := Nat.add_lt_add_right ih _
      _ = ((mem width).toNat + 1) * 256 ^ width := by ring
      _ ≤ 256 * 256 ^ width := Nat.mul_le_mul_right _ hbyte
      _ = 256 ^ (width + 1) := by ring

theorem loadLe_congr {mem mem' : ℕ → UInt8} {width : ℕ} (h : ∀ i < width, mem i = mem' i) :
    loadLe mem width = loadLe mem' width := by
  induction width with
  | zero => rfl
  | succ width ih =>
    rw [loadLe, loadLe, ih fun i hi => h i (Nat.lt_succ_of_lt hi), h width (Nat.lt_succ_self _)]

theorem loadLe_byteOf (value width : ℕ) : loadLe (byteOf value) width = value % 256 ^ width := by
  induction width with
  | zero => exact (Nat.mod_one value).symm
  | succ width ih =>
    rw [loadLe, ih, toNat_byteOf, pow_succ, Nat.mod_mul]
    ring

theorem loadLe_byteOf_of_lt {value width : ℕ} (h : value < 256 ^ width) :
    loadLe (byteOf value) width = value := by
  rw [loadLe_byteOf, Nat.mod_eq_of_lt h]

/-- The 64-bit word at an address. -/
def load64 (mem : ℕ → UInt8) (a : ℕ) : ℕ := loadLe (fun i => mem (a + i)) 8

/-- The memory with a 64-bit word stored at an address. -/
def store64 (mem : ℕ → UInt8) (a value : ℕ) : ℕ → UInt8 :=
  fun x => if a ≤ x ∧ x < a + 8 then byteOf value (x - a) else mem x

variable {mem : ℕ → UInt8} {a c value : ℕ}

theorem load64_lt : load64 mem a < 2 ^ 64 := loadLe_lt _ 8

theorem store64_outside {x : ℕ} (h : x < a ∨ a + 8 ≤ x) : store64 mem a value x = mem x :=
  if_neg (by omega)

theorem load64_store64_same : load64 (store64 mem a value) a = value % 2 ^ 64 := by
  have hbytes : ∀ i < 8, store64 mem a value (a + i) = byteOf value i := by
    intro i hi
    rw [store64, if_pos (by omega), Nat.add_sub_cancel_left]
  rw [load64, loadLe_congr hbytes]
  exact loadLe_byteOf value 8

theorem load64_store64_apart (h : c + 8 ≤ a ∨ a + 8 ≤ c) :
    load64 (store64 mem a value) c = load64 mem c :=
  loadLe_congr fun i hi => store64_outside (by omega)

end IrisOS.Lib
