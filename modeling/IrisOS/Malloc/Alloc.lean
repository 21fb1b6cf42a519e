import IrisOS.Lib.LittleEndian
import IrisOS.Lib.SingleChain

/-! The C library's heap: first fit over a free list threaded through the memory it manages.
Addresses and sizes are 64-bit; a function whose list walk does not end has no result. -/
namespace IrisOS.Malloc
open Lib

abbrev Mem := ℕ → UInt8

/-- The fields of a block header, `struct iris_blk`. -/
inductive Field where
  | size
  | next
  | free
  deriving DecidableEq

def Field.offset : Field → ℕ
  | size => 0
  | next => 8
  | free => 16

def get (m : Mem) (b : ℕ) (f : Field) : ℕ := load64 m (b + f.offset)

def set (m : Mem) (b : ℕ) (f : Field) (v : ℕ) : Mem := store64 m (b + f.offset) v

def sub64 (a b : ℕ) : ℕ := (a + 2 ^ 64 - b) % 2 ^ 64

/-- Rounding up to 16 by adding 15, which may wrap, and clearing the low bits. -/
def alignUp (n : ℕ) : ℕ := (n + 15) % 2 ^ 64 / 16 * 16

/-- The header's size, rounded up. -/
def hdr : ℕ := 32

def heapGrowMin : ℕ := 64 * 1024

def blkOf (p : ℕ) : ℕ := sub64 p hdr

def payOf (b : ℕ) : ℕ := (b + hdr) % 2 ^ 64

structure Heap where
  mem : Mem
  freelist : ℕ

def heapUsable (h : Heap) (p : ℕ) : ℕ := if p = 0 then 0 else get h.mem (blkOf p) .size

/-- The number of nodes a walk is followed for: no list without a cycle is longer. -/
def walkBound : ℕ := 2 ^ 64

/-- The store through the link that led to a block, or to the head of the list. -/
def setLink (h : Heap) (prev v : ℕ) : Heap :=
  if prev = 0 then { h with freelist := v } else { h with mem := set h.mem prev .next v }

/-- Cutting what a request leaves of a block into a free block of its own, when it could
hold one. -/
def splitBlock (m : Mem) (b want : ℕ) : Mem :=
  if (want + hdr + 16) % 2 ^ 64 ≤ get m b .size then
    let rest := (b + hdr + want) % 2 ^ 64
    let m₁ := set m rest .size (sub64 (sub64 (get m b .size) want) hdr)
    let m₂ := set m₁ rest .free 1
    let m₃ := set m₂ rest .next (get m₂ b .next)
    let m₄ := set m₃ b .size want
    set m₄ b .next rest
  else m

def unlinkBlock (h : Heap) (prev b : ℕ) : Heap :=
  let m₁ := set h.mem b .free 0
  let h₂ := setLink { h with mem := m₁ } prev (get m₁ b .next)
  { h₂ with mem := set h₂.mem b .next 0 }

/-- The block the allocation loop does not skip. -/
def canTake (m : Mem) (want b : ℕ) : Bool := !(get m b .free == 0 || get m b .size < want)

/-- First fit, unlinking and splitting; 0 when nothing fits. -/
def heapTake (h : Heap) (want : ℕ) : Option (Heap × ℕ) := do
  let (prev, b) ← findFrom 0 (get h.mem · .next) (canTake h.mem want) walkBound 0 h.freelist
  if b = 0 then return (h, 0)
  return (unlinkBlock { h with mem := splitBlock h.mem b want } prev b, payOf b)

/-- The heap a call leaves, its pointer, and the region the callback gave, with the size asked. -/
structure Outcome where
  heap : Heap
  ptr : ℕ
  grown : Option (ℕ × ℕ) := none

/-- A new region as one free block at the head of the list. -/
def addRegion (h : Heap) (b size : ℕ) : Heap :=
  ⟨set (set (set h.mem b .size size) b .free 1) b .next h.freelist, b⟩

/-- The second half of an allocation: the callback `grow` answers with an address, or with 0. -/
def heapGrow (h : Heap) (grow : ℕ → ℕ) (want : ℕ) : Option Outcome :=
  let sum := (hdr + want) % 2 ^ 64
  let asked := if sum < heapGrowMin then heapGrowMin else sum
  if sum < hdr then some ⟨h, 0, none⟩
  else if grow asked = 0 then some ⟨h, 0, none⟩
  else (heapTake (addRegion h (grow asked) (sub64 asked hdr)) want).map fun r =>
    ⟨r.1, r.2, some (grow asked, asked)⟩

def heapMalloc (h : Heap) (grow : ℕ → ℕ) (n : ℕ) : Option Outcome := do
  let n := if n = 0 then 1 else n
  let want := alignUp n
  if want < n then return ⟨h, 0, none⟩
  let (h₁, p) ← heapTake h want
  if p ≠ 0 then return ⟨h₁, p, none⟩
  heapGrow h₁ grow want

def mergeBlock (h : Heap) (prev b nxt : ℕ) : Heap :=
  let h₁ := setLink h prev (get h.mem nxt .next)
  let sum := (get h₁.mem b .size + (hdr + get h₁.mem nxt .size)) % 2 ^ 64
  { h₁ with mem := set h₁.mem b .size sum }

/-- The block the coalescing loop stops at. -/
def canMerge (m : Mem) (nxt c : ℕ) : Bool := c == nxt && get m nxt .free != 0

/-- The block behind a freed one in memory is joined to it when the list has that one. -/
def coalesce (h : Heap) (b : ℕ) : Option Heap :=
  let nxt := (b + hdr + get h.mem b .size) % 2 ^ 64
  (findFrom 0 (get h.mem · .next) (canMerge h.mem nxt) walkBound 0 h.freelist).map fun r =>
    if r.2 = 0 then h else mergeBlock h r.1 b nxt

/-- Freeing puts the block at the head of the list; a block already free is left alone. -/
def heapFree (h : Heap) (p : ℕ) : Option Heap :=
  let b := blkOf p
  if p = 0 then some h
  else if get h.mem b .free ≠ 0 then some h
  else coalesce ⟨set (set h.mem b .free 1) b .next h.freelist, b⟩ b

def zeroBytes (m : Mem) (p : ℕ) : ℕ → Mem
  | 0 => m
  | i + 1 => Function.update (zeroBytes m p i) (p + i) 0

def copyBytes (m : Mem) (d s : ℕ) : ℕ → Mem
  | 0 => m
  | i + 1 => Function.update (copyBytes m d s i) (d + i) (copyBytes m d s i (s + i))

def heapCalloc (h : Heap) (grow : ℕ → ℕ) (a b : ℕ) : Option Outcome :=
  if a ≠ 0 ∧ (2 ^ 64 - 1) / a < b then some ⟨h, 0, none⟩
  else
    let n := a * b % 2 ^ 64
    (heapMalloc h grow n).map fun o =>
      if o.ptr = 0 then o
      else { o with heap := { o.heap with mem := zeroBytes o.heap.mem o.ptr n } }

def heapRealloc (h : Heap) (grow : ℕ → ℕ) (p n : ℕ) : Option Outcome :=
  let b := blkOf p
  if p = 0 then heapMalloc h grow n
  else if n = 0 then (heapFree h p).map fun h' => ⟨h', 0, none⟩
  else if n ≤ get h.mem b .size then some ⟨h, p, none⟩
  else (heapMalloc h grow n).bind fun o =>
    if o.ptr = 0 then some o
    else
      let m := copyBytes o.heap.mem o.ptr p (get o.heap.mem b .size)
      (heapFree { o.heap with mem := m } p).map fun h' => { o with heap := h' }

end IrisOS.Malloc
