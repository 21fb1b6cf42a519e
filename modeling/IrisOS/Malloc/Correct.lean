import IrisOS.Malloc.Calls

/-! The heap as an allocator: over every sequence of calls the live blocks are disjoint, aligned,
large enough and inside the regions, their bytes are kept, and every other block is listed once. -/
namespace IrisOS.Malloc
open Lib List

/-- The heap with the regions given to it and the live pointers, each with the size asked. -/
structure System where
  heap : Heap
  regions : List (ℕ × ℕ)
  live : List (ℕ × ℕ)

def System.start (mem : Mem) : System := ⟨⟨mem, 0⟩, [], []⟩

/-- The calls, each with the callback's behaviour during it, and the program's own stores. -/
inductive Op where
  | malloc (grow : ℕ → ℕ) (n : ℕ)
  | calloc (grow : ℕ → ℕ) (a b : ℕ)
  | realloc (grow : ℕ → ℕ) (p n : ℕ)
  | free (p : ℕ)
  | store (a : ℕ) (v : UInt8)

/-- The live pointers without one of them. -/
def dropPtr (live : List (ℕ × ℕ)) (p : ℕ) : List (ℕ × ℕ) := live.eraseP (·.1 == p)

/-- The caller's view of an allocation of `n` bytes in the place of nothing or of one block. -/
def System.allocated (s : System) (kept : List (ℕ × ℕ)) (n : ℕ) (o : Outcome) : System × ℕ :=
  (⟨o.heap, o.grown.toList ++ s.regions, if o.ptr = 0 then s.live else (o.ptr, n) :: kept⟩, o.ptr)

def step (s : System) : Op → Option (System × ℕ)
  | .malloc grow n => (heapMalloc s.heap grow n).map (s.allocated s.live n)
  | .calloc grow a b => (heapCalloc s.heap grow a b).map (s.allocated s.live (a * b))
  | .realloc grow p n => (heapRealloc s.heap grow p n).map fun o =>
      if p ≠ 0 ∧ n = 0 then (⟨o.heap, s.regions, dropPtr s.live p⟩, o.ptr)
      else s.allocated (dropPtr s.live p) n o
  | .free p => (heapFree s.heap p).map fun h => (⟨h, s.regions, dropPtr s.live p⟩, 0)
  | .store a v => some ({ s with heap := ⟨Function.update s.heap.mem a v, s.heap.freelist⟩ }, 0)

/-- A pointer the program may pass back: null, or one that is live. -/
def ValidPtr (s : System) (p : ℕ) : Prop := p = 0 ∨ ∃ k, (p, k) ∈ s.live

/-- Sizes are 64-bit, pointers are valid, regions are fresh, and stores go to live blocks or outside
the heap. -/
def Valid (s : System) : Op → Prop
  | .malloc grow n => GrowOk s.regions grow ∧ n < 2 ^ 64
  | .calloc grow a b => GrowOk s.regions grow ∧ a < 2 ^ 64 ∧ b < 2 ^ 64
  | .realloc grow p n => GrowOk s.regions grow ∧ n < 2 ^ 64 ∧ ValidPtr s p
  | .free p => ValidPtr s p
  | .store a _ =>
      (∃ x ∈ s.live, x.1 ≤ a ∧ a < x.1 + heapUsable s.heap x.1) ∨ ¬ Grown s.regions a

def run : System → List Op → Option System
  | s, [] => some s
  | s, op :: ops => (step s op).bind fun r => run r.1 ops

/-- Every operation of the sequence is valid when it is made. -/
def ValidRun : System → List Op → Prop
  | _, [] => True
  | s, op :: ops => Valid s op ∧ ∀ r, step s op = some r → ValidRun r.1 ops

def headers (live : List (ℕ × ℕ)) : List ℕ := live.map fun x => x.1 - hdr

/-- A correct allocator: the free list has every block that is not live, once. -/
structure Correct (s : System) : Prop where
  aligned : ∀ x ∈ s.live, 16 ∣ x.1
  large : ∀ x ∈ s.live, x.2 ≤ heapUsable s.heap x.1
  inside : ∀ x ∈ s.live, ∀ a, x.1 ≤ a → a < x.1 + heapUsable s.heap x.1 → Grown s.regions a
  disjoint : s.live.Pairwise fun x y =>
    x.1 + heapUsable s.heap x.1 ≤ y.1 ∨ y.1 + heapUsable s.heap y.1 ≤ x.1
  listed : ∃ free, Linked 0 (get s.heap.mem · .next) s.heap.freelist free 0 ∧ free.Nodup ∧
    Tiles (extent s.heap.mem) (free ++ headers s.live) (Grown s.regions)

/-- Blocks live before and after keep their bytes, `calloc` zeroes, `realloc` fails without a change
or keeps the bytes. -/
def Effect (s : System) (op : Op) (s' : System) (r : ℕ) : Prop :=
  ((∀ a v, op ≠ .store a v) → ∀ x ∈ s.live, x ∈ s'.live → ∀ i < heapUsable s.heap x.1,
    s'.heap.mem (x.1 + i) = s.heap.mem (x.1 + i)) ∧
  match op with
  | .malloc _ n => r = 0 ∧ s'.live = s.live ∨ r ≠ 0 ∧ s'.live = (r, n) :: s.live
  | .calloc _ a b => r = 0 ∧ s'.live = s.live ∨
      r ≠ 0 ∧ s'.live = (r, a * b) :: s.live ∧ ∀ i < a * b, s'.heap.mem (r + i) = 0
  | .realloc _ p n => (p ≠ 0 ∧ n = 0) ∧ s'.live = dropPtr s.live p ∨
      r = 0 ∧ s'.live = s.live ∨
      r ≠ 0 ∧ s'.live = (r, n) :: dropPtr s.live p ∧
        ∀ i < heapUsable s.heap p, s'.heap.mem (r + i) = s.heap.mem (p + i)
  | .free p => s'.live = dropPtr s.live p
  | .store .. => s'.live = s.live

/-- The heap has its shape, and every live pointer is a payload of the size requested. -/
structure Inv (s : System) : Prop where
  shape : ∃ free, Shape s.heap free (headers s.live) (Grown s.regions)
  sizes : ∀ x ∈ s.live, hdr ≤ x.1 ∧ x.2 ≤ get s.heap.mem (x.1 - hdr) .size

variable {s s' : System} {op : Op} {p n k r : ℕ}

theorem Inv.start (mem : Mem) : Inv (System.start mem) :=
  ⟨⟨[], rfl, nofun, nofun, nofun, Pairwise.nil, by simp [System.start, headers, Grown]⟩,
    nofun⟩

namespace Inv
variable {x : ℕ × ℕ}

theorem header_mem (hx : x ∈ s.live) : x.1 - hdr ∈ headers s.live :=
  mem_map_of_mem hx

theorem sized (h : Inv s) (hx : x ∈ s.live) : Sized s.heap.mem (x.1 - hdr) := by
  obtain ⟨free, hs⟩ := h.shape
  exact hs.sized _ (mem_append_right free (header_mem hx))

theorem usable (h : Inv s) (hx : x ∈ s.live) :
    heapUsable s.heap x.1 = get s.heap.mem (x.1 - hdr) .size := by
  have hle := (h.sizes x hx).1
  have hblk := blkOf_payload (h.sized hx)
  simp only [hdr] at hle hblk ⊢
  rw [Nat.sub_add_cancel hle] at hblk
  rw [heapUsable, if_neg (by omega), hblk]

theorem correct (h : Inv s) : Correct s := by
  obtain ⟨free, hs⟩ := h.shape
  have hpay : ∀ x ∈ s.live, x.1 = x.1 - hdr + 32 := fun x hx => by
    have := (h.sizes x hx).1
    simp only [hdr] at *
    omega
  refine ⟨fun x hx => ?_, fun x hx => ?_, fun x hx a ha ha' => ?_, ?_,
    free, hs.linked, (nodup_append.1 hs.nodup).1, hs.tiles⟩
  · rw [hpay x hx]
    exact Nat.dvd_add (h.sized hx).aligned (by decide)
  · rw [h.usable hx]
    exact (h.sizes x hx).2
  · refine (hs.tiles.covers a).2 ⟨_, mem_append_right free (header_mem hx), ?_⟩
    rw [h.usable hx] at ha'
    simp only [InTile, extent, hdr] at *
    omega
  have hpair := (pairwise_append.1 hs.tiles.apart).2.1
  refine (pairwise_map.1 hpair).imp_of_mem fun {x y} hx hy hap => ?_
  rw [h.usable hx, h.usable hy]
  simp only [Apart, extent, hdr] at *
  omega

variable {live : List (ℕ × ℕ)} {m : Mem}

theorem bytes (h : Inv s)
    (hintact : Intact s.heap.mem m (headers live)) (hx : x ∈ s.live) (hx' : x ∈ live) :
    ∀ i < heapUsable s.heap x.1, m (x.1 + i) = s.heap.mem (x.1 + i) := by
  intro i hi
  have hle := (h.sizes x hx).1
  rw [h.usable hx] at hi
  refine (hintact _ (mem_map_of_mem hx')).2 _ ?_ ?_ <;> simp only [extent, hdr] at * <;> omega

theorem sizes_intact (h : Inv s)
    (hintact : Intact s.heap.mem m (headers live)) (hsub : ∀ x ∈ live, x ∈ s.live) :
    ∀ x ∈ live, hdr ≤ x.1 ∧ x.2 ≤ get m (x.1 - hdr) .size := by
  intro x hx
  rw [(hintact _ (mem_map_of_mem hx)).1]
  exact h.sizes x (hsub x hx)

theorem split_live (h : Inv s) (hp : (p, k) ∈ s.live) :
    ∃ b, p = b + 32 ∧ (∀ x ∈ dropPtr s.live p, x ∈ s.live) ∧
      (headers s.live).Perm (b :: headers (dropPtr s.live p)) ∧
      heapUsable s.heap p = get s.heap.mem b .size := by
  have hle := (h.sizes _ hp).1
  obtain ⟨x, l1, l2, -, hx, hlive, hdrop⟩ :=
    exists_of_eraseP (p := fun x : ℕ × ℕ => x.1 == p) hp (by simp)
  refine ⟨p - hdr, (Nat.sub_add_cancel hle).symm, fun y hy => ?_, ?_, h.usable hp⟩
  · rw [hlive]
    rw [dropPtr, hdrop] at hy
    simp only [mem_append, mem_cons] at hy ⊢
    tauto
  · have hxp : x.1 = p := by simpa using hx
    rw [dropPtr, hdrop, hlive, headers, headers, ← hxp]
    simp [List.perm_middle]

theorem dropPtr_zero (h : Inv s) : dropPtr s.live 0 = s.live := by
  refine eraseP_of_forall_not fun x hx => ?_
  have := (h.sizes x hx).1
  simp only [hdr] at this
  simp only [beq_iff_eq]
  omega

variable {o : Outcome} {kept : List (ℕ × ℕ)} {free : List ℕ}

theorem allocated_null (h : Inv s)
    (hptr : o.ptr = 0) (hintact : Intact s.heap.mem o.heap.mem (headers s.live))
    (hshape : Shape o.heap free (headers s.live) (Grown (o.grown.toList ++ s.regions))) :
    Inv (s.allocated kept n o).1 ∧ (s.allocated kept n o).1.live = s.live := by
  have hlive : (s.allocated kept n o).1.live = s.live := if_pos hptr
  refine ⟨⟨⟨free, ?_⟩, ?_⟩, hlive⟩
  · rw [hlive]
    exact hshape
  · rw [hlive]
    exact h.sizes_intact hintact fun _ => id

theorem allocated_block (h : Inv s) {b : ℕ}
    (hptr : o.ptr = b + 32) (hsize : n ≤ get o.heap.mem b .size)
    (hsub : ∀ x ∈ kept, x ∈ s.live) (hintact : Intact s.heap.mem o.heap.mem (headers kept))
    (hshape : Shape o.heap free (b :: headers kept) (Grown (o.grown.toList ++ s.regions))) :
    Inv (s.allocated kept n o).1 ∧ (s.allocated kept n o).1.live = (o.ptr, n) :: kept := by
  have hlive : (s.allocated kept n o).1.live = (o.ptr, n) :: kept := if_neg (by omega)
  have hhead : headers ((o.ptr, n) :: kept) = b :: headers kept := by simp [headers, hptr, hdr]
  refine ⟨⟨⟨free, ?_⟩, ?_⟩, hlive⟩
  · rw [hlive, hhead]
    exact hshape
  · rw [hlive]
    refine forall_mem_cons.2 ⟨?_, h.sizes_intact hintact hsub⟩
    simpa [hptr, hdr, System.allocated] using hsize

theorem allocated (h : Inv s) (ho : Allocated s.heap (headers s.live) s.regions n o) :
    Inv (s.allocated s.live n o).1 ∧
      (∀ x ∈ s.live, ∀ i < heapUsable s.heap x.1,
        o.heap.mem (x.1 + i) = s.heap.mem (x.1 + i)) ∧
      (o.ptr = 0 ∧ (s.allocated s.live n o).1.live = s.live ∨
        o.ptr ≠ 0 ∧ (s.allocated s.live n o).1.live = (o.ptr, n) :: s.live) := by
  obtain ⟨hintact, free, ⟨hptr, hshape⟩ | ⟨b, hptr, hsize, hshape⟩⟩ := ho
  · have hnull : Inv (s.allocated s.live n o).1 ∧ (s.allocated s.live n o).1.live = s.live :=
      h.allocated_null hptr hintact hshape
    obtain ⟨hinv, hlive⟩ := hnull
    exact ⟨hinv, fun x hx => h.bytes hintact hx hx, .inl ⟨hptr, hlive⟩⟩
  · obtain ⟨hinv, hlive⟩ := h.allocated_block hptr hsize (fun _ => id) hintact hshape
    exact ⟨hinv, fun x hx => h.bytes hintact hx hx, .inr ⟨by omega, hlive⟩⟩

theorem freed (h : Inv s) (hp : (p, k) ∈ s.live) :
    ∃ h', heapFree s.heap p = some h' ∧ Inv ⟨h', s.regions, dropPtr s.live p⟩ ∧
      ∀ x ∈ s.live, x ∈ dropPtr s.live p → ∀ i < heapUsable s.heap x.1,
        h'.mem (x.1 + i) = s.heap.mem (x.1 + i) := by
  obtain ⟨free, hs⟩ := h.shape
  obtain ⟨b, rfl, hsub, hperm, -⟩ := h.split_live hp
  obtain ⟨h', free', hrun, hshape, hintact⟩ := heapFree_spec (hs.perm hperm)
  exact ⟨h', hrun, ⟨⟨free', hshape⟩, h.sizes_intact hintact hsub⟩,
    fun x hx hx' => h.bytes hintact hx hx'⟩

end Inv

/-- A step returns, keeps the invariant and has its effect. -/
def StepOk (s : System) (op : Op) : Prop :=
  ∃ s' r, step s op = some (s', r) ∧ Inv s' ∧ Effect s op s' r

variable {grow : ℕ → ℕ}

section

variable (h : Inv s)
include h

theorem step_malloc (hv : Valid s (.malloc grow n)) : StepOk s (.malloc grow n) := by
  obtain ⟨free, hs⟩ := h.shape
  obtain ⟨o, ho, hok⟩ := heapMalloc_spec hs hv.1 hv.2
  obtain ⟨hinv, hbytes, hlive⟩ := h.allocated hok
  exact ⟨_, _, by simp only [step, ho]; rfl, hinv, fun _ x hx _ => hbytes x hx, hlive⟩

theorem step_calloc {a b : ℕ} (hv : Valid s (.calloc grow a b)) : StepOk s (.calloc grow a b) := by
  obtain ⟨free, hs⟩ := h.shape
  obtain ⟨o, ho, hok, hzero⟩ := heapCalloc_spec (a := a) (b := b) hs hv.1
  obtain ⟨hinv, hbytes, hlive⟩ := h.allocated hok
  exact ⟨_, _, by simp only [step, ho]; rfl, hinv, fun _ x hx _ => hbytes x hx,
    hlive.imp_right fun hnew => ⟨hnew.1, hnew.2, hzero hnew.1⟩⟩

theorem step_free (hv : Valid s (.free p)) : StepOk s (.free p) := by
  rcases hv with rfl | ⟨k, hp⟩
  · refine ⟨s, 0, ?_, h, fun _ x _ _ i _ => rfl, h.dropPtr_zero.symm⟩
    simp [step, heapFree, h.dropPtr_zero]
  · obtain ⟨h', hrun, hinv, hbytes⟩ := h.freed hp
    exact ⟨_, _, by simp only [step, hrun]; rfl, hinv, fun _ => hbytes, rfl⟩

theorem step_store {a : ℕ} {v : UInt8} (hv : Valid s (.store a v)) : StepOk s (.store a v) := by
  obtain ⟨free, hs⟩ := h.shape
  have hstores : ∀ x, Function.update s.heap.mem a v x ≠ s.heap.mem x →
      (∃ c ∈ headers s.live, c + hdr ≤ x ∧ x < c + extent s.heap.mem c) ∨
        ¬ Grown s.regions x := by
    intro x hx
    obtain rfl : x = a := by
      by_contra hne
      exact hx (Function.update_of_ne hne ..)
    refine hv.imp_left fun ⟨y, hy, hle, hlt⟩ => ⟨_, Inv.header_mem hy, ?_⟩
    have hhead := (h.sizes y hy).1
    rw [h.usable hy] at hlt
    rw [Nat.sub_add_cancel hhead, extent, ← Nat.add_assoc, Nat.sub_add_cancel hhead]
    exact ⟨hle, hlt⟩
  have hsame := hs.get_of_payload hstores
  refine ⟨_, _, rfl, ⟨⟨free, hs.of_fields hsame⟩, fun x hx => ?_⟩,
    fun hcall => absurd rfl (hcall a v), rfl⟩
  rw [hsame _ (mem_append_right free (Inv.header_mem hx))]
  exact h.sizes x hx

theorem step_realloc (hv : Valid s (.realloc grow p n)) : StepOk s (.realloc grow p n) := by
  obtain ⟨hgrow, hn, hptr⟩ := hv
  obtain ⟨free, hs⟩ := h.shape
  rcases hptr with rfl | ⟨k, hp⟩
  · obtain ⟨o, ho, hok⟩ := heapMalloc_spec hs hgrow hn
    obtain ⟨hinv, hbytes, hlive⟩ := h.allocated hok
    have hstep : step s (.realloc grow 0 n) = some (s.allocated s.live n o) := by
      simp [step, heapRealloc, ho, h.dropPtr_zero]
    refine ⟨_, _, hstep, hinv, fun _ x hx _ => hbytes x hx, .inr (hlive.imp_right ?_)⟩
    rw [h.dropPtr_zero]
    exact fun hnew => ⟨hnew.1, hnew.2, fun i hi => absurd hi (Nat.not_lt_zero i)⟩
  by_cases hn0 : n = 0
  · subst hn0
    obtain ⟨h', hrun, hinv, hbytes⟩ := h.freed hp
    have hp0 : p ≠ 0 := by
      have := (h.sizes _ hp).1
      simp only [hdr] at this
      omega
    refine ⟨_, 0, ?_, hinv, fun _ => hbytes, .inl ⟨⟨hp0, rfl⟩, rfl⟩⟩
    simp [step, heapRealloc, hrun, hp0]
  obtain ⟨b, rfl, hsub, hperm, husable⟩ := h.split_live hp
  obtain ⟨o, free', ho, hcases⟩ := heapRealloc_spec (hs.perm hperm) hgrow hn hn0
  have hstep : step s (.realloc grow (b + 32) n)
      = some (s.allocated (dropPtr s.live (b + 32)) n o) := by
    simp [step, ho, hn0]
  rcases hcases with ⟨hptr, hintact, hshape⟩ | ⟨c, hptr, hsize, hintact, hshape, hbytes⟩
  · have hintact' := hintact.mono fun c => hperm.mem_iff.1
    obtain ⟨hinv, hlive⟩ := h.allocated_null hptr hintact' (hshape.perm hperm.symm)
    exact ⟨_, _, hstep, hinv, fun _ x hx _ => h.bytes hintact' hx hx, .inr (.inl ⟨hptr, hlive⟩)⟩
  obtain ⟨hinv, hlive⟩ := h.allocated_block hptr hsize hsub hintact hshape
  have hprefix : ∀ i < heapUsable s.heap (b + 32),
      o.heap.mem (o.ptr + i) = s.heap.mem (b + 32 + i) := by
    rw [husable, hptr]
    exact hbytes
  refine ⟨_, _, hstep, hinv, fun _ x hx hx' => ?_, .inr (.inr ⟨by omega, hlive, hprefix⟩)⟩
  have hmem : x ∈ (s.allocated (dropPtr s.live (b + 32)) n o).1.live := hx'
  rw [hlive] at hmem
  rcases mem_cons.1 hmem with rfl | hkept
  · -- the block came back under a pointer that was live: it is the old block itself
    have hc : c ∈ b :: headers (dropPtr s.live (b + 32)) := by
      have hhead := hperm.mem_iff.1 (Inv.header_mem hx)
      rwa [hptr, hdr, Nat.add_sub_cancel] at hhead
    have hcn := (List.nodup_cons.1 (List.perm_middle.nodup_iff.1 hshape.nodup)).1
    obtain rfl : c = b := (mem_cons.1 hc).resolve_right fun hc => hcn (by simp [hc])
    rw [hptr] at hprefix ⊢
    exact hprefix
  · exact h.bytes hintact hx hkept

theorem step_ok (hv : Valid s op) : StepOk s op := by
  cases op with
  | malloc grow n => exact step_malloc h hv
  | calloc grow a b => exact step_calloc h hv
  | realloc grow p n => exact step_realloc h hv
  | free p => exact step_free h hv
  | store a v => exact step_store h hv

theorem run_ok {ops : List Op} (hops : ValidRun s ops) : ∃ s', run s ops = some s' ∧ Inv s' := by
  induction ops generalizing s with
  | nil => exact ⟨s, rfl, h⟩
  | cons op ops ih =>
    obtain ⟨s', r, hstep, hinv, -⟩ := step_ok h hops.1
    obtain ⟨s'', hrun, hinv'⟩ := ih hinv (hops.2 _ hstep)
    exact ⟨s'', by simp [run, hstep, hrun], hinv'⟩

end

/-- After every sequence of valid operations the heap is a correct allocator, and each has returned.
-/
theorem heap_is_a_correct_allocator (mem : Mem) (ops : List Op)
    (hops : ValidRun (System.start mem) ops) :
    ∃ s, run (System.start mem) ops = some s ∧ Correct s ∧
      ∀ op, Valid s op → ∃ s' r, step s op = some (s', r) ∧ Correct s' ∧ Effect s op s' r := by
  obtain ⟨s, hrun, hinv⟩ := run_ok (Inv.start mem) hops
  refine ⟨s, hrun, hinv.correct, fun op hv => ?_⟩
  obtain ⟨s', r, hstep, hinv', heffect⟩ := step_ok hinv hv
  exact ⟨s', r, hstep, hinv'.correct, heffect⟩

/-- A callback with one region of 64 KiB. -/
def oneRegion (asked : ℕ) : ℕ := if asked = 65536 then 65536 else 0

theorem heap_is_a_correct_allocator_oneBlock :
    ValidRun (System.start fun _ => 0) [.malloc oneRegion 100, .free 65568] ∧
    ∃ s, run (System.start fun _ => 0) [.malloc oneRegion 100, .free 65568] = some s ∧
      Correct s ∧ ∀ op, Valid s op →
        ∃ s' r, step s op = some (s', r) ∧ Correct s' ∧ Effect s op s' r := by
  have hgrow : GrowOk [] oneRegion := by
    intro asked
    unfold oneRegion
    split_ifs with hasked
    · subst hasked
      exact .inr ⟨by decide, by decide, fun a _ _ => by simp [Grown]⟩
    · exact .inl rfl
  have hlive : (step (System.start fun _ => 0) (.malloc oneRegion 100)).map (·.1.live)
      = some [(65568, 100)] := by decide +kernel
  have hvalid : ValidRun (System.start fun _ => 0) [.malloc oneRegion 100, .free 65568] := by
    refine ⟨⟨hgrow, by decide⟩, fun r hr => ⟨.inr ⟨100, ?_⟩, fun _ _ => trivial⟩⟩
    rw [hr] at hlive
    simp [Option.some.inj hlive]
  exact ⟨hvalid, heap_is_a_correct_allocator _ _ hvalid⟩

end IrisOS.Malloc
