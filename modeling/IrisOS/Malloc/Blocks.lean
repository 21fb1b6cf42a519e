import IrisOS.Lib.Tiling
import IrisOS.Malloc.Alloc

/-! The listed free blocks and the live ones tile the grown memory. Every operation on the list
keeps that shape and touches no byte of a live block. -/
namespace IrisOS.Malloc
open Lib List

variable {m m' : Mem} {h : Heap} {b c prev want : ℕ} {f g : Field} {v : ℕ}
  {free live l1 l2 : List ℕ} {S : ℕ → Prop} {a : ℕ} {live' : List ℕ}

/-- Two headers that are one or do not overlap. -/
def Clear (b c : ℕ) : Prop := b = c ∨ b + 24 ≤ c ∨ c + 24 ≤ b

theorem Field.offset_le (f : Field) : f.offset ≤ 16 := by cases f <;> decide

theorem get_lt : get m b f < 2 ^ 64 := load64_lt

theorem get_mod : get m b f % 2 ^ 64 = get m b f := Nat.mod_eq_of_lt get_lt

/-- A header store changes one field of one header, headers being apart or the same. -/
theorem get_set (hbc : Clear c b) :
    get (set m b f v) c g = if c = b ∧ g = f then v % 2 ^ 64 else get m c g := by
  split_ifs with hsame
  · obtain ⟨rfl, rfl⟩ := hsame
    exact load64_store64_same
  apply load64_store64_apart
  rcases hbc with rfl | hbc | hbc
  · cases f <;> cases g <;> simp_all [Field.offset]
  · have := g.offset_le
    omega
  · have := f.offset_le
    omega

theorem next_set_free : get (set m b .free 0) b .next = get m b .next := by
  rw [get_set (.inl rfl), if_neg (by simp)]

/-- The link to a block is a field of the one before it, or the list head if there is none. -/
theorem get_setLink (hc : c ≠ 0) (hclear : prev ≠ 0 → Clear c prev) :
    get (setLink h prev v).mem c g
      = if c = prev ∧ g = .next then v % 2 ^ 64 else get h.mem c g := by
  unfold setLink
  split_ifs with hprev hcond hcond
  · exact absurd (hcond.1.trans hprev) hc
  · rfl
  · rw [get_set (hclear hprev), if_pos hcond]
  · rw [get_set (hclear hprev), if_neg hcond]

theorem set_outside (h : a < b ∨ b + 24 ≤ a) : set m b f v a = m a := by
  have := f.offset_le
  exact store64_outside (by omega)

theorem setLink_outside (ha : prev ≠ 0 → a < prev ∨ prev + 24 ≤ a) :
    (setLink h prev v).mem a = h.mem a := by
  unfold setLink
  split_ifs with hprev
  · rfl
  · exact set_outside (ha hprev)

/-- The bytes a block takes, its header included. -/
def extent (m : Mem) (b : ℕ) : ℕ := hdr + get m b .size

/-- An aligned block with room for something, inside the address space. -/
structure Sized (m : Mem) (b : ℕ) : Prop where
  aligned : 16 ∣ b
  pos : 0 < b
  whole : 16 ∣ get m b .size
  room : 16 ≤ get m b .size
  fits : b + extent m b ≤ 2 ^ 64

/-- The free list passes through `free`, which tiles the grown addresses together with the live
blocks. -/
structure Shape (h : Heap) (free live : List ℕ) (S : ℕ → Prop) : Prop where
  linked : Linked 0 (get h.mem · .next) h.freelist free 0
  listed : ∀ b ∈ free, get h.mem b .free ≠ 0
  used : ∀ b ∈ live, get h.mem b .free = 0
  sized : ∀ b ∈ free ++ live, Sized h.mem b
  tiles : Tiles (extent h.mem) (free ++ live) S

/-- The live blocks keep their sizes and their bytes. -/
def Intact (m m' : Mem) (live : List ℕ) : Prop :=
  ∀ b ∈ live, get m' b .size = get m b .size ∧
    ∀ a, b + hdr ≤ a → a < b + extent m b → m' a = m a

theorem Intact.refl : Intact m m live := fun _ _ => ⟨rfl, fun _ _ _ => rfl⟩

theorem Intact.trans {m'' : Mem} (h1 : Intact m m' live) (h2 : Intact m' m'' live) :
    Intact m m'' live := by
  intro b hb
  obtain ⟨hsize, hbytes⟩ := h1 b hb
  obtain ⟨hsize', hbytes'⟩ := h2 b hb
  refine ⟨hsize'.trans hsize, fun a ha hab => (hbytes' a ha ?_).trans (hbytes a ha hab)⟩
  rwa [extent, hsize]

theorem Intact.mono (h : Intact m m' live) (hsub : ∀ b ∈ live', b ∈ live) :
    Intact m m' live' := fun b hb => h b (hsub b hb)

/-- Whether a block is well sized depends on its size field alone. -/
theorem Sized.congr (h : Sized m b) (hsize : get m' b .size = get m b .size) : Sized m' b :=
  ⟨h.aligned, h.pos, hsize ▸ h.whole, hsize ▸ h.room, by rw [extent, hsize]; exact h.fits⟩

theorem Sized.payOf_eq (h : Sized m b) : payOf b = b + 32 := by
  have := h.fits
  have := h.room
  exact Nat.mod_eq_of_lt (by simp only [extent, hdr] at *; omega)

/-- The header is found again from the pointer handed out. -/
theorem blkOf_payload (h : Sized m b) : blkOf (b + 32) = b := by
  have := h.fits
  simp only [blkOf, sub64, extent, hdr] at *
  omega

namespace Shape

/-- Two blocks of the heap do not overlap. -/
theorem apart (h : Shape ⟨m, v⟩ free live S) (hb : b ∈ free ++ live) (hc : c ∈ free ++ live)
    (hne : b ≠ c) : b + extent m b ≤ c ∨ c + extent m c ≤ b :=
  h.tiles.apart_of_ne hb hc hne

theorem clear (h : Shape ⟨m, v⟩ free live S) (hb : b ∈ free ++ live) (hc : c ∈ free ++ live) :
    Clear b c := by
  by_cases hne : b = c
  · exact .inl hne
  · have := h.apart hb hc hne
    simp only [extent, hdr] at this
    exact .inr (by omega)

/-- The bytes handed out lie outside every header. -/
theorem outside (h : Shape ⟨m, v⟩ free live S) (hb : b ∈ free ++ live)
    (hc : c ∈ free ++ live) (ha : c + hdr ≤ a) (ha' : a < c + extent m c) : a < b ∨ b + 24 ≤ a := by
  by_cases hne : b = c
  · subst hne
    simp only [hdr] at ha
    omega
  · have := h.apart hb hc hne
    simp only [extent, hdr] at *
    omega

theorem extent_pos (m : Mem) (b : ℕ) : 0 < extent m b := by simp only [extent, hdr]; omega

theorem nodup (h : Shape ⟨m, v⟩ free live S) : (free ++ live).Nodup :=
  h.tiles.nodup fun _ _ => extent_pos ..

theorem perm (h : Shape ⟨m, v⟩ free live S) (hp : live.Perm live') : Shape ⟨m, v⟩ free live' S :=
  ⟨h.linked, h.listed, fun b hb => h.used b (hp.mem_iff.2 hb),
    fun b hb => h.sized b ((hp.append_left free).mem_iff.2 hb), h.tiles.perm (hp.append_left free)⟩

/-- The free list is shorter than the bound on the walks along it. -/
theorem length_lt (h : Shape ⟨m, v⟩ free live S) : free.length < walkBound := by
  have hnodup : (0 :: free).Nodup :=
    nodup_cons.2 ⟨fun h0 => h.linked.ne_null h0 rfl, (nodup_append.1 h.nodup).1⟩
  have hsub : (0 :: free) ⊆ range (2 ^ 64) := by
    intro b hb
    rw [mem_range]
    rcases mem_cons.1 hb with rfl | hb
    · decide
    · have hfits := (h.sized b (mem_append_left live hb)).fits
      have hpos := extent_pos m b
      simp only at hfits
      omega
  have hlen := (subperm_of_subset hnodup hsub).length_le
  rwa [length_range, length_cons] at hlen

end Shape

theorem mem_middle : c ∈ l1 ++ b :: l2 ++ live ↔ c = b ∨ c ∈ l1 ++ l2 ++ live := by
  simp only [mem_append, mem_cons]
  tauto

theorem perm_middle : (l1 ++ b :: l2 ++ live).Perm (b :: (l1 ++ l2 ++ live)) := by
  rw [append_assoc, cons_append, append_assoc]
  exact List.perm_middle

namespace Shape

theorem prev_mem (hprev : prev = l1.getLastD 0) (hne : prev ≠ 0) : prev ∈ l1 := by
  subst hprev
  exact getLastD_mem fun hnil => hne (hnil ▸ rfl)

variable {fl nxt : ℕ} {rest : ℕ}

section

variable (hs : Shape ⟨m, fl⟩ (l1 ++ b :: l2) live S) (hprev : prev = l1.getLastD 0)
  (hc : c ∈ l1 ++ b :: l2 ++ live)
include hs hprev hc

theorem clear_prev (hne : prev ≠ 0) : Clear c prev :=
  hs.clear hc (by simp [prev_mem hprev hne])

/-- All that unlinking changes: the link to the block, and its own link and flag. -/
theorem unlink_get :
    get (unlinkBlock ⟨m, fl⟩ prev b).mem c g
      = if c = b ∧ g = .next then 0
        else if c = prev ∧ g = .next then get m b .next
        else if c = b ∧ g = .free then 0 else get m c g := by
  have hb : b ∈ l1 ++ b :: l2 ++ live := by simp
  rw [unlinkBlock, get_set (hs.clear hc hb),
    get_setLink (hs.sized c hc).pos.ne' (hs.clear_prev hprev hc), next_set_free, get_mod,
    get_set (hs.clear hc hb), Nat.zero_mod]

end

theorem ne_of_mem (hs : Shape ⟨m, fl⟩ (l1 ++ b :: l2) live S) (hc : c ∈ l1 ++ l2 ++ live) : c ≠ b :=
  fun he => (nodup_cons.1 (perm_middle.nodup_iff.1 hs.nodup)).1 (he ▸ hc)

theorem unlink_freelist : (unlinkBlock ⟨m, fl⟩ prev b).freelist
    = if prev = 0 then get m b .next else fl := by
  simp only [unlinkBlock, setLink, next_set_free]
  split_ifs <;> rfl

/-- A block taken off the list is live. -/
theorem unlink (hs : Shape ⟨m, fl⟩ (l1 ++ b :: l2) live S) (hprev : prev = l1.getLastD 0) :
    Shape (unlinkBlock ⟨m, fl⟩ prev b) (l1 ++ l2) (b :: live) S ∧
      Intact m (unlinkBlock ⟨m, fl⟩ prev b).mem (b :: live) := by
  have hget := fun {c} {g} => hs.unlink_get (c := c) (g := g) hprev
  have hblock : ∀ c ∈ l1 ++ l2 ++ b :: live, c ∈ l1 ++ b :: l2 ++ live := by
    simp only [mem_append, mem_cons]
    tauto
  have hsize : ∀ c ∈ l1 ++ l2 ++ b :: live,
      get (unlinkBlock ⟨m, fl⟩ prev b).mem c .size = get m c .size := by
    intro c hc
    simp [hget (hblock c hc)]
  have hne := fun c => hs.ne_of_mem (c := c)
  refine ⟨⟨?_, ?_, ?_, ?_, ?_⟩, ?_⟩
  · rw [unlink_freelist]
    refine hs.linked.remove (nodup_append.1 hs.nodup).1 hprev fun c hc => ?_
    have hcb := hne c (mem_append_left live hc)
    simp [hget (hblock c (mem_append_left _ hc)), hcb]
  · intro c hc
    have hcb := hne c (mem_append_left live hc)
    have hold := hs.listed c (by simp only [mem_append, mem_cons] at hc ⊢; tauto)
    simpa [hget (hblock c (mem_append_left _ hc)), hcb] using hold
  · intro c hc
    rw [hget (hblock c (mem_append_right _ hc)), if_neg (by simp), if_neg (by simp)]
    rcases mem_cons.1 hc with rfl | hc
    · exact if_pos ⟨rfl, rfl⟩
    · exact (if_neg fun h => hne c (mem_append_right _ hc) h.1).trans (hs.used c hc)
  · exact fun c hc => (hs.sized c (hblock c hc)).congr (hsize c hc)
  · refine (hs.tiles.perm ?_).congr fun c hc => by rw [extent, extent, hsize c hc]
    exact perm_middle.trans List.perm_middle.symm
  · intro c hc
    have hc' := mem_append_right (l1 ++ l2) hc
    refine ⟨hsize c hc', fun a ha ha' => ?_⟩
    have hb' : a < b ∨ b + 24 ≤ a := hs.outside (by simp) (hblock c hc') ha ha'
    have hprev' : prev ≠ 0 → a < prev ∨ prev + 24 ≤ a := fun h =>
      hs.outside (by simp [prev_mem hprev h]) (hblock c hc') ha ha'
    exact (set_outside hb').trans ((setLink_outside hprev').trans (set_outside hb'))

theorem splitBlock_eq (hrest : rest = b + 32 + want) (hlt : rest < 2 ^ 64)
    (hfit : want + 48 ≤ get m b .size) :
    splitBlock m b want
      = set (set (set (set (set m rest .size (get m b .size - want - 32)) rest .free 1)
          rest .next (get m b .next)) b .size want) b .next rest := by
  have hsize := get_lt (m := m) (b := b) (f := .size)
  have hne : b ≠ rest := by omega
  have hbr : Clear b rest := .inr (.inl (by omega))
  have hcond : (want + hdr + 16) % 2 ^ 64 ≤ get m b .size := by simp only [hdr]; omega
  have hmod : (b + hdr + want) % 2 ^ 64 = rest := by rw [hrest]; exact Nat.mod_eq_of_lt (hrest ▸ hlt)
  have hsub : sub64 (sub64 (get m b .size) want) hdr = get m b .size - want - 32 := by
    simp only [sub64, hdr]
    omega
  have hnext : get (set (set m rest .size (get m b .size - want - 32)) rest .free 1) b .next
      = get m b .next := by
    rw [get_set hbr, if_neg fun h => hne h.1, get_set hbr, if_neg fun h => hne h.1]
  simp only [splitBlock, if_pos hcond, hmod, hsub, hnext]

/-- The header of the second half takes over the link and the size that is left. -/
theorem split_fields (hrest : rest = b + 32 + want) (hlt : rest < 2 ^ 64)
    (hfit : want + 48 ≤ get m b .size) :
    get (splitBlock m b want) b .size = want ∧ get (splitBlock m b want) b .next = rest ∧
      get (splitBlock m b want) b .free = get m b .free ∧
      get (splitBlock m b want) rest .size = get m b .size - want - 32 ∧
      get (splitBlock m b want) rest .next = get m b .next ∧
      get (splitBlock m b want) rest .free = 1 := by
  have hsize := get_lt (m := m) (b := b) (f := .size)
  have hbr : Clear b rest := .inr (.inl (by omega))
  have hrb : Clear rest b := .inr (.inr (by omega))
  have hbb : Clear b b := .inl rfl
  have hrr : Clear rest rest := .inl rfl
  have hne : b ≠ rest := by omega
  rw [splitBlock_eq hrest hlt hfit]
  simp only [get_set hbb, get_set hbr, get_set hrb, get_set hrr, get_mod]
  simp only [hne, hne.symm, false_and, true_and, reduceCtorEq, if_false, if_true]
  exact ⟨Nat.mod_eq_of_lt (by omega), Nat.mod_eq_of_lt hlt, Nat.mod_eq_of_lt (by omega), rfl⟩

/-- A free block split in two stays on the list as two blocks. -/
theorem split (hs : Shape ⟨m, fl⟩ (l1 ++ b :: l2) live S) (hwant : 16 ∣ want)
    (hroom : 16 ≤ want) (hfit : want + 48 ≤ get m b .size) :
    Shape ⟨splitBlock m b want, fl⟩ (l1 ++ b :: (b + 32 + want) :: l2) live S ∧
      Intact m (splitBlock m b want) live ∧ get (splitBlock m b want) b .size = want := by
  have hb : b ∈ l1 ++ b :: l2 ++ live := by simp
  have hbs := hs.sized b hb
  have hfits := hbs.fits
  have hwhole := hbs.whole
  have haligned := hbs.aligned
  simp only [extent, hdr] at hfits hwhole
  obtain ⟨rest, hrest⟩ : ∃ rest, rest = b + 32 + want := ⟨_, rfl⟩
  have hlt : rest < 2 ^ 64 := by omega
  obtain ⟨hsize, hnext, hlisted, hrsize, hrnext, hrfree⟩ := split_fields hrest hlt hfit
  have hne := fun c => hs.ne_of_mem (c := c)
  have hmem : ∀ c ∈ l1 ++ l2 ++ live, c ∈ l1 ++ b :: l2 ++ live := fun c hc =>
    mem_middle.2 (.inr hc)
  have hapart : ∀ c ∈ l1 ++ l2 ++ live,
      c + (32 + get m c .size) ≤ b ∨ b + (32 + get m b .size) ≤ c := fun c hc =>
    hs.apart (hmem c hc) hb (hne c hc)
  have hgetc : ∀ c ∈ l1 ++ l2 ++ live, ∀ g, get (splitBlock m b want) c g = get m c g := by
    intro c hc g
    have hap := hapart c hc
    have hcr : Clear c rest := .inr (by omega)
    have hcr' : c ≠ rest := by omega
    rw [splitBlock_eq hrest hlt hfit]
    simp [get_set hcr, get_set (hs.clear (hmem c hc) hb), hne c hc, hcr']
  rw [← hrest]
  refine ⟨⟨?_, ?_, ?_, ?_, ?_⟩, ?_, hsize⟩
  · obtain ⟨b', hl1, rfl, hb0, hl2⟩ := linked_append.1 hs.linked
    refine linked_append.2 ⟨b', hl1.congr fun c hc => hgetc c (by simp [hc]) _, rfl, hb0,
      hnext, by omega, ?_⟩
    simp only [hrnext]
    exact hl2.congr fun c hc => hgetc c (by simp [hc]) _
  · intro c hc
    simp only [mem_append, mem_cons] at hc
    rcases hc with hc | rfl | rfl | hc
    · rw [hgetc c (by simp [hc])]
      exact hs.listed c (by simp [hc])
    · rw [hlisted]
      exact hs.listed c (by simp)
    · rw [hrfree]
      exact Nat.one_ne_zero
    · rw [hgetc c (by simp [hc])]
      exact hs.listed c (by simp [hc])
  · intro c hc
    rw [hgetc c (by simp [hc])]
    exact hs.used c hc
  · intro c hc
    rcases mem_middle.1 hc with rfl | hc
    · refine ⟨haligned, hbs.pos, ?_, ?_, ?_⟩ <;> simp only [extent, hdr, hsize] <;> omega
    rcases mem_middle.1 hc with rfl | hc
    · refine ⟨by omega, by omega, ?_, ?_, ?_⟩ <;> simp only [extent, hdr, hrsize] <;> omega
    · exact (hs.sized c (hmem c hc)).congr (hgetc c hc .size)
  · have hcut : Tiles (extent (splitBlock m b want)) (b :: rest :: (l1 ++ l2 ++ live)) S :=
      (hs.tiles.perm perm_middle).split (by simp only [extent, hdr, hsize]; omega)
        (by simp only [extent, hdr, hsize, hrsize]; omega)
        fun c hc => by simp only [extent, hgetc c hc]
    exact hcut.perm ((perm_middle.trans (perm_middle.cons b)).symm)
  · intro c hc
    have hc' : c ∈ l1 ++ l2 ++ live := by simp [hc]
    refine ⟨hgetc c hc' .size, fun a ha ha' => ?_⟩
    have hap := hapart c hc'
    simp only [extent, hdr] at ha ha'
    have hab : a < b ∨ b + 24 ≤ a := by omega
    have har : a < rest ∨ rest + 24 ≤ a := by omega
    rw [splitBlock_eq hrest hlt hfit, set_outside hab, set_outside hab, set_outside har,
      set_outside har, set_outside har]

/-- A block written in front of the list, where the other headers are as they were. -/
theorem push_of {S' : ℕ → Prop} (hlinked : Linked 0 (get m · .next) fl free 0)
    (hlisted : ∀ c ∈ free, get m c .free ≠ 0) (hused : ∀ c ∈ live, get m c .free = 0)
    (hsized : ∀ c ∈ free ++ live, Sized m c)
    (hsame : ∀ c ∈ free ++ live, ∀ g, get m' c g = get m c g)
    (hnext : get m' b .next = fl) (hfree : get m' b .free ≠ 0) (hb : Sized m' b)
    (htiles : Tiles (extent m') (b :: (free ++ live)) S') : Shape ⟨m', b⟩ (b :: free) live S' := by
  have hmem : ∀ c ∈ free, c ∈ free ++ live := fun c => mem_append_left live
  refine ⟨⟨rfl, hb.pos.ne', ?_⟩, ?_, ?_, ?_, htiles⟩
  · simp only [hnext]
    exact hlinked.congr fun c hc => hsame c (hmem c hc) _
  · refine forall_mem_cons.2 ⟨hfree, fun c hc => ?_⟩
    rw [hsame c (hmem c hc)]
    exact hlisted c hc
  · intro c hc
    rw [hsame c (mem_append_right free hc)]
    exact hused c hc
  · exact forall_mem_cons.2 ⟨hb, fun c hc => (hsized c hc).congr (hsame c hc .size)⟩

theorem freelist_lt (hs : Shape ⟨m, fl⟩ free live S) : fl < 2 ^ 64 := by
  cases free with
  | nil =>
    have hnull : fl = 0 := hs.linked
    omega
  | cons c free =>
    have hfits := (hs.sized c (by simp)).fits
    have hhead : fl = c := hs.linked.1
    simp only [extent, hdr] at hfits
    omega

theorem ne_of_live (hs : Shape ⟨m, fl⟩ free (b :: live) S) (hc : c ∈ free ++ live) : c ≠ b :=
  fun he => (nodup_cons.1 (List.perm_middle.nodup_iff.1 hs.nodup)).1 (he ▸ hc)

/-- A live block put back is at the head of the list. -/
theorem push (hs : Shape ⟨m, fl⟩ free (b :: live) S) :
    Shape ⟨set (set m b .free 1) b .next fl, b⟩ (b :: free) live S ∧
      Intact m (set (set m b .free 1) b .next fl) live ∧
      get (set (set m b .free 1) b .next fl) b .size = get m b .size := by
  have hb : b ∈ free ++ b :: live := by simp
  have hmem : ∀ c ∈ free ++ live, c ∈ free ++ b :: live := by
    simp only [mem_append, mem_cons]
    tauto
  have hsame : ∀ c ∈ free ++ live, ∀ g, get (set (set m b .free 1) b .next fl) c g = get m c g := by
    intro c hc g
    simp [get_set (hs.clear (hmem c hc) hb), hs.ne_of_live hc]
  have hsize : get (set (set m b .free 1) b .next fl) b .size = get m b .size := by
    simp [get_set (.inl rfl : Clear b b)]
  refine ⟨push_of hs.linked hs.listed (fun c hc => hs.used c (by simp [hc]))
    (fun c hc => hs.sized c (hmem c hc)) hsame ?_ ?_ ((hs.sized b hb).congr hsize) ?_, ?_, hsize⟩
  · rw [get_set (.inl rfl), if_pos ⟨rfl, rfl⟩, Nat.mod_eq_of_lt hs.freelist_lt]
  · simp [get_set (.inl rfl : Clear b b)]
  · refine (hs.tiles.perm List.perm_middle).congr fun c hc => ?_
    rcases mem_cons.1 hc with rfl | hc
    · simp only [extent, hsize]
    · simp only [extent, hsame c hc]
  intro c hc
  have hc' : c ∈ free ++ live := by simp [hc]
  refine ⟨hsame c hc' .size, fun a ha ha' => ?_⟩
  have hout := hs.outside hb (hmem c hc') ha ha'
  rw [set_outside hout, set_outside hout]

/-- Memory from the system becomes one free block. -/
theorem grow {fl asked : ℕ} (hs : Shape ⟨m, fl⟩ free live S) (haligned : 16 ∣ b) (hpos : 0 < b)
    (hasked : 16 ∣ asked) (hroom : 48 ≤ asked) (hfits : b + asked ≤ 2 ^ 64)
    (hfresh : ∀ a, b ≤ a → a < b + asked → ¬ S a) :
    Shape (addRegion ⟨m, fl⟩ b (asked - 32)) (b :: free) live
        (fun a => (b ≤ a ∧ a < b + asked) ∨ S a) ∧
      Intact m (addRegion ⟨m, fl⟩ b (asked - 32)).mem live := by
  have hapart : ∀ c ∈ free ++ live, c + (32 + get m c .size) ≤ b ∨ b + asked ≤ c := by
    intro c hc
    have hin := fun a h => (hs.tiles.covers a).2 ⟨c, hc, h⟩
    simp only [InTile, extent, hdr] at hin
    by_contra hmeet
    exact hfresh (max b c) (by omega) (by omega) (hin _ (by omega))
  obtain ⟨m', hm'⟩ : ∃ m', m' = set (set (set m b .size (asked - 32)) b .free 1) b .next fl :=
    ⟨_, rfl⟩
  have hregion : addRegion ⟨m, fl⟩ b (asked - 32) = ⟨m', b⟩ := by rw [hm']; rfl
  have hbb : Clear b b := .inl rfl
  have hsame : ∀ c ∈ free ++ live, ∀ g, get m' c g = get m c g := by
    intro c hc g
    have hap := hapart c hc
    have hne : c ≠ b := by omega
    have hclear : Clear c b := .inr (by omega)
    simp [hm', get_set hclear, hne]
  have hsize : get m' b .size = asked - 32 := by
    simp [hm', get_set hbb]
    omega
  have hext : extent m' b = asked := by
    simp only [extent, hdr, hsize]
    omega
  rw [hregion]
  refine ⟨push_of hs.linked hs.listed hs.used hs.sized hsame ?_ ?_ ?_ ?_, ?_⟩
  · rw [hm', get_set hbb, if_pos ⟨rfl, rfl⟩, Nat.mod_eq_of_lt hs.freelist_lt]
  · simp [hm', get_set hbb]
  · exact ⟨haligned, hpos, by rw [hsize]; omega, by rw [hsize]; omega, by rwa [hext]⟩
  · have hold : Tiles (extent m') (free ++ live) S := hs.tiles.congr fun c hc => by
      rw [extent, extent, hsame c hc]
    have hadd := hold.add (b := b) (fun a ha => hfresh a ha.1 (by rw [← hext]; exact ha.2))
      (extent_pos ..) fun _ _ => extent_pos ..
    simpa only [InTile, hext] using hadd
  · intro c hc
    have hc' : c ∈ free ++ live := mem_append_right free hc
    refine ⟨hsame c hc' .size, fun a ha ha' => ?_⟩
    have hap := hapart c hc'
    simp only [extent, hdr] at ha ha'
    have hout : a < b ∨ b + 24 ≤ a := by omega
    rw [hm']
    exact (set_outside hout).trans ((set_outside hout).trans (set_outside hout))

section

variable (hs : Shape ⟨m, fl⟩ (l1 ++ nxt :: l2) live S) (hprev : prev = l1.getLastD 0) (hb : b ∈ l1)
  (hnxt : nxt = b + 32 + get m b .size)
include hs hprev hb hnxt

/-- All that merging changes: the size of the first block and the link past the second. -/
theorem merge_get
    (hc : c ∈ l1 ++ nxt :: l2 ++ live) :
    get (mergeBlock ⟨m, fl⟩ prev b nxt).mem c g
      = if c = b ∧ g = .size then get m b .size + (32 + get m nxt .size)
        else if c = prev ∧ g = .next then get m nxt .next else get m c g := by
  have hlink : ∀ d ∈ l1 ++ nxt :: l2 ++ live, ∀ f,
      get (setLink ⟨m, fl⟩ prev (get m nxt .next)).mem d f
        = if d = prev ∧ f = .next then get m nxt .next else get m d f := by
    intro d hd f
    rw [get_setLink (hs.sized d hd).pos.ne' (hs.clear_prev hprev hd), get_mod]
  have hb' : b ∈ l1 ++ nxt :: l2 ++ live := by simp [hb]
  have hn' : nxt ∈ l1 ++ nxt :: l2 ++ live := by simp
  have hfits := (hs.sized nxt hn').fits
  simp only [extent, hdr] at hfits
  have hsize : ∀ d ∈ l1 ++ nxt :: l2 ++ live,
      get (setLink ⟨m, fl⟩ prev (get m nxt .next)).mem d .size = get m d .size := by
    intro d hd
    simp [hlink d hd]
  have hsum : (get m b .size + (hdr + get m nxt .size)) % 2 ^ 64 % 2 ^ 64
      = get m b .size + (32 + get m nxt .size) := by
    simp only [hdr]
    omega
  rw [mergeBlock, get_set (hs.clear hc hb'), hlink c hc, hsize b hb', hsize nxt hn', hsum]

/-- A block merged into the one that ends where it begins leaves the list; no live block sees it. -/
theorem merge :
    Shape (mergeBlock ⟨m, fl⟩ prev b nxt) (l1 ++ l2) live S ∧
      Intact m (mergeBlock ⟨m, fl⟩ prev b nxt).mem live := by
  have hget := fun {c} {g} => hs.merge_get (c := c) (g := g) hprev hb hnxt
  have hmem : ∀ c ∈ l1 ++ l2 ++ live, c ∈ l1 ++ nxt :: l2 ++ live := fun c hc =>
    mem_middle.2 (.inr hc)
  have hn' : nxt ∈ l1 ++ nxt :: l2 ++ live := by simp
  have hb' : b ∈ l1 ++ l2 ++ live := by simp [hb]
  have hnodup := hs.nodup
  have hbl : ∀ c ∈ live, c ≠ b := fun c hc he =>
    (nodup_append.1 hnodup).2.2 b (by simp [hb]) c hc he.symm
  have hsize : ∀ c ∈ l1 ++ l2 ++ live, c ≠ b →
      get (mergeBlock ⟨m, fl⟩ prev b nxt).mem c .size = get m c .size := by
    intro c hc hne
    simp [hget (hmem c hc), hne]
  have hsizeb : get (mergeBlock ⟨m, fl⟩ prev b nxt).mem b .size
      = get m b .size + (32 + get m nxt .size) := by
    simp [hget (hmem b hb')]
  refine ⟨⟨?_, ?_, ?_, ?_, ?_⟩, ?_⟩
  · have hfl : (mergeBlock ⟨m, fl⟩ prev b nxt).freelist = if prev = 0 then get m nxt .next else fl := by
      simp only [mergeBlock, setLink]
      split_ifs <;> rfl
    rw [hfl]
    refine hs.linked.remove (nodup_append.1 hnodup).1 hprev fun c hc => ?_
    simp [hget (hmem c (mem_append_left live hc))]
  · intro c hc
    simpa [hget (hmem c (mem_append_left live hc))] using
      hs.listed c (by simp only [mem_append, mem_cons] at hc ⊢; tauto)
  · intro c hc
    simpa [hget (hmem c (mem_append_right _ hc))] using hs.used c hc
  · intro c hc
    by_cases hcb : c = b
    · subst hcb
      obtain ⟨haligned, hpos, hwhole, hroom, hfits⟩ := hs.sized c (hmem c hc)
      obtain ⟨-, -, hwhole', -, hfits'⟩ := hs.sized nxt hn'
      refine ⟨haligned, hpos, ?_, ?_, ?_⟩ <;> simp only [extent, hdr, hsizeb] at * <;> omega
    · exact (hs.sized c (hmem c hc)).congr (hsize c hc hcb)
  · have hperm := (perm_middle.trans ((perm_cons_erase hb').cons nxt)).trans (.swap ..)
    have hrest := nodup_cons.1 (perm_middle.nodup_iff.1 hnodup)
    have hjoin : Tiles (extent (mergeBlock ⟨m, fl⟩ prev b nxt).mem)
        (b :: (l1 ++ l2 ++ live).erase b) S := by
      refine (hs.tiles.perm hperm).merge (by simp only [extent, hdr]; omega)
        (by simp only [extent, hdr, hsizeb]; omega) (fun c hc => ?_) fun _ _ => extent_pos ..
      obtain ⟨hne, hc⟩ := hrest.2.mem_erase_iff.1 hc
      rw [extent, extent, hsize c hc hne]
    exact hjoin.perm (perm_cons_erase hb').symm
  · intro c hc
    have hc' : c ∈ l1 ++ l2 ++ live := mem_append_right _ hc
    refine ⟨hsize c hc' (hbl c hc), fun a ha ha' => ?_⟩
    have hout : a < b ∨ b + 24 ≤ a := hs.outside (hmem b hb') (hmem c hc') ha ha'
    have hprev' : prev ≠ 0 → a < prev ∨ prev + 24 ≤ a := fun h =>
      hs.outside (by simp [prev_mem hprev h]) (hmem c hc') ha ha'
    exact (set_outside hout).trans (setLink_outside hprev')

end

end Shape
end IrisOS.Malloc
