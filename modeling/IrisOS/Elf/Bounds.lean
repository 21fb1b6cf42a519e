import IrisOS.Elf.Loader

/-! How far the loader reaches: every read of the image against its size, and every byte copied
or zeroed against the window of its segment. -/
namespace IrisOS.Elf
open Lib (loadLe Traced)
open Lib.Traced List

/-- A read lies inside the image, and what is copied or zeroed inside the segment's window. -/
def InBounds (img : Image) : Access → Prop
  | .read off len => off + len ≤ img.size
  | .fill window off len => off + len ≤ window
  | .store _ _ _ => True

/-- A field of the image, without the read. -/
def field (img : Image) (off len : ℕ) : ℕ := loadLe (fun i => img.bytes (off + i)) len

section
variable {img : Image} {eh : Header}

theorem inBounds_load {off len : ℕ} (h : off + len ≤ img.size) :
    Spec (InBounds img) (load img.bytes off len) fun v => v = field img off len :=
  ⟨within_load.mpr h, fun _ hv => (Option.some.inj hv).symm⟩

/-- The program header table lies inside the image, however it is walked. -/
structure Header.Fits (eh : Header) (img : Image) : Prop where
  table : eh.phoff + eh.phnum * eh.phentsize ≤ img.size
  entry : phdrBytes ≤ eh.phentsize

variable {i : ℕ} {l : List ℕ}

theorem Header.Fits.phdr (h : eh.Fits img) (hi : i < eh.phnum) :
    eh.phdr i + phdrBytes ≤ img.size := by
  have hle : (i + 1) * phdrBytes ≤ eh.phnum * eh.phentsize := Nat.mul_le_mul hi h.entry
  have htable := h.table
  unfold Header.phdr
  rw [Nat.add_mul, Nat.one_mul] at hle
  omega

theorem Header.Fits.stride (h : eh.Fits img) (hi : i < eh.phnum) :
    eh.phoff + i * eh.phentsize + phdrBytes ≤ img.size := by
  have hle : (i + 1) * eh.phentsize ≤ eh.phnum * eh.phentsize := Nat.mul_le_mul_right _ hi
  have htable := h.table
  have hentry := h.entry
  rw [Nat.add_mul, Nat.one_mul] at hle
  omega

theorem spec_checkHeader (img : Image) :
    Spec (InBounds img) (checkHeader img) fun eh => eh.Fits img := by
  refine spec_bind spec_check fun _ hsize => ?_
  have hread : ∀ off len, off + len ≤ ehdrBytes →
      Spec (InBounds img) (load img.bytes off len) fun _ => True := fun off len hle =>
    (inBounds_load (hle.trans hsize)).mono fun _ _ => trivial
  refine spec_bind (hread 0 4 (by decide)) fun _ _ => ?_
  refine spec_bind spec_check fun _ _ => ?_
  refine spec_bind (hread 16 2 (by decide)) fun _ _ => ?_
  refine spec_bind spec_check fun _ _ => ?_
  refine spec_bind (hread 18 2 (by decide)) fun _ _ => ?_
  refine spec_bind spec_check fun _ _ => ?_
  refine spec_bind (hread 56 2 (by decide)) fun phnum _ => ?_
  refine spec_bind (hread 54 2 (by decide)) fun phentsize _ => ?_
  refine spec_bind spec_check fun _ hent => ?_
  refine spec_bind (hread 32 8 (by decide)) fun phoff _ => ?_
  refine spec_bind spec_check fun _ hphoff => ?_
  refine spec_bind spec_check fun _ htable => ?_
  exact spec_pure ⟨by dsimp only; omega, hent.2⟩

/-- The file bytes of a segment lie in the image, and all of it lies in its window exactly if its
end does not wrap. -/
structure Segment.Sound (seg : Segment) (img : Image) : Prop where
  file : seg.offset + seg.filesz ≤ img.size
  size : seg.filesz ≤ seg.memsz
  nonempty : 0 < seg.memsz
  window : seg.pageOff + seg.memsz ≤ seg.mapSize ↔ seg.vaddr + seg.memsz < 2 ^ 64

theorem windowOf_holds {vaddr memsz filesz offset flags : ℕ} (hvaddr : vaddr < 2 ^ 64)
    (hsize : (windowOf vaddr memsz filesz offset flags).mapSize ≠ 0 ∧
      (windowOf vaddr memsz filesz offset flags).mapSize ≤ slSegSlotSize)
    (hend : (windowOf vaddr memsz filesz offset flags).mapBase ≤
      ((windowOf vaddr memsz filesz offset flags).mapBase +
        (windowOf vaddr memsz filesz offset flags).mapSize) % 2 ^ 64) :
    (windowOf vaddr memsz filesz offset flags).pageOff + memsz ≤
      (windowOf vaddr memsz filesz offset flags).mapSize ↔ vaddr + memsz < 2 ^ 64 := by
  simp only [windowOf, slPageFloor, slPageCeil, slSegSlotSize] at *
  omega

theorem Header.Fits.load (h : eh.Fits img) (hi : i < eh.phnum) (k len : ℕ)
    (hle : k + len ≤ phdrBytes) :
    Spec (InBounds img) (load img.bytes (eh.phdr i + k) len) fun v => v < 256 ^ len := by
  have hphdr := h.phdr hi
  exact (inBounds_load (by omega)).mono fun _ hv => hv ▸ Lib.loadLe_lt _ _

theorem spec_collect (h : eh.Fits img) {segs : List Segment} (hsegs : ∀ s ∈ segs, s.Sound img)
    (hi : i < eh.phnum) :
    Spec (InBounds img) (collect img eh segs i) fun segs' => ∀ s ∈ segs', s.Sound img := by
  have hread := h.load hi
  refine spec_bind (hread 0 4 (by decide)) fun type _ => ?_
  split_ifs
  · exact spec_pure hsegs
  refine spec_bind (hread 40 8 (by decide)) fun memsz _ => ?_
  split_ifs with hmemsz
  · exact spec_pure hsegs
  refine spec_bind (hread 8 8 (by decide)) fun offset _ => ?_
  refine spec_bind spec_check fun _ hoffset => ?_
  refine spec_bind (hread 32 8 (by decide)) fun filesz _ => ?_
  refine spec_bind spec_check fun _ hfile => ?_
  refine spec_bind spec_check fun _ _ => ?_
  refine spec_bind spec_check fun _ hsize => ?_
  refine spec_bind (hread 16 8 (by decide)) fun vaddr hvaddr => ?_
  refine spec_bind (hread 4 4 (by decide)) fun flags _ => ?_
  refine spec_bind spec_check fun _ hmap => ?_
  refine spec_bind spec_check fun _ hend => ?_
  refine spec_pure fun s hs => ?_
  rcases mem_append.mp hs with hold | hnew
  · exact hsegs s hold
  · obtain rfl := mem_singleton.mp hnew
    refine ⟨?_, hsize, Nat.pos_of_ne_zero hmemsz, windowOf_holds hvaddr hmap hend⟩
    show offset + filesz ≤ img.size
    omega

theorem result_copySegment (seg : Segment) : (copySegment seg).result = some () := by
  unfold copySegment copyBytes zeroRest
  split_ifs <;> rfl

/-- A segment is copied and zeroed inside its window exactly if its end does not wrap. -/
theorem within_copySegment {seg : Segment} (h : seg.Sound img) :
    Within (InBounds img) (copySegment seg) ↔ seg.vaddr + seg.memsz < 2 ^ 64 := by
  have hfile := h.file
  have hsize := h.size
  have hpos := h.nonempty
  rw [← h.window]
  unfold copySegment copyBytes zeroRest
  split_ifs with hnone hfull hfull
  all_goals simp [InBounds]
  all_goals omega

theorem within_field_bind {α : Type} {off len : ℕ} {f : ℕ → Traced Access α} :
    Within (InBounds img) (load img.bytes off len >>= f) ↔
      off + len ≤ img.size ∧ Within (InBounds img) (f (field img off len)) := by
  simp [within_load, result_load, InBounds, field]

theorem result_findPhdr (type : ℕ) (at_ : ℕ → ℕ) : (findPhdr img type at_ l).result =
    some (l.find? fun i => field img (at_ i) 4 = type) := by
  induction l with
  | nil => rfl
  | cons i l ih =>
    by_cases htype : field img (at_ i) 4 = type
    · rw [findPhdr, result_load_bind (if_pos htype), find?_cons_of_pos (by simp [htype])]
      rfl
    · rw [findPhdr, result_load_bind (if_neg htype), ih, find?_cons_of_neg (by simp [htype])]

theorem within_findPhdr {type : ℕ} {at_ : ℕ → ℕ} (h : ∀ i ∈ l, at_ i + 4 ≤ img.size) :
    Within (InBounds img) (findPhdr img type at_ l) := by
  induction l with
  | nil => exact within_pure none
  | cons i l ih =>
    rw [findPhdr, within_field_bind]
    refine ⟨h i mem_cons_self, ?_⟩
    split_ifs
    · exact within_pure _
    · exact ih fun j hj => h j (mem_cons_of_mem i hj)

def dynTag (img : Image) (dyn k : ℕ) : ℕ := field img (dynAt dyn k) 8

/-- The entries of a dynamic section from the `k`-th on are read inside the image. -/
def DynInside (img : Image) (dyn k n : ℕ) : Prop :=
  ∀ j, k ≤ j → j < k + n → (∀ j', k ≤ j' → j' < j → dynTag img dyn j' ≠ dtNull) →
    dynAt dyn j + 8 ≤ img.size ∧
      (dynTag img dyn j ∈ [dtRela, dtRelasz, dtRelaent] → dynAt dyn j + 16 ≤ img.size)

theorem dynInside_succ {dyn k n : ℕ} : DynInside img dyn k (n + 1) ↔
    (dynAt dyn k + 8 ≤ img.size ∧
      (dynTag img dyn k ∈ [dtRela, dtRelasz, dtRelaent] → dynAt dyn k + 16 ≤ img.size)) ∧
    (dynTag img dyn k ≠ dtNull → DynInside img dyn (k + 1) n) := by
  constructor
  · intro h
    refine ⟨h k le_rfl (by omega) fun j' hkj' hlt => absurd hkj' (by omega), ?_⟩
    intro hk j hkj hjn hnull
    refine h j (by omega) (by omega) fun j' hkj' hjj' => ?_
    rcases Nat.eq_or_lt_of_le hkj' with rfl | hlt
    · exact hk
    · exact hnull j' hlt hjj'
  · rintro ⟨hfirst, hrest⟩ j hkj hjn hnull
    rcases Nat.eq_or_lt_of_le hkj with rfl | hlt
    · exact hfirst
    · exact hrest (hnull k le_rfl hlt) j hlt (by omega) fun j' hkj' => hnull j' (by omega)

/-- The walk of a dynamic section stays in the image exactly if the entries it reads do. -/
theorem within_findRelaLoop {dyn n k : ℕ} (t : RelaTable) :
    Within (InBounds img) (findRelaLoop img dyn n k t) ↔ DynInside img dyn k n := by
  induction n generalizing k t with
  | zero => exact iff_of_true (within_pure t) fun j hkj hlt => absurd hkj (by omega)
  | succ n ih =>
    rw [findRelaLoop, within_field_bind, dynInside_succ, and_assoc]
    refine and_congr_right fun _ => ?_
    have hvalue (f : ℕ → RelaTable) : Within (InBounds img) (do
        let v ← load img.bytes (dynAt dyn k + 8) 8
        findRelaLoop img dyn n (k + 1) (f v)) ↔
        dynAt dyn k + 16 ≤ img.size ∧ DynInside img dyn (k + 1) n := by
      rw [within_field_bind, ih, Nat.add_assoc]
    rw [dynTag]
    generalize field img (dynAt dyn k) 8 = tag
    split_ifs with hnull hrela hsz hent
    · subst hnull
      exact iff_of_true (within_pure t) ⟨fun h => absurd h (by decide), fun h => absurd rfl h⟩
    · rw [hvalue, hrela]
      simp [dtRela, dtNull]
    · rw [hvalue, hsz]
      simp [dtRelasz, dtNull]
    · rw [hvalue, hent]
      simp [dtRelaent, dtNull]
    · rw [ih]
      simp [hnull, hrela, hsz, hent]

theorem spec_elfFindRela {dyn n : ℕ} (h : DynInside img dyn 0 n) :
    Spec (InBounds img) (elfFindRela img dyn n) fun r => ∀ t, r = some t → relaBytes ≤ t.ent := by
  refine spec_bind (P := fun _ => True) ⟨(within_findRelaLoop _).mpr h, fun _ _ => trivial⟩
    fun t _ => spec_pure ?_
  intro t' ht'
  split_ifs at ht' with hbad
  obtain rfl := Option.some.inj ht'
  omega

theorem spec_slVaddrToFoff (h : eh.Fits img) (vaddr : ℕ) (hl : ∀ i ∈ l, i < eh.phnum) :
    Spec (InBounds img) (slVaddrToFoff img eh vaddr l) fun _ => True := by
  induction l with
  | nil => exact spec_pure trivial
  | cons i l ih =>
    have hread := h.load (hl i mem_cons_self)
    have hrest := ih fun j hj => hl j (mem_cons_of_mem i hj)
    refine spec_bind (hread 0 4 (by decide)) fun type _ => ?_
    split_ifs
    · exact hrest
    refine spec_bind (hread 16 8 (by decide)) fun pvaddr _ => ?_
    refine spec_bind (hread 32 8 (by decide)) fun filesz _ => ?_
    split_ifs
    · exact hrest
    · exact spec_bind (hread 8 8 (by decide)) fun _ _ => spec_pure trivial

theorem within_applyTable {segs : List SegView} {bias table : UInt64} {mem : Mem} {foff : ℕ}
    {t : RelaTable} (hfoff : foff + t.bytes ≤ img.size) :
    Within (InBounds img) (elfApplyRelative segs bias table mem foff t.bytes t.ent) := by
  unfold elfApplyRelative
  split_ifs with hrefused
  · exact within_refuse
  have hent : relaBytes ≤ t.ent := by omega
  refine (within_foldlM_range _).mpr fun i hi s _ => within_applyRelativeEntry.mpr ?_
  have hentries : (i + 1) * t.ent ≤ t.bytes :=
    (Nat.mul_le_mul_right _ hi).trans (Nat.div_mul_le_self _ _)
  rw [Nat.add_mul, Nat.one_mul] at hentries
  have hread (k : ℕ) (hk : k + 8 ≤ relaBytes) :
      InBounds img (.read (foff + i * t.ent + k) 8) := by
    show foff + i * t.ent + k + 8 ≤ img.size
    omega
  exact ⟨hread 8 (by decide), fun _ => ⟨hread 0 (by decide), fun _ _ =>
    ⟨hread 16 (by decide), trivial⟩⟩⟩

/-- The dynamic section that the loader reads, where there is no interpreter to leave it to. -/
def dynamicOf (img : Image) (eh : Header) : Option ℕ :=
  (List.range eh.phnum).find? fun i => field img (eh.phdr i) 4 = ptDynamic

def interpOf (img : Image) (eh : Header) : Option ℕ :=
  (List.range eh.phnum).find? fun i => field img (eh.phoff + i * eh.phentsize) 4 = ptInterp

/-- The entries that the loader reads of the dynamic section in program header `i`. -/
def DynamicInside (img : Image) (eh : Header) (i : ℕ) : Prop :=
  DynInside img (field img (eh.phdr i + 8) 8) 0 (field img (eh.phdr i + 32) 8 / dynBytes)

/-- The relocation of an image stays in it exactly if its dynamic section does. -/
theorem within_relocate (h : eh.Fits img) (segs : List Segment) (bias : UInt64) :
    Within (InBounds img) (relocate img eh segs bias) ↔
      ∀ i ∈ dynamicOf img eh, DynamicInside img eh i := by
  have hfind : Within (InBounds img) (findPhdr img ptDynamic eh.phdr (List.range eh.phnum)) := by
    refine within_findPhdr fun i hi => ?_
    have hphdr := h.phdr (mem_range.mp hi)
    unfold phdrBytes at hphdr
    omega
  rw [relocate, within_bind, and_iff_right hfind, result_findPhdr]
  show (∀ dynamic ∈ some (dynamicOf img eh), _) ↔ _
  cases hdynamic : dynamicOf img eh with
  | none => simp
  | some i =>
    have hphdr := h.phdr (mem_range.mp (mem_of_find?_eq_some hdynamic))
    unfold phdrBytes at hphdr
    simp only [Option.mem_some_iff, forall_eq']
    rw [within_field_bind, and_iff_right (by omega), within_field_bind,
      and_iff_right (by omega), within_bind]
    constructor
    · intro hloop
      have hmap := hloop.1
      rw [elfFindRela, bind_pure_comp, within_map] at hmap
      exact (within_findRelaLoop _).mp hmap
    · intro hinside
      obtain ⟨hfirst, -⟩ := spec_elfFindRela hinside
      refine ⟨hfirst, fun found _ => ?_⟩
      cases found with
      | none => exact within_pure ()
      | some t =>
        refine within_bind.mpr ⟨(spec_slVaddrToFoff h t.vaddr fun j hj => mem_range.mp hj).1,
          fun foff _ => ?_⟩
        refine (spec_bind spec_check fun _ _ => ?_ : Spec _ _ fun _ => True).1
        refine spec_bind spec_check fun _ hfoff => ?_
        exact spec_bind (P := fun _ => True) ⟨within_applyTable (by omega), fun _ _ => trivial⟩
          fun _ _ => spec_pure trivial

/-- An image that is loaded has a segment whose end wraps, or a dynamic section for the loader to
read that leaves the image. -/
def Strays (img : Image) (made : Bool) : Prop :=
  ∃ eh ∈ (checkHeader img).result,
    ∃ segs ∈ ((List.range eh.phnum).foldlM (collect img eh) []).result,
      segs ≠ [] ∧ made = true ∧
      ((∃ seg ∈ segs, 2 ^ 64 ≤ seg.vaddr + seg.memsz) ∨
        (interpOf img eh = none ∧ ∃ i ∈ dynamicOf img eh, ¬ DynamicInside img eh i))

theorem not_strays_iff {made : Bool} : ¬ Strays img made ↔ ∀ eh ∈ (checkHeader img).result,
    ∀ segs ∈ ((List.range eh.phnum).foldlM (collect img eh) []).result,
      segs ≠ [] → made = true → (∀ seg ∈ segs, seg.vaddr + seg.memsz < 2 ^ 64) ∧
        (interpOf img eh = none → ∀ i ∈ dynamicOf img eh, DynamicInside img eh i) := by
  unfold Strays
  push Not
  rfl

/-- The copies and the relocation of an image whose segments have been collected. -/
theorem within_copyAndRelocate (hfits : eh.Fits img) {segs : List Segment} (bias : UInt64)
    (hsound : ∀ s ∈ segs, s.Sound img) :
    Within (InBounds img) (do
      segs.foldlM (fun _ seg => copySegment seg) ()
      let interp ← elfImageHasInterp img eh
      if interp.isSome then pure () else relocate img eh segs bias) ↔
      (∀ seg ∈ segs, seg.vaddr + seg.memsz < 2 ^ 64) ∧
        (interpOf img eh = none → ∀ i ∈ dynamicOf img eh, DynamicInside img eh i) := by
  have hinterp : Within (InBounds img) (elfImageHasInterp img eh) := by
    refine within_findPhdr fun i hi => ?_
    have hstride := hfits.stride (mem_range.mp hi)
    unfold phdrBytes at hstride
    omega
  rw [within_steps_bind fun seg _ => result_copySegment seg,
    forall₂_congr fun seg hseg => within_copySegment (hsound seg hseg)]
  refine and_congr_right fun _ => ?_
  rw [within_bind, and_iff_right hinterp, elfImageHasInterp, result_findPhdr]
  show (∀ interp ∈ some (interpOf img eh), _) ↔ _
  simp only [Option.mem_some_iff, forall_eq']
  cases interpOf img eh with
  | none => simp [within_relocate hfits]
  | some i => simp

end

/-- Bytes given by fields: an offset, a width and a value each. -/
def placed (fields : List (ℕ × ℕ × ℕ)) (i : ℕ) : UInt8 :=
  match fields.find? fun f => f.1 ≤ i ∧ i < f.1 + f.2.1 with
  | none => 0
  | some f => Lib.byteOf f.2.2 (i - f.1)

/-- An image of 192 bytes with one loadable segment and one dynamic section. -/
def twoHeaders (vaddr memsz dyn : ℕ) : Image :=
  ⟨placed [(0, 4, 0x464C457F), (16, 2, etDyn), (18, 2, emX8664), (32, 8, 64), (54, 2, 56),
    (56, 2, 2), (64, 4, ptLoad), (80, 8, vaddr), (96, 8, 192), (104, 8, memsz),
    (120, 4, ptDynamic), (128, 8, dyn), (152, 8, 16)], 192⟩

end IrisOS.Elf
