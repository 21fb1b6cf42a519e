import IrisOS.Malloc.Blocks

/-! What each call to the heap does to its blocks: allocation makes one listed block live,
freeing lists a live one again, and the loops over bytes stay in the payload they are for. -/
namespace IrisOS.Malloc
open Lib List

variable {h : Heap} {grow : ℕ → ℕ} {n want b c : ℕ} {m m' : Mem} {free live : List ℕ}
  {S : ℕ → Prop} {regions : List (ℕ × ℕ)} {l1 l2 : List ℕ} {fl : ℕ}

theorem get_set_far {x v : ℕ} {f g : Field}
    (hfar : c + g.offset + 8 ≤ x + f.offset ∨ x + f.offset + 8 ≤ c + g.offset) :
    get (set m x f v) c g = get m c g := load64_store64_apart hfar

theorem Shape.of_fields (hs : Shape ⟨m, fl⟩ free live S)
    (hsame : ∀ c ∈ free ++ live, ∀ g, get m' c g = get m c g) : Shape ⟨m', fl⟩ free live S where
  linked := hs.linked.congr fun c hc => hsame c (mem_append_left live hc) _
  listed c hc := by
    rw [hsame c (mem_append_left live hc)]
    exact hs.listed c hc
  used c hc := by
    rw [hsame c (mem_append_right free hc)]
    exact hs.used c hc
  sized c hc := (hs.sized c hc).congr (hsame c hc .size)
  tiles := hs.tiles.congr fun c hc => by simp only [extent, hsame c hc]

/-- The one size at which the test for splitting wraps: the block is all of the address space. -/
theorem Shape.split_wrapped (hs : Shape ⟨m, fl⟩ (l1 ++ b :: l2) live S)
    (hwant : 2 ^ 64 ≤ want + 48) (hfit : want ≤ get m b .size) :
    Shape ⟨splitBlock m b want, fl⟩ (l1 ++ b :: l2) live S ∧
      Intact m (splitBlock m b want) live ∧ get (splitBlock m b want) b .size = want := by
  obtain ⟨haligned, hpos, hwhole, hroom, hfits⟩ := hs.sized b (by simp)
  simp only [extent, hdr] at haligned hwhole hroom hfits
  obtain rfl : b = 16 := by omega
  have hsz : get m 16 .size = want := by omega
  have hempty : l1 ++ l2 ++ live = [] := by
    refine eq_nil_iff_forall_not_mem.2 fun c hc => ?_
    have hc' : c ∈ l1 ++ 16 :: l2 ++ live := mem_middle.2 (.inr hc)
    have hap := hs.apart hc' (by simp : 16 ∈ l1 ++ 16 :: l2 ++ live) (hs.ne_of_mem hc)
    obtain ⟨hcaligned, hcpos, -, -, hcfits⟩ := hs.sized c hc'
    simp only [extent, hdr] at hap hcfits
    omega
  simp only [append_eq_nil_iff] at hempty
  obtain ⟨⟨rfl, rfl⟩, rfl⟩ := hempty
  have hnext : get m 16 .next = 0 := hs.linked.2.2
  have hrest : (16 + hdr + want) % 2 ^ 64 = 0 := by simp only [hdr]; omega
  have hcond : (want + hdr + 16) % 2 ^ 64 ≤ get m 16 .size := by simp only [hdr]; omega
  have hbb : Clear 16 16 := .inl rfl
  have hsame : ∀ g, get (splitBlock m 16 want) 16 g = get m 16 g := by
    intro g
    simp only [splitBlock, if_pos hcond, hrest, get_set hbb]
    cases g with
    | next => rw [if_pos ⟨trivial, rfl⟩, hnext, Nat.zero_mod]
    | size =>
      rw [if_neg (by simp), if_pos ⟨trivial, rfl⟩]
      omega
    | free =>
      rw [if_neg (by simp), if_neg (by simp), get_set_far (by decide), get_set_far (by decide),
        get_set_far (by decide)]
  have hone : ∀ c ∈ [] ++ [16] ++ [], c = 16 := by simp
  exact ⟨hs.of_fields fun c hc g => by rw [hone c hc, hsame g], by simp [Intact],
    (hsame .size).trans hsz⟩

theorem Shape.splitBlock_spec
    (hs : Shape ⟨m, fl⟩ (l1 ++ b :: l2) live S) (hwant : 16 ∣ want) (hroom : 16 ≤ want)
    (hfit : want ≤ get m b .size) :
    ∃ l2', Shape ⟨splitBlock m b want, fl⟩ (l1 ++ b :: l2') live S ∧
      Intact m (splitBlock m b want) live ∧ want ≤ get (splitBlock m b want) b .size := by
  by_cases hwrap : 2 ^ 64 ≤ want + 48
  · obtain ⟨hshape, hintact, hsize⟩ := hs.split_wrapped hwrap hfit
    exact ⟨l2, hshape, hintact, hsize.ge⟩
  by_cases hsplit : want + 48 ≤ get m b .size
  · obtain ⟨hshape, hintact, hsize⟩ := hs.split hwant hroom hsplit
    exact ⟨_, hshape, hintact, hsize.ge⟩
  · have hcond : ¬ (want + hdr + 16) % 2 ^ 64 ≤ get m b .size := by simp only [hdr]; omega
    rw [splitBlock, if_neg hcond]
    exact ⟨l2, hs, .refl, hfit⟩

theorem heapTake_spec (hs : Shape h free live S) (hwant : 16 ∣ want) (hroom : 16 ≤ want) :
    heapTake h want = some (h, 0) ∨ ∃ h' b free', heapTake h want = some (h', b + 32) ∧
      Shape h' free' (b :: live) S ∧ Intact h.mem h'.mem live ∧ want ≤ get h'.mem b .size := by
  obtain ⟨m, fl⟩ := h
  unfold heapTake
  rcases findFrom_spec (canTake m want) 0 hs.linked hs.length_lt with
    hend | ⟨l1, b, l2, rfl, htest, hfound⟩
  · left
    rw [hend]
    rfl
  right
  rw [hfound]
  simp only [canTake, Bool.not_eq_true', Bool.or_eq_false_iff, decide_eq_false_iff_not, not_lt] at htest
  obtain ⟨l2', hsplit, hintact, hsize⟩ := hs.splitBlock_spec hwant hroom htest.2
  obtain ⟨hshape, hintact'⟩ := hsplit.unlink rfl
  have hsized := hs.sized b (by simp)
  refine ⟨_, b, l1 ++ l2', ?_, hshape,
    hintact.trans (hintact'.mono fun c => mem_cons_of_mem b), ?_⟩
  · simp [hsized.pos.ne', hsized.payOf_eq]
  · rw [(hintact' b mem_cons_self).1]
    exact hsize

/-- The addresses of the regions the callback has given. -/
def Grown (regions : List (ℕ × ℕ)) (a : ℕ) : Prop := ∃ r ∈ regions, r.1 ≤ a ∧ a < r.1 + r.2

/-- What a callback may answer: nothing, or an aligned region that is fresh. -/
def GrowOk (regions : List (ℕ × ℕ)) (grow : ℕ → ℕ) : Prop :=
  ∀ asked, grow asked = 0 ∨ 16 ∣ grow asked ∧ grow asked + asked ≤ 2 ^ 64 ∧
    ∀ a, grow asked ≤ a → a < grow asked + asked → ¬ Grown regions a

/-- The outcome of an allocation of `n` bytes: nothing, or one more live block. -/
def Allocated (h : Heap) (live : List ℕ) (regions : List (ℕ × ℕ)) (n : ℕ) (o : Outcome) : Prop :=
  Intact h.mem o.heap.mem live ∧ ∃ free,
    (o.ptr = 0 ∧ Shape o.heap free live (Grown (o.grown.toList ++ regions))) ∨
    ∃ b, o.ptr = b + 32 ∧ n ≤ get o.heap.mem b .size ∧
      Shape o.heap free (b :: live) (Grown (o.grown.toList ++ regions))

theorem heapGrow_spec (hs : Shape h free live (Grown regions)) (hgrow : GrowOk regions grow)
    (hwant : 16 ∣ want) (hroom : 16 ≤ want) (hlt : want < 2 ^ 64) (hn : n ≤ want) :
    ∃ o, heapGrow h grow want = some o ∧ Allocated h live regions n o := by
  have hfail : Allocated h live regions n ⟨h, 0, none⟩ := ⟨.refl, free, .inl ⟨rfl, hs⟩⟩
  obtain ⟨sum, hsum⟩ : ∃ sum, sum = (hdr + want) % 2 ^ 64 := ⟨_, rfl⟩
  obtain ⟨asked, hasked⟩ : ∃ asked, asked = if sum < heapGrowMin then heapGrowMin else sum :=
    ⟨_, rfl⟩
  simp only [heapGrow, ← hsum, ← hasked]
  split_ifs with hover hnull
  · exact ⟨_, rfl, hfail⟩
  · exact ⟨_, rfl, hfail⟩
  have hcases : asked = 65536 ∨ asked = 32 + want ∧ 65536 ≤ asked := by
    split_ifs at hasked with hmin
    · exact .inl hasked
    · simp only [hdr, heapGrowMin] at hsum hover hmin
      exact .inr (by omega)
  have haligned' : 16 ∣ asked := by omega
  have hbig : 48 ≤ asked ∧ asked < 2 ^ 64 := by simp only [hdr] at hsum hover; omega
  have hsub : sub64 asked hdr = asked - 32 := by simp only [sub64, hdr]; omega
  obtain ⟨haligned, hfits, hfresh⟩ := (hgrow asked).resolve_left hnull
  obtain ⟨hregion, hintact⟩ :=
    hs.grow haligned (Nat.pos_of_ne_zero hnull) haligned' hbig.1 hfits hfresh
  have hregions : (fun a => (grow asked ≤ a ∧ a < grow asked + asked) ∨ Grown regions a)
      = Grown ((grow asked, asked) :: regions) := by
    funext a
    simp [Grown]
  rw [hregions] at hregion
  rw [hsub]
  rcases heapTake_spec hregion hwant hroom with
    htake | ⟨h', b, free', htake, hshape, hintact', hsize⟩
  · exact ⟨_, congrArg _ htake, hintact, _, .inl ⟨rfl, hregion⟩⟩
  · refine ⟨_, congrArg _ htake, hintact.trans hintact', free', .inr ⟨b, rfl, ?_, hshape⟩⟩
    exact hn.trans hsize

theorem heapMalloc_spec (hs : Shape h free live (Grown regions)) (hgrow : GrowOk regions grow)
    (hn : n < 2 ^ 64) : ∃ o, heapMalloc h grow n = some o ∧ Allocated h live regions n o := by
  obtain ⟨n', hn'⟩ : ∃ n', n' = if n = 0 then 1 else n := ⟨_, rfl⟩
  have hle : n ≤ n' ∧ 1 ≤ n' ∧ n' < 2 ^ 64 := by split_ifs at hn' <;> omega
  obtain ⟨want, hw⟩ : ∃ want, want = alignUp n' := ⟨_, rfl⟩
  have hwant : 16 ∣ want := hw ▸ Nat.dvd_mul_left ..
  simp only [heapMalloc, ← hn', ← hw]
  split_ifs with hwrap
  · exact ⟨_, rfl, .refl, free, .inl ⟨rfl, hs⟩⟩
  have hroom : 16 ≤ want ∧ n' ≤ want ∧ want < 2 ^ 64 := by simp only [alignUp] at hw; omega
  rcases heapTake_spec hs hwant hroom.1 with htake | ⟨h', b, free', htake, hshape, hintact, hsize⟩
  · obtain ⟨o, ho, hok⟩ := heapGrow_spec hs hgrow hwant hroom.1 hroom.2.2 (hle.1.trans hroom.2.1)
    exact ⟨o, by simpa [htake] using ho, hok⟩
  · exact ⟨⟨h', b + 32, none⟩, by simp [htake], hintact, free',
      .inr ⟨b, rfl, by simp only; omega, hshape⟩⟩

theorem coalesce_spec (hs : Shape h (b :: free) live S) :
    ∃ h' free', coalesce h b = some h' ∧ Shape h' free' live S ∧ Intact h.mem h'.mem live := by
  obtain ⟨m, fl⟩ := h
  have hsized : Sized m b := hs.sized b (by simp)
  have hfits := hsized.fits
  simp only [extent, hdr] at hfits
  obtain ⟨nxt, hnxt⟩ : ∃ nxt, nxt = (b + hdr + get m b .size) % 2 ^ 64 := ⟨_, rfl⟩
  simp only [coalesce, ← hnxt]
  rcases findFrom_spec (canMerge m nxt) 0 hs.linked hs.length_lt with
    hend | ⟨l1, c, l2, hlist, htest, hfound⟩
  · exact ⟨_, b :: free, congrArg _ hend, hs, .refl⟩
  simp only [canMerge, Bool.and_eq_true, beq_iff_eq] at htest
  obtain ⟨rfl, -⟩ := htest
  have hc0 : c ≠ 0 := hs.linked.ne_null (hlist ▸ by simp)
  have hnxt' : c = b + 32 + get m b .size := by
    simp only [hdr] at hnxt
    omega
  have hb : b ∈ l1 := by
    cases l1 with
    | nil =>
      have := (cons.inj hlist).1
      omega
    | cons d l1 => simp [(cons.inj hlist).1]
  rw [hlist] at hs
  obtain ⟨hmerged, hintact⟩ := hs.merge rfl hb hnxt'
  exact ⟨_, l1 ++ l2, (congrArg _ hfound).trans (congrArg some (if_neg hc0)), hmerged, hintact⟩

theorem heapFree_spec (hs : Shape h free (b :: live) S) :
    ∃ h' free', heapFree h (b + 32) = some h' ∧ Shape h' free' live S ∧
      Intact h.mem h'.mem live := by
  obtain ⟨m, fl⟩ := h
  have hsized : Sized m b := hs.sized b (by simp)
  have hused : get m b .free = 0 := hs.used b (by simp)
  obtain ⟨hshape, hintact, -⟩ := hs.push
  obtain ⟨h', free', hrun, hshape', hintact'⟩ := coalesce_spec hshape
  refine ⟨h', free', ?_, hshape', hintact.trans hintact'⟩
  simp only [heapFree, blkOf_payload hsized, hused]
  exact hrun

theorem get_congr {f : Field} (hbytes : ∀ a, b ≤ a → a < b + 24 → m' a = m a) :
    get m' b f = get m b f := by
  have := f.offset_le
  exact loadLe_congr fun i hi => hbytes _ (by omega) (by omega)

section

theorem Shape.get_of_payload (hs : Shape ⟨m, fl⟩ free live S)
    (hstores : ∀ a, m' a ≠ m a → (∃ c ∈ live, c + hdr ≤ a ∧ a < c + extent m c) ∨ ¬ S a) :
    ∀ c ∈ free ++ live, ∀ g, get m' c g = get m c g := by
  refine fun c hc g => get_congr fun a ha ha' => ?_
  by_contra hne
  rcases hstores a hne with ⟨d, hd, hda, hda'⟩ | hout
  · have := hs.outside hc (mem_append_right free hd) hda hda'
    omega
  · exact hout ((hs.tiles.covers a).2 ⟨c, hc, ha, by simp only [extent, hdr]; omega⟩)

theorem Shape.write (hs : Shape ⟨m, fl⟩ free (c :: live) S)
    (hstores : ∀ a, m' a ≠ m a → c + hdr ≤ a ∧ a < c + extent m c) :
    Shape ⟨m', fl⟩ free (c :: live) S ∧ Intact m m' live ∧
      get m' c .size = get m c .size := by
  have hsame := hs.get_of_payload fun a ha => .inl ⟨c, mem_cons_self, hstores a ha⟩
  refine ⟨hs.of_fields hsame, fun d hd => ?_, hsame c (by simp) .size⟩
  have hap := hs.apart (b := d) (c := c) (by simp [hd]) (by simp) (hs.ne_of_live (by simp [hd]))
  refine ⟨hsame d (by simp [hd]) .size, fun a ha ha' => ?_⟩
  by_contra hstore
  have := hstores a hstore
  omega

end

theorem zeroBytes_apply (p n a : ℕ) : zeroBytes m p n a = if p ≤ a ∧ a < p + n then 0 else m a := by
  induction n with
  | zero => exact (if_neg (by omega)).symm
  | succ n ih =>
    rw [zeroBytes, Function.update_apply, ih]
    split_ifs <;> first | rfl | omega

theorem copyBytes_apply {d s : ℕ} (n a : ℕ) (hdisj : s + n ≤ d ∨ d + n ≤ s) :
    copyBytes m d s n a = if d ≤ a ∧ a < d + n then m (s + (a - d)) else m a := by
  induction n generalizing a with
  | zero => exact (if_neg (by omega)).symm
  | succ n ih =>
    rw [copyBytes, Function.update_apply, ih a (by omega), ih (s + n) (by omega),
      if_neg (show ¬ (d ≤ s + n ∧ s + n < d + n) by omega)]
    split_ifs with hlast
    · rw [show a - d = n by omega]
    all_goals first | rfl | omega

theorem heapCalloc_spec {a b : ℕ} (hs : Shape h free live (Grown regions))
    (hgrow : GrowOk regions grow) :
    ∃ o, heapCalloc h grow a b = some o ∧ Allocated h live regions (a * b) o ∧
      (o.ptr ≠ 0 → ∀ i < a * b, o.heap.mem (o.ptr + i) = 0) := by
  unfold heapCalloc
  split_ifs with hover
  · exact ⟨_, rfl, ⟨.refl, free, .inl ⟨rfl, hs⟩⟩, fun h0 => absurd rfl h0⟩
  have hprod : a * b < 2 ^ 64 := by
    rcases Nat.eq_zero_or_pos a with rfl | hpos
    · omega
    have hle : b ≤ (2 ^ 64 - 1) / a := by
      by_contra hlt
      exact hover ⟨hpos.ne', by omega⟩
    have := (Nat.le_div_iff_mul_le hpos).1 hle
    rw [Nat.mul_comm]
    omega
  obtain ⟨o, ho, hintact, free', hcases⟩ := heapMalloc_spec hs hgrow hprod
  simp only [Nat.mod_eq_of_lt hprod, ho, Option.map_some]
  rcases hcases with ⟨hptr, hshape⟩ | ⟨c, hptr, hsize, hshape⟩
  · exact ⟨o, by rw [if_pos hptr], ⟨hintact, free', .inl ⟨hptr, hshape⟩⟩, fun h0 => absurd hptr h0⟩
  obtain ⟨⟨m1, fl1⟩, ptr, grown⟩ := o
  simp only at hptr hsize hshape hintact
  subst hptr
  have hstores : ∀ x, zeroBytes m1 (c + 32) (a * b) x ≠ m1 x →
      c + hdr ≤ x ∧ x < c + extent m1 c := by
    intro x hx
    rw [zeroBytes_apply] at hx
    simp only [extent, hdr]
    by_contra hout
    exact hx (if_neg (by omega))
  obtain ⟨hwrite, hkept, hsize'⟩ := hshape.write hstores
  refine ⟨_, congrArg some (if_neg (by simp)),
    ⟨hintact.trans hkept, free', .inr ⟨c, rfl, hsize.trans hsize'.ge, hwrite⟩⟩, fun _ i hi => ?_⟩
  exact (zeroBytes_apply ..).trans (if_pos (by simp only; omega))

theorem heapRealloc_spec (hs : Shape h free (b :: live) (Grown regions))
    (hgrow : GrowOk regions grow) (hn : n < 2 ^ 64) (hn0 : n ≠ 0) :
    ∃ o free', heapRealloc h grow (b + 32) n = some o ∧
      ((o.ptr = 0 ∧ Intact h.mem o.heap.mem (b :: live) ∧
          Shape o.heap free' (b :: live) (Grown (o.grown.toList ++ regions))) ∨
        ∃ c, o.ptr = c + 32 ∧ n ≤ get o.heap.mem c .size ∧ Intact h.mem o.heap.mem live ∧
          Shape o.heap free' (c :: live) (Grown (o.grown.toList ++ regions)) ∧
          ∀ i < get h.mem b .size, o.heap.mem (c + 32 + i) = h.mem (b + 32 + i)) := by
  obtain ⟨m, fl⟩ := h
  have hsized : Sized m b := hs.sized b (by simp)
  simp only [heapRealloc, blkOf_payload hsized]
  rw [if_neg (by omega), if_neg hn0]
  split_ifs with hfits
  · exact ⟨_, free, rfl, .inr ⟨b, rfl, hfits, .refl, hs, fun _ _ => rfl⟩⟩
  obtain ⟨o, ho, hintact, free', hcases⟩ := heapMalloc_spec hs hgrow hn
  simp only [ho, Option.bind_some]
  rcases hcases with ⟨hptr, hshape⟩ | ⟨c, hptr, hsize, hshape⟩
  · exact ⟨o, free', by rw [if_pos hptr], .inl ⟨hptr, hintact, hshape⟩⟩
  obtain ⟨⟨m1, fl1⟩, ptr, grown⟩ := o
  simp only at hptr hsize hshape hintact
  subst hptr
  obtain ⟨hbsize, hbytes⟩ := hintact b mem_cons_self
  have hap := hshape.apart (b := c) (c := b) (by simp) (by simp)
    (hshape.ne_of_live (by simp)).symm
  simp only [extent, hdr] at hap
  dsimp only
  rw [if_neg (by omega), hbsize]
  have hcopy := fun a => copyBytes_apply (m := m1) (d := c + 32) (s := b + 32) (get m b .size) a
    (by omega)
  have hstores : ∀ a, copyBytes m1 (c + 32) (b + 32) (get m b .size) a ≠ m1 a →
      c + hdr ≤ a ∧ a < c + extent m1 c := by
    intro a ha
    rw [hcopy] at ha
    simp only [extent, hdr]
    by_contra hout
    exact ha (if_neg (by omega))
  obtain ⟨hwrite, hkept, hsize'⟩ := hshape.write hstores
  obtain ⟨h', free'', hfree, hshape', hintact'⟩ := heapFree_spec (hwrite.perm (.swap ..))
  obtain ⟨hcsize, hcbytes⟩ := hintact' c mem_cons_self
  simp only at hcsize hcbytes
  refine ⟨_, free'', congrArg _ hfree, .inr ⟨c, rfl, ?_, ?_, hshape', fun i hi => ?_⟩⟩
  · exact hsize.trans (hcsize.trans hsize').ge
  · have htail : ∀ d ∈ live, d ∈ c :: live := fun d => mem_cons_of_mem c
    exact ((hintact.trans hkept).mono fun d => mem_cons_of_mem b).trans (hintact'.mono htail)
  · rw [hcbytes _ (by simp only [hdr]; omega) (by simp only [extent, hdr, hsize']; omega), hcopy,
      if_pos (by omega), Nat.add_sub_cancel_left]
    exact hbytes _ (by simp only [hdr]; omega) (by simp only [extent, hdr]; omega)

end IrisOS.Malloc
