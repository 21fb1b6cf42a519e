import IrisOS.Cap.Accounts

/-! The reference counts through the entry points: every action keeps the balance of both counts,
except a relocation of a CNode's own capability across its border. -/
namespace IrisOS.Cap
open Lib Kernel Function List Account Equiv

/-! ## Installing -/

section
variable {A : Account} {σ τ : Kernel} {F : Forest SlotRef} {k l : List Call}
  {x : Kernel × List Call} {r : Install} {old : Option ObjId} {parent : Option (ObjId × ℕ)}
  {idx : ℕ} {obj : ObjId} {cn : ObjId}

theorem Account.slots_congr {o : ObjId} (hall : τ.allSlots = σ.allSlots)
    (hnames : ∀ s, τ.names o s = σ.names o s) : A.slots τ o = A.slots σ o := by
  unfold slots
  rw [hall]
  exact countP_eq_of_agree fun s _ => by rw [hnames]

theorem takeRefs_frame (σ : Kernel) (cn obj : ObjId) :
    (σ.takeRefs cn obj).held = σ.held ∧ (σ.takeRefs cn obj).cascade = σ.cascade ∧
      (σ.takeRefs cn obj).allSlots = σ.allSlots := by
  refine ⟨?_, ?_, ?_⟩
  · unfold takeRefs kobjectRetain irisAssert
    split_ifs <;> rfl
  · unfold takeRefs kobjectRetain irisAssert
    split_ifs <;> rfl
  · have hobjs : ∀ o, ((σ.takeRefs cn obj).objs o).slotCount = (σ.objs o).slotCount :=
      fun o => (takeRefs_objs σ cn obj o).2.2.1
    simp only [allSlots, hobjs, (Kept.takeRefs σ cn obj).numObjs]

theorem takeRefs_counter (σ : Kernel) (cn obj o : ObjId) :
    A.counter ((σ.takeRefs cn obj).objs o) =
      A.counter (σ.objs o) + A.due o (.slotDropOld cn obj) := by
  unfold takeRefs kobjectRetain kobjectActiveRetain irisAssert
  by_cases ho : o = obj
  · subst ho
    split_ifs <;> cases A <;> simp [setObj, stop, counter, due, *]
  · split_ifs <;> cases A <;>
      simp [setObj, stop, counter, due, ho, Ne.symm ho]

theorem Account.Balanced.takeRefs (h : A.Balanced σ k) (cn obj : ObjId) :
    A.Balanced (σ.takeRefs cn obj) (.slotDropOld cn obj :: k) := by
  intro o
  have hbal := h o
  obtain ⟨hheld, hqueue, hall⟩ := takeRefs_frame σ cn obj
  have hslots : A.slots (σ.takeRefs cn obj) o = A.slots σ o :=
    A.slots_congr hall fun s => by simp [names, (Kept.takeRefs σ cn obj).slots]
  rw [dueSum_cons, takeRefs_counter, hslots, hheld, hqueue]
  omega

theorem Account.dueSum_dropRefsCalls (A : Account) (o cn obj : ObjId) :
    A.dueSum o (Kernel.dropRefsCalls cn obj) = A.due o (.slotDropOld cn obj) := by
  unfold dropRefsCalls
  by_cases hcn : obj = cn
  · by_cases ho : obj = o
    · cases A <;> simp [due, hcn, ← ho]
    · cases A <;> simp [due, hcn, hcn ▸ ho]
  · by_cases ho : obj = o
    · cases A <;> simp [due, hcn, ← ho]
    · cases A <;> simp [due, hcn, ho]

theorem mem_allSlots_of_slotExists (hw : Wf σ F)
    (hex : σ.slotExists cn idx = true) : .slot cn idx ∈ σ.allSlots := by
  obtain ⟨hlive, -, hidx⟩ := Wf.slotExists_iff.mp hex
  simp only [allSlots, mem_cons, mem_flatMap, mem_range, mem_map]
  exact .inr ⟨cn, hw.fresh cn hlive, idx, hidx, rfl⟩

theorem Account.Balanced.fillSlot {rights : Rights} {badge : UInt64} {unparented : Bool}
    (h : A.Balanced σ (.slotDropOld cn obj :: k)) (hw : Wf σ F)
    (hex : σ.slotExists cn idx = true) (hfree : σ.occupied (.slot cn idx) = false) :
    A.Balanced (σ.fillSlot cn idx obj rights badge parent unparented) k := by
  intro o
  have hbal := h o
  set τ := σ.fillSlot cn idx obj rights badge parent unparented with hτ
  have hrest : τ.objs = σ.objs ∧ τ.held = σ.held ∧ τ.cascade = σ.cascade ∧
      τ.allSlots = σ.allSlots := by
    cases parent with
    | none => exact ⟨rfl, rfl, rfl, rfl⟩
    | some p => exact ⟨rfl, rfl, rfl, rfl⟩
  obtain ⟨hobjs, hheld, hqueue, hall⟩ := hrest
  have hnone : (σ.slots (.slot cn idx)).object = none := by simpa [occupied] using hfree
  have hcount := countP_change (p := fun x => τ.names o x && A.counts o x)
    (q := fun x => σ.names o x && A.counts o x) (allSlots_nodup σ)
    (mem_allSlots_of_slotExists hw hex) fun x hx => by
      simp [hτ, names, fillSlot_slots, hx]
  have hp : τ.names o (.slot cn idx) = decide (obj = o) := by
    simp [hτ, names, fillSlot_slots]
  have hq : σ.names o (.slot cn idx) = false := by simp [names, hnone]
  simp only [hp, hq, Bool.false_and, Bool.toNat_false, Nat.add_zero] at hcount
  have hslots : A.slots τ o = A.slots σ o + A.due o (.slotDropOld cn obj) := by
    rw [A.due_slotDropOld o cn obj idx]
    unfold slots
    rw [hall]
    exact hcount
  rw [dueSum_cons] at hbal
  rw [hobjs, hheld, hqueue, hslots]
  omega

theorem Account.Balanced.congr (h : A.Balanced σ k) (hl : ∀ o, A.dueSum o l = A.dueSum o k) :
    A.Balanced σ l := by
  intro o
  rw [hl]
  exact h o

theorem Account.Balanced.returning (h : A.Balanced σ k) (e : IrisError) :
    A.Balanced (σ.returning e) k := h

theorem Account.Balanced.taken (h : A.Balanced σ []) (hw : Wf σ F) (ht : Taken σ r τ old) :
    A.Balanced τ (dropOldCalls r.cn old ++ [.slotDropOld r.cn r.obj]) := by
  have hrefs := h.takeRefs r.cn r.obj
  cases ht with
  | exclusive => exact hrefs
  | overwrite =>
    exact hrefs.slotDeleteLocked ((Kept.takeRefs σ r.cn r.obj).wf hw) r.cn r.idx

theorem Account.Balanced.install (h : A.Balanced σ [])
    (hw : Wf σ F) (hx : Installed σ r x) (hp : x.1.panic = none) : A.Balanced x.1 x.2 := by
  cases hx with
  | refused => exact h
  | stopped _ href =>
    simp [kobjectRetain, irisAssert, not_le.mpr href, stop] at hp
  | undone _ ht =>
    refine Balanced.returning ((h.taken hw ht).congr fun o => ?_) _
    rw [dueSum_append, dueSum_append, dueSum_dropRefsCalls, dueSum_cons, dueSum_nil, Nat.add_zero]
  | filled _ ht hex _ hfree =>
    obtain ⟨F', hw', -⟩ := ht.refines (J := fun _ _ _ => True) hw
    refine Balanced.fillSlot ((h.taken hw ht).congr fun o => ?_) hw' hex hfree
    rw [dueSum_cons, dueSum_append, dueSum_cons, dueSum_nil, Nat.add_zero, Nat.add_comm]

/-! ## Relocating -/

variable {e : Equiv.Perm SlotRef} {l : List SlotRef} {named : List SlotRef}

theorem Shuffled.slotsOnly (h : Shuffled σ l e τ) : SlotsOnly σ τ := by
  induction h with
  | refl => exact .refl σ
  | relocate _ _ _ _ _ ih => exact ih.trans ⟨rfl, rfl, rfl, rfl, rfl, rfl⟩

theorem Shuffles.slotsOnly (h : Shuffles σ named e x) : SlotsOnly σ x.1 := by
  obtain ⟨err, -, rfl⟩ | ⟨l, e', τ, st, hs, -, -, -, -, rfl⟩ := h
  · exact ⟨rfl, rfl, rfl, rfl, rfl, rfl⟩
  · exact hs.slotsOnly.trans ⟨rfl, rfl, rfl, rfl, rfl, rfl⟩

theorem Shuffled.mem_allSlots (h : Shuffled σ l e τ)
    (hw : Wf σ F) {x : SlotRef} (hx : x ∈ σ.allSlots) : e x ∈ σ.allSlots := by
  induction h with
  | refl => exact hx
  | @relocate l e τ src dst dstCn before hsrc hdst hhome ih =>
    obtain ⟨F', hw', -⟩ := before.wfTmp (J := fun _ _ _ => True) hw
    have hin : ∀ {cn idx}, τ.slotExists cn idx = true → .slot cn idx ∈ σ.allSlots := by
      intro cn idx hex
      simp only [slotExists, isCNode, before.slotsOnly.objs] at hex
      exact mem_allSlots_of_slotExists hw hex
    have hdst' : dst ∈ σ.allSlots := by
      obtain rfl | ⟨idx, rfl, hex⟩ := hhome
      · simp [allSlots]
      · exact hin hex
    have hsrc' : src ∈ σ.allSlots := by
      by_cases ht : src = .tmp
      · simp [ht, allSlots]
      · obtain ⟨cn, idx, rfl, -, hex⟩ := hw'.home src ht hsrc
        exact hin hex
    rw [trans_apply, swap_apply_def]
    split_ifs
    · exact hdst'
    · exact hsrc'
    · exact ih

/-- The references in the slots once what is in each slot `x` is in `e x`. -/
def Account.slotsAlong (A : Account) (σ : Kernel) (e : Equiv.Perm SlotRef) (o : ObjId) : ℕ :=
  σ.allSlots.countP fun x => σ.names o x && A.counts o (e x)

theorem Shuffles.balanced {r : Kernel × List Call}
    (hr : Shuffles σ named e r) (hw : Wf σ F) (h : A.Balanced σ [])
    (he : ∀ o, A.slotsAlong σ e o = A.slots σ o) : A.Balanced r.1 r.2 := by
  obtain ⟨err, -, rfl⟩ | ⟨l, e', τ, st, hs, -, -, -, hagree, rfl⟩ := hr
  · exact h
  have hsame := hs.slotsOnly
  have hall : τ.allSlots = σ.allSlots := by simp only [allSlots, hsame.objs, hsame.numObjs]
  have hperm : (σ.allSlots.map e').Perm σ.allSlots := by
    refine (((allSlots_nodup σ).map e'.injective).subperm fun y hy => ?_).perm_of_length_le (by simp)
    obtain ⟨x, hx, rfl⟩ := mem_map.mp hy
    exact hs.mem_allSlots hw hx
  intro o
  have hslots : A.slots τ o = A.slots σ o := by
    rw [← he o, Account.slots, hall, ← hperm.countP_eq, countP_map]
    refine countP_eq_of_agree fun x _ => ?_
    simp only [comp_apply, names, hs.object hw]
    change (σ.names o x && _) = (σ.names o x && _)
    cases hx : σ.names o x with
    | false => rfl
    | true => rw [hagree x (by simp [occupied, names_iff.mp hx])]
  change A.counter (τ.objs o) = A.slots τ o + A.held (τ.held o) + A.queued τ.cascade o + _
  rw [hslots, hsame.objs, hsame.held, hsame.cascade]
  exact h o

/-- The references that a list of relocations takes out of slots, and puts in. -/
def Account.leaving (A : Account) (σ : Kernel) (o : ObjId) (m : List (SlotRef × SlotRef)) : ℕ :=
  (m.map fun r => (σ.names o r.1 && A.counts o r.1).toNat).sum

def Account.arriving (A : Account) (σ : Kernel) (o : ObjId) (m : List (SlotRef × SlotRef)) : ℕ :=
  (m.map fun r => (σ.names o r.1 && A.counts o r.2).toNat).sum

end

namespace Kernel

/-- The checks of `kcnode_slot_move`. -/
def MoveAllowed (σ : Kernel) (srcCn : ObjId) (srcIdx : ℕ) (dstCn : ObjId) (dstIdx : ℕ) : Prop :=
  σ.slotExists srcCn srcIdx = true ∧ σ.slotExists dstCn dstIdx = true ∧
    SlotRef.slot srcCn srcIdx ≠ .slot dstCn dstIdx ∧
    σ.occupied (.slot srcCn srcIdx) = true ∧ σ.occupied (.slot dstCn dstIdx) = false

/-- The checks of `kcnode_slot_rotate`. -/
def RotateAllowed (σ : Kernel) (destCn : ObjId) (destIdx : ℕ) (pivotCn : ObjId) (pivotIdx : ℕ)
    (srcCn : ObjId) (srcIdx : ℕ) : Prop :=
  (σ.slotExists destCn destIdx = true ∧ σ.slotExists pivotCn pivotIdx = true ∧
    σ.slotExists srcCn srcIdx = true) ∧
  (SlotRef.slot srcCn srcIdx ≠ .slot pivotCn pivotIdx ∧
    SlotRef.slot destCn destIdx ≠ .slot pivotCn pivotIdx) ∧
  (σ.occupied (.slot srcCn srcIdx) = true ∧ σ.occupied (.slot pivotCn pivotIdx) = true) ∧
  (SlotRef.slot destCn destIdx ≠ .slot srcCn srcIdx → σ.occupied (.slot destCn destIdx) = false)

instance (σ : Kernel) (srcCn : ObjId) (srcIdx : ℕ) (dstCn : ObjId) (dstIdx : ℕ) :
    Decidable (σ.MoveAllowed srcCn srcIdx dstCn dstIdx) := inferInstanceAs (Decidable (_ ∧ _))

instance (σ : Kernel) (destCn : ObjId) (destIdx : ℕ) (pivotCn : ObjId) (pivotIdx : ℕ)
    (srcCn : ObjId) (srcIdx : ℕ) :
    Decidable (σ.RotateAllowed destCn destIdx pivotCn pivotIdx srcCn srcIdx) :=
  inferInstanceAs (Decidable (_ ∧ _))

/-- From where to where an action takes capabilities that stay capabilities. -/
def relocations (σ : Kernel) : Action → List (SlotRef × SlotRef)
  | .move srcCn srcIdx dstCn dstIdx =>
    if σ.MoveAllowed srcCn srcIdx dstCn dstIdx then
      [(.slot srcCn srcIdx, .slot dstCn dstIdx)]
    else []
  | .rotate destCn destIdx pivotCn pivotIdx srcCn srcIdx =>
    if σ.RotateAllowed destCn destIdx pivotCn pivotIdx srcCn srcIdx then
      [(.slot pivotCn pivotIdx, .slot destCn destIdx), (.slot srcCn srcIdx, .slot pivotCn pivotIdx)]
    else []
  | _ => []

/-- The action takes as many capabilities of a CNode into that CNode as out of it. -/
def keepsBorders (σ : Kernel) (a : Action) : Bool :=
  (σ.relocations a).all fun r => (σ.slots r.1).object.all fun o =>
    Account.active.leaving σ o (σ.relocations a) = Account.active.arriving σ o (σ.relocations a)

end Kernel

section
variable {A : Account} {σ τ : Kernel} {F : Forest SlotRef} {k l : List Call}

variable {a : Action} {s : SlotRef}

theorem leaving_eq_arriving (ha : A = .active → σ.keepsBorders a = true) (o : ObjId) :
    A.leaving σ o (σ.relocations a) = A.arriving σ o (σ.relocations a) := by
  cases A with
  | refs => rfl
  | active =>
    by_cases hnamed : ∃ r ∈ σ.relocations a, σ.names o r.1 = true
    · obtain ⟨r, hr, ho⟩ := hnamed
      have h := all_eq_true.mp (ha rfl) r hr
      rw [names_iff.mp ho, Option.all_some] at h
      exact of_decide_eq_true h
    have hzero : ∀ r ∈ σ.relocations a, σ.names o r.1 = false := fun r hr => by
      by_contra hne
      exact hnamed ⟨r, hr, by simpa using hne⟩
    refine congrArg sum (map_congr_left fun r hr => ?_)
    rw [hzero r hr, Bool.false_and, Bool.false_and]

theorem names_of_free (o : ObjId) (h : σ.occupied s = false) : σ.names o s = false := by
  rw [occupied, Option.isSome_eq_false_iff, Option.isNone_iff_eq_none] at h
  simp [names, h]

theorem Account.Balanced.move (h : A.Balanced σ []) (hw : Wf σ F) {srcCn dstCn : ObjId}
    {srcIdx dstIdx : ℕ} (ha : A = .active → σ.keepsBorders (.move srcCn srcIdx dstCn dstIdx) = true) :
    A.Balanced (σ.kcnodeSlotMove srcCn srcIdx dstCn dstIdx).1
      (σ.kcnodeSlotMove srcCn srcIdx dstCn dstIdx).2 := by
  by_cases hok : σ.MoveAllowed srcCn srcIdx dstCn dstIdx
  · refine (kcnodeSlotMove_shuffles hw srcCn srcIdx dstCn dstIdx).balanced hw h fun o => ?_
    have hborder := leaving_eq_arriving ha o
    rw [relocations, if_pos hok] at hborder
    obtain ⟨hexs, -, hne, -, hdst⟩ := hok
    simp only [leaving, arriving, map_cons, map_nil, sum_cons, sum_nil] at hborder
    have hcount := countP_change
      (p := fun x => σ.names o x && A.counts o (swap (.slot srcCn srcIdx) (.slot dstCn dstIdx) x))
      (q := fun x => σ.names o x && A.counts o x) (allSlots_nodup σ)
      (mem_allSlots_of_slotExists hw hexs) fun x hx => by
        by_cases hxd : x = .slot dstCn dstIdx
        · rw [hxd, names_of_free o hdst, Bool.false_and, Bool.false_and]
        · rw [swap_apply_of_ne_of_ne hx hxd]
    rw [swap_apply_left] at hcount
    unfold slotsAlong slots
    omega
  · simp only [kcnodeSlotMove]
    split_ifs with hex hne hsrc hdst
    · exact h
    · exact h
    · exact h
    · exact h
    · simp only [Bool.or_eq_true, Bool.not_eq_true', not_or, Bool.not_eq_false] at hex hsrc hdst
      exact absurd ⟨hex.1, hex.2, hne, hsrc, by simpa using hdst⟩ hok

theorem rotation_apply {dest pivot src : SlotRef} (hsp : src ≠ pivot) (hdp : dest ≠ pivot) :
    rotation dest pivot src pivot = dest ∧ rotation dest pivot src src = pivot ∧
      ∀ x, x ≠ pivot → x ≠ src → x ≠ dest → rotation dest pivot src x = x := by
  unfold rotation
  split_ifs with hds
  · subst hds
    exact ⟨swap_apply_right .., swap_apply_left ..,
      fun x hp hs _ => swap_apply_of_ne_of_ne hs hp⟩
  simp only [trans_apply]
  refine ⟨?_, ?_, fun x hp hs hd => ?_⟩
  · rw [swap_apply_left, swap_apply_of_ne_of_ne hds hdp]
  · rw [swap_apply_of_ne_of_ne hsp (Ne.symm hds), swap_apply_left]
  · rw [swap_apply_of_ne_of_ne hp hd, swap_apply_of_ne_of_ne hs hp]

theorem Account.Balanced.rotate (h : A.Balanced σ []) (hw : Wf σ F) {destCn pivotCn srcCn : ObjId}
    {destIdx pivotIdx srcIdx : ℕ} (ha : A = .active →
      σ.keepsBorders (.rotate destCn destIdx pivotCn pivotIdx srcCn srcIdx) = true) :
    A.Balanced (σ.kcnodeSlotRotate destCn destIdx pivotCn pivotIdx srcCn srcIdx).1
      (σ.kcnodeSlotRotate destCn destIdx pivotCn pivotIdx srcCn srcIdx).2 := by
  by_cases hok : σ.RotateAllowed destCn destIdx pivotCn pivotIdx srcCn srcIdx
  · refine (kcnodeSlotRotate_shuffles hw ..).balanced hw h fun o => ?_
    have hborder := leaving_eq_arriving ha o
    rw [relocations, if_pos hok] at hborder
    obtain ⟨⟨-, hexp, hexs⟩, ⟨hsp, hdp⟩, -, hdest⟩ := hok
    obtain ⟨hpivot, hsrc, hrest⟩ := rotation_apply hsp hdp
    simp only [leaving, arriving, map_cons, map_nil, sum_cons, sum_nil] at hborder
    have hcount := countP_change2 (p := fun x => σ.names o x && A.counts o
        (rotation (.slot destCn destIdx) (.slot pivotCn pivotIdx) (.slot srcCn srcIdx) x))
      (q := fun x => σ.names o x && A.counts o x) (allSlots_nodup σ)
      (mem_allSlots_of_slotExists hw hexp) (mem_allSlots_of_slotExists hw hexs) (Ne.symm hsp)
      fun x hxp hxs => by
        by_cases hxd : x = .slot destCn destIdx
        · rw [hxd, names_of_free o (hdest (hxd ▸ hxs)), Bool.false_and, Bool.false_and]
        · rw [hrest x hxp hxs hxd]
    rw [hpivot, hsrc] at hcount
    unfold slotsAlong slots
    omega
  · simp only [kcnodeSlotRotate]
    split_ifs with hex hne hocc hdest
    · exact h
    · exact h
    · exact h
    · exact h
    all_goals
      simp only [Bool.or_eq_true, Bool.not_eq_true', not_or, Bool.not_eq_false] at hex hocc
      exact absurd ⟨⟨hex.1.1, hex.1.2, hex.2⟩, not_or.mp hne, hocc, fun hds => by
        simpa using fun ho => hdest ⟨hds, ho⟩⟩ hok

theorem Account.Balanced.swap (h : A.Balanced σ []) (hw : Wf σ F) (cn : ObjId) (slotA slotB : ℕ) :
    A.Balanced (σ.kcnodeSwap cn slotA slotB).1 (σ.kcnodeSwap cn slotA slotB).2 := by
  refine (kcnodeSwap_shuffles hw cn slotA slotB).balanced hw h fun o => ?_
  refine countP_eq_of_agree fun x _ => congrArg _ ?_
  cases A with
  | refs => rfl
  | active =>
    rw [swap_apply_def]
    split_ifs with hxa hxb
    · rw [hxa]
      rfl
    · rw [hxb]
      rfl
    · rfl

/-! ## Holding and creating -/

theorem Account.Balanced.setObjHeld {x : ObjId} {g : KObject → KObject} {f : Held → Held}
    {p : Option Panic} (h : A.Balanced σ k) (hg : (g (σ.objs x)).slotCount = (σ.objs x).slotCount)
    (hgf : A.counter (g (σ.objs x)) + A.held (σ.held x) =
      A.counter (σ.objs x) + A.held (f (σ.held x))) :
    A.Balanced (Kernel.setHeld { σ.setObj x g with panic := p } x f) k := by
  intro o
  have hbal := h o
  have hslots : A.slots (Kernel.setHeld { σ.setObj x g with panic := p } x f) o = A.slots σ o :=
    A.slots_setObj hg
  rw [hslots]
  change A.counter (update σ.objs x (g (σ.objs x)) o) =
    _ + A.held (update σ.held x (f (σ.held x)) o) + A.queued σ.cascade o + _
  by_cases ho : o = x
  · subst ho
    simp only [update_self]
    omega
  · simp only [update_of_ne ho]
    exact hbal

theorem Account.Balanced.hold (h : A.Balanced σ k) (x : ObjId) : A.Balanced (σ.hold x) k := by
  unfold Kernel.hold
  split
  · obtain ⟨p, hp⟩ := kobjectRetain_eq σ x
    rw [hp]
    refine h.setObjHeld rfl ?_
    cases A with
    | active => rfl
    | refs =>
      simp only [counter, held]
      omega
  · exact h

theorem Account.Balanced.holdActive (h : A.Balanced σ k) (x : ObjId) :
    A.Balanced (σ.holdActive x) k := by
  unfold Kernel.holdActive
  split
  · refine h.setObjHeld (p := σ.panic) (g := fun y => { y with activeRefs := y.activeRefs + 1 })
      rfl ?_
    cases A with
    | active =>
      simp only [counter, held]
      omega
    | refs => rfl
  · exact h

theorem Account.slots_addObject (hw : Wf σ F) (type : KObjType) (n : ℕ) (o : ObjId) :
    A.slots (σ.addObject type n) o = A.slots σ o := by
  have hold : ∀ x ∈ range σ.numObjs,
      (range ((σ.addObject type n).objs x).slotCount).map (SlotRef.slot x) =
        (range (σ.objs x).slotCount).map (SlotRef.slot x) := fun x hx => by
    have hne : x ≠ σ.numObjs := (mem_range.mp hx).ne
    simp [addObject, hne]
  have hnew : ∀ s ∈ (range ((σ.addObject type n).objs σ.numObjs).slotCount).map
      (SlotRef.slot σ.numObjs), ¬ (σ.names o s && A.counts o s) = true := fun s hs hname => by
    obtain ⟨i, -, rfl⟩ := mem_map.mp hs
    have hobj := names_iff.mp (Bool.and_eq_true_iff.mp hname).1
    obtain ⟨cn, idx, hslot, -, hex⟩ := hw.home (.slot σ.numObjs i) (by simp [occupied, hobj])
    obtain ⟨rfl, -⟩ := SlotRef.slot.inj hslot
    exact lt_irrefl _ (hw.fresh _ (Wf.slotExists_iff.mp hex).1)
  have hall : (σ.addObject type n).allSlots = σ.allSlots ++
      (range ((σ.addObject type n).objs σ.numObjs).slotCount).map (.slot σ.numObjs) := by
    have hnum : (σ.addObject type n).numObjs = σ.numObjs + 1 := rfl
    simp only [allSlots, hnum, range_succ, flatMap_append, flatMap_cons,
      flatMap_nil, append_nil, cons_append]
    rw [flatMap_congr hold]
  unfold slots
  rw [hall, countP_append]
  change σ.allSlots.countP (fun s => σ.names o s && A.counts o s) + countP
    (fun s => σ.names o s && A.counts o s) _ = _
  rw [countP_eq_zero.mpr hnew, Nat.add_zero]

theorem Account.Balanced.addObject (h : A.Balanced σ []) (hw : Wf σ F) (hfresh : A.Fresh σ)
    (type : KObjType) (n : ℕ) : A.Balanced (σ.addObject type n) [] := by
  intro o
  have hbal := h o
  rw [slots_addObject hw]
  change A.counter (update σ.objs σ.numObjs _ o) =
    _ + A.held (update σ.held σ.numObjs _ o) + A.queued σ.cascade o + _
  by_cases ho : o = σ.numObjs
  · subst ho
    have hzero := hfresh σ.numObjs le_rfl
    simp only [update_self]
    cases A <;> simp only [counter, held] at hzero hbal ⊢ <;> omega
  · simp only [update_of_ne ho]
    exact hbal

/-! ## Actions -/

theorem Account.Balanced.andThen (h : A.Balanced σ k) (hl : ∀ o, A.dueSum o l = 0) :
    A.Balanced σ (k ++ l) :=
  h.congr fun o => by rw [dueSum_append, hl, Nat.add_zero]

theorem Account.Balanced.writeGuard (h : A.Balanced σ k) (s : SlotRef) (guard : UInt64)
    (guardBits : UInt8) : A.Balanced (σ.writeGuard s guard guardBits) k := by
  intro o
  have hslots : A.slots (σ.writeGuard s guard guardBits) o = A.slots σ o :=
    A.slots_congr rfl fun x => by
      by_cases hx : x = s
      · simp [names, Kernel.writeGuard, setSlot, hx]
      · simp [names, Kernel.writeGuard, setSlot, hx]
  rw [hslots]
  exact h o

theorem Account.Balanced.entered (h : A.Balanced σ [])
    (hw : Wf σ F) (hfresh : A.Fresh σ) (hx : Entered σ F a x)
    (ha : A = .active → σ.keepsBorders a = true) (hp : x.1.panic = none) : A.Balanced x.1 x.2 := by
  cases hx with
  | refused | idle => exact h
  | call hf => exact h.congr fun o => by cases a <;> cases hf <;> cases A <;> rfl
  | install => exact h.install hw (install_installed σ _) hp
  | shuffle hren =>
    cases a <;> cases hren
    · exact h.move hw ha
    · exact h.rotate hw ha
    · exact h.swap hw _ _ _
  | delete cn idx =>
    have hdel := h.slotDeleteLocked hw cn idx
    rw [append_nil] at hdel
    exact hdel.returning _
  | guard g b => exact (h.writeGuard _ g b).returning _
  | create => exact h.addObject hw hfresh _ _
  | hold o => exact h.hold o
  | holdActive o => exact h.holdActive o
  | @unstaged srcCn _ _ obj _ | @staged srcCn _ _ obj _ =>
    exact ((((h.hold srcCn).holdActive srcCn).hold obj).holdActive obj).congr
      fun o => by cases A <;> rfl
  | dropped => exact h.congr fun o => by cases A <;> rfl
  | @undelivered k c cn =>
    have h' : A.Balanced { σ with staged := σ.staged.eraseIdx k } [] := h
    exact ((h'.hold cn).holdActive cn).congr fun o => by cases A <;> rfl
  | @delivered k c cn idx x hc hx =>
    have h' : A.Balanced { σ with staged := σ.staged.eraseIdx k } [] := h
    have hw' := ((Kept.hold _ cn).trans (.holdActive _ cn)).wf (hw.setStaged (σ.staged.eraseIdx k))
    have hinst := ((h'.hold cn).holdActive cn).install hw' hx hp
    exact (hinst.andThen (l := [.heldActiveRelease cn, .heldRelease cn])
      fun o => by cases A <;> rfl).andThen
      fun o => by cases A <;> rfl

/-- Every action keeps the balance of the counts, unless it stops the kernel or takes a CNode's own
active reference across its border. -/
theorem Account.Balanced.act (h : A.Balanced σ []) (hw : Wf σ F) (hfresh : A.Fresh σ)
    (ha : A = .active → σ.keepsBorders a = true) (hp : (σ.act a).1.panic = none) :
    A.Balanced (σ.act a).1 (σ.act a).2 :=
  h.entered hw hfresh (act_entered hw a) ha hp

theorem parentRefused_congr {expect : Option ObjId} (h : ∀ x, x ≠ s → τ.slots x = σ.slots x) :
    τ.parentRefused s expect parent = σ.parentRefused s expect parent := by
  cases parent with
  | none => rfl
  | some p =>
    by_cases hp : SlotRef.slot p.1 p.2 = s
    · simp [parentRefused, hp]
    · simp [parentRefused, occupied, h _ hp]

theorem slotDeleteLocked_slots_of_ne (hw : Wf σ F) {x : SlotRef}
    (hx : x ≠ .slot cn idx) : (σ.slotDeleteLocked cn idx).1.slots x = σ.slots x := by
  unfold slotDeleteLocked
  cases ho : (σ.slots (.slot cn idx)).object with
  | none => rfl
  | some old =>
    obtain ⟨st, hst⟩ := removeCap_eq (s := .slot cn idx) hw (by simp [occupied, ho])
    simp [hst, without, hx]

theorem Taken.slotsOnly (h : Taken σ r τ old) (hw : Wf σ F) :
    SlotsOnly (σ.takeRefs r.cn r.obj) τ := by
  cases h with
  | exclusive => exact .refl _
  | overwrite => exact slotDeleteLocked_slotsOnly ((Kept.takeRefs σ r.cn r.obj).wf hw) r.cn r.idx

/-- An install that its checks do not refuse finds its slot free and its parent in place. -/
theorem Taken.fits (h : Taken σ r τ old) (hw : Wf σ F)
    (hok : σ.refuses r = false) : τ.slotExists r.cn r.idx = true ∧
      τ.parentRefused (.slot r.cn r.idx) r.expect r.parent = false ∧
      τ.occupied (.slot r.cn r.idx) = false := by
  have hkept := Kept.takeRefs σ r.cn r.obj
  have hex : τ.slotExists r.cn r.idx = σ.slotExists r.cn r.idx := by
    have hobjs := (h.slotsOnly hw).objs
    rw [← slotExists_takeRefs σ r.cn r.obj]
    simp only [slotExists, isCNode, hobjs]
  simp only [refuses, Bool.or_eq_false_iff, Bool.not_eq_false'] at hok
  refine ⟨hex.trans hok.1.1, ?_⟩
  cases h with
  | exclusive hexcl =>
    rw [hexcl, Bool.true_and] at hok
    exact ⟨(parentRefused_congr (σ := σ) fun x _ => by rw [hkept.slots]).trans hok.1.2,
      (hkept.occupied _).trans hok.2⟩
  | overwrite =>
    refine ⟨?_, (slotDeleteLocked_effect (hkept.wf hw) r.cn r.idx).2⟩
    exact (parentRefused_congr (σ := σ) fun x hx => by
      rw [slotDeleteLocked_slots_of_ne (hkept.wf hw) hx, hkept.slots]).trans hok.1.2

/-- An install has bad arguments or a dying object, or takes its references and fills its slot
unless it is refused. -/
theorem Installed.begins (h : Installed σ r x) (hw : Wf σ F) :
    (∃ e, x = σ.fail e) ∨ (σ.objs r.obj).live = true ∧ x = (σ.kobjectRetain r.obj, []) ∨
      σ.TakesRefs r ∧ SlotsOnly (σ.takeRefs r.cn r.obj) x.1 ∧
        (σ.refuses r = false → x.1.names r.obj (.slot r.cn r.idx) = true) := by
  cases h with
  | refused => exact .inl ⟨_, rfl⟩
  | stopped hlive => exact .inr (.inl ⟨hlive, rfl⟩)
  | undone htakes ht _ hfull =>
    refine .inr (.inr ⟨htakes, (ht.slotsOnly hw).trans ⟨rfl, rfl, rfl, rfl, rfl, rfl⟩, fun hok => ?_⟩)
    obtain ⟨hex, hparent, hfree⟩ := ht.fits hw hok
    rw [hfull hex hparent] at hfree
    cases hfree
  | filled htakes ht =>
    refine .inr (.inr ⟨htakes, (ht.slotsOnly hw).trans ?_, fun _ => ?_⟩)
    · cases r.parent <;> exact ⟨rfl, rfl, rfl, rfl, rfl, rfl⟩
    · simp [names, returning, fillSlot_slots]

/-! ## What an entry point can touch -/

/-- The actions that hold references outside the slots. -/
def Action.holds : Action → Bool
  | .hold _ | .holdActive _ | .ipcStage .. | .ipcDeliver .. => true
  | _ => false

/-- An entry point takes references to objects, creates new ones and, if it is meant to, holds
references. -/
inductive Touches (holds : Bool) : Kernel → Kernel → Prop
  | same {σ τ : Kernel} (hn : τ.numObjs = σ.numObjs) (ho : τ.objs = σ.objs) (hh : τ.held = σ.held)
      (hp : τ.panic = σ.panic) : Touches holds σ τ
  | retain {σ : Kernel} {x : ObjId} (hx : (σ.objs x).live = true) :
      Touches holds σ (σ.kobjectRetain x)
  | activeRetain {σ : Kernel} {x : ObjId} (hx : (σ.objs x).live = true) :
      Touches holds σ (σ.kobjectActiveRetain x)
  | create (σ : Kernel) (type : KObjType) (n : ℕ) (htype : type ≠ .reserved) :
      Touches holds σ (σ.addObject type n)
  | setHeld (σ : Kernel) (x : ObjId) (f : Held → Held) (hb : holds = true) :
      Touches holds σ (σ.setHeld x f)
  | trans {σ τ υ : Kernel} (h₁ : Touches holds σ τ) (h₂ : Touches holds τ υ) : Touches holds σ υ

namespace Touches
variable {b : Bool}

theorem refl (σ : Kernel) : Touches b σ σ := same rfl rfl rfl rfl

theorem ofSlotsOnly (h : SlotsOnly σ τ) : Touches b σ τ := same h.numObjs h.objs h.held h.panic

theorem hold (σ : Kernel) (x : ObjId) : Touches true σ (σ.hold x) := by
  unfold Kernel.hold
  split
  · rename_i hx
    exact (retain hx).trans (setHeld _ _ _ rfl)
  · exact refl σ

theorem holdActive (σ : Kernel) (x : ObjId) : Touches true σ (σ.holdActive x) := by
  unfold Kernel.holdActive
  split
  · rename_i hx
    exact (activeRetain hx).trans (setHeld _ _ _ rfl)
  · exact refl σ

theorem takeRefs (hlive : (σ.objs obj).live = true) : Touches b σ (σ.takeRefs cn obj) := by
  unfold Kernel.takeRefs
  split_ifs
  · exact retain hlive
  · refine (retain hlive).trans (activeRetain ?_)
    obtain ⟨p, hp⟩ := kobjectRetain_eq σ obj
    simp [hp, setObj, hlive]

theorem installed (h : Installed σ r x) (hw : Wf σ F) : Touches b σ x.1 := by
  obtain ⟨e, rfl⟩ | ⟨hlive, rfl⟩ | ⟨⟨-, hlive, -⟩, hr, -⟩ := h.begins hw
  · exact same rfl rfl rfl rfl
  · exact retain hlive
  · exact (takeRefs hlive).trans (ofSlotsOnly hr)

end Touches

theorem Entered.touches (h : Entered σ F a x) (hw : Wf σ F) : Touches a.holds σ x.1 := by
  have hstaged k : Touches true σ { σ with staged := σ.staged.eraseIdx k } := .same rfl rfl rfl rfl
  cases h with
  | refused | idle | call | guard | dropped => exact .same rfl rfl rfl rfl
  | install => exact .installed (install_installed σ _) hw
  | shuffle _ hr => exact .ofSlotsOnly hr.slotsOnly
  | delete cn idx =>
    exact (Touches.ofSlotsOnly (slotDeleteLocked_slotsOnly hw cn idx)).trans (.same rfl rfl rfl rfl)
  | create _ htype => exact (Touches.create σ _ _ htype).trans (.same rfl rfl rfl rfl)
  | hold o => exact .hold σ o
  | holdActive o => exact .holdActive σ o
  | @unstaged srcCn _ _ obj | @staged srcCn _ _ obj =>
    have hheld := (((Touches.hold σ srcCn).trans (.holdActive _ srcCn)).trans
      (.hold _ obj)).trans (.holdActive _ obj)
    exact hheld.trans (.same rfl rfl rfl rfl)
  | @undelivered k c cn => exact (hstaged k |>.trans (.hold _ cn)).trans (.holdActive _ cn)
  | @delivered k c cn idx x hc hx =>
    have hw' := ((Kept.hold _ cn).trans (.holdActive _ cn)).wf (hw.setStaged (σ.staged.eraseIdx k))
    have hheld := (hstaged k |>.trans (.hold _ cn)).trans (.holdActive _ cn)
    exact (hheld.trans (.installed hx hw')).trans (.same rfl rfl rfl rfl)

theorem act_touches (hw : Wf σ F) (a : Action) : Touches a.holds σ (σ.act a).1 :=
  (act_entered hw a).touches hw

/-- An entry point creates objects, changes only those that are there, holds more active references
only if it is meant to, and fails at most the assertion that its object has references. -/
structure EntryFrame (holds : Bool) (σ τ : Kernel) : Prop where
  numObjs : σ.numObjs ≤ τ.numObjs
  objs : ∀ o, (σ.objs o).live = false → τ.numObjs ≤ o → τ.objs o = σ.objs o
  held : holds = false → ∀ o, (τ.held o).active ≤ (σ.held o).active
  panic : σ.panic = none ∨ σ.panic = some .resurrect → τ.panic = none ∨ τ.panic = some .resurrect

namespace EntryFrame
variable {b : Bool} {υ : Kernel}

theorem trans (h₁ : EntryFrame b σ τ) (h₂ : EntryFrame b τ υ) : EntryFrame b σ υ := by
  refine ⟨h₁.numObjs.trans h₂.numObjs, fun o ho hn => ?_,
    fun hb o => (h₂.held hb o).trans (h₁.held hb o), fun hp => h₂.panic (h₁.panic hp)⟩
  have hτ := h₁.objs o ho (h₂.numObjs.trans hn)
  rw [h₂.objs o (hτ ▸ ho) hn, hτ]

theorem kobjectRetain {x : ObjId} (hx : (σ.objs x).live = true) :
    EntryFrame b σ (σ.kobjectRetain x) := by
  refine ⟨(Kept.kobjectRetain σ x).numObjs.ge, fun o ho _ => ?_, fun _ o => ?_, fun hp => ?_⟩
  · exact kobjectRetain_objs_of_ne fun h => by simp [← h, hx] at ho
  · obtain ⟨p, hp⟩ := kobjectRetain_eq σ x
    rw [hp]
    exact le_rfl
  unfold Kernel.kobjectRetain Kernel.irisAssert
  split_ifs
  · exact hp
  · rcases hp with hp | hp
    · simp [stop, setObj, hp]
    · simp [stop, setObj, hp]

theorem addObject (σ : Kernel) (type : KObjType) (n : ℕ) : EntryFrame b σ (σ.addObject type n) := by
  refine ⟨Nat.le_succ _, fun o _ hn => update_of_ne (Nat.lt_of_succ_le hn).ne' _ _,
    fun _ o => ?_, fun hp => hp⟩
  by_cases ho : o = σ.numObjs
  · simp [Kernel.addObject, ho]
  · simp [Kernel.addObject, ho]

end EntryFrame

theorem Touches.entryFrame {b : Bool} (h : Touches b σ τ) : EntryFrame b σ τ := by
  induction h with
  | same hn ho hh hp =>
    exact ⟨hn.ge, fun o _ _ => congrFun ho o, fun _ o => by rw [hh], fun h => by rwa [hp]⟩
  | retain hx => exact .kobjectRetain hx
  | activeRetain hx =>
    exact ⟨le_rfl, fun _ ho _ => setObj_objs_of_ne _ fun h => by simp [← h, hx] at ho,
      fun _ _ => le_rfl, fun hp => hp⟩
  | create σ type n htype => exact .addObject σ type n
  | setHeld σ x f hb => exact ⟨le_rfl, fun _ _ _ => rfl, fun hf => by simp [hb] at hf, fun hp => hp⟩
  | trans _ _ ih1 ih2 => exact ih1.trans ih2

theorem act_entryFrame (hw : Wf σ F) (a : Action) : EntryFrame a.holds σ (σ.act a).1 :=
  (act_touches hw a).entryFrame

theorem Accounted.act (h : Accounted A σ []) (hp : σ.panic = none)
    (ha : A = .active → σ.keepsBorders a = true) : Accounted A (σ.act a).1 (σ.act a).2 := by
  obtain ⟨⟨F, hw⟩, -⟩ := h.inOrder
  obtain ⟨F', hw', -⟩ := act_refines hw a
  have hframe := act_entryFrame hw a
  refine ⟨⟨⟨F', hw'⟩, fun f hf => (act_isEntry hw a f hf).frameOk _⟩,
    fun hp' => (h.balanced hp).act hw (h.fresh hp) ha hp', fun hp' o ho => ?_, fun hp' => ?_⟩
  · have ho' : σ.numObjs ≤ o := hframe.numObjs.trans ho
    have hdead : (σ.objs o).live = false := by
      by_contra hlive
      exact not_lt.mpr ho' (hw.fresh o (by simpa using hlive))
    rw [hframe.objs o hdead ho]
    exact h.fresh hp o ho'
  · rcases hframe.panic (.inl hp) with h' | h'
    · rw [h'] at hp'
      cases hp'
    · rw [h'] at hp'
      cases A <;> cases hp'

theorem Accounted.step {hooks : Hooks} (h : Accounted A σ [])
    (ha : A = .active → σ.keepsBorders a = true) (hstep : Step hooks σ a τ) : Accounted A τ [] :=
  (h.act (halted_eq_false.mp hstep.1) ha).returns hstep.2

end
end IrisOS.Cap
