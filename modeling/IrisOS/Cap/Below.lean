import IrisOS.Cap.Renaming
import IrisOS.Cap.Validate

/-! Capabilities that stay below a slot. As long as a slot keeps its capability, and the ones to
certain objects are copied but not made anew, all of those are derived from that slot. -/
namespace IrisOS.Cap
open Lib Kernel

/-- While `s` holds a capability, the ones to objects in `O` are derived from it. -/
def Below (s : SlotRef) (O : ObjId → Prop) (σ : Kernel) : Prop :=
  σ.occupied s = true → ∀ x o, O o → (σ.slots x).object = some o → σ.Ancestor s x

/-- The request is for a copy: it goes below a capability to the same object, or beside one. -/
def Kernel.Copies (σ : Kernel) (r : Install) : Prop :=
  r.exclusive = true ∧ ∃ p, r.parent = some p ∧ (r.expect = some r.obj ∨
    ∃ src, (σ.slots src).object = some r.obj ∧ (σ.mdb src).parent = some (.slot p.1 p.2))

/-- The action does not make a capability to an object in `O` other than as a copy. -/
def Action.Copying (O : ObjId → Prop) : Action → Prop
  | .installLinked _ _ obj _ _ _ _ _ _ => ¬ O obj
  | _ => True

instance Action.copyingDecidable (O : ObjId → Prop) [DecidablePred O] :
    (a : Action) → Decidable (a.Copying O)
  | .installLinked _ _ obj _ _ _ _ _ _ => inferInstanceAs (Decidable (¬ O obj))
  | .derive .. | .installSibling .. | .installForThread .. | .move .. | .rotate .. | .swap ..
  | .delete .. | .revoke .. | .teardownSlots _ | .drainSlice | .setGuard .. | .allocCNode _
  | .initObject _ | .hold _ | .holdActive _ | .unhold _ | .unholdActive _ | .ipcStage ..
  | .ipcDeliver .. => inferInstanceAs (Decidable True)

section
variable {s : SlotRef} {O : ObjId → Prop} {σ τ : Kernel} {F F' : Forest SlotRef} {a : Action}
  {r : Install} {x : Kernel × List Call}

theorem fillSlot_parent {cn obj : ObjId} {idx : ℕ} {rights : Rights} {badge : UInt64}
    {unparented : Bool} (parent : Option (ObjId × ℕ)) (x : SlotRef) :
    ((σ.fillSlot cn idx obj rights badge parent unparented).mdb x).parent =
      if x = .slot cn idx then parent.map fun s => .slot s.1 s.2 else (σ.mdb x).parent := by
  rw [fillSlot_mdb]
  cases parent with
  | none => by_cases hx : x = .slot cn idx <;> simp [LinkHeap.setParent, hx]
  | some p => exact mdbLinkChild_parent _ _ _ _

theorem Kernel.Ancestor.mono {p c : SlotRef} (h : σ.Ancestor p c)
    (hparent : ∀ q d, (σ.mdb d).parent = some q → (τ.mdb d).parent = some q) : τ.Ancestor p c :=
  Relation.TransGen.mono hparent _ _ h

/-- What is above a capability is its parent, or above that. -/
theorem Kernel.Ancestor.of_parent {p c : SlotRef} (h : σ.Ancestor s c)
    (hp : (σ.mdb c).parent = some p) : p = s ∨ σ.Ancestor s p := by
  cases h with
  | single hs => exact .inl (Option.some.inj (hp.symm.trans hs))
  | tail hq hs => exact .inr (Option.some.inj (hs.symm.trans hp) ▸ hq)

namespace Below

theorem same (h : Below s O σ) (hslots : τ.slots = σ.slots) (hmdb : τ.mdb = σ.mdb) :
    Below s O τ := by
  intro hs y o ho hy
  have hs' : σ.occupied s = true := by rwa [occupied, hslots] at hs
  exact (h hs' y o ho (hslots ▸ hy)).mono fun q d hd => hmdb ▸ hd

theorem kept (h : Below s O σ) (hk : Kept σ τ) : Below s O τ := h.same hk.slots hk.mdb

theorem prunes (h : Below s O σ) (hw : Wf σ F) (hw' : Wf τ F')
    (hp : Prunes F σ.slots F' τ.slots) : Below s O τ := by
  intro hs y o ho hy
  have hy' : F'.Mem y := hw'.mem (by simp [occupied, hy])
  have hs' := hw'.mem hs
  rw [hw'.ancestor_eq, hp.anc_iff hs' hy', ← hw.ancestor_eq]
  exact h ((hw.mem_iff s).mp (hp.mem hs')) y o ho (hp.content hy' ▸ hy)

theorem effect (h : Below s O σ) (hw : Wf σ F) (he : Effect σ τ) : Below s O τ := by
  obtain ⟨F', hw', hp⟩ := he.prunes hw
  exact h.prunes hw hw' hp

theorem fill (h : Below s O σ) (hw : Wf σ F) {cn obj : ObjId} {idx : ℕ} {rights : Rights}
    {badge : UInt64} {parent : Option (ObjId × ℕ)} {unparented : Bool} (hne : s ≠ .slot cn idx)
    (hfree : σ.occupied (.slot cn idx) = false)
    (hobj : O obj → σ.occupied s = true →
      ∃ p, parent = some p ∧ (.slot p.1 p.2 = s ∨ σ.Ancestor s (.slot p.1 p.2))) :
    Below s O (σ.fillSlot cn idx obj rights badge parent unparented) := by
  intro hs y o ho hy
  rw [fillSlot_occupied, if_neg hne] at hs
  have hmono : ∀ q d, (σ.mdb d).parent = some q →
      ((σ.fillSlot cn idx obj rights badge parent unparented).mdb d).parent = some q := by
    intro q d hd
    have hd' := (hw.layout.parent_eq_some.mp hd).mem
    rw [fillSlot_parent, if_neg (ne_of_occupied ((hw.mem_iff d).mp hd') hfree), hd]
  by_cases hyt : y = .slot cn idx
  · subst hyt
    rw [fillSlot_slots, Function.update_self] at hy
    cases hy
    obtain ⟨p, rfl, hp⟩ := hobj ho hs
    have hlink : ((σ.fillSlot cn idx obj rights badge (some p) unparented).mdb
        (.slot cn idx)).parent = some (.slot p.1 p.2) := by
      rw [fillSlot_parent, if_pos rfl]
      rfl
    rcases hp with hp | hp
    · exact .single (hp ▸ hlink)
    · exact .tail (hp.mono hmono) hlink
  · rw [fillSlot_slots, Function.update_of_ne hyt] at hy
    exact (h hs y o ho hy).mono hmono

theorem taken {old : Option ObjId} (h : Below s O σ) (hw : Wf σ F) (ht : Taken σ r τ old) :
    Below s O τ ∧ (∃ F', Wf τ F') ∧
      (r.exclusive = true → τ.slots = σ.slots ∧ τ.mdb = σ.mdb) := by
  have hk := Kept.takeRefs σ r.cn r.obj
  cases ht with
  | exclusive => exact ⟨h.kept hk, ⟨F, hk.wf hw⟩, fun _ => ⟨hk.slots, hk.mdb⟩⟩
  | overwrite hexcl =>
    obtain ⟨F', hw', hp⟩ := (slotDeleteLocked_effect (hk.wf hw) r.cn r.idx).1.prunes (hk.wf hw)
    exact ⟨(h.kept hk).prunes (hk.wf hw) hw' hp, ⟨F', hw'⟩, fun h => by simp [hexcl] at h⟩

theorem installed (h : Below s O σ) (hw : Wf σ F) (hx : Installed σ r x)
    (hne : s ≠ .slot r.cn r.idx) (hobj : O r.obj → σ.Copies r) : Below s O x.1 := by
  cases hx with
  | refused => exact h.kept ((Kept.refl σ).returning _)
  | stopped => exact h.kept (.kobjectRetain σ r.obj)
  | undone _ ht => exact (h.taken hw ht).1.kept ((Kept.refl _).returning _)
  | @filled τ old _ ht hex hparent hfree =>
    obtain ⟨hτ, ⟨F', hw'⟩, hsame⟩ := h.taken hw ht
    refine (hτ.fill hw' hne hfree fun ho hs => ?_).kept ((Kept.refl _).returning _)
    obtain ⟨hexcl, p, hp, hcopy⟩ := hobj ho
    refine ⟨p, hp, ?_⟩
    rcases hcopy with hexp | ⟨src, hsrc, hlink⟩
    · -- Below a capability to the same object, which is below `s` itself.
      obtain ⟨-, pc, hpc, hpo⟩ := fits_of_not_refused hparent p.1 p.2 hp
      exact .inr (hτ hs _ r.obj ho (hpo _ hexp ▸ (slots_of_caps hpc).1))
    · -- Beside one, with the same parent.
      obtain ⟨hslots, hmdb⟩ := hsame hexcl
      exact (hτ hs src r.obj ho (hslots ▸ hsrc)).of_parent (hmdb ▸ hlink)

theorem shuffles {named : List SlotRef} {e : Equiv.Perm SlotRef} (h : Below s O σ) (hw : Wf σ F)
    (hx : Shuffles σ named e x) (hs : s ∉ named) (ht : s ≠ .tmp) : Below s O x.1 := by
  obtain ⟨err, -, rfl⟩ | ⟨l, e', τ, st, hshuffled, -, hl, -, -, rfl⟩ := hx
  · exact h.kept ((Kept.refl σ).returning err)
  refine Below.kept (σ := τ) ?_ ((Kept.setStats τ fun _ => st).returning .ok)
  intro hocc y o ho hy
  obtain ⟨z, rfl⟩ := e'.surjective y
  have hfix : e' s = s :=
    (hshuffled.outside fun hmem => (List.mem_cons.mp (hl hmem)).elim ht hs).1
  rw [hshuffled.object hw] at hy
  rw [← hfix, hshuffled.vacant hw] at hocc
  rw [← hfix]
  exact Relation.TransGen.lift e' (fun q d hd => (hshuffled.parent hw q d).mpr hd) _ _
    (h hocc z o ho hy)

end Below

theorem copies_of_request (ha : a.Copying O) (hr : σ.request a = some r) (hobj : O r.obj) :
    σ.Copies r := by
  have hcopy : ∀ {src p dst expect}, σ.copyRequest src p dst expect = some r →
      (expect = (σ.slots (.slot src.1 src.2)).object ∨
        (σ.mdb (.slot src.1 src.2)).parent = some (.slot p.1 p.2)) → σ.Copies r := by
    intro src p dst expect hcopy hplace
    obtain ⟨o, ho, rfl⟩ := Option.map_eq_some_iff.mp hcopy
    exact ⟨rfl, p, rfl, hplace.imp (·.trans ho) fun hp => ⟨_, ho, hp⟩⟩
  cases a with
  | installLinked =>
    cases hr
    exact absurd hobj ha
  | derive srcCn srcIdx dstCn dstIdx requested reqBadge =>
    simp only [request] at hr
    split_ifs at hr
    obtain ⟨o, -, hr⟩ := Option.bind_eq_some_iff.mp hr
    obtain ⟨badge, -, rfl⟩ := Option.map_eq_some_iff.mp hr
    exact ⟨rfl, _, rfl, .inl rfl⟩
  | installSibling srcCn srcIdx dstCn dstIdx =>
    simp only [request] at hr
    split_ifs at hr
    split at hr
    · rename_i hparent
      exact hcopy hr (.inr hparent)
    · exact hcopy hr (.inl rfl)
  | installForThread srcCn srcIdx dstCn dstIdx =>
    simp only [request] at hr
    split_ifs at hr
    exact hcopy hr (.inl rfl)
  | _ => cases hr

/-- No entry point but an install of another capability takes one out from below the slot. -/
theorem Below.act (h : Below s O σ) (hw : Wf σ F) (hs : s ∉ a.targets) (ht : s ≠ .tmp)
    (ha : a.Copying O) : Below s O (σ.act a).1 := by
  have hentered := act_entered hw a
  generalize σ.act a = x at hentered ⊢
  cases hentered with
  | refused => exact h.kept ((Kept.refl σ).returning _)
  | idle => exact h
  | call => exact h.same rfl rfl
  | install _ hr _ htarget =>
    rw [htarget, List.mem_singleton] at hs
    exact h.installed hw (install_installed σ _) hs fun hobj => copies_of_request ha hr hobj
  | shuffle hren hsh =>
    refine h.shuffles hw hsh (fun hmem => hs ?_) ht
    cases a <;> cases hren <;> simp_all [Action.targets]
  | delete cn idx =>
    exact (h.effect hw (slotDeleteLocked_effect hw cn idx).1).kept ((Kept.refl _).returning _)
  | @guard cn idx g b =>
    refine Below.same (σ := σ.writeGuard (.slot cn idx) g b) (fun hocc y o ho hy => ?_) rfl rfl
    have hobj : ∀ z, ((σ.writeGuard (.slot cn idx) g b).slots z).object = (σ.slots z).object := by
      intro z
      by_cases hz : z = .slot cn idx <;> simp [writeGuard, setSlot, hz]
    rw [occupied, hobj] at hocc
    exact h hocc y o ho (hobj y ▸ hy)
  | create => exact h.same rfl rfl
  | hold o => exact h.kept (Kept.hold σ o)
  | holdActive o => exact h.kept (Kept.holdActive σ o)
  | unstaged e ho => exact h.kept ((kept_holds σ _ _).returning e)
  | staged => exact (h.kept (kept_holds σ _ _)).same rfl rfl
  | dropped => exact h.same rfl rfl
  | @undelivered k c cn =>
    have hk := (Kept.hold { σ with staged := σ.staged.eraseIdx k } cn).trans (.holdActive _ cn)
    have h0 : Below s O { σ with staged := σ.staged.eraseIdx k } := h.same rfl rfl
    exact h0.kept hk
  | @delivered k c cn idx x hc hx st =>
    have hk := (Kept.hold { σ with staged := σ.staged.eraseIdx k } cn).trans (.holdActive _ cn)
    have h0 : Below s O { σ with staged := σ.staged.eraseIdx k } := h.same rfl rfl
    refine Below.same (σ := x.1) ?_ rfl rfl
    refine (h0.kept hk).installed (hk.wf (hw.setStaged _)) hx (fun heq => hs ?_)
      fun _ => ⟨rfl, _, rfl, .inl rfl⟩
    simp [Action.targets, heq]

end

end IrisOS.Cap
