import IrisOS.Untyped.Atomic

/-! What a retype publishes hangs below the slot of its Untyped. The capability and the slot are
looked up by two functions, one of which does not read guards. -/
namespace IrisOS.Untyped
open Lib Cap Kernel List

/-! ## Revoking -/

section
variable {sz : Sizes} {m t : Memory} {F : Forest SlotRef} {cn : ObjId} {idx b : ℕ}

theorem performCap_effect (hw : Wf m.ker F) {f : Call} (hf : FrameOk m.ker f) :
    Effect m.ker (m.performCap f).1.ker ∧
      ∀ g ∈ (m.performCap f).2, ∃ h, g = .cap h ∧ FrameOk (m.performCap f).1.ker h := by
  obtain ⟨heff, hcalls⟩ := perform_effect inertHooks hw f hf
  unfold Memory.performCap
  split_ifs
  · dsimp only
    split
    · refine ⟨heff, fun g hg => ?_⟩
      obtain ⟨h, hh, rfl⟩ := mem_map.mp hg
      exact ⟨h, rfl, hcalls h hh⟩
    rename_i o _
    rw [giveBack_ker]
    refine ⟨heff, fun g hg => ?_⟩
    rcases mem_append.mp hg with hg | hg
    · obtain ⟨h, hh, rfl⟩ := mem_map.mp hg
      exact ⟨h, rfl, hcalls h hh⟩
    · obtain ⟨u, rfl⟩ := mem_giveBack hg
      exact ⟨_, rfl, trivial⟩
  · exact ⟨.kept (.stop _ _), by simp⟩

/-- The slot has no children, unless there is more to do or it is empty. -/
def Exhausted (cn : ObjId) (idx : ℕ) (σ : Kernel) : Prop :=
  σ.panic = none → σ.ret.more = false → σ.occupied (.slot cn idx) = true →
    (σ.mdb (.slot cn idx)).firstChild = none

theorem revokeLoop_last (hw : Wf m.ker F) (b n : ℕ) :
    (∃ l b' n', (m.performCap (.revokeLoop cn idx b n)).2 =
      l ++ [.cap (.revokeLoop cn idx b' n')]) ∨
      (m.performCap (.revokeLoop cn idx b n)).2 = [] ∧
        Exhausted cn idx (m.performCap (.revokeLoop cn idx b n)).1.ker := by
  unfold Memory.performCap
  split_ifs
  · simp only [perform, Memory.freed]
    by_cases hb : b ≠ 0 ∧ b ≤ n
    · rw [revokeLoop_spent hb]
      refine .inr ⟨rfl, fun _ hmore hocc => ?_⟩
      have hocc' : m.ker.occupied (.slot cn idx) = true := hocc
      simpa [hocc'] using hmore
    cases hs : m.ker.occupied (.slot cn idx) with
    | false =>
      rw [revokeLoop_gone hb hs]
      exact .inr ⟨rfl, fun _ _ hocc => by cases hs.symm.trans hocc⟩
    | true =>
      cases hc : (m.ker.mdb (.slot cn idx)).firstChild with
      | none =>
        rw [revokeLoop_done hb hs hc]
        exact .inr ⟨rfl, fun _ _ _ => hc⟩
      | some c =>
        obtain ⟨_, _, _, hv, -⟩ := hw.home _ (leftmost_leaf hw hc).1
        rw [revokeLoop_leaf hb hs hc hv, map_append]
        exact .inl ⟨_, _, _, rfl⟩
  · exact .inr ⟨rfl, fun hp => by simp [stop] at hp⟩

/-- A revoke only removes capabilities, and at its end leaves nothing below its slot. -/
theorem revoke_exhausts (hw : Wf m.ker F) (h : (system sz).Step m (.cap (.revoke cn idx b)) t) :
    (∃ F', Wf t.ker F' ∧ Prunes F m.ker.slots F' t.ker.slots) ∧ Exhausted cn idx t.ker := by
  let J : Memory → List MemCall → Prop := fun m' k =>
    (∃ F', Wf m'.ker F' ∧ Prunes F m.ker.slots F' m'.ker.slots) ∧
    (∀ g ∈ k, ∃ f, g = .cap f ∧ FrameOk m'.ker f) ∧
    ((∃ l b n, k = l ++ [.cap (.revokeLoop cn idx b n)]) ∨ k = [] ∧ Exhausted cn idx m'.ker)
  have hstart : J ((system sz).act m (.cap (.revoke cn idx b))).1
      ((system sz).act m (.cap (.revoke cn idx b))).2 := by
    change J { m with ker := (m.ker.kcnodeSlotRevokeBounded cn idx b).1 }
      ((m.ker.kcnodeSlotRevokeBounded cn idx b).2.map .cap)
    unfold kcnodeSlotRevokeBounded
    split_ifs with hex
    · refine ⟨⟨F, ((Kept.refl _).returning _).wf hw, .refl⟩, by simp [fail],
        .inr ⟨rfl, fun _ _ hocc => ?_⟩⟩
      obtain ⟨_, _, heq, -, hex'⟩ := hw.home _ hocc
      cases heq
      simp [hex'] at hex
    · refine ⟨⟨F, ?_, .refl⟩, by simp [FrameOk], .inl ⟨[], b, 0, rfl⟩⟩
      dsimp only
      exact (Kept.setStats m.ker _).wf hw
  have hend := h.2.preserves (I := J) ?_ ?_ hstart
  · exact ⟨hend.1, hend.2.2.elim (by simp) And.right⟩
  · rintro m' f k hhalt ⟨hprunes, -, -⟩
    exact ⟨hprunes, by simp, .inr ⟨rfl, fun hp => by simp [system, hp] at hhalt⟩⟩
  rintro m' g k - ⟨⟨F1, hw1, hp1⟩, hframe, hlast⟩
  obtain ⟨f, rfl, hf⟩ := hframe g (by simp)
  obtain ⟨heff, hcalls⟩ := performCap_effect hw1 hf
  obtain ⟨F2, hw2, hp2⟩ := heff.prunes hw1
  refine ⟨⟨F2, hw2, hp1.trans hp2⟩, fun g hg => ?_, ?_⟩
  · rcases mem_append.mp hg with hg | hg
    · exact hcalls g hg
    · obtain ⟨f', rfl, hf'⟩ := hframe g (mem_cons_of_mem _ hg)
      exact ⟨f', rfl, heff.frameOk hf'⟩
  obtain ⟨l, b, n, heq⟩ | ⟨heq, -⟩ := hlast
  · cases l with
    | nil =>
      obtain ⟨⟨⟩, rfl⟩ := cons.inj heq
      rw [append_nil]
      exact revokeLoop_last hw1 b n
    | cons g' l =>
      obtain ⟨-, rfl⟩ := cons.inj heq
      exact .inl ⟨(m'.performCap f).2 ++ l, b, n, (append_assoc _ _ _).symm⟩
  · cases heq

theorem revoke_removes (hw : Wf m.ker F)
    (h : (system sz).Step m (.cap (.revoke cn idx b)) t) (hp : t.ker.panic = none)
    (hmore : t.ker.ret.more = false) (hocc : t.ker.occupied (.slot cn idx) = true) {x : SlotRef}
    (hx : m.ker.Ancestor (.slot cn idx) x) : t.ker.occupied x = false := by
  obtain ⟨⟨F', hw', hprunes⟩, hnone⟩ := revoke_exhausts hw h
  by_contra hleft
  have hxF' := hw'.mem (by simpa using hleft)
  rw [hw.ancestor_eq, ← hprunes.anc_iff (hw'.mem hocc) hxF'] at hx
  obtain ⟨c, hc, -⟩ := Relation.TransGen.head'_iff.mp hx
  rw [Forest.Child, hw'.layout.first_eq_none.mp (hnone hp hmore hocc)] at hc
  cases hc

end

/-! ## Publishing -/

section
variable {sz : Sizes} {m t : Memory} {r : RetypeReq} {e : IrisError}

variable {payload : UInt64}

theorem retypeInto_publishes {root ut cn : ObjId} (hut : m.Steady ut)
    (hcn : m.Steady cn) (hret : (system sz).Returns
      (((m.resolved ut).resolved cn).retypeInto sz root r payload ut cn).1
      (((m.resolved ut).resolved cn).retypeInto sz root r payload ut cn).2 t)
    (hp : t.ker.panic = none) (hok : t.ker.ret.err = .ok) :
    m.slotsFree cn r = true ∧ ∃ objs start stop,
      (((m.resolved ut).resolved cn).createObjects sz ut r payload).result = .ok (objs, start, stop) ∧
      let c := ((m.resolved ut).resolved cn).createObjects sz ut r payload
      let utSlot := c.mem.untypedSlot root r.utCptr
      (system sz).Returns ((utSlot.map fun s => c.mem.resolved s.1).getD c.mem)
        [.publish ⟨cn, r.destSlot.toNat, objs, newRights r.type, ut, utSlot, start, stop⟩ 0] t := by
  rcases retypeInto_cases sz root r payload hut hcn with
    ⟨-, e, hne, heq⟩ | ⟨hfree, ⟨e, hres, heq⟩ | ⟨objs, start, stop, hres, heq⟩⟩
  · rw [heq] at hret
    exact absurd ((err_of_returns hret hp).symm.trans hok) hne
  · rw [heq] at hret
    exact absurd ((err_of_returns hret hp).symm.trans hok)
      ((createObjects_reaches sz r payload (hut.lent (lent_both hut hcn)).named).gaveUp hres).1
  · rw [heq] at hret
    exact ⟨hfree, objs, start, stop, hres, hret⟩

end

/-! ## What stays below -/

/-- The capabilities are the same, and no object has lost its name. -/
structure Grows (m m' : Memory) : Prop where
  slots : m'.ker.slots = m.ker.slots
  mdb : m'.ker.mdb = m.ker.mdb
  numObjs : m.ker.numObjs ≤ m'.ker.numObjs

namespace Grows
variable {m m' m'' : Memory}

theorem refl (m : Memory) : Grows m m := ⟨rfl, rfl, le_rfl⟩

theorem trans (h : Grows m m') (h' : Grows m' m'') : Grows m m'' :=
  ⟨h'.slots.trans h.slots, h'.mdb.trans h.mdb, h.numObjs.trans h'.numObjs⟩

theorem of_kept (h : Kept m.ker m'.ker) : Grows m m' := ⟨h.slots, h.mdb, h.numObjs.ge⟩

theorem retain (h : Grows m m') (o : ObjId) : Grows m (m'.retain o) :=
  h.trans (.of_kept (Kept.hold m'.ker o))

theorem resolved (h : Grows m m') (o : ObjId) : Grows m (m'.resolved o) :=
  h.trans (.of_kept ((Kept.hold m'.ker o).trans (.holdActive _ o)))

theorem addObject (m : Memory) (type : KObjType) (n : ℕ) (home source : ObjId) :
    Grows m (m.addObject type n home source) := by
  refine ⟨?_, ?_, ?_⟩
  · unfold Memory.addObject
    split_ifs <;> rfl
  · unfold Memory.addObject
    split_ifs <;> rfl
  · rw [Memory.numObjs_addObject]
    exact Nat.le_succ _

/-- A batch gives out new names, one for each object. -/
theorem buildObjects (m : Memory) (ut : ObjId) (type : KObjType) (slotCount n : ℕ) :
    Grows m (m.buildObjects ut type slotCount n).1 ∧
      (m.buildObjects ut type slotCount n).2.1.length ≤ n ∧
      ∀ o ∈ (m.buildObjects ut type slotCount n).2.1, m.ker.numObjs ≤ o := by
  induction n generalizing m with
  | zero => exact ⟨.refl m, le_rfl, by simp [Memory.buildObjects]⟩
  | succ n ih =>
    rw [Memory.buildObjects]
    cases hrange : (if type = .asidPool then m.kasidpoolCarveRange else some m) with
    | none =>
      obtain ⟨hgrows, hlen, hnew⟩ := ih m
      exact ⟨hgrows, hlen.trans (Nat.le_succ n), hnew⟩
    | some m₁ =>
      have hker : m₁.ker = m.ker := by
        unfold Memory.kasidpoolCarveRange at hrange
        split_ifs at hrange <;> cases hrange <;> rfl
      have hone : Grows m (m₁.addObject type slotCount ut ut) :=
        (⟨congrArg _ hker, congrArg _ hker, hker ▸ le_rfl⟩ : Grows m m₁).trans (.addObject ..)
      obtain ⟨hgrows, hlen, hnew⟩ := ih (m₁.addObject type slotCount ut ut)
      refine ⟨hone.trans hgrows, Nat.succ_le_succ hlen, fun o ho => ?_⟩
      rcases mem_cons.mp ho with rfl | ho
      · exact hker ▸ le_rfl
      · exact hone.numObjs.trans (hnew o ho)

theorem placeRegion (m : Memory) (ut h : ObjId) (type : KObjType) (phys size : UInt64)
    (pageChild : Bool) : Grows m (m.placeRegion ut h type phys size pageChild) := by
  have hinit : (m.initUntyped ut type phys size).ker = m.ker := by
    unfold Memory.initUntyped
    split_ifs <;> rfl
  have hobj : Grows m ((m.initUntyped ut type phys size).addObject type 0 h ut) :=
    (⟨congrArg _ hinit, congrArg _ hinit, hinit ▸ le_rfl⟩ : Grows m _).trans (.addObject ..)
  have hregion : ∀ m' : Memory, Grows m m' → Grows m (m'.addRegion ut) := by
    intro m' hm'
    unfold Memory.addRegion
    split_ifs
    · have hcounted : Grows m (m'.setUt ut { m'.uts ut with
          childCount := (m'.uts ut).childCount + 1 }) := ⟨hm'.slots, hm'.mdb, hm'.numObjs⟩
      exact hcounted.retain ut
    · exact hm'
  unfold Memory.placeRegion
  dsimp only
  split_ifs
  · have hpage := hobj.retain ut
    exact hregion _ ⟨hpage.slots, hpage.mdb, hpage.numObjs⟩
  · exact hregion _ hobj

/-- Creating objects gives out new names and touches no capability. -/
theorem createObjects (sz : Sizes) (m : Memory) (ut : ObjId) {r : RetypeReq} {payload : UInt64}
    (hcount : isRegion r.type = true → r.count.toNat = 1) :
    Grows m (m.createObjects sz ut r payload).mem ∧
      ∀ made, (m.createObjects sz ut r payload).result = .ok made →
        made.1.length ≤ r.count.toNat ∧ ∀ o ∈ made.1, m.ker.numObjs ≤ o := by
  have hcase := m.createObjects_cases sz ut r payload
  generalize m.createObjects sz ut r payload = c at hcase ⊢
  cases hcase with
  | refused => exact ⟨.refl m, nofun⟩
  | region hregion =>
    have hcase := m.retypeRegion_cases sz ut r.objArg r.type (r.type = .vspace)
    generalize m.retypeRegion _ _ _ _ _ = c at hcase ⊢
    cases hcase with
    | refused => exact ⟨.refl m, nofun⟩
    | @halfway h hu =>
      have hcarved := (Grows.refl (m.setUt h hu)).retain h
      exact ⟨⟨hcarved.slots, hcarved.mdb, hcarved.numObjs⟩, nofun⟩
    | @made h hu u _ phys =>
      have hcarved := (Grows.refl (m.setUt h hu)).retain h
      have hplaced := Grows.placeRegion (((m.setUt h hu).retain h).setUt ut u) ut h r.type phys
        r.objArg (r.type = .vspace)
      refine ⟨⟨hplaced.slots.trans hcarved.slots, hplaced.mdb.trans hcarved.mdb,
        hcarved.numObjs.trans hplaced.numObjs⟩, ?_⟩
      rintro _ ⟨⟩
      exact ⟨(hcount hregion).ge, fun o ho => mem_singleton.mp ho ▸ hcarved.numObjs⟩
  | batch =>
    unfold Memory.createBatch
    split
    · exact ⟨.refl m, nofun⟩
    rename_i u b _
    have hiter : ∀ n, Grows m ((fun m' => Memory.retain m' ut)^[n] (m.setUt ut u)) := by
      intro n
      induction n with
      | zero => exact ⟨rfl, rfl, le_rfl⟩
      | succ n ih =>
        rw [Function.iterate_succ_apply']
        exact ih.retain ut
    obtain ⟨hgrows, hlen, hnew⟩ := Grows.buildObjects
      ((fun m' => Memory.retain m' ut)^[r.count.toNat] (m.setUt ut u)) ut r.type
      (if r.type = .cnode then r.objArg.toNat else 0) r.count.toNat
    dsimp only
    split
    · rename_i m₁ objs heq
      rw [heq] at hgrows hlen hnew
      refine ⟨(hiter _).trans hgrows, ?_⟩
      rintro _ ⟨⟩
      exact ⟨hlen, fun o ho => (hiter _).numObjs.trans (hnew o ho)⟩
    · rename_i m₁ objs heq
      rw [heq] at hgrows
      exact ⟨(hiter _).trans hgrows, nofun⟩

end Grows

/-- The capabilities to the objects in `O` are below `s`, and what is about to be published is
something else and goes elsewhere. -/
structure Sheltered (s : SlotRef) (O : ObjId → Prop) (m : Memory) (k : List MemCall) : Prop where
  old : ∀ o, O o → o < m.ker.numObjs
  below : Below s O m.ker
  publish : ∀ p i, .publish p i ∈ k → (∀ o ∈ p.objs, ¬ O o) ∧
    ∀ j < p.objs.length, s ≠ .slot p.cn (p.slot + j)

/-- The slot `s` is in place and stays out of the action, which makes no capability to an object in
`O` other than as a copy. -/
def Memory.sparing (s : SlotRef) (O : ObjId → Prop) (m : Memory) (a : Action) : Prop :=
  m.ker.occupied s = true ∧ match a with
    | .cap a => s ∉ a.targets ∧ a.Copying O
    | _ => True

instance Memory.sparingDecidable (s : SlotRef) (O : ObjId → Prop) [DecidablePred O] (m : Memory) :
    (a : Action) → Decidable (m.sparing s O a)
  | .cap a => inferInstanceAs (Decidable (_ ∧ _ ∧ a.Copying O))
  | .retype .. | .reset .. | .setDeviceBudget .. => inferInstanceAs (Decidable (_ ∧ True))

namespace Sheltered
variable {s : SlotRef} {O : ObjId → Prop} {m : Memory} {k : List MemCall} {spare : ObjId → ℤ}

theorem grows {m' : Memory} (h : Sheltered s O m []) (hg : Grows m m')
    (hk : ∀ p i, .publish p i ∈ k → (∀ o ∈ p.objs, m.ker.numObjs ≤ o) ∧
      ∀ j < p.objs.length, s ≠ .slot p.cn (p.slot + j)) : Sheltered s O m' k where
  old o ho := (h.old o ho).trans_le hg.numObjs
  below := h.below.same hg.slots hg.mdb
  publish p i hp := ⟨fun o ho hO => absurd (h.old o hO) (not_lt.mpr ((hk p i hp).1 o ho)),
    (hk p i hp).2⟩

theorem plain {m' : Memory} (h : Sheltered s O m []) (hg : Grows m m')
    (hk : ∀ f ∈ k, f.plain = true) : Sheltered s O m' k :=
  h.grows hg fun p i hp => absurd hp (not_publish_of_plain hk p i)

theorem publish_of_mem_publish {p q : Publication} {i j : ℕ}
    (h : .publish q j ∈ (m.publish p i).2) : q = p := by
  have hslot : .publish q j ∉ (p.utSlot.map fun s => Memory.unresolve s.1).getD [] := by
    cases p.utSlot <;> simp [Memory.unresolve]
  have hdrop : ∀ o, .publish q j ∉ Memory.unresolve o := by simp [Memory.unresolve]
  unfold Memory.publish at h
  split at h
  · simp [hdrop, hslot] at h
  · dsimp only at h
    split_ifs at h
    · simp only [mem_append, mem_map, mem_singleton, MemCall.publish.injEq, reduceCtorEq, and_false,
        exists_false, false_or] at h
      exact h.1
    · simp [hdrop, hslot] at h
    · simp [hdrop, hslot] at h

theorem call {f : MemCall} (h : Sheltered s O m (f :: k)) (hb : Books spare m (f :: k))
    (ht : s ≠ .tmp) : Sheltered s O (m.perform f).1 ((m.perform f).2 ++ k) := by
  have hrest : ∀ l : List MemCall, (∀ p i, .publish p i ∉ l) → ∀ p i, .publish p i ∈ l ++ k →
      (∀ o ∈ p.objs, ¬ O o) ∧ ∀ j < p.objs.length, s ≠ .slot p.cn (p.slot + j) :=
    fun l hl p i hmem => h.publish p i
      (mem_cons_of_mem f ((mem_append.mp hmem).resolve_left (hl p i)))
  obtain ⟨⟨F, hw⟩, hframe⟩ := hb.ledger.lifetimes.accounted.inOrder
  cases f with
  | cap f =>
    obtain ⟨heff, hcalls⟩ := performCap_effect hw (hframe f mem_cons_self)
    refine ⟨fun o ho => (h.old o ho).trans_eq heff.sameShape.numObjs.symm, h.below.effect hw heff,
      hrest _ fun p i hmem => ?_⟩
    obtain ⟨g, hg, -⟩ := hcalls _ hmem
    cases hg
  | publish p i =>
    obtain ⟨hobjs, hslots⟩ := h.publish p i mem_cons_self
    obtain rfl : k = [] := hb.last
    simp only [Memory.perform, append_nil]
    have hcalls : ∀ q j, .publish q j ∈ (m.publish p i).2 → (∀ o ∈ q.objs, ¬ O o) ∧
        ∀ j < q.objs.length, s ≠ .slot q.cn (q.slot + j) := by
      intro q j hmem
      obtain rfl := publish_of_mem_publish hmem
      exact ⟨hobjs, hslots⟩
    cases hobj : p.objs[i]? with
    | none =>
      have hsame : (m.publish p i).1 = m := by simp only [Memory.publish, hobj]
      refine ⟨fun o ho => ?_, ?_, hcalls⟩
      · rw [hsame]
        exact h.old o ho
      · rw [hsame]
        exact h.below
    | some o =>
      obtain ⟨hi, -⟩ := List.getElem?_eq_some_iff.mp hobj
      let a : Cap.Action := .installLinked p.cn (p.slot + i) o p.rights 0 p.utSlot (some p.ut) true
        p.utSlot.isNone
      have hsame : (m.publish p i).1.ker = (m.ker.act a).1 := by
        simp only [Memory.publish, hobj]
        split_ifs <;> rfl
      refine ⟨fun o ho => ?_, hsame ▸ h.below.act hw (fun hmem => hslots i hi
        (mem_singleton.mp hmem)) ht (hobjs o (mem_of_getElem? hobj)), hcalls⟩
      rw [hsame]
      exact (h.old o ho).trans_le (act_touches hw a).moreObjs.numObjs
  | unbump u start stop => exact ⟨h.old, h.below, hrest [] (by simp)⟩
  | ret e => exact ⟨h.old, h.below.same rfl rfl, hrest [] (by simp)⟩

theorem retypeInto {n : Memory} {root ut cn : ObjId} {payload : UInt64} {sz : Sizes}
    {asidControl : Bool} {r : RetypeReq} (h : Sheltered s O m []) (hs : m.ker.occupied s = true)
    (hn : Grows m n) (hpayload : retypePayload sz asidControl r = .ok payload)
    (hcalls : ∀ f ∈ (n.createObjects sz ut r payload).calls, f.plain = true) :
    Sheltered s O (n.retypeInto sz root r payload ut cn).1
      (n.retypeInto sz root r payload ut cn).2 := by
  have hboth := plain_append (plain_unresolve cn) (plain_unresolve ut)
  obtain ⟨hc, hmade⟩ := Grows.createObjects sz n ut (count_of_payload hpayload)
  have hmem := hn.trans hc
  unfold Memory.retypeInto
  dsimp only
  split_ifs with hrange hany
  · exact h.plain hn (plain_append hboth (plain_ret _))
  · exact h.plain hn (plain_append hboth (plain_ret _))
  cases hres : (n.createObjects sz ut r payload).result with
  | error e =>
    exact h.plain hmem (plain_append (plain_append hcalls hboth) (plain_ret e))
  | ok made =>
    obtain ⟨hlen, hnew⟩ := hmade made hres
    refine h.grows (k := [_]) ?_ fun p i hp => ?_
    · cases (n.createObjects sz ut r payload).mem.untypedSlot root r.utCptr with
      | none => exact hmem
      | some x => exact hmem.resolved x.1
    · cases mem_singleton.mp hp
      refine ⟨fun o ho => hn.numObjs.trans (hnew o ho), fun j hj heq => ?_⟩
      refine hany (any_eq_true.mpr ⟨j, mem_range.mpr (hj.trans_le hlen), ?_⟩)
      rw [← heq, occupied, hn.slots]
      exact hs

theorem act {sz : Sizes} {a : Action} (h : Sheltered s O m []) (hb : Books spare m [])
    (hp : m.ker.panic = none) (ht : s ≠ .tmp) (ha : m.sparing s O a) :
    Sheltered s O (m.act sz a).1 (m.act sz a).2 := by
  have hwork : Working spare m := ⟨hb.ledger, hp⟩
  have hone := (Grows.refl m).resolved
  have hfail : ∀ e, Sheltered s O (m.fail e).1 (m.fail e).2 := fun e =>
    h.grows ⟨rfl, rfl, le_rfl⟩ nofun
  cases a with
  | retype self asidControl r =>
    rcases retype_cases sz hwork self asidControl r with
      ⟨e, -, heq, -⟩ | ⟨e, ut, -, -, heq, -⟩ | ⟨root, payload, ut, cn, had, heq⟩
    all_goals
      change Sheltered s O (m.sysUntypedRetype2 sz self asidControl r).1
        (m.sysUntypedRetype2 sz self asidControl r).2
      rw [heq]
    · exact hfail e
    · exact h.plain (hone ut) (plain_append (plain_unresolve ut) (plain_ret e))
    · obtain ⟨-, -, -, -, hcalls⟩ := ((hwork.resolved ut).resolved cn).createObjects sz hb.nonneg
        payload (had.pinned.named.trans_le ((hone ut).resolved cn).numObjs)
        (type_of_payload had.size)
      exact h.retypeInto ha.1 ((hone ut).resolved cn) had.size hcalls
  | reset self utCptr =>
    change Sheltered s O (m.sysUntypedReset self utCptr).1 (m.sysUntypedReset self utCptr).2
    have hplain := fun ut e => plain_append (plain_unresolve ut) (plain_ret e)
    unfold Memory.sysUntypedReset
    split
    · exact hfail _
    split
    · exact hfail _
    dsimp only
    split
    · exact h.plain (hone _) (hplain _ _)
    · exact h.plain ⟨(hone _).slots, (hone _).mdb, (hone _).numObjs⟩ (hplain _ _)
  | setDeviceBudget self devCptr ramCptr =>
    change Sheltered s O (m.sysUntypedSetDeviceBudget self devCptr ramCptr).1
      (m.sysUntypedSetDeviceBudget self devCptr ramCptr).2
    unfold Memory.sysUntypedSetDeviceBudget
    split
    · exact hfail _
    split
    · exact hfail _
    rename_i dev _
    dsimp only
    split
    · exact h.plain (hone dev) (plain_append (plain_unresolve dev) (plain_ret _))
    rename_i ram _
    refine h.plain ?_
      (plain_append (plain_append (plain_unresolve ram) (plain_unresolve dev)) (plain_ret _))
    have htwo := (hone dev).resolved ram
    unfold Memory.kuntypedSetHdrBudget
    split_ifs
    · exact htwo
    · exact htwo
    · exact htwo
    · exact htwo
    · have hthree := htwo.retain ram
      exact ⟨hthree.slots, hthree.mdb, hthree.numObjs⟩
  | cap a =>
    obtain ⟨⟨F, hw⟩, -⟩ := hwork.lifetimes.accounted.inOrder
    refine ⟨fun o ho => (h.old o ho).trans_le (act_touches hw a).moreObjs.numObjs,
      h.below.act hw ha.2.1 ht ha.2.2, fun p i hp => ?_⟩
    obtain ⟨g, -, hg⟩ := mem_map.mp hp
    cases hg

end Sheltered

/-- What is below a slot stays below it, along every run that spares the slot. -/
theorem sheltered_of_runs {sz : Sizes} {s : SlotRef} {O : ObjId → Prop} {m u : Memory}
    {bs : List Action} {spare : ObjId → ℤ} (hb : Books spare m []) (h : Sheltered s O m [])
    (ht : s ≠ .tmp) (hrun : (system sz).Runs (Memory.sparing s O) m bs u) :
    (∃ spare, Books spare u []) ∧ Sheltered s O u [] := by
  refine hrun.preserves (I := fun m k => (∃ spare, Books spare m k) ∧ Sheltered s O m k) ?_ ?_ ?_
    ⟨⟨spare, hb⟩, h⟩
  · rintro m a hhalt ⟨⟨spare, hb⟩, hm⟩ ha
    have hp : m.ker.panic = none := by simpa [system] using hhalt
    obtain ⟨spare', -, hact⟩ := hb.act sz (a := a) hp
    exact ⟨⟨spare', hact⟩, hm.act hb hp ht ha⟩
  · rintro m f k hhalt ⟨⟨spare, hb⟩, hm⟩
    exact ⟨⟨spare, hb.call (by simpa [system] using hhalt)⟩, hm.call hb ht⟩
  · rintro m f k hhalt ⟨⟨spare, hb⟩, hm⟩
    refine ⟨⟨spare, hb.halt fun hnone => ?_⟩, hm.old, hm.below,
      fun _ _ h => absurd h not_mem_nil⟩
    simp [system, hnone] at hhalt

/-! ## The slot of the Untyped -/

/-- The guards on the way to the Untyped are harmless. -/
def Memory.findsSource (m : Memory) (self : Option Cap.Task) (r : RetypeReq) : Bool :=
  (self.bind (·.cspaceRoot)).all fun root =>
    m.ker.guardsHarmless cspaceMaxDepth root (rootGuard self root) r.utCptr.toNat

/-- The CNode the new capabilities go to and the one of the Untyped's slot have another active
reference than the call's own. -/
def Memory.holdsCNodes (m : Memory) (self : Option Cap.Task) (r : RetypeReq) : Bool :=
  (self.bind (·.cspaceRoot)).all fun root =>
    (m.destination self root r).toOption.all m.attached && m.slotAttached root r.utCptr

/-- The new objects are in their slots, each a child of the Untyped's slot `s`. -/
def PublishedBelow (m : Memory) (self : Option Cap.Task) (r : RetypeReq) (m' : Memory)
    (s : ObjId × ℕ) : Prop :=
  ∃ root path cap cn, self.bind (·.cspaceRoot) = some root ∧
    m.ker.cspaceResolveCapBadged self (some root) r.utCptr rightNone = .ok (path, cap) ∧
    path.getLast? = some s ∧ m.destination self root r = .ok cn ∧
    ∀ j < r.count.toNat,
      (m'.ker.slots (.slot cn (r.destSlot.toNat + j))).object = some (m.ker.numObjs + j) ∧
      (m'.ker.mdb (.slot cn (r.destSlot.toNat + j))).parent = some (.slot s.1 s.2)

/-- The slot resolver comes to the slot of the Untyped exactly where the guards are harmless. -/
theorem untypedSlot_eq_iff {m : Memory} {self : Option Cap.Task} {root ut : ObjId} {cptr : UInt64}
    {required : Rights} (hres : cspaceResolveOnlyUntyped m.ker self root cptr required = .ok ut) :
    ∃ path cap s, m.ker.cspaceResolveCapBadged self (some root) cptr rightNone = .ok (path, cap) ∧
      path.getLast? = some s ∧ (m.ker.slots (.slot s.1 s.2)).object = some ut ∧
      (m.untypedSlot root cptr = some s ↔
        m.ker.guardsHarmless cspaceMaxDepth root (rootGuard self root) cptr.toNat = true) := by
  unfold cspaceResolveOnlyUntyped cspaceResolveOnly at hres
  split_ifs at hres with hcptr
  split at hres
  · cases hres
  rename_i path cap hcap
  obtain ⟨cn, idx, hlast, hobj, -⟩ := resolveCapFrom_last (cspaceResolveCapBadged_ok hcap)
  split_ifs at hres
  cases hres
  refine ⟨path, cap, (cn, idx), hcap, hlast, hobj, ?_⟩
  have hnull : cptr ≠ 0 := by
    rintro rfl
    simp [cspaceValueIsCptr] at hcptr
  simp only [Bool.not_eq_true', Bool.not_eq_false] at hcptr
  rw [guardsHarmless_iff, capEnd, cspaceResolveCapBadged_ok hcap]
  simp [Memory.untypedSlot, hcptr, cspaceResolveSlot, hnull, slotEnd, hlast, Except.toOption, eq_comm]

/-- Two endpoints are retyped, one is copied and then deleted, the other is moved. -/
def scatteredCaps : List Action :=
  [.cap (.derive 2 3 2 5 rightSameRights 0), .cap (.delete 2 3), .cap (.move 2 4 2 6)]

/-- A thread that enters its root with a guard of one bit, which is set. -/
def strictTask : Option Cap.Task := some ⟨some 2, 1, 1⟩

end IrisOS.Untyped
