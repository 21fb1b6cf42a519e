import IrisOS.Cap.Below
import IrisOS.Untyped.Create

/-! Publishing the objects of a retype. The capabilities go into their slots one after the other,
or the first of them is refused and everything is taken back. -/
namespace IrisOS.Untyped
open Lib Cap Kernel Function

/-! ## Installs -/

section
variable {σ τ : Kernel} {r a : ObjId → ℕ} {o : ObjId}

theorem Lent.isCNode (h : Lent σ r a τ) (ho : o < σ.numObjs) : τ.isCNode o = σ.isCNode o := by
  simp [Kernel.isCNode, h.objs o ho]

theorem Lent.slotExists (h : Lent σ r a τ) (ho : o < σ.numObjs) (i : ℕ) :
    τ.slotExists o i = σ.slotExists o i := by
  simp [Kernel.slotExists, h.isCNode ho, h.objs o ho]

end

theorem install_takes {σ : Kernel} {parent : Option (ObjId × ℕ)} {expect : Option ObjId}
    (hcn : σ.isCNode cn = true) (hlive : (σ.objs obj).live = true)
    (href : 1 ≤ (σ.objs obj).refcount) (hrights : rights ≠ rightNone)
    (hparent : ∀ s ∈ parent, σ.slotExists s.1 s.2 = true) :
    σ.kcnodeSlotInstallLinked cn idx obj rights badge parent expect true unparented =
      (σ.takeRefs cn obj).installUnderLock cn idx obj rights badge parent expect unparented none := by
  have hpar : (parent.any fun s => !σ.slotExists s.1 s.2) = false := by
    cases parent with
    | none => rfl
    | some s => simp [hparent s rfl]
  simp [kcnodeSlotInstallLinked, hcn, hlive, hrights, hpar, not_lt.mpr href]

/-! ## One round after the other -/

/-- What the publication of `n` new objects rests on, in the state before the call. -/
structure Publishable (m : Memory) (p : Publication) (n : ℕ) : Prop where
  cnode : m.ker.isCNode p.cn = true
  named : p.cn < m.ker.numObjs
  room : p.slot + n ≤ (m.ker.objs p.cn).slotCount
  free : ∀ j < n, m.ker.occupied (.slot p.cn (p.slot + j)) = false
  objs : p.objs = List.range' m.ker.numObjs n
  rights : p.rights ≠ rightNone
  parent : ∀ s ∈ p.utSlot, s.1 < m.ker.numObjs ∧ m.ker.slotExists s.1 s.2 = true ∧
    m.ker.occupied (.slot s.1 s.2) = true

/-- The first `i` of the `n` new objects are in their slots, and nothing else is in new slots. -/
structure Publishing (m : Memory) (r a : ObjId → ℕ) (p : Publication) (type : KObjType) (n i : ℕ)
    (m' : Memory) : Prop where
  lent : Lent m.ker r a m'.ker
  numObjs : m'.ker.numObjs = m.ker.numObjs + n
  made : ∀ j < n, (m'.ker.objs (m.ker.numObjs + j)).type = type ∧
    (m'.ker.objs (m.ker.numObjs + j)).live = true ∧
    (m'.ker.objs (m.ker.numObjs + j)).refcount = (if j < i then 2 else 1) ∧
    (m'.ker.held (m.ker.numObjs + j)).refs = 1
  filled : ∀ j < i, (m'.ker.slots (.slot p.cn (p.slot + j))).object = some (m.ker.numObjs + j)
  others : ∀ s, (∀ j < i, s ≠ .slot p.cn (p.slot + j)) → m'.ker.slots s = m.ker.slots s
  linked : ∀ j < i, (m'.ker.mdb (.slot p.cn (p.slot + j))).parent =
    p.utSlot.map fun s => .slot s.1 s.2

section
variable {m m' : Memory} {r a : ObjId → ℕ} {p : Publication} {type : KObjType} {n i : ℕ}
  {s : ObjId × ℕ}

theorem Publishable.getElem (h : Publishable m p n) (hi : i < n) :
    p.objs[i]? = some (m.ker.numObjs + i) := by
  rw [h.objs, List.getElem?_range' hi, Nat.one_mul]

section

variable (hpub : Publishable m p n) (h : Publishing m r a p type n i m')
include hpub h

theorem Publishing.install_eq
    (hi : i < n) :
    m'.ker.kcnodeSlotInstallLinked p.cn (p.slot + i) (m.ker.numObjs + i) p.rights 0 p.utSlot
        (some p.ut) true p.utSlot.isNone =
      (m'.ker.takeRefs p.cn (m.ker.numObjs + i)).installUnderLock p.cn (p.slot + i)
        (m.ker.numObjs + i) p.rights 0 p.utSlot (some p.ut) p.utSlot.isNone none := by
  obtain ⟨-, hlive, href, -⟩ := h.made i hi
  rw [if_neg (lt_irrefl i)] at href
  refine install_takes ((h.lent.isCNode hpub.named).trans hpub.cnode) hlive href.ge hpub.rights
    fun s hs => ?_
  obtain ⟨hlt, hex, -⟩ := hpub.parent s hs
  exact (h.lent.slotExists hlt _).trans hex

theorem Publishing.parent_slot
    (hi : i ≤ n) (hs : s ∈ p.utSlot) :
    m'.ker.slots (.slot s.1 s.2) = m.ker.slots (.slot s.1 s.2) := by
  refine h.others _ fun j hj heq => ?_
  have hfree := hpub.free j (hj.trans_le hi)
  rw [← heq, (hpub.parent s hs).2.2] at hfree
  cases hfree

theorem Publishing.slot_free (hi : i < n) : m'.ker.occupied (.slot p.cn (p.slot + i)) = false := by
  have hslots : m'.ker.slots (.slot p.cn (p.slot + i)) = m.ker.slots (.slot p.cn (p.slot + i)) :=
    h.others _ fun j hj heq => by
      rw [SlotRef.slot.injEq] at heq
      omega
  rw [occupied, hslots]
  exact hpub.free i hi

theorem Publishing.next
    (hi : i < n) : Publishing m r a p type n (i + 1)
      { m' with ker := ((m'.ker.takeRefs p.cn (m.ker.numObjs + i)).fillSlot p.cn (p.slot + i)
        (m.ker.numObjs + i) p.rights 0 p.utSlot p.utSlot.isNone).returning .ok } := by
  have hne : m.ker.numObjs + i ≠ p.cn := (hpub.named.trans_le (Nat.le_add_right _ _)).ne'
  obtain ⟨htype, hlive, href, hheld⟩ := h.made i hi
  rw [if_neg (lt_irrefl i)] at href
  rw [takeRefs_eq href.ge hne]
  set σ := m'.ker.setObj (m.ker.numObjs + i) fun y =>
    { y with refcount := y.refcount + 1, activeRefs := y.activeRefs + 1 } with hσ
  set τ := (σ.fillSlot p.cn (p.slot + i) (m.ker.numObjs + i) p.rights 0 p.utSlot
    p.utSlot.isNone).returning .ok with hτ
  have hslots : τ.slots = update σ.slots (.slot p.cn (p.slot + i)) _ :=
    fillSlot_slots p.utSlot
  have hrest : τ.objs = σ.objs ∧ τ.numObjs = σ.numObjs ∧ τ.held = σ.held ∧
      τ.cascade = σ.cascade ∧ τ.running = σ.running ∧ τ.staged = σ.staged ∧ τ.panic = σ.panic := by
    rw [hτ]
    cases p.utSlot <;> exact ⟨rfl, rfl, rfl, rfl, rfl, rfl, rfl⟩
  obtain ⟨hobjs, hnum, hheld', hkeep⟩ := hrest
  have hparent : ∀ x, (τ.mdb x).parent = if x = .slot p.cn (p.slot + i)
      then p.utSlot.map fun s => .slot s.1 s.2 else (m'.ker.mdb x).parent := fillSlot_parent p.utSlot
  refine ⟨h.lent.agree hnum.ge (fun o ho => ?_) (fun o _ => congrFun hheld' o) hkeep,
    hnum.trans h.numObjs, fun j hj => ?_, fun j hj => ?_, fun s hs => ?_, fun j hj => ?_⟩
  · have hoi : o ≠ m.ker.numObjs + i := (ho.trans_le (Nat.le_add_right _ _)).ne
    rw [hobjs]
    simp [hσ, setObj, hoi]
  · obtain ⟨htype', hlive', href', hheld''⟩ := h.made j hj
    rw [hobjs, hheld']
    refine ⟨?_, ?_, ?_, hheld''⟩
    all_goals by_cases hji : j = i
    · subst hji
      simpa [hσ, setObj] using htype
    · simpa [hσ, setObj, hji] using htype'
    · subst hji
      simpa [hσ, setObj] using hlive
    · simpa [hσ, setObj, hji] using hlive'
    · subst hji
      simp [hσ, setObj, href]
    · have hiff : j < i + 1 ↔ j < i := by omega
      simp [hσ, setObj, hji, href', hiff]
  · change (τ.slots _).object = _
    rw [hslots]
    by_cases hji : j = i
    · subst hji
      simp
    · have hdiff : SlotRef.slot p.cn (p.slot + j) ≠ .slot p.cn (p.slot + i) := by simp [hji]
      rw [update_of_ne hdiff]
      exact h.filled j (by omega)
  · change τ.slots s = _
    rw [hslots, update_of_ne (hs i (Nat.lt_succ_self i))]
    exact h.others s fun j hj => hs j (Nat.lt_succ_of_lt hj)
  · change (τ.mdb _).parent = _
    rw [hparent]
    split_ifs with hj'
    · rfl
    · have hji : j ≠ i := fun heq => hj' (heq ▸ rfl)
      exact h.linked j (by omega)

theorem Publishing.step (hi : i < n)
    (hut : ∀ s ∈ p.utSlot, (m.ker.slots (.slot s.1 s.2)).object = some p.ut) :
    ∃ m'', m'.publish p i = (m'', [.publish p (i + 1)]) ∧
      Publishing m r a p type n (i + 1) m'' := by
  have hkept := Kept.takeRefs m'.ker p.cn (m.ker.numObjs + i)
  have hex : (m'.ker.takeRefs p.cn (m.ker.numObjs + i)).slotExists p.cn (p.slot + i) = true := by
    rw [slotExists_takeRefs, h.lent.slotExists hpub.named, slotExists, hpub.cnode]
    have := hpub.room
    simp
    omega
  have hfree := (hkept.occupied _).trans (h.slot_free hpub hi)
  have hparent : (m'.ker.takeRefs p.cn (m.ker.numObjs + i)).parentRefused
      (.slot p.cn (p.slot + i)) (some p.ut) p.utSlot = false := by
    cases hs : p.utSlot with
    | none => rfl
    | some s =>
      have hmem : s ∈ p.utSlot := hs
      have hslot := h.parent_slot hpub hi.le hmem
      have hdiff : SlotRef.slot s.1 s.2 ≠ .slot p.cn (p.slot + i) := fun heq => by
        have := hpub.free i hi
        rw [← heq, (hpub.parent s hmem).2.2] at this
        cases this
      simp [parentRefused, occupied, hkept.slots, hslot, hut s hmem, hdiff]
  refine ⟨_, ?_, h.next hpub hi⟩
  simp only [Memory.publish, hpub.getElem hi, h.install_eq hpub hi, installUnderLock, hex,
    hparent, hfree]
  rfl

end

theorem Publishing.run (sz : Sizes) (hp : m.ker.panic = none) (hpub : Publishable m p n)
    (hut : ∀ s ∈ p.utSlot, (m.ker.slots (.slot s.1 s.2)).object = some p.ut)
    (h : Publishing m r a p type n i m') (hi : i ≤ n) :
    ∃ m'', Publishing m r a p type n n m'' ∧
      ∀ t, (system sz).Returns m' [.publish p i] t ↔ (system sz).Returns m'' [.publish p n] t := by
  induction hk : n - i generalizing i m' with
  | zero =>
    obtain rfl : i = n := by omega
    exact ⟨m', h, fun _ => Iff.rfl⟩
  | succ k ih =>
    have hlt : i < n := by omega
    obtain ⟨m₁, heq, h1⟩ := h.step hpub hlt hut
    obtain ⟨m2, h2, hiff⟩ := ih h1 hlt (by omega)
    refine ⟨m2, h2, fun t => ?_⟩
    have hbody : (system sz).body m' (.publish p i) = (m₁, [.publish p (i + 1)]) := heq
    rw [CallMachine.Returns.cons_iff (Memory.halted_eq_false (h.lent.panic.trans hp)), hbody,
      List.append_nil, hiff]

end

/-! ## Letting go -/

/-- An object that a system call can hold and let go of again without closing it. -/
structure Memory.Steady (m : Memory) (o : ObjId) : Prop where
  named : o < m.ker.numObjs
  live : (m.ker.objs o).live = true
  refcount : 1 ≤ (m.ker.objs o).refcount
  close : (m.ker.objs o).activeRefs = 0 → (m.ker.objs o).type ≠ .cnode

theorem Lent.leads_unresolve (sz : Sizes) {m m' : Memory} {o : ObjId}
    (h : Lent m.ker (r + Pi.single o 1) (a + Pi.single o 1) m'.ker) (hp : m.ker.panic = none)
    (ho : m.Steady o) : (system sz).Leads m' (Memory.unresolve o)
      { m' with ker := Untyped.unresolved m'.ker o } := fun _ _ =>
  h.returns_unresolve hp ho.named ho.live ho.refcount ho.close

/-- The kernels differ in their counts of references only. -/
structure SameButCounts (σ τ : Kernel) : Prop where
  numObjs : τ.numObjs = σ.numObjs
  slots : τ.slots = σ.slots
  mdb : τ.mdb = σ.mdb
  type : ∀ o, (τ.objs o).type = (σ.objs o).type
  live : ∀ o, (τ.objs o).live = (σ.objs o).live

namespace SameButCounts
variable {σ τ υ : Kernel}

theorem refl (σ : Kernel) : SameButCounts σ σ := ⟨rfl, rfl, rfl, fun _ => rfl, fun _ => rfl⟩

theorem trans (h : SameButCounts σ τ) (h' : SameButCounts τ υ) : SameButCounts σ υ :=
  ⟨h'.numObjs.trans h.numObjs, h'.slots.trans h.slots, h'.mdb.trans h.mdb,
    fun o => (h'.type o).trans (h.type o), fun o => (h'.live o).trans (h.live o)⟩

theorem dropHeld (σ : Kernel) (o : ObjId) : SameButCounts σ (dropHeld σ o) := by
  refine ⟨rfl, rfl, rfl, fun x => ?_, fun x => ?_⟩
  all_goals by_cases hx : x = o <;> simp [Untyped.dropHeld, setObj, setHeld, hx]

theorem dropHeldActive (σ : Kernel) (o : ObjId) : SameButCounts σ (dropHeldActive σ o) := by
  refine ⟨rfl, rfl, rfl, fun x => ?_, fun x => ?_⟩
  all_goals by_cases hx : x = o <;> simp [Untyped.dropHeldActive, setObj, setHeld, hx]

theorem unresolved (σ : Kernel) (o : ObjId) : SameButCounts σ (unresolved σ o) :=
  (dropHeldActive σ o).trans (dropHeld _ o)

end SameButCounts

/-- The capability of the Untyped that a retype has looked up. -/
def slotLoan (utSlot : Option (ObjId × ℕ)) : ObjId → ℕ := utSlot.elim 0 fun s => Pi.single s.1 1

section
variable (sz : Sizes) {m m' : Memory} {r a : ObjId → ℕ} {n : ℕ}

theorem Lent.leads_dropSlot {utSlot : Option (ObjId × ℕ)}
    (h : Lent m.ker (r + slotLoan utSlot) (a + slotLoan utSlot) m'.ker) (hp : m.ker.panic = none)
    (hs : ∀ s ∈ utSlot, m.Steady s.1) :
    ∃ σ, Lent m.ker r a σ ∧ SameButCounts m'.ker σ ∧ (∀ o, m.ker.numObjs ≤ o →
        σ.objs o = m'.ker.objs o ∧ σ.held o = m'.ker.held o) ∧
      (system sz).Leads m' ((utSlot.map fun s => Memory.unresolve s.1).getD [])
        { m' with ker := σ } := by
  cases utSlot with
  | none =>
    refine ⟨m'.ker, ?_, .refl _, fun _ _ => ⟨rfl, rfl⟩, .refl _⟩
    simpa [slotLoan] using h
  | some s =>
    have hsteady := hs s rfl
    refine ⟨_, h.unresolved, .unresolved _ _, fun o ho => ?_, h.leads_unresolve sz hp hsteady⟩
    have hne : o ≠ s.1 := (hsteady.named.trans_le ho).ne'
    simp [Untyped.unresolved, Untyped.dropHeld, Untyped.dropHeldActive, setObj,
      setHeld, hne]

theorem Lent.leads_dropBoth {cn ut : ObjId}
    (h : Lent m.ker (r + Pi.single ut 1 + Pi.single cn 1) (a + Pi.single ut 1 + Pi.single cn 1)
      m'.ker) (hp : m.ker.panic = none) (hcn : m.Steady cn) (hut : m.Steady ut) :
    ∃ σ, Lent m.ker r a σ ∧ SameButCounts m'.ker σ ∧
      (system sz).Leads m' (Memory.unresolve cn ++ Memory.unresolve ut) { m' with ker := σ } := by
  let m₁ : Memory := { m' with ker := Untyped.unresolved m'.ker cn }
  have h1 : Lent m.ker (r + Pi.single ut 1) (a + Pi.single ut 1) m₁.ker := h.unresolved
  exact ⟨_, h1.unresolved, (SameButCounts.unresolved _ _).trans (.unresolved _ _),
    (h.leads_unresolve sz hp hcn).trans (h1.leads_unresolve sz hp hut)⟩

theorem Lent.leads_releaseAll (h : Lent m.ker r a m'.ker) (hp : m.ker.panic = none)
    (hmade : ∀ x, m.ker.numObjs ≤ x → x < m.ker.numObjs + n → (m'.ker.objs x).live = true ∧
      2 ≤ (m'.ker.objs x).refcount ∧ (m'.ker.held x).refs ≠ 0) :
    ∃ σ, Lent m.ker r a σ ∧ SameButCounts m'.ker σ ∧ (system sz).Leads m'
      ((List.range' m.ker.numObjs n).map fun o => .cap (.heldRelease o)) { m' with ker := σ } := by
  let I : ℕ → Memory → Prop := fun i m'' => ∃ σ, m'' = { m' with ker := σ } ∧ Lent m.ker r a σ ∧
    SameButCounts m'.ker σ ∧ ∀ x, i ≤ x → σ.objs x = m'.ker.objs x ∧ σ.held x = m'.ker.held x
  have hstep : ∀ i s, m.ker.numObjs ≤ i → i < m.ker.numObjs + n → I i s →
      ∃ s', I (i + 1) s' ∧ (system sz).Leads s [.cap (.heldRelease i)] s' := by
    rintro i _ hi hlt ⟨σ, rfl, hlent, hsame, hrest⟩
    obtain ⟨hlive, href, hheld⟩ := hmade i hi hlt
    obtain ⟨hobj, hheld'⟩ := hrest i le_rfl
    refine ⟨{ m' with ker := Untyped.dropHeld σ i }, ⟨_, rfl, ?_, hsame.trans (.dropHeld _ _), ?_⟩,
      fun k t => ?_⟩
    · refine hlent.agree le_rfl (fun o ho => ?_) (fun o ho => ?_) ⟨rfl, rfl, rfl, rfl⟩
      all_goals
        have hne : o ≠ i := (ho.trans_le hi).ne
        simp [Untyped.dropHeld, setObj, setHeld, hne]
    · intro x hx
      have hne : x ≠ i := (Nat.lt_of_succ_le hx).ne'
      simpa [Untyped.dropHeld, setObj, setHeld, hne] using hrest x (Nat.le_of_succ_le hx)
    · exact Memory.returns_heldRelease (hlent.panic.trans hp) (by rw [hobj]; exact hlive)
        (by rw [hobj]; exact href) (by rw [hheld']; exact hheld)
  obtain ⟨_, ⟨σ, rfl, hlent, hsame, -⟩, hlead⟩ := CallMachine.Leads.each hstep
    ⟨m'.ker, rfl, h, .refl _, fun _ _ => ⟨rfl, rfl⟩⟩
  exact ⟨σ, hlent, hsame, hlead⟩

end

/-! ## Success -/

/-- The objects are in the slots asked for, below the Untyped's, and no other slot has changed. -/
structure Published (m : Memory) (cn : ObjId) (slot : ℕ) (type : KObjType) (n : ℕ)
    (utSlot : Option (ObjId × ℕ)) (m' : Memory) : Prop where
  numObjs : m'.ker.numObjs = m.ker.numObjs + n
  made : ∀ j < n, (m'.ker.objs (m.ker.numObjs + j)).type = type ∧
    (m'.ker.objs (m.ker.numObjs + j)).live = true
  free : ∀ j < n, m.ker.occupied (.slot cn (slot + j)) = false
  filled : ∀ j < n, (m'.ker.slots (.slot cn (slot + j))).object = some (m.ker.numObjs + j)
  others : ∀ s, (∀ j < n, s ≠ .slot cn (slot + j)) → m'.ker.slots s = m.ker.slots s
  linked : ∀ j < n, (m'.ker.mdb (.slot cn (slot + j))).parent = utSlot.map fun s => .slot s.1 s.2

theorem publish_succeeds (sz : Sizes) {m m' : Memory} {r : ObjId → ℕ} (hp : m.ker.panic = none)
    (hpub : Publishable m p n)
    (hut : ∀ s ∈ p.utSlot, (m.ker.slots (.slot s.1 s.2)).object = some p.ut)
    (hcn : m.Steady p.cn) (huts : m.Steady p.ut) (hs : ∀ s ∈ p.utSlot, m.Steady s.1)
    (h : Publishing m (r + Pi.single p.ut 1 + Pi.single p.cn 1 + slotLoan p.utSlot)
      (0 + Pi.single p.ut 1 + Pi.single p.cn 1 + slotLoan p.utSlot) p type n 0 m') :
    ∃ t, (system sz).Returns m' [.publish p 0] t ∧ t.ker.panic = none ∧ t.ker.ret.err = .ok ∧
      Published m p.cn p.slot type n p.utSlot t := by
  obtain ⟨m₁, h1, hiff⟩ := h.run sz hp hpub hut (Nat.zero_le n)
  obtain ⟨σ2, hlent2, hsame2, hnew2, hlead2⟩ := h1.lent.leads_dropSlot sz hp hs
  let m2 : Memory := { m₁ with ker := σ2 }
  have hmade2 : ∀ x, m.ker.numObjs ≤ x → x < m.ker.numObjs + n → (m2.ker.objs x).live = true ∧
      2 ≤ (m2.ker.objs x).refcount ∧ (m2.ker.held x).refs ≠ 0 := by
    intro x hx hlt
    obtain ⟨j, rfl⟩ := Nat.exists_eq_add_of_le hx
    have hj : j < n := by omega
    obtain ⟨-, hlive, href, hheld⟩ := h1.made j hj
    obtain ⟨hobj, hheld'⟩ := hnew2 _ hx
    simp only [m2, hobj, hheld', hlive, href, hheld, if_pos hj]
    decide
  have hlent2' : Lent m.ker _ _ m2.ker := hlent2
  obtain ⟨σ3, hlent3, hsame3, hlead3⟩ := hlent2'.leads_releaseAll sz hp hmade2
  let m3 : Memory := { m₁ with ker := σ3 }
  have hlent3' : Lent m.ker _ _ m3.ker := hlent3
  obtain ⟨σ4, hlent4, hsame4, hlead4⟩ := hlent3'.leads_dropBoth sz hp hcn huts
  have hsame := hsame2.trans (hsame3.trans hsame4)
  have hpanic : σ4.panic = none := hlent4.panic.trans hp
  refine ⟨({ m₁ with ker := σ4 } : Memory).returning .ok, ?_, hpanic, rfl, ?_⟩
  · have hend : p.objs[n]? = none := by simp [hpub.objs]
    have hbody : (system sz).body m₁ (.publish p n) = m₁.publish p n := rfl
    rw [hiff, CallMachine.Returns.cons_iff (Memory.halted_eq_false (h1.lent.panic.trans hp)), hbody,
      List.append_nil]
    simp only [Memory.publish, hend]
    rw [hpub.objs, ((hlead2.trans hlead3).trans hlead4), Memory.returns_ret hpanic]
    exact .done _
  · refine ⟨hsame.numObjs.trans h1.numObjs, fun j hj => ?_, hpub.free, fun j hj => ?_,
      fun s hs => ?_, fun j hj => ?_⟩
    · obtain ⟨htype, hlive, -⟩ := h1.made j hj
      exact ⟨(hsame.type _).trans htype, (hsame.live _).trans hlive⟩
    · change (σ4.slots _).object = _
      rw [hsame.slots]
      exact h1.filled j hj
    · exact (congrFun hsame.slots s).trans (h1.others s hs)
    · change (σ4.mdb _).parent = _
      rw [hsame.mdb]
      exact h1.linked j hj

/-! ## Refusal -/

/-- The record of an Untyped with the blocks of `k` objects below `stop`. -/
def KUntyped.withBlocks (u : KUntyped) (stop : UInt64) (k : ℕ) : KUntyped :=
  { u with used := stop, childCount := u.childCount + k }

/-- The `n` new objects from number `i` on are alive; those before have been buried. -/
structure Burying (m m₁ : Memory) (ut : ObjId) (stop : UInt64) (r a : ObjId → ℕ) (n i : ℕ)
    (m' : Memory) : Prop where
  lent : Lent m.ker (r + Pi.single ut (m.ker.numObjs + n - i)) a m'.ker
  uts : m'.uts = update m.uts ut ((m.uts ut).withBlocks stop (m.ker.numObjs + n - i))
  slots : m'.ker.slots = m.ker.slots
  mdb : m'.ker.mdb = m.ker.mdb
  places : m'.home = m₁.home ∧ m'.pml4Pool = m₁.pml4Pool ∧ m'.source = m₁.source ∧
    m'.kasidNext = m₁.kasidNext
  born : ∀ x, i ≤ x → x < m.ker.numObjs + n → m'.Newborn x ut
  dead : ∀ x, m.ker.numObjs ≤ x → x < i ∨ m.ker.numObjs + n ≤ x → (m'.ker.objs x).live = false

section
variable (sz : Sizes) {m m₁ m' : Memory} {ut : ObjId} {stop : UInt64} {r a : ObjId → ℕ} {n i : ℕ}

theorem Burying.step (hp : m.ker.panic = none) (hut : m.Steady ut) (hi : m.ker.numObjs ≤ i)
    (hlt : i < m.ker.numObjs + n) (h : Burying m m₁ ut stop r a n i m') :
    ∃ m'', Burying m m₁ ut stop r a n (i + 1) m'' ∧
      (system sz).Leads m' [.cap (.heldRelease i)] m'' := by
  have hui : ut ≠ i := (hut.named.trans_le hi).ne
  have hborn := h.born i le_rfl hlt
  have hobj := h.lent.objs ut hut.named
  have hheld := h.lent.held ut hut.named
  have hleft : m.ker.numObjs + n - i = m.ker.numObjs + n - (i + 1) + 1 := by omega
  have hkeep : ∀ x, x ≠ i → x ≠ ut → (m'.buried i ut).ker.objs x = m'.ker.objs x ∧
      (m'.buried i ut).ker.held x = m'.ker.held x := fun x hxi hxu => by
    simp [Memory.buried, Memory.ended, dropHeld, setObj, setHeld, hxi, hxu]
  refine ⟨m'.buried i ut, ⟨?_, ?_, h.slots, h.mdb, h.places, fun x hx hxlt => ?_, fun x hx hx' => ?_⟩,
    fun k t => hborn.returns_heldRelease (h.lent.panic.trans hp) hui (by rw [hobj]; exact hut.live)
      ?_ ?_⟩
  · have hlent := h.lent
    rw [hleft, Pi.single_add, ← add_assoc] at hlent
    refine Lent.dropHeld (hlent.agree le_rfl (fun o ho => ?_) (fun o ho => ?_) ⟨rfl, rfl, rfl, rfl⟩)
    all_goals
      have hne : o ≠ i := (ho.trans_le hi).ne
      simp [Memory.ended, dropHeld, setObj, setHeld, hne]
  · change update m'.uts ut (m'.uts ut).kuntypedReleaseChild = _
    rw [h.uts, update_self, update_idem, hleft]
    rfl
  · have hxi : x ≠ i := (Nat.lt_of_succ_le hx).ne'
    have hxu : x ≠ ut := (hut.named.trans_le (hi.trans (Nat.le_of_succ_le hx))).ne'
    obtain ⟨hobj', hheld'⟩ := hkeep x hxi hxu
    have hx' := h.born x (Nat.le_of_succ_le hx) hxlt
    exact ⟨by rw [hobj']; exact hx'.live, by rw [hobj']; exact hx'.refcount,
      by rw [hobj']; exact hx'.type, by rw [hheld']; exact hx'.held, hx'.hollow, hx'.home, hx'.pool⟩
  · by_cases hxi : x = i
    · subst hxi
      have hxu : x ≠ ut := hui.symm
      simp [Memory.buried, Memory.ended, dropHeld, setObj, setHeld, hxu]
    · rw [(hkeep x hxi (hut.named.trans_le hx).ne').1]
      exact h.dead x hx (by omega)
  · have := hut.refcount
    simp only [hobj, Pi.add_apply, Pi.single_eq_same]
    omega
  · simp only [hheld, Pi.add_apply, Pi.single_eq_same]
    omega

theorem Burying.all (hp : m.ker.panic = none) (hut : m.Steady ut)
    (h : Burying m m₁ ut stop r a n m.ker.numObjs m') :
    ∃ m'', Burying m m₁ ut stop r a n (m.ker.numObjs + n) m'' ∧ (system sz).Leads m'
      ((List.range' m.ker.numObjs n).map fun o => .cap (.heldRelease o)) m'' :=
  CallMachine.Leads.each (fun _ _ hi hlt hI => hI.step sz hp hut hi hlt) h

end

/-- Everything is as before, but for names given out meanwhile that stand for nothing. -/
structure SameMemory (m m' : Memory) : Prop where
  objs : ∀ o < m.ker.numObjs, m'.ker.objs o = m.ker.objs o ∧ m'.ker.held o = m.ker.held o
  gone : ∀ o, m.ker.numObjs ≤ o → (m'.ker.objs o).live = false
  caps : m'.ker.slots = m.ker.slots ∧ m'.ker.mdb = m.ker.mdb
  queues : m'.ker.cascade = m.ker.cascade ∧ m'.ker.running = m.ker.running ∧
    m'.ker.staged = m.ker.staged
  uts : ∀ u < m.ker.numObjs, m'.uts u = m.uts u
  places : ∀ o < m.ker.numObjs, m'.home o = m.home o ∧ m'.pml4Pool o = m.pml4Pool o ∧
    m'.source o = m.source o
  kasidNext : m'.kasidNext = m.kasidNext

theorem Lent.same {σ τ : Kernel} (h : Lent σ 0 0 τ) :
    ∀ o < σ.numObjs, τ.objs o = σ.objs o ∧ τ.held o = σ.held o := fun o ho =>
  ⟨h.objs o ho, h.held o ho⟩

theorem publish_refused_eq {m m' : Memory} (hpub : Publishable m p n) (hn : 0 < n)
    (hs : p.utSlot = some s)
    (hrefused : (m.ker.slots (.slot s.1 s.2)).object ≠ some p.ut) (hlt : p.start < p.stop)
    (h : Publishing m r a p type n 0 m') :
    m'.publish p 0 = ({ m' with
      ker := (m'.ker.takeRefs p.cn m.ker.numObjs).returning .invalidArg },
      (Kernel.dropRefsCalls p.cn m.ker.numObjs).map .cap ++
        ((p.utSlot.map fun s => Memory.unresolve s.1).getD [] ++
          ((List.range' m.ker.numObjs n).map (fun o => MemCall.cap (.heldRelease o)) ++
            (.unbump p.ut p.start p.stop ::
              (Memory.unresolve p.cn ++ Memory.unresolve p.ut ++ [.ret .invalidArg]))))) := by
  have hkept := Kept.takeRefs m'.ker p.cn m.ker.numObjs
  have hslot : m'.ker.slots (.slot s.1 s.2) = m.ker.slots (.slot s.1 s.2) :=
    h.parent_slot hpub (Nat.zero_le n) hs
  have hparent : (m'.ker.takeRefs p.cn m.ker.numObjs).parentRefused (.slot p.cn (p.slot + 0))
      (some p.ut) (some s) = true := by
    have hother : (m'.ker.takeRefs p.cn m.ker.numObjs).slots (.slot s.1 s.2) =
        m.ker.slots (.slot s.1 s.2) := by rw [hkept.slots, hslot]
    simp [parentRefused, hother, hrefused]
  have hget : p.objs[0]? = some m.ker.numObjs := hpub.getElem hn
  have hinstall : m'.ker.kcnodeSlotInstallLinked p.cn (p.slot + 0) m.ker.numObjs p.rights 0 p.utSlot
      (some p.ut) true p.utSlot.isNone =
        ((m'.ker.takeRefs p.cn m.ker.numObjs).returning .invalidArg,
          dropRefsCalls p.cn m.ker.numObjs) := by
    refine (h.install_eq hpub hn).trans ?_
    simp only [Nat.add_zero, installUnderLock, hs] at hparent ⊢
    split_ifs <;> rfl
  simp only [Memory.publish, hget, hinstall]
  simp [returning, hlt, hpub.objs]

/-- The state in which a batch of new objects is about to be published. -/
structure BatchReady (m : Memory) (p : Publication) (type : KObjType) (n : ℕ) (m' : Memory) : Prop
    extends Publishing m (Pi.single p.ut n + Pi.single p.ut 1 + Pi.single p.cn 1 + slotLoan p.utSlot)
      (0 + Pi.single p.ut 1 + Pi.single p.cn 1 + slotLoan p.utSlot) p type n 0 m' where
  pos : 0 < n
  mdb : m'.ker.mdb = m.ker.mdb
  uts : m'.uts = update m.uts p.ut ((m.uts p.ut).withBlocks p.stop n)
  window : p.start = (m.uts p.ut).used ∧ p.start < p.stop
  places : ∀ o < m.ker.numObjs, m'.home o = m.home o ∧ m'.pml4Pool o = m.pml4Pool o ∧
    m'.source o = m.source o
  kasidNext : m'.kasidNext = m.kasidNext
  born : ∀ x, m.ker.numObjs ≤ x → x < m.ker.numObjs + n →
    m'.Newborn x p.ut ∧ (m'.ker.objs x).activeRefs = 0
  gone : ∀ x, m.ker.numObjs + n ≤ x → (m'.ker.objs x).live = false

theorem publish_fails (sz : Sizes) {m m' : Memory} (hp : m.ker.panic = none) (hpub : Publishable m p n)
    (hs : p.utSlot = some s)
    (hrefused : (m.ker.slots (.slot s.1 s.2)).object ≠ some p.ut)
    (hcn : m.Steady p.cn) (hut : m.Steady p.ut) (hslot : ∀ s ∈ p.utSlot, m.Steady s.1)
    (hidle : type = .cnode → m.ker.cascade = [] ∧ m.ker.running = false)
    (h : BatchReady m p type n m') :
    ∃ t, (system sz).Returns m' [.publish p 0] t ∧ t.ker.panic = none ∧
      t.ker.ret.err = .invalidArg ∧ SameMemory m t := by
  have hpanic := h.lent.panic.trans hp
  have hne : m.ker.numObjs ≠ p.cn := hpub.named.ne'
  obtain ⟨hborn, hact⟩ := h.born m.ker.numObjs le_rfl (Nat.lt_add_of_pos_right h.pos)
  obtain ⟨htype, -, -, -⟩ := h.made 0 h.pos
  -- The install gives its references back.
  let m₁ : Memory := { m' with ker := m'.ker.returning .invalidArg }
  have hundo : ∀ k t, (system sz).Returns
      { m' with ker := (m'.ker.takeRefs p.cn m.ker.numObjs).returning .invalidArg }
      ((dropRefsCalls p.cn m.ker.numObjs).map .cap ++ k) t ↔ (system sz).Returns m₁ k t :=
    fun k t => Memory.returns_undo hpanic hborn.live hborn.refcount.ge hact hborn.hollow hne
      (fun hc => by
        rw [h.lent.cascade, h.lent.running]
        exact hidle (htype.symm.trans hc)) .invalidArg
  have hlent1 : Lent m.ker _ _ m₁.ker := h.lent.agree le_rfl (fun _ _ => rfl) (fun _ _ => rfl)
    ⟨rfl, rfl, rfl, rfl⟩
  obtain ⟨σ2, hlent2, hsame2, hnew2, hlead2⟩ := hlent1.leads_dropSlot sz hp hslot
  -- The objects die, and their blocks go back.
  let m2 : Memory := { m₁ with ker := σ2 }
  have hslots : m'.ker.slots = m.ker.slots := funext fun x => h.others x nofun
  have hbury : Burying m m' p.ut p.stop (Pi.single p.ut 1 + Pi.single p.cn 1)
      (0 + Pi.single p.ut 1 + Pi.single p.cn 1) n m.ker.numObjs m2 := by
    refine ⟨?_, ?_, hsame2.slots.trans hslots, hsame2.mdb.trans h.mdb, ⟨rfl, rfl, rfl, rfl⟩,
      fun x hx hlt => ?_, fun x hx hx' => ?_⟩
    · rw [Nat.add_sub_cancel_left, add_comm, ← add_assoc]
      exact hlent2
    · rw [Nat.add_sub_cancel_left]
      exact h.uts
    · obtain ⟨hx', -⟩ := h.born x hx hlt
      obtain ⟨hobj, hheld⟩ := hnew2 x hx
      refine ⟨by rw [hobj]; exact hx'.live, by rw [hobj]; exact hx'.refcount,
        by rw [hobj]; exact hx'.type, by rw [hheld]; exact hx'.held, fun j => ?_, hx'.home, hx'.pool⟩
      rw [occupied, hsame2.slots]
      exact hx'.hollow j
    · rw [(hnew2 x hx).1]
      exact h.gone x (by omega)
  obtain ⟨m3, h3, hlead3⟩ := hbury.all sz hp hut
  -- The carve is rolled back.
  have hlent3 := h3.lent
  have huts3 := h3.uts
  rw [Nat.sub_self] at hlent3 huts3
  rw [Pi.single_zero, add_zero] at hlent3
  have hback : (m3.uts p.ut).kuntypedUnbumpExact p.start p.stop = m.uts p.ut := by
    have hle : ¬ p.stop ≤ p.start := UInt64.not_le.mpr h.window.2
    rw [huts3, update_self]
    simp only [KUntyped.withBlocks, KUntyped.kuntypedUnbumpExact, if_neg hle, if_true, Nat.add_zero]
    rw [h.window.1]
  let m4 : Memory := m3.setUt p.ut (m.uts p.ut)
  have hlent4 : Lent m.ker (0 + Pi.single p.ut 1 + Pi.single p.cn 1)
      (0 + Pi.single p.ut 1 + Pi.single p.cn 1) m4.ker := by
    rw [zero_add] at hlent3 ⊢
    exact hlent3
  obtain ⟨σ5, hlent5, hsame5, hlead5⟩ := hlent4.leads_dropBoth sz hp hcn hut
  have hpanic5 : σ5.panic = none := hlent5.panic.trans hp
  refine ⟨({ m4 with ker := σ5 } : Memory).returning .invalidArg, ?_, hpanic5, rfl,
    hlent5.same, fun x hx => ?_, ⟨hsame5.slots.trans h3.slots, hsame5.mdb.trans h3.mdb⟩,
    ⟨hlent5.cascade, hlent5.running, hlent5.staged⟩, fun u hu => ?_, fun o ho => ?_,
    h3.places.2.2.2.trans h.kasidNext⟩
  · have hbody : (system sz).body m' (.publish p 0) = m'.publish p 0 := rfl
    have hunbump : (system sz).body m3 (.unbump p.ut p.start p.stop) = (m4, []) :=
      congrArg (fun x => (m3.setUt p.ut x, [])) hback
    rw [CallMachine.Returns.cons_iff (Memory.halted_eq_false hpanic), hbody, List.append_nil,
      publish_refused_eq hpub h.pos hs hrefused h.window.2 h.toPublishing, hundo, hlead2, hlead3,
      CallMachine.Returns.cons_iff (Memory.halted_eq_false (h3.lent.panic.trans hp)), hunbump,
      List.nil_append, hlead5, Memory.returns_ret hpanic5]
    exact .done _
  · exact (hsame5.live x).trans (h3.dead x hx (by omega))
  · change update m3.uts p.ut (m.uts p.ut) u = _
    rw [huts3, update_idem, update_eq_self]
  · obtain ⟨hhome, hpool, hsource, -⟩ := h3.places
    obtain ⟨h1, h2, h3⟩ := h.places o ho
    exact ⟨(congrFun hhome o).trans h1, (congrFun hpool o).trans h2, (congrFun hsource o).trans h3⟩

end IrisOS.Untyped
