import IrisOS.Untyped.Reclaim

/-! What a retype makes before it publishes anything: new objects that only the system call holds,
and references of their blocks to the Untypeds they lie in. -/
namespace IrisOS.Untyped
open Cap Function

/-- There are `n` new objects, older ones have `r` more references, and no capability has changed.
-/
structure Creation (m : Memory) (type : KObjType) (slotCount n : ℕ) (r : ObjId → ℕ)
    (m' : Memory) : Prop where
  lent : Lent m.ker r 0 m'.ker
  numObjs : m'.ker.numObjs = m.ker.numObjs + n
  slots : m'.ker.slots = m.ker.slots
  mdb : m'.ker.mdb = m.ker.mdb
  made : ∀ x, m.ker.numObjs ≤ x → x < m.ker.numObjs + n →
    m'.ker.objs x = { type, refcount := 1, slotCount, live := true } ∧
      m'.ker.held x = { refs := 1 }

namespace Creation
variable {m m1 m2 : Memory} {type : KObjType} {slotCount n n' : ℕ} {r r' : ObjId → ℕ}

theorem of_ker (h : m1.ker = m.ker) : Creation m type slotCount 0 0 m1 := by
  refine ⟨by rw [h]; exact .refl _, by rw [h]; rfl, by rw [h], by rw [h], fun x hx hlt => ?_⟩
  omega

theorem trans (h : Creation m type slotCount n r m1) (h' : Creation m1 type slotCount n' r' m2)
    (hr : ∀ x, m.ker.numObjs ≤ x → r' x = 0) :
    Creation m type slotCount (n + n') (r + r') m2 where
  lent := h.lent.trans h'.lent
  numObjs := by rw [h'.numObjs, h.numObjs, Nat.add_assoc]
  slots := h'.slots.trans h.slots
  mdb := h'.mdb.trans h.mdb
  made x hx hlt := by
    by_cases hold : x < m1.ker.numObjs
    · obtain ⟨hobj, hheld⟩ := h.made x hx (h.numObjs ▸ hold)
      rw [h'.lent.objs x hold, h'.lent.held x hold, hobj, hheld, hr x hx]
      exact ⟨rfl, rfl⟩
    · have hnum := h.numObjs
      exact h'.made x (not_lt.mp hold) (by omega)

theorem addObject (m : Memory) (type : KObjType) (slotCount : ℕ) (home source : ObjId) :
    Creation m type slotCount 1 0 (m.addObject type slotCount home source) := by
  have hker : ∃ st, (m.addObject type slotCount home source).ker =
      { m.ker.addObject type slotCount with stats := st } := by
    unfold Memory.addObject
    split_ifs
    · exact ⟨_, rfl⟩
    · exact ⟨_, rfl⟩
  obtain ⟨st, hker⟩ := hker
  refine ⟨?_, Memory.numObjs_addObject .., by rw [hker]; rfl, by rw [hker]; rfl, fun x hx hlt => ?_⟩
  · rw [hker]
    refine (Lent.refl m.ker).agree (Nat.le_succ _) (fun o ho => ?_) (fun o ho => ?_)
      ⟨rfl, rfl, rfl, rfl⟩
    · simp [Kernel.addObject, ho.ne]
    · simp [Kernel.addObject, ho.ne]
  · obtain rfl : x = m.ker.numObjs := by omega
    rw [hker]
    simp [Kernel.addObject]

theorem retain (type : KObjType) (slotCount : ℕ) {o : ObjId}
    (ho : (m.ker.objs o).live = true → 1 ≤ (m.ker.objs o).refcount) :
    Creation m type slotCount 0 (if (m.ker.objs o).live then Pi.single o 1 else 0) (m.retain o) := by
  by_cases hlive : (m.ker.objs o).live = true
  · have hhold := hold_eq hlive (ho hlive)
    rw [if_pos hlive]
    exact ⟨Lent.hold m.ker hlive (ho hlive), (congrArg Kernel.numObjs hhold :),
      (congrArg Kernel.slots hhold :), (congrArg Kernel.mdb hhold :), fun x hx hlt => by omega⟩
  · rw [if_neg hlive]
    exact of_ker (if_neg hlive)

end Creation

/-! ## Batches -/

namespace Memory

theorem creation_retains (m : Memory) {slotCount : ℕ}
    (hlt : ut < m.ker.numObjs) (hlive : (m.ker.objs ut).live = true)
    (href : 1 ≤ (m.ker.objs ut).refcount) (n : ℕ) :
    Creation m type slotCount 0 (Pi.single ut n) (Nat.iterate (fun m => m.retain ut) n m) := by
  induction n with
  | zero =>
    rw [Pi.single_zero]
    exact .of_ker rfl
  | succ n ih =>
    have hobj := ih.lent.objs ut hlt
    have hlive' : ((Nat.iterate (fun m => m.retain ut) n m).ker.objs ut).live = true := by
      rw [hobj]
      exact hlive
    have hone := Creation.retain type slotCount
      (m := Nat.iterate (fun m => m.retain ut) n m) (o := ut) fun _ => by
        rw [hobj]
        exact href.trans (Nat.le_add_right _ _)
    rw [if_pos hlive'] at hone
    have hboth := ih.trans hone fun x hx => Pi.single_eq_of_ne (hlt.trans_le hx).ne' 1
    rw [← Pi.single_add] at hboth
    rw [iterate_succ_apply']
    exact hboth

theorem creation_buildObjects (m : Memory) (ut : ObjId) (type : KObjType) (slotCount n : ℕ)
    (hall : (m.buildObjects ut type slotCount n).2.2 = true) :
    Creation m type slotCount n 0 (m.buildObjects ut type slotCount n).1 ∧
      (m.buildObjects ut type slotCount n).2.1 = List.range' m.ker.numObjs n ∧
      (type ≠ .asidPool → (m.buildObjects ut type slotCount n).1.kasidNext = m.kasidNext) := by
  induction n generalizing m with
  | zero => exact ⟨.of_ker rfl, rfl, fun _ => rfl⟩
  | succ n ih =>
    have hone : ∀ m1 : Memory, m1.ker = m.ker →
        (m.buildObjects ut type slotCount (n + 1)).2.2 =
          ((m1.addObject type slotCount ut ut).buildObjects ut type slotCount n).2.2 →
        Creation m type slotCount (n + 1) 0
          ((m1.addObject type slotCount ut ut).buildObjects ut type slotCount n).1 ∧
        m1.ker.numObjs :: ((m1.addObject type slotCount ut ut).buildObjects ut type slotCount n).2.1 =
          List.range' m.ker.numObjs (n + 1) := by
      intro m1 hker hok
      obtain ⟨hmade, hobjs, -⟩ := ih _ (hok ▸ hall)
      have hnew : Creation m type slotCount (0 + 1) (0 + 0) (m1.addObject type slotCount ut ut) :=
        (Creation.of_ker hker).trans (.addObject m1 type slotCount ut ut) fun _ _ => rfl
      have hrest := hnew.trans hmade fun _ _ => rfl
      rw [Nat.zero_add, Nat.add_comm 1, add_zero, add_zero] at hrest
      refine ⟨hrest, ?_⟩
      rw [hobjs, numObjs_addObject, hker]
      rfl
    by_cases hpool : type = .asidPool
    · cases hrange : m.kasidpoolCarveRange with
      | none => simp [buildObjects, hpool, hrange] at hall
      | some m1 =>
        have hker : m1.ker = m.ker := by
          unfold kasidpoolCarveRange at hrange
          split_ifs at hrange
          cases hrange
          rfl
        obtain ⟨hmade, hobjs⟩ := hone m1 hker (by simp [buildObjects, hpool, hrange])
        refine ⟨?_, ?_, fun hne => absurd hpool hne⟩
        · simpa [buildObjects, hpool, hrange] using hmade
        · simpa [buildObjects, hpool, hrange] using hobjs
    · obtain ⟨hmade, hobjs⟩ := hone m rfl (by simp [buildObjects, hpool])
      refine ⟨?_, ?_, fun _ => ?_⟩
      · simpa [buildObjects, hpool] using hmade
      · simpa [buildObjects, hpool] using hobjs
      · have hnext : ((m.addObject type slotCount ut ut).buildObjects ut type slotCount
            n).1.kasidNext = m.kasidNext :=
          (ih _ (by simpa [buildObjects, hpool] using hall)).2.2 hpool
        simpa [buildObjects, hpool] using hnext

theorem buildObjects_places (m : Memory) (ut : ObjId) (type : KObjType) (slotCount n : ℕ) :
    m.ker.numObjs ≤ (m.buildObjects ut type slotCount n).1.ker.numObjs ∧
    (m.buildObjects ut type slotCount n).1.pml4Pool = m.pml4Pool ∧
    (∀ o < m.ker.numObjs, (m.buildObjects ut type slotCount n).1.home o = m.home o ∧
      (m.buildObjects ut type slotCount n).1.source o = m.source o) ∧
    ∀ x, m.ker.numObjs ≤ x → x < (m.buildObjects ut type slotCount n).1.ker.numObjs →
      (m.buildObjects ut type slotCount n).1.home x = some ut := by
  induction n generalizing m with
  | zero => exact ⟨le_rfl, rfl, fun _ _ => ⟨rfl, rfl⟩, fun x hx hlt => absurd hlt (not_lt.mpr hx)⟩
  | succ n ih =>
    have hone : ∀ m1 : Memory, m1.ker.numObjs = m.ker.numObjs → m1.pml4Pool = m.pml4Pool →
        m1.home = m.home → m1.source = m.source →
        let m' := ((m1.addObject type slotCount ut ut).buildObjects ut type slotCount n).1
        m.ker.numObjs ≤ m'.ker.numObjs ∧ m'.pml4Pool = m.pml4Pool ∧
        (∀ o < m.ker.numObjs, m'.home o = m.home o ∧ m'.source o = m.source o) ∧
        ∀ x, m.ker.numObjs ≤ x → x < m'.ker.numObjs → m'.home x = some ut := by
      intro m1 hnum hpool hhome hsource
      obtain ⟨hle, hpool', hold, hnew⟩ := ih (m1.addObject type slotCount ut ut)
      rw [numObjs_addObject, hnum] at hle hold hnew
      refine ⟨Nat.le_of_succ_le hle, hpool'.trans hpool, fun o ho => ?_, fun x hx hlt => ?_⟩
      · have hne : o ≠ m1.ker.numObjs := hnum ▸ ho.ne
        obtain ⟨h1, h2⟩ := hold o (Nat.lt_succ_of_lt ho)
        rw [h1, h2]
        simp [addObject, hne, hhome, hsource]
      · rcases Nat.eq_or_lt_of_le hx with heq | hgt
        · rw [(hold x (heq ▸ Nat.lt_succ_self _)).1]
          simp [addObject, hnum, heq]
        · exact hnew x hgt hlt
    rw [buildObjects]
    split_ifs with hpool
    · unfold kasidpoolCarveRange
      split_ifs
      · exact ih m
      · exact hone _ rfl rfl rfl rfl
    · exact hone m rfl rfl rfl rfl

end Memory

/-- A batch has been carved out of an Untyped and built. -/
structure BatchMade (m : Memory) (ut : ObjId) (type : KObjType) (slotCount n : ℕ)
    (start stop : UInt64) (m' : Memory) : Prop
    extends Creation m type slotCount n (Pi.single ut n) m' where
  uts : m'.uts = update m.uts ut
    { m.uts ut with used := stop, childCount := (m.uts ut).childCount + n }
  start_eq : start = (m.uts ut).used
  start_lt : start < stop
  pos : 0 < n
  pool : m'.pml4Pool = m.pml4Pool
  old : ∀ o < m.ker.numObjs, m'.home o = m.home o ∧ m'.source o = m.source o
  home : ∀ x, m.ker.numObjs ≤ x → x < m.ker.numObjs + n → m'.home x = some ut
  kasidNext : type ≠ .asidPool → m'.kasidNext = m.kasidNext

theorem Memory.retains_places (m : Memory) (o : ObjId) (n : ℕ) :
    (Nat.iterate (fun m => m.retain o) n m).pml4Pool = m.pml4Pool ∧
    (Nat.iterate (fun m => m.retain o) n m).home = m.home ∧
    (Nat.iterate (fun m => m.retain o) n m).source = m.source := by
  induction n with
  | zero => exact ⟨rfl, rfl, rfl⟩
  | succ n ih =>
    rw [iterate_succ_apply']
    exact ih

theorem batchMade_of_ok {payload objArg : UInt64} {count : UInt32} (hlt : ut < m.ker.numObjs)
    (hlive : (m.ker.objs ut).live = true) (href : 1 ≤ (m.ker.objs ut).refcount)
    (hok : (m.createBatch ut type payload objArg count).result = .ok (objs, start, stop)) :
    BatchMade m ut type (if type = .cnode then objArg.toNat else 0) count.toNat start stop
      (m.createBatch ut type payload objArg count).mem ∧
    objs = List.range' m.ker.numObjs count.toNat := by
  rcases (m.uts ut).kuntypedAllocChildrenAtomic_spec payload count
    with ⟨e, he⟩ | ⟨u', b, he, hc, hused, -, -, hstart, hstop, -⟩
  · simp [Memory.createBatch, he] at hok
  rw [Working.createBatch_mem m he]
  simp only [Memory.createBatch, he] at hok
  set m1 := (fun m : Memory => m.retain ut)^[count.toNat] (m.setUt ut u') with hm1
  set slotCount := if type = .cnode then objArg.toNat else 0
  have hset : Creation m type slotCount 0 0 (m.setUt ut u') := .of_ker rfl
  have hret : Creation m type slotCount (0 + 0) (0 + Pi.single ut count.toNat) m1 :=
    hset.trans ((m.setUt ut u').creation_retains hlt hlive href count.toNat)
      fun x hx => Pi.single_eq_of_ne (hlt.trans_le hx).ne' _
  rw [zero_add, zero_add] at hret
  obtain ⟨huts, hkasid, -⟩ := Working.retain_iterate_fields ut count.toNat (m.setUt ut u')
  obtain ⟨hpool, hhome, hsource⟩ := (m.setUt ut u').retains_places ut count.toNat
  obtain ⟨-, hpool', hold, hnew⟩ := m1.buildObjects_places ut type slotCount count.toNat
  have huts' := Working.buildObjects_uts ut type slotCount count.toNat m1
  have hmade := m1.creation_buildObjects ut type slotCount count.toNat
  generalize m1.buildObjects ut type slotCount count.toNat = built at *
  obtain ⟨m', objs', all⟩ := built
  cases all with
  | false => cases hok
  | true =>
    cases hok
    obtain ⟨hmade, hobjs, hnext⟩ := hmade rfl
    have hboth := hret.trans hmade fun _ _ => rfl
    rw [zero_add, add_zero] at hboth
    have hnum : m1.ker.numObjs = m.ker.numObjs := hret.numObjs
    have hpos : (m.uts ut).used.toNat < u'.used.toNat := hc.pos
    rw [hnum] at hold hnew hobjs
    rw [hboth.numObjs] at hnew
    refine ⟨⟨hboth, ?_, hstart, ?_, ?_, hpool'.trans hpool, fun o ho => ?_, hnew, fun hne => ?_⟩,
      hobjs⟩
    · rw [huts', huts, hstop]
      exact congrArg (update m.uts ut) hc.eq
    · rw [UInt64.lt_iff_toNat_lt, hstart, hstop]
      exact hpos
    · by_contra hzero
      rw [Nat.eq_zero_of_not_pos hzero, Nat.zero_mul] at hused
      omega
    · exact ⟨(hold o ho).1.trans (congrFun hhome o), (hold o ho).2.trans (congrFun hsource o)⟩
    · exact (hnext hne).trans hkasid

/-! ## Physical regions -/

/-- New objects have been made, with some references to old ones. -/
def Creates (m : Memory) (type : KObjType) (n : ℕ) (m' : Memory) : Prop :=
  ∃ r, (∀ x, m.ker.numObjs ≤ x → r x = 0) ∧ Creation m type 0 n r m'

namespace Creates
variable {m m1 m2 : Memory} {type : KObjType} {n : ℕ} {o : ObjId}

theorem trans {n' : ℕ} {r : ObjId → ℕ} (h : Creates m type n m1)
    (h' : Creation m1 type 0 n' r m2) (hr : ∀ x, m.ker.numObjs ≤ x → r x = 0) :
    Creates m type (n + n') m2 := by
  obtain ⟨r1, hr1, h1⟩ := h
  exact ⟨r1 + r, fun x hx => by simp [hr1 x hx, hr x hx], h1.trans h' hr⟩

theorem congr_ker (h : Creates m type n m1) (hker : m2.ker = m1.ker) : Creates m type n m2 :=
  h.trans (.of_ker hker) fun _ _ => rfl

theorem addObject (h : Creates m type 0 m1) (home source : ObjId) :
    Creates m type 1 (m1.addObject type 0 home source) := by
  simpa using h.trans (.addObject m1 type 0 home source) fun _ _ => rfl

theorem retain (h : Creates m type n m1)
    (hm : ∀ o, (m.ker.objs o).live = true → 1 ≤ (m.ker.objs o).refcount)
    (ho : o < m.ker.numObjs) : Creates m type n (m1.retain o) := by
  have hobj : ∃ n, (m1.ker.objs o).refcount = (m.ker.objs o).refcount + n ∧
      (m1.ker.objs o).live = (m.ker.objs o).live := by
    obtain ⟨r, -, h1⟩ := h
    rw [h1.lent.objs o ho]
    exact ⟨_, rfl, rfl⟩
  obtain ⟨n, hcount, hsame⟩ := hobj
  have hone := Creation.retain type 0 (m := m1) (o := o) fun hlive => by
    rw [hcount]
    exact (hm o (hsame ▸ hlive)).trans (Nat.le_add_right _ _)
  refine h.trans hone fun x hx => ?_
  split_ifs
  · exact Pi.single_eq_of_ne (ho.trans_le hx).ne' 1
  · rfl

end Creates

theorem creates_placeRegion {m m1 : Memory} {ut h : ObjId}
    (hm : ∀ o, (m.ker.objs o).live = true → 1 ≤ (m.ker.objs o).refcount)
    (hut : ut < m.ker.numObjs) (h1 : Creates m type 0 m1) (phys size : UInt64) (pageChild : Bool) :
    Creates m type 1 (m1.placeRegion ut h type phys size pageChild) := by
  have hinit : (m1.initUntyped ut type phys size).ker = m1.ker := by
    unfold Memory.initUntyped
    split_ifs <;> rfl
  have hobj := (h1.congr_ker hinit).addObject h ut
  unfold Memory.placeRegion Memory.addRegion
  have hpage : Creates m type 1 (if pageChild
      then ((m1.initUntyped ut type phys size).addObject type 0 h ut).addPage ut m1.ker.numObjs
      else (m1.initUntyped ut type phys size).addObject type 0 h ut) := by
    split_ifs
    · exact (hobj.retain hm hut).congr_ker rfl
    · exact hobj
  by_cases hdev : ((if pageChild
      then ((m1.initUntyped ut type phys size).addObject type 0 h ut).addPage ut m1.ker.numObjs
      else (m1.initUntyped ut type phys size).addObject type 0 h ut).uts ut).isDevice = true
  · simp only [hdev, if_true]
    exact Creates.retain (hpage.congr_ker rfl) hm hut
  · simp only [hdev]
    exact hpage

section
variable {sz : Sizes} {m : Memory} {ut : ObjId} {objArg : UInt64} {type : KObjType}
  {pageChild : Bool}

theorem creates_retypeRegion (hm : ∀ o, (m.ker.objs o).live = true → 1 ≤ (m.ker.objs o).refcount)
    (hut : ut < m.ker.numObjs) (hhost : ∀ h ∈ m.hdrHost ut, h < m.ker.numObjs)
    (hok : (m.retypeRegion sz ut objArg type pageChild).result = .ok (objs, start, stop)) :
    Creates m type 1 (m.retypeRegion sz ut objArg type pageChild).mem ∧ objs = [m.ker.numObjs] := by
  have hcase := m.retypeRegion_cases sz ut objArg type pageChild
  generalize m.retypeRegion sz ut objArg type pageChild = c at hok hcase ⊢
  cases hcase with
  | refused | halfway => cases hok
  | @made h hu u _ _ hh =>
    cases hok
    have hret : Creates m type 0 ((m.setUt h hu).retain h) :=
      Creates.retain ⟨0, fun _ _ => rfl, .of_ker rfl⟩ hm (hhost h hh)
    have hset : Creates m type 0 (((m.setUt h hu).retain h).setUt ut u) := hret.congr_ker rfl
    have hnum : ((m.setUt h hu).retain h).ker.numObjs = m.ker.numObjs := by
      obtain ⟨r, -, hmade⟩ := hret
      exact hmade.numObjs
    exact ⟨creates_placeRegion hm hut hset _ _ _, by rw [hnum]⟩

end
end IrisOS.Untyped
