import IrisOS.Untyped.Progress

/-! Retyping is all or nothing, as long as it does not reach one of the places where the system
call gives up without giving everything back. -/
namespace IrisOS.Untyped
open Lib Cap Kernel Memory

namespace Memory

/-! ## Clean requests -/

/-- Letting go of the object does not close it. -/
def attached (m : Memory) (o : ObjId) : Bool := 0 < (m.ker.objs o).activeRefs

/-- The slot that is looked up for the Untyped, if there is one, holds it. -/
def slotHolds (m : Memory) (root : ObjId) (cptr : UInt64) (ut : ObjId) : Bool :=
  (m.untypedSlot root cptr).all fun s => (m.ker.slots (.slot s.1 s.2)).object = some ut

/-- The CNode of the slot that is looked up for the Untyped is not closed by letting go of it. -/
def slotAttached (m : Memory) (root : ObjId) (cptr : UInt64) : Bool :=
  (m.untypedSlot root cptr).all fun s => m.attached s.1

/-- What a request has found when it is past the checks that come before the slots are looked at. -/
structure Admission where
  root : ObjId
  payload : UInt64
  ut : ObjId
  cn : ObjId

def admission (sz : Sizes) (m : Memory) (self : Option Cap.Task) (asidControl : Bool)
    (r : RetypeReq) : Option Admission :=
  match self.bind (·.cspaceRoot), retypePayload sz asidControl r with
  | some root, .ok payload =>
    match cspaceResolveOnlyUntyped m.ker self root r.utCptr rightWrite, m.destination self root r with
    | .ok ut, .ok cn =>
      if kuntypedRetypeMaxCount < r.count ∨
        (m.uts ut).isDevice ∧ r.type ≠ .untyped ∧ r.type ≠ .frame then none
      else some ⟨root, payload, ut, cn⟩
    | _, _ => none
  | _, _ => none

/-- The call closes no CNode. Where it comes to hold the destination, that has another active
reference, and where it comes to publish, so has the CNode of the Untyped's slot; and new CNodes are
not refused while a teardown is waiting. -/
def undisturbed (sz : Sizes) (m : Memory) (self : Option Cap.Task) (asidControl : Bool)
    (r : RetypeReq) : Bool :=
  (m.admission sz self asidControl r).all fun a => m.attached a.cn &&
    (!m.slotsFree a.cn r || m.progress sz a.ut r a.payload ≠ .made ||
      m.slotAttached a.root r.utCptr && (r.type ≠ .cnode ||
        m.ker.cascade.isEmpty && !m.ker.running || m.slotHolds a.root r.utCptr a.ut))

/-- What is made is not left behind: it is not given up halfway, and publishing it is not refused,
or the type is one whose objects are taken back. -/
def publishesCleanly (sz : Sizes) (m : Memory) (r : RetypeReq) (a : Admission) : Bool :=
  match m.progress sz a.ut r a.payload with
  | .refused => true
  | .halfway => false
  | .made => m.slotHolds a.root r.utCptr a.ut || !isRegion r.type && r.type ≠ .asidPool

/-- The request does not reach one of the places where a retype is not all or nothing. -/
def retypesCleanly (sz : Sizes) (m : Memory) (self : Option Cap.Task) (asidControl : Bool)
    (r : RetypeReq) : Bool :=
  (m.admission sz self asidControl r).all fun a =>
    !m.slotsFree a.cn r || m.publishesCleanly sz r a

end Memory

/-! ## What is asked for -/

variable {type : KObjType} {asidControl : Bool} {cptr : UInt64} {required : Rights} {σ : Kernel}
  {e : IrisError} {count : UInt32} {sz : Sizes}

theorem resolve_error {self : Option Cap.Task} {root : ObjId}
    (h : cspaceResolveOnly σ self root cptr required type = .error e) : e ≠ .ok := by
  unfold cspaceResolveOnly at h
  split_ifs at h
  · cases h
    decide
  split at h
  · rename_i e' hr
    cases h
    unfold cspaceResolveCapBadged at hr
    split_ifs at hr
    · cases hr
      decide
    · exact resolveCapFrom_error hr
  · split_ifs at h
    · cases h
      decide
    · cases h
      decide

theorem payload_error {r : RetypeReq}
    (h : retypePayload sz asidControl r = .error e) : e ≠ .ok := by
  unfold retypePayload at h
  split at h
  all_goals first
    | split_ifs at h <;> cases h <;> decide
    | cases h <;> decide

section
variable {m : Memory} {ut : ObjId} {r : RetypeReq} {payload : UInt64}

theorem count_of_payload (h : retypePayload sz asidControl r = .ok payload)
    (hregion : isRegion r.type = true) : r.count.toNat = 1 := by
  have hone : r.count = 1 := by
    unfold retypePayload at h
    cases htype : r.type <;> rw [htype] at h hregion <;> simp [isRegion] at hregion <;>
      exact (by_contra fun hne => by simp [hne] at h)
  rw [hone]
  rfl

theorem createObjects_ok {objs : List ObjId} {start stop : UInt64}
    (hm : ∀ o, (m.ker.objs o).live = true → 1 ≤ (m.ker.objs o).refcount) (hut : m.Steady ut)
    (hhost : ∀ h ∈ m.hdrHost ut, h < m.ker.numObjs)
    (hpayload : retypePayload sz asidControl r = .ok payload)
    (hok : (m.createObjects sz ut r payload).result = .ok (objs, start, stop)) :
    objs = List.range' m.ker.numObjs r.count.toNat ∧ ∃ slotCount loan,
      (∀ x, m.ker.numObjs ≤ x → loan x = 0) ∧
      Creation m r.type slotCount r.count.toNat loan (m.createObjects sz ut r payload).mem ∧
      (isRegion r.type = false → loan = Pi.single ut r.count.toNat ∧
        BatchMade m ut r.type slotCount r.count.toNat start stop
          (m.createObjects sz ut r payload).mem) := by
  have hcount := count_of_payload hpayload
  have hcase := m.createObjects_cases sz ut r payload
  generalize m.createObjects sz ut r payload = c at hok hcase ⊢
  cases hcase with
  | refused => cases hok
  | region hregion =>
    obtain ⟨⟨loan, hloan, hmade⟩, hobjs⟩ := creates_retypeRegion hm hut.named hhost hok
    rw [hcount hregion]
    exact ⟨hobjs, 0, loan, hloan, hmade, by simp [hregion]⟩
  | batch =>
    obtain ⟨hmade, hobjs⟩ := batchMade_of_ok hut.named hut.live hut.refcount hok
    exact ⟨hobjs, _, _, fun x hx => Pi.single_eq_of_ne (hut.named.trans_le hx).ne' _,
      hmade.toCreation, fun _ => ⟨rfl, hmade⟩⟩

end

/-! ## What is resolved -/

section
variable {m : Memory} {spare : ObjId → ℤ} {self : Option Cap.Task} {root : ObjId} {o : ObjId}
  {τ : Kernel}

theorem Working.refcount_of_live (h : Working spare m)
    (ho : (m.ker.objs o).live = true) : 1 ≤ (m.ker.objs o).refcount := by
  have halive := h.lifetimes.alive h.running o
  by_contra hzero
  simp [ho, Nat.eq_zero_of_not_pos hzero] at halive

theorem Working.steady_of_occupied (h : Working spare m) {cn : ObjId} {idx : ℕ}
    (ho : m.ker.occupied (.slot cn idx) = true) (hact : m.attached cn = true) :
    m.Steady cn ∧ m.ker.slotExists cn idx = true := by
  obtain ⟨⟨F, hw⟩, -⟩ := h.lifetimes.accounted.inOrder
  obtain ⟨cn', idx', heq, -, hex⟩ := hw.home _ ho
  cases heq
  obtain ⟨hlive, -, -⟩ := Wf.slotExists_iff.mp hex
  refine ⟨⟨hw.fresh cn hlive, hlive, h.refcount_of_live hlive, fun hzero => ?_⟩, hex⟩
  simp [attached, hzero] at hact

theorem Working.steady_of_resolve (h : Working spare m)
    (hres : cspaceResolveOnly m.ker self root cptr required type = .ok o)
    (htype : type ≠ .reserved) (hclose : type = .cnode → m.attached o = true) : m.Steady o := by
  obtain ⟨s, hs⟩ := names_of_resolve hres
  have href := h.lifetimes.refcount_of_slot h.running hs
  have heq := type_of_resolve hres
  refine ⟨h.named_of_type heq htype, h.lifetimes.live_of_refcount h.running href, href,
    fun hzero hc => ?_⟩
  have := hclose (heq.symm.trans hc)
  simp [attached, hzero] at this

theorem occupied_of_resolve (hres : cspaceResolveOnly σ self root cptr required type = .ok o) :
    ∃ idx, σ.occupied (.slot root idx) = true := by
  unfold cspaceResolveOnly at hres
  split_ifs at hres
  split at hres
  · cases hres
  · rename_i path r hr
    exact resolveCapFrom_occupied (cspaceResolveCapBadged_ok hr)

theorem untypedSlot_of_creation {n0 c : Memory} {r : ObjId → ℕ} (h : Working spare m)
    (hroot : root < m.ker.numObjs) (hlent : Lent m.ker r r n0.ker) {a loan : ObjId → ℕ}
    (hc : Lent n0.ker loan a c.ker) (hslots : c.ker.slots = m.ker.slots) (cptr : UInt64) :
    c.untypedSlot root cptr = m.untypedSlot root cptr := by
  have hall := hlent.trans hc
  have hwalks : SameWalks (· < m.ker.numObjs) m.ker c.ker := by
    refine ⟨hslots, fun s o hs => ?_, fun o ho => ?_, fun o ho => ?_⟩
    · obtain ⟨⟨F, hw⟩, -⟩ := h.lifetimes.accounted.inOrder
      exact hw.fresh o (h.lifetimes.live_of_refcount h.running
        (h.lifetimes.refcount_of_slot h.running hs))
    · rw [hall.objs o ho]
    · rw [hall.objs o ho]
  simp only [untypedSlot, cspaceResolveSlot, hwalks.resolveSlotFrom hroot]

end

/-! ## The system call -/

/-- As it was if the call returns an error, and with exactly what was asked for if it succeeds. -/
structure AllOrNothing (m : Memory) (self : Option Cap.Task) (r : RetypeReq) (m' : Memory) :
    Prop where
  running : m'.ker.panic = none
  nothing : m'.ker.ret.err ≠ .ok → SameMemory m m'
  all : m'.ker.ret.err = .ok → ∃ root cn, self.bind (·.cspaceRoot) = some root ∧
    m.destination self root r = .ok cn ∧
    Published m cn r.destSlot.toNat r.type r.count.toNat (m.untypedSlot root r.utCptr) m'

section
variable {m m' : Memory} {self : Option Cap.Task} {r : RetypeReq} {ut cn : ObjId} {R A : ObjId → ℕ}

theorem AllOrNothing.of_error (hp : m'.ker.panic = none) (he : m'.ker.ret.err = e) (hne : e ≠ .ok)
    (hsame : SameMemory m m') : AllOrNothing m self r m' :=
  ⟨hp, fun _ => hsame, fun hok => absurd (he.symm.trans hok) hne⟩

theorem sameMemory_of_lent (hm : Unnamed m.ker) (h : Lent m.ker 0 0 σ)
    (hsame : SameButCounts m.ker σ) : SameMemory m { m with ker := σ } where
  objs := h.same
  gone o ho := (hsame.live o).trans (hm o ho).2
  caps := ⟨hsame.slots, hsame.mdb⟩
  queues := ⟨h.cascade, h.running, h.staged⟩
  uts _ _ := rfl
  places _ _ := ⟨rfl, rfl, rfl⟩
  kasidNext := rfl

theorem sameMemory_returning (hm : Unnamed m.ker) (e : IrisError) : SameMemory m (m.returning e) :=
  sameMemory_of_lent hm ((Lent.refl m.ker).agree le_rfl (fun _ _ => rfl) (fun _ _ => rfl)
    ⟨rfl, rfl, rfl, rfl⟩) ⟨rfl, rfl, rfl, fun _ => rfl, fun _ => rfl⟩

theorem SameButCounts.resolved (m : Memory) (ho : m.Steady ut) :
    SameButCounts m.ker (m.resolved ut).ker := by
  have hker : (m.resolved ut).ker = _ := holdActive_hold ho.live ho.refcount
  refine ⟨by rw [hker], by rw [hker], by rw [hker], fun x => ?_, fun x => ?_⟩
  all_goals
    rw [hker]
    by_cases hx : x = ut <;> simp [hx]

theorem fails_after {l : List MemCall} (hm : Unnamed m.ker) (hp : m.ker.panic = none)
    (hlead : (system sz).Leads { m with ker := τ } l { m with ker := σ }) (hlent : Lent m.ker 0 0 σ)
    (hsame : SameButCounts m.ker σ) (hne : e ≠ .ok) :
    ∃ t, (system sz).Returns { m with ker := τ } (l ++ [.ret e]) t ∧ AllOrNothing m self r t := by
  have hpanic : σ.panic = none := hlent.panic.trans hp
  refine ⟨({ m with ker := σ } : Memory).returning e, ?_, .of_error hpanic rfl hne ?_⟩
  · rw [hlead, returns_ret (by exact hpanic)]
    exact .done _
  · exact sameMemory_of_lent hm (hlent.agree le_rfl (fun _ _ => rfl) (fun _ _ => rfl)
      ⟨rfl, rfl, rfl, rfl⟩) (hsame.trans ⟨rfl, rfl, rfl, fun _ => rfl, fun _ => rfl⟩)

theorem fails_resolved (hm : Unnamed m.ker) (hp : m.ker.panic = none) (hut : m.Steady ut)
    (hne : e ≠ .ok) : ∃ t, (system sz).Returns (m.resolved ut) (Memory.unresolve ut ++ [.ret e]) t ∧
      AllOrNothing m self r t := by
  have hlent : Lent m.ker (0 + Pi.single ut 1) (0 + Pi.single ut 1) (m.resolved ut).ker := by
    rw [zero_add]
    exact .resolved m.ker hut.live hut.refcount
  exact fails_after hm hp (hlent.leads_unresolve sz hp hut) hlent.unresolved
    ((SameButCounts.resolved m hut).trans (.unresolved _ ut)) hne

theorem Memory.Steady.lent (ho : m.Steady o) (h : Lent m.ker R A m'.ker) : m'.Steady o := by
  have hobj := h.objs o ho.named
  refine ⟨ho.named.trans_le h.numObjs, by rw [hobj]; exact ho.live, ?_, ?_⟩
  · rw [hobj]
    exact ho.refcount.trans (Nat.le_add_right _ _)
  · rw [hobj]
    exact fun hzero => ho.close (Nat.eq_zero_of_add_eq_zero_right hzero)

theorem Memory.Steady.resolved (hut : m.Steady ut) (ho : m.Steady o) :
    (m.resolved ut).Steady o := ho.lent (.resolved m.ker hut.live hut.refcount)

theorem lent_both (hut : m.Steady ut) (hcn : m.Steady cn) :
    Lent m.ker (Pi.single ut 1 + Pi.single cn 1) (Pi.single ut 1 + Pi.single cn 1)
      ((m.resolved ut).resolved cn).ker := by
  have hcn' := hut.resolved hcn
  exact (Lent.resolved m.ker hut.live hut.refcount).trans
    (.resolved (m.resolved ut).ker hcn'.live hcn'.refcount)

theorem fails_both (hm : Unnamed m.ker) (hp : m.ker.panic = none) (hut : m.Steady ut)
    (hcn : m.Steady cn) (hne : e ≠ .ok) : ∃ t, (system sz).Returns ((m.resolved ut).resolved cn)
      (Memory.unresolve cn ++ Memory.unresolve ut ++ [.ret e]) t ∧ AllOrNothing m self r t := by
  have hlent : Lent m.ker (0 + Pi.single ut 1 + Pi.single cn 1) (0 + Pi.single ut 1 + Pi.single cn 1)
      ((m.resolved ut).resolved cn).ker := by
    rw [zero_add]
    exact lent_both hut hcn
  obtain ⟨σ, hσ, hsame, hlead⟩ := hlent.leads_dropBoth sz hp hcn hut
  exact fails_after hm hp hlead hσ (((SameButCounts.resolved m hut).trans
    (.resolved _ (hut.resolved hcn))).trans hsame) hne

theorem slotHolds_iff : m.slotHolds root cptr ut = true ↔
    ∀ s ∈ m.untypedSlot root cptr, (m.ker.slots (.slot s.1 s.2)).object = some ut := by
  simp [slotHolds, Option.all_eq_true]

theorem slotAttached_iff : m.slotAttached root cptr = true ↔
    ∀ s ∈ m.untypedSlot root cptr, m.attached s.1 = true := by
  simp [slotAttached, Option.all_eq_true]

theorem slotHolds_eq_false : m.slotHolds root cptr ut = false ↔
    ∃ s ∈ m.untypedSlot root cptr, (m.ker.slots (.slot s.1 s.2)).object ≠ some ut := by
  rw [← Bool.not_eq_true, slotHolds_iff]
  push Not
  rfl

theorem retypeInto_cases (sz : Sizes) (root : ObjId) (r : RetypeReq) (payload : UInt64)
    (hut : m.Steady ut) (hcn : m.Steady cn) :
    let n0 := (m.resolved ut).resolved cn
    let c := n0.createObjects sz ut r payload
    let dropBoth := Memory.unresolve cn ++ Memory.unresolve ut
    let utSlot := c.mem.untypedSlot root r.utCptr
    (m.slotsFree cn r = false ∧ ∃ e ≠ .ok,
      n0.retypeInto sz root r payload ut cn = (n0, dropBoth ++ [.ret e])) ∨
    m.slotsFree cn r = true ∧ ((∃ e, c.result = .error e ∧
        n0.retypeInto sz root r payload ut cn = (c.mem, c.calls ++ dropBoth ++ [.ret e])) ∨
      ∃ objs start stop, c.result = .ok (objs, start, stop) ∧
        n0.retypeInto sz root r payload ut cn = ((utSlot.map fun s => c.mem.resolved s.1).getD c.mem,
          [.publish ⟨cn, r.destSlot.toNat, objs, newRights r.type, ut, utSlot, start, stop⟩ 0])) := by
  intro n0 c dropBoth utSlot
  have hsame : SameButCounts m.ker n0.ker :=
    (SameButCounts.resolved m hut).trans (.resolved _ (hut.resolved hcn))
  have hcount : (n0.ker.objs cn).slotCount = (m.ker.objs cn).slotCount := by
    rw [(lent_both hut hcn).objs cn hcn.named]
  have hocc : ∀ s, n0.ker.occupied s = m.ker.occupied s := fun s => by
    rw [occupied, hsame.slots]
    rfl
  simp only [retypeInto, hcount, hocc]
  split_ifs with hrange hany
  · exact .inl ⟨by simp [slotsFree, hrange], _, by decide, rfl⟩
  · exact .inl ⟨by simp [slotsFree, hany], _, by decide, rfl⟩
  · refine .inr ⟨slotsFree_iff.mpr ⟨hrange, by simpa using hany⟩, ?_⟩
    cases hres : c.result with
    | error e => exact .inl ⟨e, rfl, rfl⟩
    | ok made => exact .inr ⟨made.1, made.2.1, made.2.2, rfl, rfl⟩

end

/-! ## Publication -/

section
variable {m n0 c : Memory} {spare : ObjId → ℤ} {self : Option Cap.Task} {r : RetypeReq}
  {ut cn root : ObjId} {payload : UInt64} {loan : ObjId → ℕ} {utSlot : Option (ObjId × ℕ)}

theorem resolved_slot (hc : Lent m.ker R A c.ker) (hs : ∀ s ∈ utSlot, m.Steady s.1) :
    ∃ σ, (utSlot.map fun s => c.resolved s.1).getD c = { c with ker := σ } ∧
      Lent m.ker (R + slotLoan utSlot) (A + slotLoan utSlot) σ ∧ SameButCounts c.ker σ ∧
      ∀ x, m.ker.numObjs ≤ x → σ.objs x = c.ker.objs x ∧ σ.held x = c.ker.held x := by
  cases utSlot with
  | none =>
    refine ⟨c.ker, rfl, ?_, .refl _, fun _ _ => ⟨rfl, rfl⟩⟩
    simpa [slotLoan] using hc
  | some s =>
    have hsteady := hs s rfl
    have hc' : c.Steady s.1 := hsteady.lent hc
    refine ⟨(c.resolved s.1).ker, rfl, hc.trans (.resolved _ hc'.live hc'.refcount),
      .resolved c hc', fun x hx => ?_⟩
    have hne : x ≠ s.1 := (hsteady.named.trans_le hx).ne'
    have hker : (c.resolved s.1).ker = _ := holdActive_hold hc'.live hc'.refcount
    rw [hker]
    simp [hne]

variable {slotCount n : ℕ} {p : Publication}

theorem publishing_of_creation (hnum : n0.ker.numObjs = m.ker.numObjs)
    (hslots : n0.ker.slots = m.ker.slots) (hc : Creation n0 type slotCount n loan c)
    (hσ : Lent m.ker R A σ) (hsame : SameButCounts c.ker σ)
    (hnew : ∀ x, m.ker.numObjs ≤ x → σ.objs x = c.ker.objs x ∧ σ.held x = c.ker.held x) :
    Publishing m R A p type n 0 { c with ker := σ } where
  lent := hσ
  numObjs := by rw [hsame.numObjs, hc.numObjs, hnum]
  made j hj := by
    have hle : m.ker.numObjs ≤ m.ker.numObjs + j := Nat.le_add_right _ _
    obtain ⟨hobj, hheld⟩ := hnew _ hle
    obtain ⟨hobj', hheld'⟩ := hc.made (m.ker.numObjs + j) (by omega) (by omega)
    simp [hobj, hheld, hobj', hheld']
  filled j hj := absurd hj (Nat.not_lt_zero j)
  others s _ := by rw [hsame.slots, hc.slots, hslots]
  linked j hj := absurd hj (Nat.not_lt_zero j)

theorem newRights_ne (type : KObjType) : newRights type ≠ rightNone := by
  unfold newRights
  split_ifs <;> decide

theorem occupied_of_untypedSlot {s : ObjId × ℕ}
    (hs : s ∈ m.untypedSlot root cptr) : m.ker.occupied (.slot s.1 s.2) = true := by
  unfold untypedSlot at hs
  split_ifs at hs
  · cases hres : m.ker.cspaceResolveSlot (some root) cptr with
    | error e => simp [hres, Except.toOption] at hs
    | ok s' =>
      simp only [hres, Except.toOption, Option.mem_def, Option.some.injEq] at hs
      subst hs
      unfold cspaceResolveSlot at hres
      split_ifs at hres
      exact resolveSlotFrom_occupied hres
  · cases hs

theorem batchReady_of_made
    (hwork : Working spare m) (hcwork : ∀ x, c.ker.numObjs ≤ x → (c.ker.objs x).live = false)
    (hnum : n0.ker.numObjs = m.ker.numObjs) (hslots : n0.ker.slots = m.ker.slots)
    (hmdb : n0.ker.mdb = m.ker.mdb) (hn0 : n0 = { m with ker := n0.ker })
    (htype : type ≠ .reserved ∧ type ≠ .untyped ∧ type ≠ .asidPool)
    (hc : BatchMade n0 p.ut type slotCount n p.start p.stop c) (hsame : SameButCounts c.ker σ)
    (hnew : ∀ x, m.ker.numObjs ≤ x → σ.objs x = c.ker.objs x ∧ σ.held x = c.ker.held x)
    (hpub : Publishing m (Pi.single p.ut n + Pi.single p.ut 1 + Pi.single p.cn 1 + slotLoan p.utSlot)
      (0 + Pi.single p.ut 1 + Pi.single p.cn 1 + slotLoan p.utSlot) p type n 0
      { c with ker := σ }) : BatchReady m p type n { c with ker := σ } := by
  have huts : n0.uts = m.uts := by rw [hn0]
  have hplaces : n0.home = m.home ∧ n0.pml4Pool = m.pml4Pool ∧ n0.source = m.source ∧
      n0.kasidNext = m.kasidNext := by
    rw [hn0]
    exact ⟨rfl, rfl, rfl, rfl⟩
  obtain ⟨hhome, hpool, hsource, hkasid⟩ := hplaces
  refine ⟨hpub, hc.pos, hsame.mdb.trans (hc.mdb.trans hmdb), ?_, ⟨?_, hc.start_lt⟩,
    fun o ho => ?_, (hc.kasidNext htype.2.2).trans hkasid, fun x hx hlt => ?_, fun x hx => ?_⟩
  · exact hc.uts.trans (by rw [huts]; rfl)
  · rw [hc.start_eq, huts]
  · obtain ⟨h1, h2⟩ := hc.old o (hnum ▸ ho)
    exact ⟨h1.trans (congrFun hhome o), (congrFun hc.pool o).trans (congrFun hpool o),
      h2.trans (congrFun hsource o)⟩
  · obtain ⟨hobj, hheld⟩ := hnew x hx
    obtain ⟨hobj', hheld'⟩ := hc.made x (hnum ▸ hx) (hnum ▸ hlt)
    obtain ⟨⟨F, hw⟩, -⟩ := hwork.lifetimes.accounted.inOrder
    refine ⟨⟨?_, ?_, ?_, ?_, fun j => ?_, hc.home x (hnum ▸ hx) (hnum ▸ hlt), ?_⟩, ?_⟩
    · simp [hobj, hobj']
    · simp [hobj, hobj']
    · simp [hobj, hobj', htype.1, htype.2.1]
    · simp [hheld, hheld']
    · -- No slot of a CNode that is not there yet is taken.
      by_contra hocc
      rw [Bool.not_eq_false, occupied, hsame.slots, hc.slots, hslots] at hocc
      obtain ⟨cn', idx, heq, -, hex⟩ := hw.home _ hocc
      cases heq
      exact absurd (hw.fresh x (Wf.slotExists_iff.mp hex).1) (not_lt.mpr hx)
    · exact (congrFun hc.pool x).trans ((congrFun hpool x).trans (hwork.bare x hx).2.1)
    · simp [hobj, hobj']
  · rw [(hnew x (Nat.le_of_add_right_le hx)).1]
    exact hcwork x (by rw [hc.numObjs, hnum]; exact hx)

section

variable (hwork : Working spare m) (hrootlt : root < m.ker.numObjs)
  (hpayload : retypePayload sz asidControl r = .ok payload) (hut : m.Steady ut) (hcn : m.Steady cn)
include hwork hrootlt hpayload hut hcn

/-- What the creation of the objects leaves for their publication. -/
theorem createObjects_resolved {objs : List ObjId} {start stop : UInt64}
    (hok : (((m.resolved ut).resolved cn).createObjects sz ut r payload).result =
      .ok (objs, start, stop)) :
    let n0 := (m.resolved ut).resolved cn
    let c := (n0.createObjects sz ut r payload).mem
    objs = List.range' m.ker.numObjs r.count.toNat ∧
      c.untypedSlot root r.utCptr = m.untypedSlot root r.utCptr ∧ c.ker.slots = m.ker.slots ∧
      ∃ slotCount loan, Creation n0 r.type slotCount r.count.toNat loan c ∧
        (isRegion r.type = false → loan = Pi.single ut r.count.toNat ∧
          BatchMade n0 ut r.type slotCount r.count.toNat start stop c) := by
  intro n0 c
  have hwork0 : Working spare n0 := (hwork.resolved ut).resolved cn
  have hlent0 : Lent m.ker _ _ n0.ker := lent_both hut hcn
  have hsame0 : SameButCounts m.ker n0.ker :=
    (SameButCounts.resolved m hut).trans (.resolved _ (hut.resolved hcn))
  have hhost : ∀ h ∈ n0.hdrHost ut, h < n0.ker.numObjs := by
    intro h hh
    unfold hdrHost at hh
    split_ifs at hh
    · exact (hwork0.budget ut h hh).1
    · cases hh
      exact (hut.lent hlent0).named
  obtain ⟨hobjs, slotCount, loan, -, hmade, hbatch⟩ := createObjects_ok
    (fun o ho => hwork0.refcount_of_live ho) (hut.lent hlent0) hhost hpayload hok
  have hslots := hmade.slots.trans hsame0.slots
  exact ⟨hsame0.numObjs ▸ hobjs, untypedSlot_of_creation hwork hrootlt hlent0 hmade.lent hslots _,
    hslots, slotCount, loan, hmade, hbatch⟩

/-- A publication that is refused does not take back a region, nor a range of identifiers. -/
theorem publication_traces {objs : List ObjId} {start stop : UInt64} {s : ObjId × ℕ} {t : Memory}
    (hheld : ∀ s ∈ m.untypedSlot root r.utCptr, m.attached s.1 = true)
    (hreach : Reaches ((m.resolved ut).resolved cn) ut r
      (((m.resolved ut).resolved cn).createObjects sz ut r payload) .made)
    (hok : (((m.resolved ut).resolved cn).createObjects sz ut r payload).result =
      .ok (objs, start, stop))
    (hs : s ∈ m.untypedSlot root r.utCptr) (hrefused : (m.ker.slots (.slot s.1 s.2)).object ≠ some ut)
    (hkeeps : isRegion r.type = true ∨ r.type = .asidPool)
    (hret : let c := ((m.resolved ut).resolved cn).createObjects sz ut r payload
      let utSlot := c.mem.untypedSlot root r.utCptr
      (system sz).Returns ((utSlot.map fun s => c.mem.resolved s.1).getD c.mem)
        [.publish ⟨cn, r.destSlot.toNat, objs, newRights r.type, ut, utSlot, start, stop⟩ 0] t) :
    ¬ AllOrNothing m self r t := by
  rintro ⟨hrunning, hnothing, -⟩
  obtain ⟨hobjs, hutSlot, hslots, slotCount, loan, hmade, hbatch⟩ :=
    createObjects_resolved hwork hrootlt hpayload hut hcn hok
  have hsteady : ∀ s ∈ m.untypedSlot root r.utCptr, m.Steady s.1 := fun s hs =>
    (hwork.steady_of_occupied (occupied_of_untypedSlot hs) (hheld s hs)).1
  obtain ⟨σ, heq, -, hsame, -⟩ := resolved_slot ((lent_both hut hcn).trans hmade.lent) hsteady
  dsimp only at hret
  rw [hutSlot, heq] at hret
  obtain ⟨_, _, _, hok', hregion, hpool⟩ := hreach
  cases hok.symm.trans hok'
  have hpos : 0 < r.count.toNat := by
    rcases hkeeps with hreg | hasid
    · exact (count_of_payload hpayload hreg).ge
    · exact (hbatch (by rw [hasid]; rfl)).2.pos
  have herr : t.ker.ret.err ≠ .ok := fun herr => hrefused <| by
    have haccepted := publish_accepted hret hrunning herr (by simpa [hobjs] using hpos.ne') hs
    rwa [hsame.slots, hslots] at haccepted
  have hsame := hnothing herr
  obtain ⟨hnext, hcarves⟩ := returns_carves hret ut
  rcases hkeeps with hreg | hasid
  · obtain ⟨rfl, rfl, hmoved⟩ := hregion hreg
    have hused := congrArg Prod.fst (hcarves (by simp [MemCall.keepsCarves]))
    exact hmoved (hused.symm.trans (congrArg KUntyped.used (hsame.uts ut hut.named)))
  · exact hpool hasid (hnext.symm.trans hsame.kasidNext)

theorem retypeInto_traces {t : Memory}
    (hheld : m.progress sz ut r payload = .made → m.slotAttached root r.utCptr = true)
    (hfree : m.slotsFree cn r = true)
    (hclean : m.publishesCleanly sz r ⟨root, payload, ut, cn⟩ = false)
    (hret : (system sz).Returns (((m.resolved ut).resolved cn).retypeInto sz root r payload ut cn).1
      (((m.resolved ut).resolved cn).retypeInto sz root r payload ut cn).2 t) :
    ¬ AllOrNothing m self r t := by
  have hreach := createObjects_reaches sz r payload
    (hut.lent (lent_both hut hcn)).named
  change Reaches _ ut r _ (m.progress sz ut r payload) at hreach
  rcases retypeInto_cases sz root r payload hut hcn with
    ⟨hno, -⟩ | ⟨-, ⟨e, hres, heq⟩ | ⟨objs, start, stop, hres, heq⟩⟩
  · cases hno.symm.trans hfree
  · obtain ⟨hne, hcalls, ⟨hrefused, -⟩ | ⟨-, u, hu, hleft⟩⟩ := hreach.gaveUp hres
    · simp [publishesCleanly, hrefused] at hclean
    rintro ⟨hrunning, hnothing, -⟩
    rw [heq] at hret
    have herr := err_of_returns hret hrunning
    have hsame := hnothing (herr.trans_ne hne)
    have hnamed : u < m.ker.numObjs := by
      rcases hu with rfl | hhost
      · exact hut.named
      · exact (hwork.hdrHost hut.named hhost).1
    refine hleft (((returns_carves hret u).2 fun f hf => ?_).symm.trans ?_)
    · simp only [List.mem_append, List.mem_singleton] at hf
      obtain (hf | hf | hf) | rfl := hf
      · exact hcalls f hf
      · exact keepsCarves_of_unresolve hf
      · exact keepsCarves_of_unresolve hf
      · rfl
    · exact Prod.ext (congrArg KUntyped.used (hsame.uts u hnamed))
        (Prod.ext (congrArg KUntyped.usedTop (hsame.uts u hnamed)) hsame.kasidNext)
  · have hmade := hreach.made hres
    rw [hmade] at hreach
    simp only [publishesCleanly, hmade, Bool.or_eq_false_iff, Bool.and_eq_false_iff,
      Bool.not_eq_false', decide_eq_false_iff_not, not_not] at hclean
    obtain ⟨s, hs, hrefused⟩ := slotHolds_eq_false.mp hclean.1
    rw [heq] at hret
    exact publication_traces hwork hrootlt hpayload hut hcn (slotAttached_iff.mp (hheld hmade))
      hreach hres hs hrefused hclean.2 hret

variable (hspare : ∀ u, 0 ≤ spare u) (hroot : self.bind (·.cspaceRoot) = some root)
  (hdest : m.destination self root r = .ok cn) (hcnode : m.ker.isCNode cn = true)
include hspare hroot hdest hcnode

theorem publication_allOrNothing {objs : List ObjId} {start stop : UInt64}
    (hfree : m.slotsFree cn r = true) (hheld : ∀ s ∈ m.untypedSlot root r.utCptr, m.attached s.1 = true)
    (hok : (((m.resolved ut).resolved cn).createObjects sz ut r payload).result =
      .ok (objs, start, stop))
    (hslot : m.slotHolds root r.utCptr ut = true ∨ (isRegion r.type = false ∧ r.type ≠ .asidPool) ∧
      (r.type = .cnode → m.ker.cascade = [] ∧ m.ker.running = false)) :
    let c := ((m.resolved ut).resolved cn).createObjects sz ut r payload
    let utSlot := c.mem.untypedSlot root r.utCptr
    ∃ t, (system sz).Returns ((utSlot.map fun s => c.mem.resolved s.1).getD c.mem)
      [.publish ⟨cn, r.destSlot.toNat, objs, newRights r.type, ut, utSlot, start, stop⟩ 0] t ∧
      AllOrNothing m self r t := by
  intro c utSlot
  set n0 := (m.resolved ut).resolved cn with hn0
  have hwork0 : Working spare n0 := (hwork.resolved ut).resolved cn
  have hlent0 : Lent m.ker _ _ n0.ker := lent_both hut hcn
  have hsame0 : SameButCounts m.ker n0.ker :=
    (SameButCounts.resolved m hut).trans (.resolved _ (hut.resolved hcn))
  obtain ⟨hobjs, hutSlot, -, slotCount, loan, hmade, hbatch⟩ :=
    createObjects_resolved hwork hrootlt hpayload hut hcn hok
  change utSlot = _ at hutSlot
  rw [slotHolds_iff, ← hutSlot] at hslot
  rw [← hutSlot] at hheld
  have hocc : ∀ s ∈ utSlot, m.Steady s.1 ∧ m.ker.slotExists s.1 s.2 = true ∧
      m.ker.occupied (.slot s.1 s.2) = true := by
    intro s hs
    have ho := occupied_of_untypedSlot (hutSlot ▸ hs)
    obtain ⟨hsteady, hex⟩ := hwork.steady_of_occupied ho (hheld s hs)
    exact ⟨hsteady, hex, ho⟩
  have hsteady : ∀ s ∈ utSlot, m.Steady s.1 := fun s hs => (hocc s hs).1
  obtain ⟨σ, heq, hσ, hsame, hnew⟩ := resolved_slot (hlent0.trans hmade.lent) hsteady
  rw [heq]
  generalize hp : (⟨cn, r.destSlot.toNat, objs, newRights r.type, ut, utSlot, start, stop⟩ :
    Publication) = p
  have hR : (Pi.single ut 1 + Pi.single cn 1 + loan + slotLoan utSlot : ObjId → ℕ) =
      loan + Pi.single p.ut 1 + Pi.single p.cn 1 + slotLoan p.utSlot := by
    rw [← hp, add_comm _ loan, ← add_assoc]
  have hA : (Pi.single ut 1 + Pi.single cn 1 + 0 + slotLoan utSlot : ObjId → ℕ) =
      0 + Pi.single p.ut 1 + Pi.single p.cn 1 + slotLoan p.utSlot := by
    rw [← hp, add_zero, zero_add]
  rw [hR, hA] at hσ
  have hready : Publishing m _ _ p r.type r.count.toNat 0 { c.mem with ker := σ } :=
    publishing_of_creation hsame0.numObjs hsame0.slots hmade hσ hsame hnew
  obtain ⟨hrange, hnone⟩ := slotsFree_iff.mp hfree
  have hroom : r.destSlot.toNat + r.count.toNat ≤ (m.ker.objs cn).slotCount := by omega
  have hpub : Publishable m p r.count.toNat := by
    rw [← hp]
    refine ⟨hcnode, hcn.named, hroom, fun j hj => ?_, ?_, newRights_ne _, fun s hs => ?_⟩
    · simpa using List.any_eq_false.mp hnone j (List.mem_range.mpr hj)
    · exact hobjs
    · exact ⟨(hocc s hs).1.named, (hocc s hs).2⟩
  have hps : p.utSlot = utSlot := by rw [← hp]
  have hpu : p.ut = ut := by rw [← hp]
  have hpc : p.cn = cn := by rw [← hp]
  have hslots : ∀ s ∈ p.utSlot, m.Steady s.1 := hps ▸ hsteady
  by_cases haccepts : ∀ s ∈ p.utSlot, (m.ker.slots (.slot s.1 s.2)).object = some p.ut
  · obtain ⟨t, hret, hpanic, herr, hdone⟩ := publish_succeeds sz hwork.running hpub haccepts
      (hpc ▸ hcn) (hpu ▸ hut) hslots hready
    refine ⟨t, hret, hpanic, fun hne => absurd herr hne, fun _ => ⟨root, cn, hroot, hdest, ?_⟩⟩
    rw [← hp, hutSlot] at hdone
    exact hdone
  · obtain ⟨s, hs, hrefused⟩ : ∃ s ∈ p.utSlot, (m.ker.slots (.slot s.1 s.2)).object ≠ some p.ut := by
      simpa using haccepts
    obtain ⟨⟨hregion, hpool⟩, hidle⟩ := hslot.resolve_left fun hall =>
      hrefused (hpu ▸ hall s (hps ▸ hs))
    obtain ⟨rfl, hmade'⟩ := hbatch hregion
    have htype := type_of_payload hpayload
    have hbatch' : BatchMade n0 p.ut r.type slotCount r.count.toNat p.start p.stop c.mem := by
      rw [← hp]
      exact hmade'
    obtain ⟨_, -, -, hcwork, -⟩ := hwork0.createObjects sz hspare payload
      (hut.lent hlent0).named htype
    rw [← hpu] at hready
    have hall := batchReady_of_made hwork (fun x hx => (hcwork.lifetimes.unnamed x hx).2)
      hsame0.numObjs hsame0.slots hsame0.mdb rfl
      ⟨htype, fun hu => by simp [hu, isRegion] at hregion, hpool⟩ hbatch' hsame hnew hready
    obtain ⟨t, hret, hpanic, herr, hsame'⟩ := publish_fails sz hwork.running hpub hs hrefused
      (hpc ▸ hcn) (hpu ▸ hut) hslots hidle hall
    exact ⟨t, hret, .of_error hpanic herr (by decide) hsame'⟩

theorem retypeInto_allOrNothing
    (hheld : m.slotsFree cn r = true → m.progress sz ut r payload = .made →
      m.slotAttached root r.utCptr = true ∧ (r.type = .cnode →
        (m.ker.cascade = [] ∧ m.ker.running = false) ∨ m.slotHolds root r.utCptr ut = true))
    (hclean : m.slotsFree cn r = false ∨
      m.publishesCleanly sz r ⟨root, payload, ut, cn⟩ = true) :
    ∃ t, (system sz).Returns (((m.resolved ut).resolved cn).retypeInto sz root r payload ut cn).1
      (((m.resolved ut).resolved cn).retypeInto sz root r payload ut cn).2 t ∧
      AllOrNothing m self r t := by
  have hm := hwork.lifetimes.unnamed
  have hreach := createObjects_reaches sz r payload
    (hut.lent (lent_both hut hcn)).named
  change Reaches _ ut r _ (m.progress sz ut r payload) at hreach
  rcases retypeInto_cases sz root r payload hut hcn with
    ⟨-, e, hne, heq⟩ | ⟨hfree, ⟨e, hres, heq⟩ | ⟨objs, start, stop, hres, heq⟩⟩
  · rw [heq]
    exact fails_both hm hwork.running hut hcn hne
  all_goals have hclean := hclean.resolve_left (by simp [hfree])
  · obtain ⟨hne, -, ⟨-, hsame⟩ | ⟨hhalf, -⟩⟩ := hreach.gaveUp hres
    · rw [heq, hsame]
      exact fails_both hm hwork.running hut hcn hne
    · simp [publishesCleanly, hhalf] at hclean
  · have hmade := hreach.made hres
    rw [heq]
    obtain ⟨hslot, hidle⟩ := hheld hfree hmade
    refine publication_allOrNothing hwork hrootlt hpayload hut hcn hspare hroot hdest hcnode hfree
      (slotAttached_iff.mp hslot) hres ?_
    simp only [publishesCleanly, hmade, Bool.or_eq_true, Bool.and_eq_true, Bool.not_eq_true',
      decide_eq_true_eq] at hclean
    by_cases hholds : m.slotHolds root r.utCptr ut = true
    · exact .inl hholds
    · exact .inr ⟨hclean.resolve_left hholds, fun htype => (hidle htype).resolve_right hholds⟩

end

end

/-- A retype has found its Untyped and its destination. -/
structure Admits (sz : Sizes) (m : Memory) (task : Option Cap.Task) (asidControl : Bool)
    (r : RetypeReq) (root : ObjId) (payload : UInt64) (ut cn : ObjId) : Prop where
  space : task.bind (·.cspaceRoot) = some root
  size : retypePayload sz asidControl r = .ok payload
  few : ¬ kuntypedRetypeMaxCount < r.count
  source : cspaceResolveOnlyUntyped m.ker task root r.utCptr rightWrite = .ok ut
  fits : ¬ ((m.uts ut).isDevice ∧ r.type ≠ .untyped ∧ r.type ≠ .frame)
  dest : m.destination task root r = .ok cn
  named : root < m.ker.numObjs
  pinned : m.Steady ut
  cnode : m.ker.isCNode cn = true
  steady : m.attached cn = true → m.Steady cn

theorem Admits.admission {m : Memory} {self : Option Cap.Task} {r : RetypeReq} {root ut cn : ObjId}
    {payload : UInt64} (h : Admits sz m self asidControl r root payload ut cn) :
    m.admission sz self asidControl r = some ⟨root, payload, ut, cn⟩ := by
  simp only [Memory.admission, h.space, h.size, h.source, h.dest]
  exact if_neg (not_or.mpr ⟨h.few, h.fits⟩)

theorem retype_cases (sz : Sizes) {m : Memory} {spare : ObjId → ℤ} (hwork : Working spare m)
    (self : Option Cap.Task) (asidControl : Bool) (r : RetypeReq) :
    (∃ e, e ≠ .ok ∧ m.sysUntypedRetype2 sz self asidControl r = m.fail e ∧
      m.admission sz self asidControl r = none) ∨
    (∃ e ut, e ≠ .ok ∧ m.Steady ut ∧ m.sysUntypedRetype2 sz self asidControl r =
      (m.resolved ut, Memory.unresolve ut ++ [.ret e]) ∧
      m.admission sz self asidControl r = none) ∨
    ∃ root payload ut cn, Admits sz m self asidControl r root payload ut cn ∧
      m.sysUntypedRetype2 sz self asidControl r =
        ((m.resolved ut).resolved cn).retypeInto sz root r payload ut cn := by
  unfold sysUntypedRetype2 Memory.admission
  cases hroot : self.bind (·.cspaceRoot) with
  | none => exact .inl ⟨_, by decide, rfl, rfl⟩
  | some root =>
    cases hpayload : retypePayload sz asidControl r with
    | error e => exact .inl ⟨e, payload_error hpayload, rfl, rfl⟩
    | ok payload =>
      dsimp only
      by_cases hmax : kuntypedRetypeMaxCount < r.count
      · refine .inl ⟨_, by decide, if_pos hmax, ?_⟩
        split
        · simp [hmax]
        · rfl
      rw [if_neg hmax]
      cases hres : cspaceResolveOnlyUntyped m.ker self root r.utCptr rightWrite with
      | error e => exact .inl ⟨e, resolve_error hres, rfl, rfl⟩
      | ok ut =>
        have hut : m.Steady ut := hwork.steady_of_resolve hres (by decide) nofun
        dsimp only
        by_cases hmmio : (m.uts ut).isDevice ∧ r.type ≠ .untyped ∧ r.type ≠ .frame
        · refine .inr (.inl ⟨_, ut, by decide, hut, if_pos hmmio, ?_⟩)
          split
          · rename_i heq _
            cases heq
            simp [hmmio]
          · rfl
        rw [if_neg (by exact hmmio)]
        obtain ⟨idx, hidx⟩ := occupied_of_resolve hres
        obtain ⟨⟨F, hw⟩, -⟩ := hwork.lifetimes.accounted.inOrder
        obtain ⟨cn', idx', heq, -, hex⟩ := hw.home _ hidx
        cases heq
        obtain ⟨hlive, hcnode, -⟩ := Wf.slotExists_iff.mp hex
        have hnamed := hw.fresh root hlive
        by_cases hzero : r.destCnode = 0
        · refine .inr (.inr ⟨root, payload, ut, root, ⟨hroot, hpayload, hmax, hres, hmmio,
            by simp [destination, hzero], hnamed, hut, by simp [isCNode, hlive, hcnode],
            fun hatt => (hwork.steady_of_occupied hidx hatt).1⟩, if_pos hzero⟩)
        rw [if_neg hzero]
        have hdest : m.destination self root r =
            cspaceResolveOnlyCnode (m.resolved ut).ker self root r.destCnode rightWrite := by
          rw [destination, if_neg hzero]
          exact (resolveOnly_congr (sameWalks_resolved m ut)).symm
        cases hcn : cspaceResolveOnlyCnode (m.resolved ut).ker self root r.destCnode rightWrite with
        | error e => exact .inr (.inl ⟨e, ut, resolve_error hcn, hut, rfl, by rw [hdest, hcn]⟩)
        | ok cn =>
          rw [hcn] at hdest
          have hok : cspaceResolveOnlyCnode m.ker self root r.destCnode rightWrite = .ok cn := by
            rwa [destination, if_neg hzero] at hdest
          obtain ⟨s, hs⟩ := names_of_resolve hok
          have hlivecn := hwork.lifetimes.live_of_refcount hwork.running
            (hwork.lifetimes.refcount_of_slot hwork.running hs)
          exact .inr (.inr ⟨root, payload, ut, cn, ⟨hroot, hpayload, hmax, hres, hmmio, hdest, hnamed,
            hut, by simp [isCNode, hlivecn, type_of_resolve hok],
            fun hatt => hwork.steady_of_resolve hok (by decide) fun _ => hatt⟩, rfl⟩)

/-- A CNode in slot 4 with capabilities to both Untypeds; a guard of one bit means one and finds the
other's slot. -/
def innerSpace : List Action := boardCaps ++
  [.retype boardTask false ⟨2, .cnode, 1, 0, 4, 8⟩,
    .cap (.installLinked 3 1 1 rightAll 0 none none true true),
    .cap (.installLinked 3 2 0 rightAll 0 none none true true)]

def guardedTask : Option Cap.Task := some ⟨some 2, 0, 1⟩

/-- A CNode whose only capability was moved out of the CNode itself, without an active
reference. -/
def detachedSpace : List Action :=
  [.cap (.installLinked 2 2 1 rightAll 0 none none true true), .cap (.allocCNode 2),
    .cap (.installLinked 3 0 3 rightAll 0 none none true true), .cap (.move 3 0 2 7)]

end IrisOS.Untyped
