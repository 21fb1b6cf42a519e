import IrisOS.Untyped.Ledger
import IrisOS.Untyped.Unwind

/-! Reclaiming memory: along every run the child counts are those of the ledger, so an Untyped can
be reset exactly when nothing in it is alive. -/
namespace IrisOS.Untyped
open Lib Cap Kernel List

/-! ## Waiting calls -/

/-- The calls at the end of a system call, which drop only what is held. -/
def MemCall.plain : MemCall → Bool
  | .cap (.slotDelete _ _) | .cap (.heldActiveRelease _) | .cap (.heldRelease _) => true
  | .unbump _ _ _ | .ret _ => true
  | _ => false

/-- The waiting calls of the capability system. -/
def capCalls (k : List MemCall) : List Call :=
  k.filterMap fun f => match f with
    | .cap f => some f
    | _ => none

@[simp] theorem capCalls_append (k l : List MemCall) :
    capCalls (k ++ l) = capCalls k ++ capCalls l := filterMap_append ..

@[simp] theorem capCalls_cap (l : List Call) : capCalls (l.map .cap) = l := by
  unfold capCalls
  rw [filterMap_map]
  exact filterMap_some

/-- Objects are published last. -/
def PublishLast : List MemCall → Prop
  | [] => True
  | .publish _ _ :: k => k = []
  | _ :: k => PublishLast k

theorem PublishLast.append {k l : List MemCall} (hl : ∀ p i, .publish p i ∉ l)
    (hk : PublishLast k) : PublishLast (l ++ k) := by
  induction l with
  | nil => exact hk
  | cons f l ih =>
    have hrest := ih fun p i hmem => hl p i (mem_cons_of_mem f hmem)
    cases f with
    | publish p i => exact absurd mem_cons_self (hl p i)
    | cap | unbump | ret => exact hrest

section
variable {l : List MemCall} {σ : Kernel} {f : Call}

theorem not_publish_of_plain (hl : ∀ f ∈ l, f.plain = true) (p : Publication) (i : ℕ) :
    .publish p i ∉ l := fun hmem => by
  have := hl _ hmem
  cases this

theorem mem_capCalls : f ∈ capCalls l ↔ .cap f ∈ l := by
  unfold capCalls
  rw [mem_filterMap]
  constructor
  · rintro ⟨g, hg, heq⟩
    cases g <;> simp_all
  · exact fun h => ⟨_, h, rfl⟩

theorem plain_capCalls (hl : ∀ f ∈ l, f.plain = true) (hf : f ∈ capCalls l) :
    f.isEntry ∧ ∀ o, Account.refs.due o f = 0 := by
  have hplain := hl _ (mem_capCalls.mp hf)
  cases f with
  | slotDelete | heldActiveRelease | heldRelease => exact ⟨trivial, fun _ => rfl⟩
  | _ => cases hplain

theorem lifetimes_insert (k1 k2 : List Call) (h : Lifetimes σ (k1 ++ k2))
    (hl : ∀ f ∈ l, f.plain = true) : Lifetimes σ (k1 ++ capCalls l ++ k2) := by
  have hplain : ∀ f ∈ capCalls l, f.isEntry ∧ ∀ o, Account.refs.due o f = 0 := fun f =>
    plain_capCalls hl
  refine h.extend (fun o => ?_) (fun o => ?_) fun f hf => ?_
  · have hzero : Account.refs.dueSum o (capCalls l) = 0 :=
      sum_eq_zero fun n hn => by
        obtain ⟨f, hf, rfl⟩ := mem_map.mp hn
        exact (hplain f hf).2 o
    simp only [Account.dueSum_append, hzero, Nat.add_zero]
  · have hzero : (capCalls l).countP (Call.destroys o) = 0 :=
      countP_eq_zero.mpr fun f hf => by
        have hentry := (hplain f hf).1
        cases f with
        | dispatchDestroy | objDestroy | storageFree => exact hentry.elim
        | _ => simp [Call.destroys]
    simp only [countP_append, hzero, Nat.add_zero]
  · have hframe := h.accounted.inOrder.2
    rcases mem_append.mp hf with hf | hf
    · rcases mem_append.mp hf with hf | hf
      · exact hframe f (mem_append_left _ hf)
      · exact (hplain f hf).1.frameOk σ
    · exact hframe f (mem_append_right _ hf)

theorem plain_append {k : List MemCall} (hk : ∀ f ∈ k, f.plain = true)
    (hl : ∀ f ∈ l, f.plain = true) : ∀ f ∈ k ++ l, f.plain = true := fun f hf =>
  (mem_append.mp hf).elim (hk f) (hl f)

theorem plain_unresolve (o : ObjId) : ∀ f ∈ Memory.unresolve o, f.plain = true := by
  simp [Memory.unresolve, MemCall.plain]

theorem plain_ret (e : IrisError) : ∀ f ∈ [MemCall.ret e], f.plain = true := by simp [MemCall.plain]

end

/-- The ledger of a state in which calls wait. -/
structure Books (spare : ObjId → ℤ) (m : Memory) (k : List MemCall) : Prop where
  nonneg : ∀ u, 0 ≤ spare u
  ledger : Ledger spare m (capCalls k)
  last : PublishLast k

section
variable {spare : ObjId → ℤ} {self : Option Cap.Task} {sz : Sizes} {type : KObjType} {cptr : UInt64}
  {m : Memory} {required : Rights} {root o : ObjId}

theorem Ledger.recall {k l : List Call} (h : Ledger spare m k)
    (hl : Lifetimes m.ker l) : Ledger spare m l :=
  h.setKer hl (.of_objs rfl fun _ => ⟨rfl, rfl⟩)

namespace Books
variable {k l : List MemCall}

theorem of_working (hs : ∀ u, 0 ≤ spare u) (h : Working spare m) (hl : ∀ f ∈ l, f.plain = true) :
    Books spare m l := by
  have hins := lifetimes_insert [] [] h.lifetimes hl
  rw [nil_append, append_nil] at hins
  refine ⟨hs, h.toLedger.recall hins, ?_⟩
  have := PublishLast.append (k := []) (not_publish_of_plain hl) trivial
  rwa [append_nil] at this

theorem publish (hs : ∀ u, 0 ≤ spare u) (h : Working spare m) (p : Publication) (i : ℕ) :
    Books spare m [.publish p i] :=
  ⟨hs, h.toLedger, rfl⟩

end Books

/-! ## Calls -/

theorem freed_eq_some : Memory.freed σ f = some o ↔ f.frees σ o = true := by
  cases f with
  | objDestroy x i =>
    simp only [Memory.freed, Call.frees]
    split_ifs with hi
    · simp [not_le.mpr hi]
    · simp [not_lt.mp hi]
  | _ => simp [Memory.freed, Call.frees]

theorem subject_of_freed (h : Memory.freed σ f = some o) : f.subject = some o := by
  cases f with
  | storageFree x => exact h
  | objDestroy x i =>
    simp only [Memory.freed] at h
    split_ifs at h
    exact h
  | _ => cases h

theorem giveBack_ker (m : Memory) (o : ObjId) : (m.giveBack o).1.ker = m.ker := by
  unfold Memory.giveBack
  rw [(Ledger.releaseChild_ker _ _).1, (Ledger.releaseChild_ker _ _).1]

theorem plain_releaseChild (m : Memory) (x : Option ObjId) :
    ∀ f ∈ (m.releaseChild x).2, f.plain = true := by
  cases x <;> simp [Memory.releaseChild, MemCall.plain]

theorem plain_giveBack (m : Memory) (o : ObjId) : ∀ f ∈ (m.giveBack o).2, f.plain = true := by
  refine plain_append (plain_append (plain_releaseChild _ _) (plain_releaseChild _ _)) fun f hf => ?_
  obtain ⟨h, -, rfl⟩ := mem_map.mp hf
  rfl

namespace Books
variable {f : Call} {k l : List MemCall}

theorem cap (h : Books spare m (.cap f :: k)) (hp : m.ker.panic = none) :
    Books spare (m.performCap f).1 ((m.performCap f).2 ++ k) := by
  have hlife : Lifetimes m.ker (f :: capCalls k) := h.ledger.lifetimes
  have hcall := hlife.call hp
  obtain ⟨⟨F, hw⟩, hframe⟩ := hlife.accounted.inOrder
  have hshape := (body_effect inertHooks hw (hframe f mem_cons_self)).1.sameShape
  unfold Memory.performCap
  split_ifs with hlive
  · have hbody : (machine inertHooks).body m.ker f = m.ker.perform inertHooks f := if_pos hlive
    have hdead := (perform_outcome inertHooks hw f).live_eq
    rw [hbody] at hcall hshape
    rcases hperf : m.ker.perform inertHooks f with ⟨σ, calls⟩
    simp only [hperf] at hcall hshape hdead ⊢
    cases hfreed : Memory.freed m.ker f with
    | none =>
      have hkeep : ∀ o, f.frees m.ker o = false := fun o => by
        by_contra hne
        rw [Bool.not_eq_false, ← freed_eq_some, hfreed] at hne
        cases hne
      refine ⟨h.nonneg, ?_, h.last.append fun p i hmem => ?_⟩
      · rw [capCalls_append, capCalls_cap]
        exact h.ledger.setKer hcall
          (.of_objs hshape.numObjs fun o => ⟨hshape.type o, by rw [hdead, hkeep]; simp⟩)
      · obtain ⟨g, -, hg⟩ := mem_map.mp hmem
        cases hg
    | some x =>
      have hx : (m.ker.objs x).live = true := by
        rw [subject_of_freed hfreed] at hlive
        exact hlive
      have hgone : ∀ o, (σ.objs o).live = ((m.ker.objs o).live && !decide (o = x)) := fun o => by
        rw [hdead o]
        congr 2
        rw [Bool.eq_iff_iff, ← freed_eq_some, hfreed, decide_eq_true_iff, Option.some.injEq]
        exact eq_comm
      have hled : Ledger spare (({ m with ker := σ } : Memory).giveBack x).1 _ :=
        Ledger.giveBack h.nonneg (h.ledger.setKer_freed hcall hshape.numObjs hx hgone)
      have hplain := plain_giveBack { m with ker := σ } x
      refine ⟨h.nonneg, ?_, h.last.append fun p i hmem => ?_⟩
      · rw [capCalls_append, capCalls_append, capCalls_cap]
        refine hled.recall (lifetimes_insert _ _ ?_ hplain)
        rw [giveBack_ker]
        exact hcall
      · rcases mem_append.mp hmem with hmem | hmem
        · obtain ⟨g, -, hg⟩ := mem_map.mp hmem
          cases hg
        · exact not_publish_of_plain hplain p i hmem
  · have hbody : (machine inertHooks).body m.ker f = (m.ker.stop .fault, []) := if_neg hlive
    rw [hbody] at hcall
    exact ⟨h.nonneg, h.ledger.setKer hcall (.of_objs rfl fun o => ⟨rfl, rfl⟩), h.last⟩

theorem of_calls {calls : List Call} (hs : ∀ u, 0 ≤ spare u)
    (h : Ledger spare { m with ker := σ } calls) (hl : ∀ f ∈ l, f.plain = true) :
    Books spare { m with ker := σ } (calls.map .cap ++ l) := by
  have hins := lifetimes_insert calls [] (by simpa using h.lifetimes) hl
  rw [append_nil] at hins
  refine ⟨hs, ?_, ?_⟩
  · rw [capCalls_append, capCalls_cap]
    exact h.recall hins
  have hlast := PublishLast.append (k := []) (l := calls.map .cap ++ l) (fun p i hmem => ?_) trivial
  · rwa [append_nil] at hlast
  · rcases mem_append.mp hmem with hmem | hmem
    · obtain ⟨g, -, hg⟩ := mem_map.mp hmem
      cases hg
    · exact not_publish_of_plain hl p i hmem

theorem publish_call {p : Publication} {i : ℕ} (h : Books spare m (.publish p i :: k))
    (hp : m.ker.panic = none) : Books spare (m.publish p i).1 ((m.publish p i).2 ++ k) := by
  obtain rfl : k = [] := h.last
  have hwork : Working spare m := ⟨h.ledger, hp⟩
  obtain ⟨⟨F, hw⟩, -⟩ := hwork.lifetimes.accounted.inOrder
  have hslot : ∀ f ∈ (p.utSlot.map fun s => Memory.unresolve s.1).getD [], f.plain = true := by
    cases p.utSlot with
    | none => simp
    | some s => exact plain_unresolve s.1
  have hrelease : ∀ f ∈ p.objs.map fun o => MemCall.cap (.heldRelease o), f.plain = true := by
    intro f hf
    obtain ⟨o, -, rfl⟩ := mem_map.mp hf
    rfl
  have hboth := plain_append (plain_unresolve p.cn) (plain_unresolve p.ut)
  rw [append_nil]
  unfold Memory.publish
  cases hobj : p.objs[i]? with
  | none =>
    exact of_working h.nonneg hwork
      (plain_append (plain_append (plain_append hslot hrelease) hboth) (plain_ret _))
  | some o =>
    dsimp only
    have hinstall : Ledger spare { m with ker := _ } _ := hwork.toLedger.setKer
      (hwork.lifetimes.act hp (.installLinked p.cn (p.slot + i) o p.rights 0 p.utSlot (some p.ut)
        true p.utSlot.isNone)) (act_touches hw _).moreObjs
    split_ifs with hok hwindow
    · refine ⟨h.nonneg, ?_, ?_⟩
      · rw [capCalls_append, capCalls_cap]
        have hnone : capCalls [MemCall.publish p (i + 1)] = [] := rfl
        rw [hnone, append_nil]
        exact hinstall
      · refine PublishLast.append (fun q j hmem => ?_) rfl
        obtain ⟨g, -, hg⟩ := mem_map.mp hmem
        cases hg
    all_goals
      simp only [append_assoc]
      refine of_calls h.nonneg hinstall ?_
      have hdelete : ∀ f ∈ (range i).map fun j => MemCall.cap (.slotDelete p.cn (p.slot + j)),
          f.plain = true := by
        intro f hf
        obtain ⟨j, -, rfl⟩ := mem_map.mp hf
        rfl
    · exact plain_append hslot (plain_append hdelete (plain_append hrelease
        (plain_append (by simp [MemCall.plain]) (plain_append (plain_unresolve _)
          (plain_append (plain_unresolve _) (plain_ret _))))))
    · exact plain_append hslot (plain_append hdelete (plain_append hrelease
        (plain_append (by simp) (plain_append (plain_unresolve _)
          (plain_append (plain_unresolve _) (plain_ret _))))))

theorem call {f : MemCall} (h : Books spare m (f :: k)) (hp : m.ker.panic = none) :
    Books spare (m.perform f).1 ((m.perform f).2 ++ k) := by
  cases f with
  | cap f => exact h.cap hp
  | publish p i => exact h.publish_call hp
  | unbump u start stop =>
    have hkeeps : ((m.uts u).kuntypedUnbumpExact start stop).isDevice = (m.uts u).isDevice ∧
        ((m.uts u).kuntypedUnbumpExact start stop).hdrBudget = (m.uts u).hdrBudget ∧
        ((m.uts u).kuntypedUnbumpExact start stop).childCount = (m.uts u).childCount := by
      unfold KUntyped.kuntypedUnbumpExact
      split_ifs <;> exact ⟨rfl, rfl, rfl⟩
    have hset := h.ledger.setUt (.inr hkeeps.2.2) hkeeps.1 hkeeps.2.1
    rw [hkeeps.2.2, sub_self, Pi.single_zero, add_zero] at hset
    exact ⟨h.nonneg, hset, h.last⟩
  | ret e =>
    exact ⟨h.nonneg, h.ledger.setKer (h.ledger.lifetimes.note _ _)
      (.of_objs rfl fun _ => ⟨rfl, rfl⟩), h.last⟩

theorem halt {f : MemCall} (h : Books spare m (f :: k)) (hp : m.ker.panic ≠ none) :
    Books spare m [] :=
  ⟨h.nonneg, h.ledger.recall (h.ledger.lifetimes.halt hp), trivial⟩

end Books

/-! ## Entry points -/

namespace Memory

/-- The CNode that the new capabilities go to. -/
def destination (m : Memory) (self : Option Cap.Task) (root : ObjId) (r : RetypeReq) :
    Except IrisError ObjId :=
  if r.destCnode = 0 then .ok root
  else cspaceResolveOnlyCnode m.ker self root r.destCnode rightWrite

def slotsFree (m : Memory) (cn : ObjId) (r : RetypeReq) : Bool :=
  !(r.destSlot.toNat = 0 ∨ (m.ker.objs cn).slotCount < r.destSlot.toNat + r.count.toNat : Bool) &&
    !(List.range r.count.toNat).any fun i => m.ker.occupied (.slot cn (r.destSlot.toNat + i))

/-- A retype of a batch comes as far as carving it. -/
def carvesBatch (sz : Sizes) (m : Memory) (self : Option Cap.Task) (asidControl : Bool)
    (r : RetypeReq) : Bool :=
  match self.bind (·.cspaceRoot), retypePayload sz asidControl r with
  | some root, .ok payload =>
    match cspaceResolveOnlyUntyped m.ker self root r.utCptr rightWrite, m.destination self root r with
    | .ok ut, .ok cn => m.slotsFree cn r && (m.uts ut).batchFits payload r.count
    | _, _ => false
  | _, _ => false

/-- A batch of ASID pools that is carved finds a range of identifiers for each of its objects. -/
def rangesSuffice (sz : Sizes) (m : Memory) : Action → Prop
  | .retype self asidControl r => r.type = .asidPool → m.carvesBatch sz self asidControl r = true →
    m.kasidNext + r.count.toNat * kasidPoolSize ≤ kasidLast + 1
  | _ => True

end Memory

instance (sz : Sizes) (m : Memory) : (a : Action) → Decidable (m.rangesSuffice sz a)
  | .retype _ _ _ => inferInstanceAs (Decidable (_ → _))
  | .reset _ _ | .setDeviceBudget _ _ _ | .cap _ => inferInstanceAs (Decidable True)

theorem slotsFree_iff : m.slotsFree cn r = true ↔
    ¬ (r.destSlot.toNat = 0 ∨ (m.ker.objs cn).slotCount < r.destSlot.toNat + r.count.toNat) ∧
    ((List.range r.count.toNat).any fun i =>
      m.ker.occupied (.slot cn (r.destSlot.toNat + i))) = false := by
  simp [Memory.slotsFree]

theorem sameWalks_resolved (m : Memory) (o : ObjId) :
    Kernel.SameWalks (fun _ => True) m.ker (m.resolved o).ker := by
  have hhold : ∀ σ : Kernel, SameWalks (fun _ => True) σ (σ.hold o) := by
    intro σ
    unfold hold kobjectRetain irisAssert
    refine ⟨?_, fun _ _ _ => trivial, fun x _ => ?_, fun x _ => ?_⟩ <;> split_ifs <;>
      first | rfl | (by_cases hx : x = o <;> simp [setHeld, setObj, stop, hx])
  have hactive : ∀ σ : Kernel, SameWalks (fun _ => True) σ (σ.holdActive o) := by
    intro σ
    unfold holdActive kobjectActiveRetain
    refine ⟨?_, fun _ _ _ => trivial, fun x _ => ?_, fun x _ => ?_⟩ <;> split_ifs <;>
      first | rfl | (by_cases hx : x = o <;> simp [setHeld, setObj, hx])
  exact ⟨(hactive _).slots.trans (hhold _).slots, fun _ _ _ => trivial,
    fun x hx => ((hactive _).type x hx).trans ((hhold _).type x hx),
    fun x hx => ((hactive _).slotCount x hx).trans ((hhold _).slotCount x hx)⟩

theorem slotsFree_resolved (m : Memory) (o cn : ObjId) (r : RetypeReq) :
    (m.resolved o).slotsFree cn r = m.slotsFree cn r := by
  have hwalks := sameWalks_resolved m o
  simp only [Memory.slotsFree, Kernel.occupied, hwalks.slots, hwalks.slotCount cn trivial]

theorem resolveOnly_congr (h : Kernel.SameWalks (fun _ => True) σ τ) :
    cspaceResolveOnly τ self root cptr required type =
      cspaceResolveOnly σ self root cptr required type := by
  have hwalk : τ.cspaceResolveCapBadged self (some root) cptr rightNone =
      σ.cspaceResolveCapBadged self (some root) cptr rightNone := by
    simp only [cspaceResolveCapBadged, h.resolveCapFrom trivial]
  have htype : ∀ o, (τ.objs o).type = (σ.objs o).type := fun o => h.type o trivial
  simp only [cspaceResolveOnly, hwalk, htype]

theorem type_of_resolve
    (h : cspaceResolveOnly σ self root cptr required type = .ok o) : (σ.objs o).type = type := by
  unfold cspaceResolveOnly at h
  split_ifs at h
  split at h
  · cases h
  · split_ifs at h with htype
    cases h
    exact not_not.mp htype

theorem type_of_payload {payload : UInt64}
    (h : retypePayload sz asidControl r = .ok payload) : r.type ≠ .reserved := by
  intro htype
  simp [retypePayload, htype] at h

namespace Working

theorem named_of_type (h : Working spare m) {u : ObjId}
    (hu : (m.ker.objs u).type = type) (htype : type ≠ .reserved) : u < m.ker.numObjs := by
  by_contra hge
  exact htype (hu.symm.trans (h.lifetimes.unnamed u (not_lt.mp hge)).1)

theorem createObjects (sz : Sizes) (hs : ∀ u, 0 ≤ spare u) (h : Working spare m) {ut : ObjId}
    (payload : UInt64) (hut : ut < m.ker.numObjs) (htype : r.type ≠ .reserved) :
    ∃ spare', (∀ u, 0 ≤ spare' u) ∧
      ((r.type = .asidPool → (m.uts ut).batchFits payload r.count = true →
        m.kasidNext + r.count.toNat * Memory.kasidPoolSize ≤ Memory.kasidLast + 1) →
      spare' = spare) ∧
    Working spare' (m.createObjects sz ut r payload).mem ∧
      ∀ f ∈ (m.createObjects sz ut r payload).calls, f.plain = true := by
  have hcase := m.createObjects_cases sz ut r payload
  generalize m.createObjects sz ut r payload = c at hcase ⊢
  cases hcase with
  | refused => exact ⟨spare, hs, fun _ => rfl, h, by simp⟩
  | region hregion hram =>
    have hpage : decide (r.type = .vspace) = true → (m.uts ut).isDevice = false := by
      intro hvspace
      rw [of_decide_eq_true hvspace] at hram
      obtain hne | hne | ⟨-, hdev⟩ := hram
      · cases hne
      · cases hne
      · exact hdev
    refine ⟨spare, hs, fun _ => rfl, h.retypeRegion sz hs hut htype hpage, ?_⟩
    have hcase := m.retypeRegion_cases sz ut r.objArg r.type (r.type = .vspace)
    generalize m.retypeRegion _ _ _ _ _ = c at hcase ⊢
    cases hcase <;> simp [MemCall.plain]
  | batch hbatch =>
    have hcalls : (m.createBatch ut r.type payload r.objArg r.count).calls = [] := by
      unfold Memory.createBatch
      split
      · rfl
      · dsimp only
        split <;> rfl
    obtain ⟨spare', hle, hfit, hwork⟩ := h.createBatch payload r.objArg r.count hut htype
    exact ⟨spare', fun u => (hs u).trans (hle u), hfit, hwork, by rw [hcalls]; simp⟩

theorem retypeInto (sz : Sizes) (hs : ∀ u, 0 ≤ spare u) (h : Working spare m) (root cn : ObjId)
    {ut : ObjId} (payload : UInt64) (hut : ut < m.ker.numObjs) (htype : r.type ≠ .reserved) :
    ∃ spare', ((r.type = .asidPool →
        (m.slotsFree cn r && (m.uts ut).batchFits payload r.count) = true →
        m.kasidNext + r.count.toNat * Memory.kasidPoolSize ≤ Memory.kasidLast + 1) →
      spare' = spare) ∧
    Books spare' (m.retypeInto sz root r payload ut cn).1
      (m.retypeInto sz root r payload ut cn).2 := by
  have hboth := plain_append (plain_unresolve cn) (plain_unresolve ut)
  obtain ⟨spare', hs', hfit, hmem, hcalls⟩ := h.createObjects sz hs payload hut htype
  unfold Memory.retypeInto
  dsimp only
  split_ifs with hslot hocc
  · exact ⟨spare, fun _ => rfl, .of_working hs h (plain_append hboth (plain_ret _))⟩
  · exact ⟨spare, fun _ => rfl, .of_working hs h (plain_append hboth (plain_ret _))⟩
  have hfree : m.slotsFree cn r = true := slotsFree_iff.mpr ⟨hslot, by simpa using hocc⟩
  rw [hfree, Bool.true_and]
  refine ⟨spare', ?_⟩
  cases hres : (m.createObjects sz ut r payload).result with
  | error e =>
    exact ⟨hfit, .of_working hs' hmem (plain_append (plain_append hcalls hboth) (plain_ret _))⟩
  | ok made =>
    cases (m.createObjects sz ut r payload).mem.untypedSlot root r.utCptr with
    | none => exact ⟨hfit, .publish hs' hmem _ _⟩
    | some s => exact ⟨hfit, .publish hs' (hmem.resolved s.1) _ _⟩

theorem numObjs_resolved (m : Memory) (o : ObjId) : m.ker.numObjs ≤ (m.resolved o).ker.numObjs :=
  (Touches.hold m.ker o).moreObjs.numObjs.trans (Touches.holdActive _ o).moreObjs.numObjs

theorem fail (hs : ∀ u, 0 ≤ spare u) (h : Working spare m) (e : IrisError) :
    Books spare (m.fail e).1 (m.fail e).2 :=
  ⟨hs, h.toLedger.setKer (h.lifetimes.note _ _) (.of_objs rfl fun _ => ⟨rfl, rfl⟩), trivial⟩

theorem sysUntypedRetype2 (sz : Sizes) (hs : ∀ u, 0 ≤ spare u) (h : Working spare m) :
    ∃ spare', (m.rangesSuffice sz (.retype self asidControl r) → spare' = spare) ∧
    Books spare' (m.sysUntypedRetype2 sz self asidControl r).1
      (m.sysUntypedRetype2 sz self asidControl r).2 := by
  unfold Memory.sysUntypedRetype2
  cases hroot : self.bind (·.cspaceRoot) with
  | none => exact ⟨spare, fun _ => rfl, h.fail hs _⟩
  | some root =>
    cases hpayload : retypePayload sz asidControl r with
    | error e => exact ⟨spare, fun _ => rfl, h.fail hs _⟩
    | ok payload =>
      have htype := type_of_payload hpayload
      by_cases hcount : kuntypedRetypeMaxCount < r.count
      · simp only [if_pos hcount]
        exact ⟨spare, fun _ => rfl, h.fail hs _⟩
      simp only [if_neg hcount]
      cases hres : cspaceResolveOnlyUntyped m.ker self root r.utCptr rightWrite with
      | error e => exact ⟨spare, fun _ => rfl, h.fail hs _⟩
      | ok ut =>
        have hut := h.named_of_type (type_of_resolve hres) (by decide)
        have hwork := h.resolved ut
        have hut' := hut.trans_le (numObjs_resolved m ut)
        have hplain : ∀ e, ∀ f ∈ Memory.unresolve ut ++ [MemCall.ret e], f.plain = true := fun e =>
          plain_append (plain_unresolve ut) (plain_ret e)
        -- The batch goes to a CNode that is held like the Untyped.
        have hinto : ∀ cn, m.destination self root r = .ok cn → ∃ spare',
            (m.rangesSuffice sz (.retype self asidControl r) → spare' = spare) ∧
            Books spare' (((m.resolved ut).resolved cn).retypeInto sz root r payload ut cn).1
              (((m.resolved ut).resolved cn).retypeInto sz root r payload ut cn).2 := by
          intro cn hdest
          obtain ⟨spare', hfit, hbooks⟩ := (hwork.resolved cn).retypeInto sz hs root cn payload
            (hut'.trans_le (numObjs_resolved _ cn)) htype
          refine ⟨spare', fun hsuffice => hfit fun hpool hcarves => hsuffice hpool ?_, hbooks⟩
          rw [slotsFree_resolved, slotsFree_resolved] at hcarves
          simp only [Memory.carvesBatch, hroot, hpayload, hres, hdest]
          exact hcarves
        dsimp only
        split_ifs with hdev hdest
        · exact ⟨spare, fun _ => rfl, .of_working hs hwork (hplain _)⟩
        · exact hinto root (if_pos hdest)
        have hwalks : cspaceResolveOnlyCnode (m.resolved ut).ker self root r.destCnode rightWrite =
            cspaceResolveOnlyCnode m.ker self root r.destCnode rightWrite :=
          resolveOnly_congr (sameWalks_resolved m ut)
        cases hcn : cspaceResolveOnlyCnode (m.resolved ut).ker self root r.destCnode rightWrite with
        | error e => exact ⟨spare, fun _ => rfl, .of_working hs hwork (hplain _)⟩
        | ok cn => exact hinto cn ((if_neg hdest).trans (hwalks.symm.trans hcn))

theorem sysUntypedReset (hs : ∀ u, 0 ≤ spare u) (h : Working spare m) (self : Option Cap.Task)
    (utCptr : UInt64) :
    Books spare (m.sysUntypedReset self utCptr).1 (m.sysUntypedReset self utCptr).2 := by
  unfold Memory.sysUntypedReset
  split
  · exact h.fail hs _
  split
  · exact h.fail hs _
  rename_i ut hres
  have hut := h.named_of_type (type_of_resolve hres) (by decide)
  have hwork := h.resolved ut
  have hplain : ∀ e, ∀ f ∈ Memory.unresolve ut ++ [MemCall.ret e], f.plain = true := fun e =>
    plain_append (plain_unresolve ut) (plain_ret e)
  dsimp only
  unfold KUntyped.reset
  split_ifs with hzero
  · exact .of_working hs hwork (hplain _)
  · refine .of_working hs ?_ (hplain _)
    simpa using hwork.carve (c := 0) (x := { (m.resolved ut).uts ut with
      used := 0, usedTop := 0, generation := ((m.resolved ut).uts ut).generation + 1 })
      (hut.trans_le (numObjs_resolved m ut)) ⟨rfl, rfl, rfl⟩

theorem kuntypedSetHdrBudget (h : Working spare m) {dev ram : ObjId}
    (hram : ram < m.ker.numObjs) : Working spare (m.kuntypedSetHdrBudget dev ram).1 := by
  unfold Memory.kuntypedSetHdrBudget
  split_ifs with hdev hmmio hsame hset
  · exact h
  · exact h
  · exact h
  · exact h
  have hret := h.retain ram
  have huts : ∀ v, (((m.retain ram).setUt dev { m.uts dev with hdrBudget := some ram }).uts
      v).isDevice = (m.uts v).isDevice := fun v => by
    by_cases hv : v = dev
    · subst hv
      rw [Memory.setUt_self]
    · rw [Memory.setUt_of_ne _ _ hv]
      rfl
  have hcount := hret.toLedger.count_setUt dev { m.uts dev with hdrBudget := some ram }
  refine ⟨⟨hret.lifetimes, hret.bare, fun v => ?_, hret.page, fun o v hv => ?_, hret.named,
    fun v x hx => ?_, hret.unspent⟩, hret.running⟩
  · rw [hcount v]
    simp [Memory.retain]
  · rw [huts]
    exact hret.region o v hv
  rw [huts]
  by_cases hv : v = dev
  · subst hv
    rw [Memory.setUt_self] at hx
    cases hx
    exact ⟨hram.trans_le (Touches.hold m.ker ram).moreObjs.numObjs, by simpa using hmmio⟩
  · rw [Memory.setUt_of_ne _ _ hv] at hx
    exact hret.budget v x hx

theorem sysUntypedSetDeviceBudget (hs : ∀ u, 0 ≤ spare u) (h : Working spare m)
    (self : Option Cap.Task) (devCptr ramCptr : UInt64) :
    Books spare (m.sysUntypedSetDeviceBudget self devCptr ramCptr).1
      (m.sysUntypedSetDeviceBudget self devCptr ramCptr).2 := by
  unfold Memory.sysUntypedSetDeviceBudget
  split
  · exact h.fail hs _
  split
  · exact h.fail hs _
  rename_i dev _
  have hwork := h.resolved dev
  dsimp only
  split
  · exact .of_working hs hwork (plain_append (plain_unresolve dev) (plain_ret _))
  rename_i ram hres
  have hram := hwork.named_of_type (type_of_resolve hres) (by decide)
  exact .of_working hs ((hwork.resolved ram).kuntypedSetHdrBudget
    (hram.trans_le (numObjs_resolved _ ram)))
    (plain_append (plain_append (plain_unresolve ram) (plain_unresolve dev)) (plain_ret _))

end Working

/-! ## Runs -/

namespace Books

theorem act (sz : Sizes) {a : Action} (h : Books spare m []) (hp : m.ker.panic = none) :
    ∃ spare', (m.rangesSuffice sz a → spare' = spare) ∧
      Books spare' (m.act sz a).1 (m.act sz a).2 := by
  have hwork : Working spare m := ⟨h.ledger, hp⟩
  cases a with
  | retype self asidControl r => exact hwork.sysUntypedRetype2 sz h.nonneg
  | reset self utCptr => exact ⟨spare, fun _ => rfl, hwork.sysUntypedReset h.nonneg self utCptr⟩
  | setDeviceBudget self devCptr ramCptr =>
    exact ⟨spare, fun _ => rfl, hwork.sysUntypedSetDeviceBudget h.nonneg self devCptr ramCptr⟩
  | cap a =>
    refine ⟨spare, fun _ => rfl, ?_⟩
    obtain ⟨⟨F, hw⟩, -⟩ := hwork.lifetimes.accounted.inOrder
    have hled := hwork.toLedger.setKer (hwork.lifetimes.act hp a) (act_touches hw a).moreObjs
    have hcalls := of_calls (l := []) h.nonneg hled (by simp)
    rwa [append_nil] at hcalls

end Books
end

open Finset

theorem InitialMemory.books (h : InitialMemory m) : Books 0 m [] where
  nonneg := fun _ => le_rfl
  ledger := {
    lifetimes := h.ker.lifetimes
    bare := fun o _ => h.bare o
    count := fun u => by
      have hzero : m.children u = 0 := sum_eq_zero fun o _ =>
        Memory.tally_bare (h.bare o).1 (h.bare o).2.1 (h.bare o).2.2
      rw [hzero, (h.uts u).2.2.1]
      rfl
    page := fun o u hu => by simp [(h.bare o).2.1] at hu
    region := fun o u hu => by simp [(h.bare o).2.2] at hu
    named := fun o u hu => by simp [(h.bare o).1, (h.bare o).2.2] at hu
    budget := fun u x hx => by simp [(h.uts u).2.2.2] at hx
    unspent := fun _ _ => rfl }
  last := trivial

theorem Books.runs {P : Memory → Action → Prop} {spare : ObjId → ℤ} (h₀ : Books spare m₀ [])
    (h : (system sz).Runs P m₀ as m) : ∃ spare, Books spare m [] := by
  refine h.preserves (I := fun m k => ∃ spare, Books spare m k) (fun s a hs hI _ => ?_)
    (fun s f k hs hI => ?_) (fun s f k hs hI => ?_) ⟨spare, h₀⟩
  · obtain ⟨spare, hI⟩ := hI
    obtain ⟨spare', -, hact⟩ := hI.act sz (a := a) (by simpa [system] using hs)
    exact ⟨spare', hact⟩
  · obtain ⟨spare, hI⟩ := hI
    exact ⟨spare, hI.call (by simpa [system] using hs)⟩
  · obtain ⟨spare, hI⟩ := hI
    refine ⟨spare, hI.halt fun hnone => ?_⟩
    simp [system, hnone] at hs

theorem books_of_runs {P : Memory → Action → Prop}
    (h₀ : InitialMemory m₀) (h : (system sz).Runs P m₀ as m) : ∃ spare, Books spare m [] :=
  h₀.books.runs h

theorem exact_books_of_runs
    (h₀ : InitialMemory m₀) (h : (system sz).Runs (Memory.rangesSuffice sz) m₀ as m) :
    Books 0 m [] := by
  refine h.preserves (I := Books 0) (fun s a hs hI ok => ?_) (fun s f k hs hI => ?_)
    (fun s f k hs hI => ?_) h₀.books
  · obtain ⟨spare', hsame, hact⟩ := hI.act sz (a := a) (by simpa [system] using hs)
    rwa [hsame ok] at hact
  · exact hI.call (by simpa [system] using hs)
  · refine hI.halt fun hnone => ?_
    simp [system, hnone] at hs

/-! ## Resets -/

namespace Memory

def carvedFrom (m : Memory) (u o : ObjId) : Prop := m.home o = some u ∨ m.source o = some u

instance (m : Memory) (u o : ObjId) : Decidable (m.carvedFrom u o) :=
  inferInstanceAs (Decidable (_ ∨ _))

def liveFrom (m : Memory) (u : ObjId) : Finset ObjId :=
  (Finset.range m.ker.numObjs).filter fun o => (m.ker.objs o).live = true ∧ m.carvedFrom u o

/-- The VSpaces that are alive and whose top-level page is carved from `u`. -/
def livePages (m : Memory) (u : ObjId) : Finset ObjId :=
  (Finset.range m.ker.numObjs).filter fun o => (m.ker.objs o).live = true ∧ m.pml4Pool o = some u

/-- The Untyped `u` is ordinary memory, or none of the objects made from it has died. -/
def keepsRegions (m : Memory) (u : ObjId) : Prop :=
  (m.uts u).isDevice = true → ∀ o < m.ker.numObjs, m.source o = some u → (m.ker.objs o).live = true

instance (m : Memory) (u : ObjId) : Decidable (m.keepsRegions u) :=
  inferInstanceAs (Decidable (_ → _))

end Memory

namespace Ledger
variable {m : Memory} {k : List Call} {u : ObjId}

theorem childCount_eq (h : Ledger 0 m k) (hu : m.keepsRegions u) :
    (m.uts u).childCount = (m.liveFrom u).card + (m.livePages u).card := by
  have htally : ∀ o ∈ Finset.range m.ker.numObjs, m.tally u o =
      (if (m.ker.objs o).live = true ∧ m.carvedFrom u o then 1 else 0) +
        if (m.ker.objs o).live = true ∧ m.pml4Pool o = some u then 1 else 0 := by
    intro o ho
    have hregion : m.source o = some u → m.home o ≠ some u → (m.ker.objs o).live = true :=
      fun hs hne => hu ((h.region o u hs).resolve_left hne) o (Finset.mem_range.mp ho) hs
    simp only [Memory.tally, Memory.entries, Memory.regionEntry, Memory.carvedFrom]
    by_cases hhome : m.home o = some u
    · by_cases hpool : m.pml4Pool o = some u <;> cases hl : (m.ker.objs o).live <;>
        simp [hhome, hpool]
    · have hpool : m.pml4Pool o ≠ some u := fun hp => hhome (h.page o u hp)
      by_cases hs : m.source o = some u
      · simp [hhome, hpool, hs, hregion hs hhome]
      · simp [hhome, hpool, hs]
  have hcount := h.count u
  rw [Memory.children, sum_congr rfl htally, sum_add_distrib, ← card_filter,
    ← card_filter, Pi.zero_apply, add_zero] at hcount
  exact_mod_cast hcount

theorem childCount_eq_zero (h : Ledger 0 m k) (hu : m.keepsRegions u) :
    (m.uts u).childCount = 0 ↔ ∀ o, m.carvedFrom u o → (m.ker.objs o).live = false := by
  have hpages : m.livePages u ⊆ m.liveFrom u := monotone_filter_right _ fun o _ ho =>
    ⟨ho.1, .inl (h.page o u ho.2)⟩
  rw [h.childCount_eq hu, Nat.add_eq_zero_iff, card_eq_zero, card_eq_zero]
  constructor
  · rintro ⟨hempty, -⟩ o ho
    by_contra hne
    rw [Bool.not_eq_false] at hne
    have hlt : o < m.ker.numObjs := by
      by_contra hge
      simp [(h.lifetimes.unnamed o (not_lt.mp hge)).2] at hne
    have hmem : o ∈ m.liveFrom u := Finset.mem_filter.mpr ⟨Finset.mem_range.mpr hlt, hne, ho⟩
    simp [hempty] at hmem
  · intro hdead
    have hempty : m.liveFrom u = ∅ := filter_eq_empty_iff.mpr fun o _ ho => by
      simp [hdead o ho.2] at ho
    exact ⟨hempty, subset_empty.mp (hempty ▸ hpages)⟩

end Ledger

theorem names_of_resolve (h : cspaceResolveOnly σ self root cptr required type = .ok o) :
    ∃ s, (σ.slots s).object = some o := by
  unfold cspaceResolveOnly at h
  split_ifs at h
  split at h
  · cases h
  · rename_i path r hr
    split_ifs at h
    cases h
    exact resolveCapFrom_names (cspaceResolveCapBadged_ok hr)

theorem step_reset {root u : ObjId} (h : Lifetimes m.ker []) (hp : m.ker.panic = none)
    (hroot : self.bind (·.cspaceRoot) = some root)
    (hres : cspaceResolveOnlyUntyped m.ker self root cptr rightWrite = .ok u) :
    (system sz).Step m (.reset self cptr) (match (m.uts u).reset with
      | .error e => m.returning e
      | .ok x => (m.setUt u x).returning .ok) := by
  obtain ⟨s, hs⟩ := names_of_resolve hres
  have href := h.refcount_of_slot hp hs
  have hlive := h.live_of_refcount hp href
  have htype := type_of_resolve hres
  refine ⟨Memory.halted_eq_false hp, ?_⟩
  have hact : (system sz).act m (.reset self cptr) = match (m.uts u).reset with
      | .error e => (m.resolved u, Memory.unresolve u ++ [.ret e])
      | .ok x => ((m.resolved u).setUt u x, Memory.unresolve u ++ [.ret .ok]) := by
    change m.sysUntypedReset self cptr = _
    simp only [Memory.sysUntypedReset, hroot, hres]
    rfl
  -- Whatever the reset does to the Untyped, the resolved capability is let go of.
  have hlet : ∀ (n : Memory) e, n.ker = (m.resolved u).ker → (system sz).Returns n
      (Memory.unresolve u ++ [.ret e]) (Memory.returning { n with ker := m.ker } e) := by
    intro n e hker
    have hclose : (m.ker.objs u).activeRefs = 0 → (m.ker.objs u).type ≠ .cnode := fun _ => by
      rw [htype]
      decide
    rw [Memory.returns_resolved hker hp hlive href hclose, Memory.returns_ret (by exact hp)]
    exact .done _
  rw [hact]
  cases (m.uts u).reset with
  | error e => exact hlet (m.resolved u) e rfl
  | ok x => exact hlet ((m.resolved u).setUt u x) .ok rfl

/-- If no batch of pools runs out of identifiers, the child count of an Untyped is the number of
live objects in it and their pages, and a reset succeeds exactly if there are none, where no device
object has died. -/
theorem reset_succeeds_iff {sz : Sizes} {m₀ m : Memory} {as : List Action} (h₀ : InitialMemory m₀)
    (h : (system sz).Runs (Memory.rangesSuffice sz) m₀ as m) (hp : m.ker.panic = none) {u : ObjId}
    (hu : m.keepsRegions u) :
    (m.uts u).childCount = (m.liveFrom u).card + (m.livePages u).card ∧
    ∀ self root cptr, self.bind (·.cspaceRoot) = some root →
      cspaceResolveOnlyUntyped m.ker self root cptr rightWrite = .ok u →
      ∃ m', (system sz).Step m (.reset self cptr) m' ∧
        (m'.ker.ret.err = .ok ↔ ∀ o, m.carvedFrom u o → (m.ker.objs o).live = false) ∧
        (m'.ker.ret.err = .ok → (m'.uts u).used = 0 ∧ (m'.uts u).usedTop = 0) := by
  have hled := (exact_books_of_runs h₀ h).ledger
  refine ⟨hled.childCount_eq hu, fun self root cptr hroot hres => ?_⟩
  refine ⟨_, step_reset hled.lifetimes hp hroot hres, ?_⟩
  rw [← hled.childCount_eq_zero hu, KUntyped.reset]
  split_ifs with hbusy
  · simp [Memory.returning, returning, hbusy]
  · simp [Memory.returning, returning, not_not.mp hbusy]

/-- A device Untyped, an ordinary one and a CNode of 64 slots. -/
def deviceBoard : Memory where
  ker := {
    objs := fun o => match o with
      | 0 | 1 => { type := .untyped, refcount := 1, live := true }
      | 2 => { type := .cnode, refcount := 1, activeRefs := 1, slotCount := 64, live := true }
      | _ => {}
    numObjs := 3
    held := fun o => match o with
      | 0 | 1 => { refs := 1 }
      | 2 => { refs := 1, active := 1 }
      | _ => {} }
  uts o := match o with
    | 0 => { physBase := 0xE0000000, totalSize := 0x10000, isDevice := true }
    | 1 => { physBase := 0x100000, totalSize := 0x10000 }
    | _ => {}

theorem deviceBoard_initial : InitialMemory deviceBoard where
  ker := {
    slots := fun _ => rfl
    mdb := fun _ => rfl
    quiet := ⟨rfl, rfl, rfl, rfl⟩
    fresh := fun o ho => by
      obtain ⟨n, rfl⟩ := Nat.exists_eq_add_of_le ho
      rw [Nat.add_comm]
      exact ⟨rfl, rfl⟩
    slotCount := fun o ho => by
      rcases o with _ | _ | _ | o
      · rfl
      · rfl
      · exact absurd rfl ho
      · rfl
    counts := fun o => by rcases o with _ | _ | _ | o <;> exact ⟨rfl, rfl⟩
    live := fun o => by rcases o with _ | _ | _ | o <;> simp [deviceBoard] }
  uts u := by rcases u with _ | _ | u <;> exact ⟨rfl, rfl, rfl, rfl⟩
  bare _ := ⟨rfl, rfl, rfl⟩

def boardSizes : Sizes := ⟨fun _ => 64, 64, 16⟩

/-- A thread whose CSpace is the CNode. -/
def boardTask : Option Cap.Task := some ⟨some 2, 0, 0⟩

def rightAll : Rights := rightRead ||| rightWrite ||| rightDuplicate

/-- Capabilities to both Untypeds, in slots 1 and 2. -/
def boardCaps : List Action :=
  [.cap (.installLinked 2 1 0 rightAll 0 none none true true),
    .cap (.installLinked 2 2 1 rightAll 0 none none true true)]

/-- A frame of the device and a VSpace of the ordinary memory. -/
def boardRetypes : List Action := boardCaps ++
  [.setDeviceBudget boardTask 1 2, .retype boardTask false ⟨1, .frame, 1, 0, 3, 4096⟩,
    .retype boardTask false ⟨2, .vspace, 1, 0, 4, 4096⟩]

theorem reset_succeeds_iff_boardRetypes : ∃ m,
    (system boardSizes).Runs (Memory.rangesSuffice boardSizes) deviceBoard boardRetypes m ∧
    (m.uts 0).childCount = 1 ∧ (m.uts 1).childCount = 3 ∧ (m.liveFrom 1).card = 2 ∧
    ∃ m', (system boardSizes).Step m (.reset boardTask 2) m' ∧
      (m'.ker.ret.err = .ok ↔ ∀ o, m.carvedFrom 1 o → (m.ker.objs o).live = false) := by
  obtain ⟨m, hm, hp, h₀, h₁, hlive, hkeeps, hres⟩ :
      ∃ m ∈ (system boardSizes).exec (Memory.rangesSuffice boardSizes) 64 deviceBoard boardRetypes,
        m.ker.panic = none ∧ (m.uts 0).childCount = 1 ∧ (m.uts 1).childCount = 3 ∧
        (m.liveFrom 1).card = 2 ∧ m.keepsRegions 1 ∧
        cspaceResolveOnlyUntyped m.ker boardTask 2 2 rightWrite = .ok 1 := by decide +kernel
  have hrun := ActionSystem.Runs.of_exec hm
  obtain ⟨m', hstep, hiff, -⟩ := (reset_succeeds_iff deviceBoard_initial hrun hp hkeeps).2 boardTask 2 2
    rfl hres
  exact ⟨m, hrun, h₀, h₁, hlive, m', hstep, hiff⟩

/-- A frame of the device is made and its only capability deleted. -/
def frameDies : List Action := boardCaps ++
  [.setDeviceBudget boardTask 1 2, .retype boardTask false ⟨1, .frame, 1, 0, 3, 4096⟩,
    .cap (.delete 2 3)]

/-- A batch of 32 ASID pools, for which there are 31 ranges of identifiers. -/
def poolsRunOut : List Action := boardCaps ++
  [.retype boardTask true ⟨2, .asidPool, 32, 0, 3, 0⟩]

/-- The frame is gone and the device Untyped can not be reset, and after the batch the Untyped
counts a child too many. -/
theorem frameDies_blocks_reset : InitialMemory deviceBoard ∧
    (∃ m m', (system boardSizes).Runs (fun _ _ => True) deviceBoard frameDies m ∧
      (m.liveFrom 0).card = 0 ∧ (m.uts 0).childCount = 1 ∧
      (system boardSizes).Step m (.reset boardTask 1) m' ∧ m'.ker.ret.err = .busy) ∧
    ∃ m, (system boardSizes).Runs (fun _ _ => True) deviceBoard poolsRunOut m ∧
      m.ker.ret.err = .noMemory ∧ (m.liveFrom 1).card + (m.livePages 1).card = 31 ∧
      (m.uts 1).childCount = 32 := by
  refine ⟨deviceBoard_initial, ?_, ?_⟩
  · obtain ⟨m, m', hrun, hstep, hlive, hcount, herr⟩ : ∃ m m',
        (system boardSizes).Runs (fun _ _ => True) deviceBoard frameDies m ∧
        (system boardSizes).Step m (.reset boardTask 1) m' ∧ (m.liveFrom 0).card = 0 ∧
        (m.uts 0).childCount = 1 ∧ m'.ker.ret.err = .busy :=
    ActionSystem.exists_step 64 (by decide +kernel)
    exact ⟨m, m', hrun, hlive, hcount, hstep, herr⟩
  · obtain ⟨m, hm, hprop⟩ :
        ∃ m ∈ (system boardSizes).exec (fun _ _ => True) 64 deviceBoard poolsRunOut,
          m.ker.ret.err = .noMemory ∧ (m.liveFrom 1).card + (m.livePages 1).card = 31 ∧
          (m.uts 1).childCount = 32 := by decide +kernel
    exact ⟨m, ActionSystem.Runs.of_exec hm, hprop⟩

/-- Every reference is counted, an object lives exactly as long as it is referenced, no capability
names a dead one, and no release ever finds a count of zero. -/
theorem references_are_exact {sz : Sizes} {P : Memory → Action → Prop} {m₀ m : Memory}
    {as : List Action} (h₀ : InitialMemory m₀) (h : (system sz).Runs P m₀ as m) :
    m.ker.panic ≠ some .refcountUnderflow ∧ (m.ker.panic = none → ∀ o,
      (m.ker.objs o).refcount =
        Account.refs.slots m.ker o + (m.ker.held o).refs + m.ker.cascade.count o ∧
      ((m.ker.objs o).live = true ↔ 0 < (m.ker.objs o).refcount) ∧
      ∀ s, (m.ker.slots s).object = some o → (m.ker.objs o).live = true) := by
  obtain ⟨spare, hbooks⟩ := books_of_runs h₀ h
  have hlife := hbooks.ledger.lifetimes
  refine ⟨hlife.accounted.noUnderflow, fun hp o => ⟨hlife.accounted.balanced hp o, ?_, fun s hs =>
    hlife.live_of_refcount hp (hlife.refcount_of_slot hp hs)⟩⟩
  have halive := hlife.alive hp o
  constructor
  · intro hlive
    by_contra hzero
    simp [hlive, hzero, capCalls] at halive
  · exact hlife.live_of_refcount hp

/-- The three references of the device Untyped are its capability's and two held, and the frame is
dead and in no slot. -/
theorem references_are_exact_frameDies : ∃ m,
    (system boardSizes).Runs (fun _ _ => True) deviceBoard frameDies m ∧
      m.ker.panic ≠ some .refcountUnderflow ∧
      Account.refs.slots m.ker 0 + (m.ker.held 0).refs = 3 ∧ (m.ker.objs 0).live = true ∧
      (m.ker.objs 3).live = false ∧ ∀ s, (m.ker.slots s).object ≠ some 3 := by
  obtain ⟨m, hm, hp, hcascade, hthree, hzero⟩ :
      ∃ m ∈ (system boardSizes).exec (fun _ _ => True) 64 deviceBoard frameDies,
        m.ker.panic = none ∧ m.ker.cascade = [] ∧ (m.ker.objs 0).refcount = 3 ∧
        (m.ker.objs 3).refcount = 0 := by decide +kernel
  obtain ⟨hpanic, hexact⟩ := references_are_exact deviceBoard_initial (ActionSystem.Runs.of_exec hm)
  obtain ⟨hcount, hlive, -⟩ := hexact hp 0
  obtain ⟨-, hdead, hnamed⟩ := hexact hp 3
  rw [hthree, hcascade] at hcount
  have hgone : (m.ker.objs 3).live = false := by
    rw [← Bool.not_eq_true, hdead, hzero]
    exact lt_irrefl 0
  refine ⟨m, ActionSystem.Runs.of_exec hm, hpanic, hcount.symm, ?_, hgone, fun s hs => ?_⟩
  · exact hlive.mpr (by rw [hthree]; decide)
  · exact Bool.false_ne_true (hgone.symm.trans (hnamed s hs))

end IrisOS.Untyped
