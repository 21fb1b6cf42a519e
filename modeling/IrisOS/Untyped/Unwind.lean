import IrisOS.Untyped.System

/-! How system calls let go of what they hold: the calls at their end, carried out on a state in
which nobody loses a last reference. -/
namespace IrisOS.Untyped
open Lib Cap Kernel Function List

/-- Drop a reference that is held outside the slots. -/
def dropHeld (σ : Kernel) (o : ObjId) : Kernel :=
  (σ.setHeld o fun x => { x with refs := x.refs - 1 }).setObj o
    fun x => { x with refcount := x.refcount - 1 }

/-- Drop an active reference that is held outside the slots. -/
def dropHeldActive (σ : Kernel) (o : ObjId) : Kernel :=
  (σ.setHeld o fun x => { x with active := x.active - 1 }).setObj o
    fun x => { x with activeRefs := x.activeRefs - 1 }

variable {σ : Kernel} {o : ObjId}

section

variable (hlive : (σ.objs o).live = true) (href : 1 ≤ (σ.objs o).refcount)
include hlive href

theorem hold_eq :
    σ.hold o = (σ.setObj o fun x => { x with refcount := x.refcount + 1 }).setHeld o
      fun x => { x with refs := x.refs + 1 } := by
  simp only [hold, hlive, if_true, kobjectRetain, irisAssert, if_pos href]

theorem holdActive_hold : (σ.hold o).holdActive o =
      { σ with
        objs := update σ.objs o { σ.objs o with
          refcount := (σ.objs o).refcount + 1
          activeRefs := (σ.objs o).activeRefs + 1 }
        held := update σ.held o ⟨(σ.held o).refs + 1, (σ.held o).active + 1⟩ } := by
  have hhold := hold_eq hlive href
  have hlive' : ((σ.hold o).objs o).live = true := by
    simp [hhold, setHeld, setObj, hlive]
  rw [holdActive, if_pos hlive', hhold]
  simp [setHeld, setObj, kobjectActiveRetain]

theorem dropHeld_resolved : dropHeld (dropHeldActive ((σ.hold o).holdActive o) o) o = σ := by
  rw [holdActive_hold hlive href]
  simp [dropHeld, dropHeldActive, setHeld, setObj]

end

namespace Memory
variable {sz : Sizes} {m t : Memory} {k : List MemCall} {f : Call}

theorem halted_eq_false (hp : m.ker.panic = none) : (system sz).halted m = false := by
  simp [system, hp]

theorem subject_all (hsub : ∀ o ∈ f.subject, (m.ker.objs o).live = true) :
    (f.subject.all fun o => (m.ker.objs o).live) = true := by
  cases hf : f.subject with
  | none => rfl
  | some o => exact hsub o hf

theorem performCap_eq (hsub : ∀ o ∈ f.subject, (m.ker.objs o).live = true)
    (hfreed : freed m.ker f = none) : m.performCap f =
      ({ m with ker := (m.ker.perform inertHooks f).1 },
        (m.ker.perform inertHooks f).2.map .cap) := by
  simp only [performCap, subject_all hsub, if_true, hfreed]

section

variable (hp : m.ker.panic = none)
include hp

theorem returns_cap
    (hsub : ∀ o ∈ f.subject, (m.ker.objs o).live = true) (hfreed : freed m.ker f = none) :
    (system sz).Returns m (.cap f :: k) t ↔ (system sz).Returns
      { m with ker := (m.ker.perform inertHooks f).1 }
      ((m.ker.perform inertHooks f).2.map .cap ++ k) t := by
  rw [CallMachine.Returns.cons_iff (halted_eq_false hp)]
  have hbody : (system sz).body m (.cap f) = m.performCap f := rfl
  rw [hbody, performCap_eq hsub hfreed]

section

variable (hlive : (m.ker.objs o).live = true)
include hlive

theorem returns_release
    (href : 2 ≤ (m.ker.objs o).refcount) :
    (system sz).Returns m (.cap (.release o) :: k) t ↔ (system sz).Returns
      { m with ker := m.ker.setObj o fun x => { x with refcount := x.refcount - 1 } } k t := by
  have hne : (m.ker.objs o).refcount ≠ 1 := by omega
  have hone : 1 ≤ (m.ker.objs o).refcount := by omega
  rw [returns_cap hp (fun x hx => by cases hx; exact hlive) rfl]
  simp only [Kernel.perform, Kernel.dropRefcount, Kernel.irisAssert, if_pos hone, if_neg hne,
    map_nil, nil_append]

theorem returns_heldRelease
    (href : 2 ≤ (m.ker.objs o).refcount) (hheld : (m.ker.held o).refs ≠ 0) :
    (system sz).Returns m (.cap (.heldRelease o) :: k) t ↔
      (system sz).Returns { m with ker := dropHeld m.ker o } k t := by
  rw [returns_cap hp (by simp [Call.subject]) rfl]
  simp only [Kernel.perform, if_neg hheld, map_cons, map_nil, singleton_append]
  exact returns_release (m := { m with ker := _ }) hp hlive href

section

variable (hact : 1 ≤ (m.ker.objs o).activeRefs)
  (hclose : (m.ker.objs o).activeRefs = 1 → (m.ker.objs o).type ≠ .cnode)
include hact hclose

theorem returns_activeRelease :
    (system sz).Returns m (.cap (.activeRelease o) :: k) t ↔ (system sz).Returns
      { m with ker := m.ker.setObj o fun x => { x with activeRefs := x.activeRefs - 1 } } k t := by
  rw [returns_cap hp (fun x hx => by cases hx; exact hlive) rfl]
  simp only [Kernel.perform, Kernel.dropActiveRefs, Kernel.irisAssert, if_pos hact]
  split_ifs with hlast
  · have htype := hclose hlast
    rw [map_cons, map_nil, singleton_append, returns_cap (by exact hp)
      (fun x hx => by cases hx; simpa [Kernel.setObj] using hlive) rfl]
    have hquiet : ((m.ker.setObj o fun x => { x with activeRefs := x.activeRefs - 1 }).perform
        inertHooks (.dispatchClose o)) =
        (m.ker.setObj o fun x => { x with activeRefs := x.activeRefs - 1 }, []) := by
      simp only [Kernel.perform, Kernel.kobjectDispatchClose, Kernel.setObj, update_self]
      split
      · rename_i hc
        exact absurd hc htype
      · rfl
      · rfl
      · rfl
    rw [hquiet]
    rfl
  · rfl

theorem returns_heldActiveRelease
    (hheld : (m.ker.held o).active ≠ 0) :
    (system sz).Returns m (.cap (.heldActiveRelease o) :: k) t ↔
      (system sz).Returns { m with ker := dropHeldActive m.ker o } k t := by
  rw [returns_cap hp (by simp [Call.subject]) rfl]
  simp only [Kernel.perform, if_neg hheld, map_cons, map_nil, singleton_append]
  exact returns_activeRelease (m := { m with ker := _ }) hp hlive hact hclose

end

end

theorem returns_ret (e : IrisError) :
    (system sz).Returns m (.ret e :: k) t ↔ (system sz).Returns (m.returning e) k t := by
  rw [CallMachine.Returns.cons_iff (halted_eq_false hp)]
  rfl

theorem returns_unresolve (hlive : (m.ker.objs o).live = true)
    (href : 2 ≤ (m.ker.objs o).refcount) (hact : 1 ≤ (m.ker.objs o).activeRefs)
    (hclose : (m.ker.objs o).activeRefs = 1 → (m.ker.objs o).type ≠ .cnode)
    (hheld : (m.ker.held o).refs ≠ 0 ∧ (m.ker.held o).active ≠ 0) :
    (system sz).Returns m (unresolve o ++ k) t ↔
      (system sz).Returns { m with ker := dropHeld (dropHeldActive m.ker o) o } k t := by
  unfold unresolve
  rw [cons_append, returns_heldActiveRelease hp hlive hact hclose hheld.2]
  refine returns_heldRelease (m := { m with ker := dropHeldActive m.ker o }) hp ?_ ?_ ?_
  · simpa [dropHeldActive, setObj, setHeld] using hlive
  · simpa [dropHeldActive, setObj, setHeld] using href
  · simpa [dropHeldActive, setObj, setHeld] using hheld.1

end

theorem returns_resolved (hker : m.ker = (σ.hold o).holdActive o)
    (hp : σ.panic = none) (hlive : (σ.objs o).live = true) (href : 1 ≤ (σ.objs o).refcount)
    (hclose : (σ.objs o).activeRefs = 0 → (σ.objs o).type ≠ .cnode) :
    (system sz).Returns m (unresolve o ++ k) t ↔ (system sz).Returns { m with ker := σ } k t := by
  have hback := dropHeld_resolved hlive href
  rw [← hker] at hback
  rw [holdActive_hold hlive href] at hker
  have hobj : m.ker.objs o = { σ.objs o with
      refcount := (σ.objs o).refcount + 1, activeRefs := (σ.objs o).activeRefs + 1 } := by
    simp [hker]
  have hheld : m.ker.held o = ⟨(σ.held o).refs + 1, (σ.held o).active + 1⟩ := by simp [hker]
  rw [returns_unresolve (by rw [hker]; exact hp) (by rw [hobj]; exact hlive)
    (by rw [hobj]; exact Nat.succ_le_succ href) (by rw [hobj]; exact Nat.le_add_left 1 _) ?_
    (by rw [hheld]; exact ⟨Nat.succ_ne_zero _, Nat.succ_ne_zero _⟩), hback]
  rw [hobj]
  exact fun hone => hclose (Nat.succ.inj hone)

end Memory

/-! ## References on loan -/

/-- `τ` is `σ` with more references held outside, `r` and `a` active ones, perhaps new objects and
other capabilities. -/
structure Lent (σ : Kernel) (r a : ObjId → ℕ) (τ : Kernel) : Prop where
  numObjs : σ.numObjs ≤ τ.numObjs
  objs : ∀ o < σ.numObjs, τ.objs o = { σ.objs o with
    refcount := (σ.objs o).refcount + r o, activeRefs := (σ.objs o).activeRefs + a o }
  held : ∀ o < σ.numObjs, τ.held o = ⟨(σ.held o).refs + r o, (σ.held o).active + a o⟩
  cascade : τ.cascade = σ.cascade
  running : τ.running = σ.running
  staged : τ.staged = σ.staged
  panic : τ.panic = σ.panic

namespace Lent
variable {τ υ : Kernel} {r r' a a' : ObjId → ℕ}

theorem refl (σ : Kernel) : Lent σ 0 0 σ :=
  ⟨le_rfl, fun _ _ => rfl, fun _ _ => rfl, rfl, rfl, rfl, rfl⟩

theorem trans (h1 : Lent σ r a τ) (h2 : Lent τ r' a' υ) : Lent σ (r + r') (a + a') υ where
  numObjs := h1.numObjs.trans h2.numObjs
  objs o ho := by
    rw [h2.objs o (ho.trans_le h1.numObjs), h1.objs o ho]
    simp [Nat.add_assoc]
  held o ho := by
    rw [h2.held o (ho.trans_le h1.numObjs), h1.held o ho]
    simp [Nat.add_assoc]
  cascade := h2.cascade.trans h1.cascade
  running := h2.running.trans h1.running
  staged := h2.staged.trans h1.staged
  panic := h2.panic.trans h1.panic

theorem agree (h : Lent σ r a τ) (hn : τ.numObjs ≤ υ.numObjs)
    (hobjs : ∀ o < σ.numObjs, υ.objs o = τ.objs o) (hheld : ∀ o < σ.numObjs, υ.held o = τ.held o)
    (hrest : υ.cascade = τ.cascade ∧ υ.running = τ.running ∧ υ.staged = τ.staged ∧
      υ.panic = τ.panic) : Lent σ r a υ where
  numObjs := h.numObjs.trans hn
  objs o ho := (hobjs o ho).trans (h.objs o ho)
  held o ho := (hheld o ho).trans (h.held o ho)
  cascade := hrest.1.trans h.cascade
  running := hrest.2.1.trans h.running
  staged := hrest.2.2.1.trans h.staged
  panic := hrest.2.2.2.trans h.panic

theorem hold (σ : Kernel) (hlive : (σ.objs o).live = true) (href : 1 ≤ (σ.objs o).refcount) :
    Lent σ (Pi.single o 1) 0 (σ.hold o) := by
  rw [hold_eq hlive href]
  refine ⟨le_rfl, fun x _ => ?_, fun x _ => ?_, rfl, rfl, rfl, rfl⟩
  all_goals
    rcases eq_or_ne x o with rfl | hx
    · simp [setHeld, setObj]
    · simp [setHeld, setObj, hx]

theorem resolved (σ : Kernel) (hlive : (σ.objs o).live = true) (href : 1 ≤ (σ.objs o).refcount) :
    Lent σ (Pi.single o 1) (Pi.single o 1) ((σ.hold o).holdActive o) := by
  rw [holdActive_hold hlive href]
  refine ⟨le_rfl, fun x _ => ?_, fun x _ => ?_, rfl, rfl, rfl, rfl⟩
  all_goals
    rcases eq_or_ne x o with rfl | hx
    · simp
    · simp [hx]

theorem dropHeld (h : Lent σ (r + Pi.single o 1) a τ) : Lent σ r a (dropHeld τ o) := by
  refine ⟨h.numObjs, fun x hx => ?_, fun x hx => ?_, h.cascade, h.running, h.staged, h.panic⟩
  all_goals
    rcases eq_or_ne x o with rfl | hxo
    · simp [Untyped.dropHeld, setHeld, setObj, h.objs x hx, h.held x hx]
    · simp [Untyped.dropHeld, setHeld, setObj, h.objs x hx, h.held x hx, hxo]

theorem dropHeldActive (h : Lent σ r (a + Pi.single o 1) τ) : Lent σ r a (dropHeldActive τ o) := by
  refine ⟨h.numObjs, fun x hx => ?_, fun x hx => ?_, h.cascade, h.running, h.staged, h.panic⟩
  all_goals
    rcases eq_or_ne x o with rfl | hxo
    · simp [Untyped.dropHeldActive, setHeld, setObj, h.objs x hx, h.held x hx]
    · simp [Untyped.dropHeldActive, setHeld, setObj, h.objs x hx, h.held x hx, hxo]

end Lent

/-- Without the two references of a resolver. -/
def unresolved (σ : Kernel) (o : ObjId) : Kernel := dropHeld (dropHeldActive σ o) o

section
variable {sz : Sizes} {r a : ObjId → ℕ} {m t : Memory} {k : List MemCall}

theorem Lent.unresolved {τ : Kernel} (h : Lent σ (r + Pi.single o 1) (a + Pi.single o 1) τ) :
    Lent σ r a (unresolved τ o) := h.dropHeldActive.dropHeld

theorem Lent.returns_unresolve (h : Lent σ (r + Pi.single o 1) (a + Pi.single o 1) m.ker)
    (hp : σ.panic = none) (ho : o < σ.numObjs) (hlive : (σ.objs o).live = true)
    (href : 1 ≤ (σ.objs o).refcount)
    (hclose : (σ.objs o).activeRefs = 0 → (σ.objs o).type ≠ .cnode) :
    (system sz).Returns m (Memory.unresolve o ++ k) t ↔
      (system sz).Returns { m with ker := Untyped.unresolved m.ker o } k t := by
  have hobj := h.objs o ho
  have hheld := h.held o ho
  refine Memory.returns_unresolve (h.panic.trans hp) (by rw [hobj]; exact hlive) ?_ ?_ ?_ ?_
  · simp only [hobj, Pi.add_apply, Pi.single_eq_same]
    omega
  · simp only [hobj, Pi.add_apply, Pi.single_eq_same]
    omega
  · simp only [hobj, Pi.add_apply, Pi.single_eq_same]
    exact fun hone => hclose (by omega)
  · simp [hheld]

end

/-! ## Objects that are given up -/

namespace Memory
variable {sz : Sizes} {m t : Memory} {x u : ObjId} {k : List MemCall}

/-- The loops over the slots of an object find nothing. -/
def Hollow (m : Memory) (x : ObjId) : Prop := ∀ i, m.ker.occupied (.slot x i) = false

theorem Hollow.slotDeleteLocked (h : m.Hollow x) (i : ℕ) :
    m.ker.slotDeleteLocked x i = (m.ker, none) := by
  have hnone : (m.ker.slots (.slot x i)).object = none := by
    have := h i
    simpa [occupied] using this
  simp [Kernel.slotDeleteLocked, hnone]

theorem Hollow.returns_emptySlots (h : m.Hollow x) (hp : m.ker.panic = none)
    (hlive : (m.ker.objs x).live = true) (i : ℕ) :
    (system sz).Returns m (.cap (.emptySlots x i) :: k) t ↔ (system sz).Returns m k t := by
  -- By induction on the number of slots that are left.
  induction hn : (m.ker.objs x).slotCount - i generalizing i with
  | zero =>
    have hge : ¬ i < (m.ker.objs x).slotCount := by omega
    rw [returns_cap hp (fun o ho => by cases ho; exact hlive) rfl]
    simp [Kernel.perform, hge]
  | succ n ih =>
    have hlt : i < (m.ker.objs x).slotCount := by omega
    rw [returns_cap hp (fun o ho => by cases ho; exact hlive) rfl, ← ih (i + 1) (by omega)]
    simp [Kernel.perform, hlt, h.slotDeleteLocked, Kernel.dropOldCalls]

theorem Hollow.returns_objDestroy (h : m.Hollow x) (hp : m.ker.panic = none)
    (hlive : (m.ker.objs x).live = true) (i : ℕ) (hi : i ≤ (m.ker.objs x).slotCount) :
    (system sz).Returns m (.cap (.objDestroy x i) :: k) t ↔
      (system sz).Returns m (.cap (.objDestroy x (m.ker.objs x).slotCount) :: k) t := by
  induction hn : (m.ker.objs x).slotCount - i generalizing i with
  | zero =>
    have heq : i = (m.ker.objs x).slotCount := by omega
    rw [heq]
  | succ n ih =>
    have hlt : i < (m.ker.objs x).slotCount := by omega
    rw [returns_cap hp (fun o ho => by cases ho; exact hlive) (by simp [freed, hlt]),
      ← ih (i + 1) hlt (by omega)]
    simp [Kernel.perform, hlt, h.slotDeleteLocked, Kernel.dropOldCalls]

theorem returns_freed (hp : m.ker.panic = none)
    (hsub : ∀ o ∈ f.subject, (m.ker.objs o).live = true) (hfreed : freed m.ker f = some x) :
    (system sz).Returns m (.cap f :: k) t ↔ (system sz).Returns
      (({ m with ker := (m.ker.perform inertHooks f).1 } : Memory).giveBack x).1
      ((m.ker.perform inertHooks f).2.map .cap ++
        (({ m with ker := (m.ker.perform inertHooks f).1 } : Memory).giveBack x).2 ++ k) t := by
  have hbody : (system sz).body m (.cap f) = m.performCap f := rfl
  rw [CallMachine.Returns.cons_iff (halted_eq_false hp), hbody]
  simp only [performCap, subject_all hsub, if_true, hfreed]

/-- The kernel once the storage of an object has gone. -/
def ended (σ : Kernel) (x : ObjId) : Kernel :=
  { σ with
    objs := update σ.objs x { σ.objs x with live := false }
    stats := if (σ.objs x).type = .cnode
      then { σ.stats with kcnodeLive := σ.stats.kcnodeLive - 1 } else σ.stats }

theorem returns_dispatchDestroy (hp : m.ker.panic = none) (hlive : (m.ker.objs x).live = true)
    (htype : (m.ker.objs x).type ≠ .reserved) (hhollow : m.Hollow x) :
    (system sz).Returns m (.cap (.dispatchDestroy x) :: k) t ↔ (system sz).Returns
      (({ m with ker := ended m.ker x } : Memory).giveBack x).1
      ((({ m with ker := ended m.ker x } : Memory).giveBack x).2 ++ k) t := by
  have hsub : ∀ f : Call, f.subject = some x → ∀ o ∈ f.subject, (m.ker.objs o).live = true := by
    intro f hf o ho
    rw [hf] at ho
    cases ho
    exact hlive
  rw [returns_cap hp (hsub _ rfl) rfl]
  by_cases hcnode : (m.ker.objs x).type = .cnode
  · have hcalls : m.ker.perform inertHooks (.dispatchDestroy x) = (m.ker, [.objDestroy x 0]) := by
      simp only [Kernel.perform, Kernel.kobjectDispatchDestroy, hcnode]
    have hfreed : freed m.ker (.objDestroy x (m.ker.objs x).slotCount) = some x := by simp [freed]
    have hend : m.ker.perform inertHooks (.objDestroy x (m.ker.objs x).slotCount) =
        (ended m.ker x, []) := by
      simp [Kernel.perform, ended, hcnode, Kernel.kobjectStorageFree, Kernel.setStats, Kernel.setObj]
    rw [hcalls, map_cons, map_nil, singleton_append,
      hhollow.returns_objDestroy hp hlive 0 (Nat.zero_le _), returns_freed hp (hsub _ rfl) hfreed, hend]
    rfl
  · have hcalls : m.ker.perform inertHooks (.dispatchDestroy x) = (m.ker, [.storageFree x]) := by
      simp only [Kernel.perform, Kernel.kobjectDispatchDestroy]
      rfl
    have hend : m.ker.perform inertHooks (.storageFree x) = (ended m.ker x, []) := by
      simp [Kernel.perform, ended, hcnode, Kernel.kobjectStorageFree, Kernel.setObj]
    rw [hcalls, map_cons, map_nil, singleton_append,
      returns_freed (x := x) hp (hsub _ rfl) rfl, hend]
    rfl

/-- A new object `x` in a block of `u` that only its creator holds. -/
structure Newborn (m : Memory) (x u : ObjId) : Prop where
  live : (m.ker.objs x).live = true
  refcount : (m.ker.objs x).refcount = 1
  type : (m.ker.objs x).type ≠ .reserved ∧ (m.ker.objs x).type ≠ .untyped
  held : (m.ker.held x).refs = 1
  hollow : m.Hollow x
  home : m.home x = some u
  pool : m.pml4Pool x = none

/-- The object has died and its block has gone back. -/
def buried (m : Memory) (x u : ObjId) : Memory :=
  { m with
    ker := dropHeld (ended (dropHeld m.ker x) x) u
    uts := update m.uts u (m.uts u).kuntypedReleaseChild }

theorem Newborn.returns_heldRelease (h : m.Newborn x u) (hp : m.ker.panic = none) (hux : u ≠ x)
    (hlive : (m.ker.objs u).live = true) (href : 2 ≤ (m.ker.objs u).refcount)
    (hheld : (m.ker.held u).refs ≠ 0) :
    (system sz).Returns m (.cap (.heldRelease x) :: k) t ↔
      (system sz).Returns (m.buried x u) k t := by
  have hlast : (m.ker.held x).refs ≠ 0 := by
    rw [h.held]
    decide
  have hrelease : (m.ker.setHeld x fun y => { y with refs := y.refs - 1 }).perform inertHooks
      (.release x) = (dropHeld m.ker x, [.dispatchDestroy x]) := by
    have hone : ((m.ker.setHeld x fun y => { y with refs := y.refs - 1 }).objs x).refcount = 1 :=
      h.refcount
    simp only [Kernel.perform, Kernel.dropRefcount, Kernel.irisAssert, hone, le_refl, if_true,
      dropHeld]
  have hobj : (dropHeld m.ker x).objs x = { m.ker.objs x with
      refcount := (m.ker.objs x).refcount - 1 } := by
    simp [dropHeld, setObj, setHeld]
  rw [returns_cap hp (by simp [Call.subject]) rfl]
  simp only [Kernel.perform, if_neg hlast, map_cons, map_nil, singleton_append]
  rw [returns_cap (by exact hp) (fun o ho => by cases ho; exact h.live) rfl, hrelease,
    map_cons, map_nil, singleton_append,
    returns_dispatchDestroy (m := { m with ker := dropHeld m.ker x }) hp (by rw [hobj]; exact h.live)
      (by rw [hobj]; exact h.type.1) h.hollow]
  -- The block goes back to its Untyped, which loses a reference.
  have htype : ((ended (dropHeld m.ker x) x).objs x).type ≠ .untyped := by
    simpa [ended, hobj] using h.type.2
  have hgive : ({ m with ker := ended (dropHeld m.ker x) x } : Memory).giveBack x =
      (({ m with ker := ended (dropHeld m.ker x) x } : Memory).setUt u
        (m.uts u).kuntypedReleaseChild, [.cap (.heldRelease u)]) := by
    simp [giveBack, releaseChild, h.pool, h.home, setUt, htype]
  rw [hgive, singleton_append]
  refine Memory.returns_heldRelease (by exact hp) ?_ ?_ ?_
  · simpa [setUt, ended, dropHeld, setObj, setHeld, hux] using hlive
  · simpa [setUt, ended, dropHeld, setObj, setHeld, hux] using href
  · simpa [setUt, ended, dropHeld, setObj, setHeld, hux] using hheld

theorem Hollow.returns_dispatchClose (h : m.Hollow x) (hp : m.ker.panic = none)
    (hlive : (m.ker.objs x).live = true) (htype : (m.ker.objs x).type = .cnode)
    (hidle : m.ker.cascade = [] ∧ m.ker.running = false) :
    (system sz).Returns m (.cap (.dispatchClose x) :: k) t ↔ (system sz).Returns m k t := by
  have hclose : m.ker.perform inertHooks (.dispatchClose x) = ({ m.ker with running := true },
      [.emptySlots x 0, .cascadeDrain (irisCascadeSlice - 1) 0]) := by
    simp [Kernel.perform, Kernel.kobjectDispatchClose, htype, Kernel.kcnodeCascade, hidle.2]
  have hdrain : ({ m.ker with running := true } : Kernel).perform inertHooks
      (.cascadeDrain (irisCascadeSlice - 1) 0) = (m.ker, []) := by
    have hstop : { m.ker with running := false } = m.ker := by
      rw [← hidle.2]
    simp only [Kernel.perform, Kernel.cascadeDrain, hidle.1]
    exact congrArg (·, []) (hidle.1 ▸ hstop)
  have hhollow : ({ m with ker := { m.ker with running := true } } : Memory).Hollow x := h
  rw [returns_cap hp (fun o ho => by cases ho; exact hlive) rfl, hclose]
  simp only [map_cons, map_nil, cons_append, nil_append]
  rw [hhollow.returns_emptySlots (by exact hp) hlive,
    returns_cap (by exact hp) (by simp [Call.subject]) rfl, hdrain]
  rfl

theorem returns_undo (hp : m.ker.panic = none) (hlive : (m.ker.objs x).live = true)
    (href : 1 ≤ (m.ker.objs x).refcount) (hact : (m.ker.objs x).activeRefs = 0)
    (hhollow : m.Hollow x) {cn : ObjId} (hcn : x ≠ cn)
    (hidle : (m.ker.objs x).type = .cnode → m.ker.cascade = [] ∧ m.ker.running = false)
    (e : IrisError) :
    (system sz).Returns { m with ker := (m.ker.takeRefs cn x).returning e }
        ((Kernel.dropRefsCalls cn x).map .cap ++ k) t ↔
      (system sz).Returns { m with ker := m.ker.returning e } k t := by
  have htake := takeRefs_eq href hcn
  have hcalls : dropRefsCalls cn x = [.activeRelease x, .release x] := by
    simp [dropRefsCalls, hcn]
  -- The state between the two releases.
  let n : Memory := { m with ker := (m.ker.setObj x fun y =>
    { y with refcount := y.refcount + 1 }).returning e }
  have hobj : n.ker.objs x = { m.ker.objs x with refcount := (m.ker.objs x).refcount + 1 } := by
    simp [n, Kernel.returning, Kernel.setObj]
  have hmid : (system sz).Returns { m with ker := (m.ker.takeRefs cn x).returning e }
      (.cap (.activeRelease x) :: .cap (.release x) :: k) t ↔
        (system sz).Returns n (.cap (.release x) :: k) t := by
    rw [htake]
    by_cases htype : (m.ker.objs x).type = .cnode
    · have hhollow' : n.Hollow x := hhollow
      rw [returns_cap (by exact hp)
        (fun o ho => by cases ho; simpa [Kernel.returning, Kernel.setObj] using hlive) rfl]
      have hdrop : ((m.ker.setObj x fun y => { y with
          refcount := y.refcount + 1, activeRefs := y.activeRefs + 1 }).returning e).perform inertHooks
          (.activeRelease x) = (n.ker, [.dispatchClose x]) := by
        simp [Kernel.perform, Kernel.dropActiveRefs, Kernel.irisAssert, Kernel.returning,
          setObj, n, hact]
      rw [hdrop, map_cons, map_nil, singleton_append]
      exact hhollow'.returns_dispatchClose hp (by rw [hobj]; exact hlive) (by rw [hobj]; exact htype)
        (hidle htype)
    · rw [returns_activeRelease (by exact hp) (by simpa [Kernel.returning, Kernel.setObj] using hlive)
        (by simp [Kernel.returning, Kernel.setObj])
        (by simpa [Kernel.returning, Kernel.setObj] using fun _ => htype)]
      have hback : ((m.ker.setObj x fun y => { y with
          refcount := y.refcount + 1, activeRefs := y.activeRefs + 1 }).returning e).setObj x
          (fun y => { y with activeRefs := y.activeRefs - 1 }) = n.ker := by
        simp [Kernel.returning, Kernel.setObj, n]
      rw [hback]
  rw [hcalls, map_cons, map_cons, map_nil, cons_append, singleton_append,
    hmid, returns_release (by exact hp) (by rw [hobj]; exact hlive)
      (by rw [hobj]; exact Nat.succ_le_succ href)]
  have hback : n.ker.setObj x (fun y => { y with refcount := y.refcount - 1 }) =
      m.ker.returning e := by
    simp [n, Kernel.returning, Kernel.setObj]
  rw [hback]

end Memory
end IrisOS.Untyped
