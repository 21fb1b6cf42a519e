import IrisOS.Cap.Lifetime
import IrisOS.Untyped.System

/-! The child counts of the Untypeds as a ledger. Every entry belongs to an object: its header's and
its top-level page's go with it, that of a region in device memory is never taken back. -/
namespace IrisOS.Untyped
open Cap Kernel Function Finset Memory

namespace Memory

/-- The child entries in `u` that an object takes with it when it goes. -/
def entries (m : Memory) (u o : ObjId) : ℕ :=
  (m.home o = some u : Bool).toNat + (m.pml4Pool o = some u : Bool).toNat

/-- The child entry in `u` of the region of an object whose header is elsewhere. -/
def regionEntry (m : Memory) (u o : ObjId) : ℕ :=
  (m.source o = some u ∧ m.home o ≠ some u : Bool).toNat

/-- The share of `o` in the count of `u`: its own entries as long as it lives, that of its region
for good. -/
def tally (m : Memory) (u o : ObjId) : ℕ :=
  (if (m.ker.objs o).live then m.entries u o else 0) + m.regionEntry u o

/-- The entries of all objects that count on `u`. -/
def children (m : Memory) (u : ObjId) : ℕ := ∑ o ∈ Finset.range m.ker.numObjs, m.tally u o

/-- Only the liveness of an object and the three Untypeds it names matter to its entries. -/
theorem tally_congr {m m' : Memory} {u o : ObjId}
    (hlive : (m'.ker.objs o).live = (m.ker.objs o).live) (hhome : m'.home o = m.home o)
    (hpool : m'.pml4Pool o = m.pml4Pool o) (hsource : m'.source o = m.source o) :
    m'.tally u o = m.tally u o := by
  simp only [tally, entries, regionEntry, hlive, hhome, hpool, hsource]

theorem tally_bare {m : Memory} {u o : ObjId} (hhome : m.home o = none)
    (hpool : m.pml4Pool o = none) (hsource : m.source o = none) : m.tally u o = 0 := by
  simp [tally, entries, regionEntry, hhome, hpool, hsource]

theorem children_add {m m' : Memory} {u x : ObjId} {c : ℕ} (hx : x < m.ker.numObjs)
    (hn : m'.ker.numObjs = m.ker.numObjs)
    (h : ∀ o, m'.tally u o = m.tally u o + if o = x then c else 0) :
    m'.children u = m.children u + c := by
  have hmem : x ∈ range m.ker.numObjs := mem_range.mpr hx
  simp only [children, hn, h, sum_add_distrib, sum_ite_eq', hmem, if_true]

end Memory

/-- What objects there are and where; the child counts are those of the objects and the entries in
`spare`. -/
structure Ledger (spare : ObjId → ℤ) (m : Memory) (k : List Call) : Prop where
  lifetimes : Lifetimes m.ker k
  bare : ∀ o, m.ker.numObjs ≤ o → m.home o = none ∧ m.pml4Pool o = none ∧ m.source o = none
  count : ∀ u, ((m.uts u).childCount : ℤ) = m.children u + spare u
  page : ∀ o u, m.pml4Pool o = some u → m.home o = some u
  region : ∀ o u, m.source o = some u → m.home o = some u ∨ (m.uts u).isDevice = true
  named : ∀ o u, m.home o = some u ∨ m.source o = some u → u < m.ker.numObjs
  budget : ∀ u h, (m.uts u).hdrBudget = some h →
    h < m.ker.numObjs ∧ (m.uts h).isDevice = false
  unspent : ∀ u, m.ker.numObjs ≤ u → spare u = 0

/-- The same while an entry point is at work and no calls wait. -/
structure Working (spare : ObjId → ℤ) (m : Memory) : Prop extends Ledger spare m [] where
  running : m.ker.panic = none

namespace Ledger
variable {spare : ObjId → ℤ} {m : Memory} {k : List Call} {type : KObjType} {x : KUntyped}
  {hd src : ObjId}

/-- The kernel's half may move on as long as no object is forgotten or freed. -/
theorem setKer {σ : Kernel} {l : List Call} (h : Ledger spare m k) (hl : Lifetimes σ l)
    (hobjs : MoreObjs m.ker σ) : Ledger spare { m with ker := σ } l where
  lifetimes := hl
  bare o ho := h.bare o (hobjs.numObjs.trans ho)
  count u := by
    have hmore : ({ m with ker := σ } : Memory).children u = m.children u := by
      refine (sum_subset (range_subset_range.mpr hobjs.numObjs) fun o _ ho => ?_).symm.trans
        (sum_congr rfl fun o ho => ?_)
      · obtain ⟨hhome, hpool, hsource⟩ := h.bare o (not_lt.mp fun hlt => ho (mem_range.mpr hlt))
        exact tally_bare hhome hpool hsource
      · exact tally_congr (hobjs.live o (mem_range.mp ho)) rfl rfl rfl
    rw [hmore]
    exact h.count u
  page := h.page
  region := h.region
  named o u hu := (h.named o u hu).trans_le hobjs.numObjs
  budget u x hx := ⟨(h.budget u x hx).1.trans_le hobjs.numObjs, (h.budget u x hx).2⟩
  unspent u hu := h.unspent u (hobjs.numObjs.trans hu)

/-- A change of the stored count is a change of what is spare. -/
theorem count_setUt (h : Ledger spare m k) (u : ObjId) (x : KUntyped) (v : ObjId) :
    (((m.setUt u x).uts v).childCount : ℤ) = (m.setUt u x).children v +
      (spare + Pi.single u ((x.childCount : ℤ) - (m.uts u).childCount) : ObjId → ℤ) v := by
  have hcount := h.count v
  change _ = (m.children v : ℤ) + _
  by_cases hv : v = u
  · subst hv
    simp only [setUt, update_self, Pi.add_apply, Pi.single_eq_same]
    omega
  · simp only [setUt, update_of_ne hv, Pi.add_apply, Pi.single_eq_of_ne hv, add_zero]
    exact hcount

variable {u : ObjId}

theorem setUt (h : Ledger spare m k) (hu : u < m.ker.numObjs ∨ x.childCount = (m.uts u).childCount)
    (hdev : x.isDevice = (m.uts u).isDevice) (hbudget : x.hdrBudget = (m.uts u).hdrBudget) :
    Ledger (spare + Pi.single u ((x.childCount : ℤ) - (m.uts u).childCount)) (m.setUt u x) k := by
  have hsame : ∀ v, ((m.setUt u x).uts v).isDevice = (m.uts v).isDevice ∧
      ((m.setUt u x).uts v).hdrBudget = (m.uts v).hdrBudget := fun v => by
    by_cases hv : v = u
    · subst hv
      simp [setUt, hdev, hbudget]
    · simp [Memory.setUt, hv]
  refine ⟨h.lifetimes, h.bare, h.count_setUt u x, h.page, fun o v hv => ?_, h.named,
    fun v x hx => ?_, fun v hv => ?_⟩
  · rw [(hsame v).1]
    exact h.region o v hv
  · rw [(hsame v).2] at hx
    rw [(hsame x).1]
    exact h.budget v x hx
  · rw [Pi.add_apply, h.unspent v hv, zero_add]
    rcases hu with hu | hu
    · exact Pi.single_eq_of_ne (hu.trans_le hv).ne' _
    · rw [hu, sub_self, Pi.single_zero, Pi.zero_apply]

theorem children_unnamed (h : Ledger spare m k) (hu : m.ker.numObjs ≤ u) : m.children u = 0 := by
  have hne : ∀ o, m.home o ≠ some u ∧ m.source o ≠ some u := fun o =>
    ⟨fun ho => absurd (h.named o u (.inl ho)) (not_lt.mpr hu),
      fun ho => absurd (h.named o u (.inr ho)) (not_lt.mpr hu)⟩
  refine sum_eq_zero fun o _ => ?_
  have hpool : m.pml4Pool o ≠ some u := fun ho => (hne o).1 (h.page o u ho)
  simp [tally, entries, regionEntry, hne o, hpool]

/-- An Untyped record behind no object yet is nobody's count. -/
theorem setUt_unnamed (h : Ledger spare m k)
    (hu : m.ker.numObjs ≤ u) (hcount : x.childCount = 0) (hbudget : x.hdrBudget = none) :
    Ledger spare (m.setUt u x) k := by
  have hold : ((m.uts u).childCount : ℤ) = 0 := by
    rw [h.count, h.children_unnamed hu, h.unspent u hu]
    rfl
  have hcounts := h.count_setUt u x
  rw [hcount, hold, Nat.cast_zero, sub_zero, Pi.single_zero, add_zero] at hcounts
  have hne : ∀ v < m.ker.numObjs, v ≠ u := fun v hv hvu => absurd (hvu ▸ hv) (not_lt.mpr hu)
  refine ⟨h.lifetimes, h.bare, hcounts, h.page, fun o v hv => ?_, h.named, fun v y hy => ?_,
    h.unspent⟩
  · have hvu := hne v (h.named o v (.inr hv))
    simp only [Memory.setUt, update_of_ne hvu]
    exact h.region o v hv
  by_cases hv : v = u
  · subst hv
    simp [Memory.setUt, hbudget] at hy
  simp only [Memory.setUt, update_of_ne hv] at hy
  obtain ⟨hlt, hram⟩ := h.budget v y hy
  refine ⟨hlt, ?_⟩
  simp only [Memory.setUt, update_of_ne (hne y hlt)]
  exact hram

/-- A new object uses up what was spare at its header's Untyped, and at its region's if that is
another one. -/
theorem addObject (h : Ledger spare m []) {n : ℕ}
    (hl : Lifetimes (m.addObject type n hd src).ker []) (hhd : hd < m.ker.numObjs)
    (hsrc : src < m.ker.numObjs) (hregion : hd = src ∨ (m.uts src).isDevice = true) :
    Ledger (spare - Pi.single hd 1 - if src = hd then 0 else Pi.single src 1)
      (m.addObject type n hd src) [] := by
  have hnum := m.numObjs_addObject type n hd src
  have hlive := m.live_addObject type n hd src
  have hhome : ∀ o, (m.addObject type n hd src).home o =
      if o = m.ker.numObjs then some hd else m.home o := fun o => by
    simp [Memory.addObject, update_apply]
  have hsource : ∀ o, (m.addObject type n hd src).source o =
      if o = m.ker.numObjs then some src else m.source o := fun o => by
    simp [Memory.addObject, update_apply]
  refine ⟨hl, fun o ho => ?_, fun u => ?_, fun o u hu => ?_, fun o u hu => ?_, fun o u hu => ?_,
    fun u x hx => ?_, fun u hu => ?_⟩
  · rw [hnum] at ho
    have hne : o ≠ m.ker.numObjs := (Nat.lt_of_succ_le ho).ne'
    rw [hhome, hsource, if_neg hne, if_neg hne]
    exact h.bare o (Nat.le_of_succ_le ho)
  · have hold : ∀ o ∈ range m.ker.numObjs,
        (m.addObject type n hd src).tally u o = m.tally u o := fun o ho => by
      have hne : o ≠ m.ker.numObjs := (mem_range.mp ho).ne
      exact tally_congr (by rw [hlive, if_neg hne]) (by rw [hhome, if_neg hne]) rfl
        (by rw [hsource, if_neg hne])
    have hpool : (m.addObject type n hd src).pml4Pool m.ker.numObjs = none := (h.bare _ le_rfl).2.1
    have hnew : (m.addObject type n hd src).tally u m.ker.numObjs =
        (hd = u : Bool).toNat + (src = u ∧ hd ≠ u : Bool).toNat := by
      simp [tally, entries, regionEntry, hlive, hhome, hsource, hpool]
    have hcount := h.count u
    change ((m.uts u).childCount : ℤ) = _
    rw [children, hnum, sum_range_succ, sum_congr rfl hold, hnew]
    change (_ : ℤ) = ((m.children u + _ : ℕ) : ℤ) + _
    by_cases hu : u = hd
    · subst hu
      by_cases hs : src = u
      · simp [hs]
        omega
      · simp [hs, Ne.symm hs]
        omega
    · by_cases hs : src = hd
      · simp [hs, hu, Ne.symm hu]
        omega
      by_cases hus : u = src
      · subst hus
        simp [hu, Ne.symm hu]
        omega
      · simp [hs, hu, Ne.symm hu, hus, Ne.symm hus]
        omega
  · have hpool : m.pml4Pool o = some u := hu
    have hne : o ≠ m.ker.numObjs := fun ho => by simp [(h.bare o ho.ge).2.1] at hpool
    rw [hhome, if_neg hne]
    exact h.page o u hpool
  · rw [hsource] at hu
    rw [hhome]
    split_ifs at hu ⊢ with ho
    · cases hu
      exact hregion.imp_left (congrArg some)
    · exact h.region o u hu
  · rw [hhome, hsource] at hu
    rw [hnum]
    split_ifs at hu with ho
    · rcases hu with hu | hu
      · cases hu
        exact Nat.lt_succ_of_lt hhd
      · cases hu
        exact Nat.lt_succ_of_lt hsrc
    · exact Nat.lt_succ_of_lt (h.named o u hu)
  · rw [hnum]
    exact ⟨Nat.lt_succ_of_lt (h.budget u x hx).1, (h.budget u x hx).2⟩
  · rw [hnum] at hu
    have hle := Nat.le_of_succ_le hu
    have h1 : u ≠ hd := (hhd.trans_le hle).ne'
    have h2 : u ≠ src := (hsrc.trans_le hle).ne'
    split_ifs
    · simp [h.unspent u hle, h1]
    · simp [h.unspent u hle, h1, h2]

/-- The page table pool of an address space is one more entry. -/
theorem setPool (h : Ledger spare m k) {o u : ObjId} (ho : o < m.ker.numObjs)
    (hlive : (m.ker.objs o).live = true) (hnone : m.pml4Pool o = none)
    (hhome : m.home o = some u) : Ledger (spare - Pi.single u 1)
      { m with pml4Pool := update m.pml4Pool o (some u) } k := by
  refine ⟨h.lifetimes, fun x hx => ?_, fun v => ?_, fun x v hv => ?_, h.region, h.named, h.budget,
    fun v hv => ?_⟩
  · have hne : x ≠ o := (ho.trans_le hx).ne'
    simpa [hne] using h.bare x hx
  · have hadd : ({ m with pml4Pool := update m.pml4Pool o (some u) } : Memory).children v =
        m.children v + (u = v : Bool).toNat := by
      refine children_add ho rfl fun x => ?_
      by_cases hx : x = o
      · subst hx
        simp [tally, entries, regionEntry, hlive, hnone]
        omega
      · simp [tally, entries, regionEntry, hx]
    rw [hadd]
    have hcount := h.count v
    by_cases hv : v = u
    · simp [hv] at hcount ⊢
      omega
    · simp [hv, Ne.symm hv] at hcount ⊢
      omega
  · by_cases hx : x = o
    · subst hx
      simp only [update_self, Option.some.injEq] at hv
      exact hv ▸ hhome
    · simp only [update_of_ne hx] at hv
      exact h.page x v hv
  · have hne : v ≠ u := ((h.named o u (.inl hhome)).trans_le hv).ne'
    simp [h.unspent v hv, hne]

/-! ## Calls -/

/-- The entries of a freed object are spare until they are given back. -/
theorem setKer_freed {σ : Kernel} {l : List Call} {x : ObjId} (h : Ledger spare m k)
    (hl : Lifetimes σ l) (hn : σ.numObjs = m.ker.numObjs) (hx : (m.ker.objs x).live = true)
    (hlive : ∀ o, (σ.objs o).live = ((m.ker.objs o).live && !decide (o = x))) :
    Ledger (fun u => spare u + m.entries u x) { m with ker := σ } l := by
  have hlt : x < m.ker.numObjs := by
    by_contra hge
    simp [(h.lifetimes.unnamed x (not_lt.mp hge)).2] at hx
  refine ⟨hl, fun o ho => h.bare o (hn ▸ ho), fun u => ?_, h.page, h.region,
    fun o u hu => hn ▸ h.named o u hu, fun u y hy => hn ▸ h.budget u y hy, fun u hu => ?_⟩
  · have hless : m.children u = ({ m with ker := σ } : Memory).children u + m.entries u x := by
      refine children_add (hn ▸ hlt) hn.symm fun o => ?_
      by_cases ho : o = x
      · subst ho
        simp [tally, hlive, hx, entries, regionEntry]
        omega
      · simp [tally, hlive, ho, entries, regionEntry]
    have hcount := h.count u
    rw [hcount, hless]
    push_cast
    ring
  · have hhome : m.home x ≠ some u := fun hh =>
      absurd (h.named x u (.inl hh)) (not_lt.mpr (hn ▸ hu))
    have hpool : m.pml4Pool x ≠ some u := fun hh => hhome (h.page x u hh)
    simp [h.unspent u (hn ▸ hu), entries, hhome, hpool]

/-- Giving one child back uses up what is spare; the guard against underflow does not bite. -/
theorem releaseChild (h : Ledger spare m k) {x : Option ObjId} (hx : ∀ u ∈ x, 1 ≤ spare u) :
    Ledger (fun u => spare u - (x = some u : Bool).toNat) (m.releaseChild x).1 k := by
  cases x with
  | none => simpa [Memory.releaseChild] using h
  | some u =>
    have hlt : u < m.ker.numObjs := by
      by_contra hge
      have hone := hx u rfl
      rw [h.unspent u (not_lt.mp hge)] at hone
      omega
    have hset := h.setUt (x := (m.uts u).kuntypedReleaseChild) (.inl hlt) rfl rfl
    have hpos : (1 : ℤ) ≤ (m.uts u).childCount := by
      have hcount := h.count u
      have hone := hx u rfl
      omega
    have hspare : (spare + Pi.single u ((((m.uts u).kuntypedReleaseChild.childCount : ℕ) : ℤ) -
        (m.uts u).childCount) : ObjId → ℤ) = fun v => spare v - (some u = some v : Bool).toNat := by
      funext v
      by_cases hv : v = u
      · subst hv
        simp [KUntyped.kuntypedReleaseChild]
        omega
      · simp [hv, Ne.symm hv]
    rw [hspare] at hset
    exact hset

theorem releaseChild_ker (m : Memory) (x : Option ObjId) : (m.releaseChild x).1.ker = m.ker ∧
    (m.releaseChild x).1.home = m.home := by
  cases x <;> exact ⟨rfl, rfl⟩

/-- The releases of a dead object give back all of its entries. -/
theorem giveBack {x : ObjId} (hspare : ∀ u, 0 ≤ spare u)
    (h : Ledger (fun u => spare u + m.entries u x) m k) : Ledger spare (m.giveBack x).1 k := by
  have hpage := h.releaseChild (x := m.pml4Pool x) fun u hu => by
    rw [Option.mem_def] at hu
    have hpos := hspare u
    simp only [entries, hu, decide_true, Bool.toNat_true]
    omega
  have hblock := hpage.releaseChild (x := m.home x) fun u hu => by
    rw [Option.mem_def] at hu
    have hpos := hspare u
    simp only [entries, hu, decide_true, Bool.toNat_true]
    omega
  have hback : (fun u => spare u + (m.entries u x : ℤ) - (m.pml4Pool x = some u : Bool).toNat -
      (m.home x = some u : Bool).toNat) = spare := by
    funext u
    simp only [entries]
    omega
  rw [hback] at hblock
  unfold Memory.giveBack
  dsimp only
  rw [(releaseChild_ker m (m.pml4Pool x)).2]
  exact hblock

end Ledger

/-! ## Entry points at work -/

namespace Working
variable {spare : ObjId → ℤ} {m : Memory} {u : ObjId}

section

variable (h : Working spare m)
include h

theorem named_of_live (hu : (m.ker.objs u).live = true) : u < m.ker.numObjs := by
  by_contra hge
  simp [(h.lifetimes.unnamed u (not_lt.mp hge)).2] at hu

theorem hold (o : ObjId) : Working spare { m with ker := m.ker.hold o } := by
  refine ⟨h.setKer (h.lifetimes.act h.running (.hold o)) (Touches.hold _ o).moreObjs, ?_⟩
  unfold Kernel.hold
  split_ifs with hlive
  · have hpos : 0 < (m.ker.objs o).refcount := by
      have halive := h.lifetimes.alive h.running o
      by_contra hzero
      simp [hlive, hzero] at halive
    simp [setHeld, kobjectRetain, irisAssert, Nat.succ_le_of_lt hpos,
      setObj, h.running]
  · exact h.running

theorem holdActive (o : ObjId) : Working spare { m with ker := m.ker.holdActive o } := by
  refine ⟨h.setKer (h.lifetimes.act h.running (.holdActive o)) (Touches.holdActive _ o).moreObjs, ?_⟩
  unfold Kernel.holdActive
  split_ifs
  · exact h.running
  · exact h.running

/-- References and spare children are independent of each other. -/
theorem retain (o : ObjId) : Working spare (m.retain o) := h.hold o

theorem resolved (o : ObjId) : Working spare (m.resolved o) :=
  (h.hold o).holdActive o

theorem retain_iterate (o : ObjId) (n : ℕ) :
    Working spare ((fun m : Memory => m.retain o)^[n] m) := by
  induction n generalizing m with
  | zero => exact h
  | succ n ih => exact ih (h.retain o)

/-- Carving counts children that no object holds yet. -/
theorem carve {c : ℕ} (hu : u < m.ker.numObjs) (hx : x.isDevice = (m.uts u).isDevice ∧
    x.hdrBudget = (m.uts u).hdrBudget ∧ x.childCount = (m.uts u).childCount + c) :
    Working (spare + Pi.single u (c : ℤ)) (m.setUt u x) := by
  have hset := h.setUt (.inl hu) hx.1 hx.2.1
  rw [hx.2.2] at hset
  push_cast at hset
  rw [add_sub_cancel_left] at hset
  exact ⟨hset, h.running⟩

theorem addObject {n : ℕ}
    (htype : type ≠ .reserved) (hn : type ≠ .cnode → n = 0) (hhd : hd < m.ker.numObjs)
    (hsrc : src < m.ker.numObjs) (hregion : hd = src ∨ (m.uts src).isDevice = true) :
    Working (spare - Pi.single hd 1 - if src = hd then 0 else Pi.single src 1)
      (m.addObject type n hd src) := by
  have hadd := h.lifetimes.addObject h.running htype hn
  have hl : Lifetimes (m.addObject type n hd src).ker [] := by
    unfold Memory.addObject
    split_ifs
    · exact hadd.note _ _
    · exact hadd
  refine ⟨h.toLedger.addObject hl hhd hsrc hregion, ?_⟩
  unfold Memory.addObject
  split_ifs
  · exact h.running
  · exact h.running

theorem setKasid (n : ℕ) : Working spare { m with kasidNext := n } :=
  ⟨⟨h.lifetimes, h.bare, h.count, h.page, h.region, h.named, h.budget, h.unspent⟩, h.running⟩

end

/-! ### Creating objects -/

variable {ut : ObjId} {pageChild : Bool} {hd : ObjId}

/-- The loop over the carved headers turns every counted child into an object, unless it stops
early. -/
theorem buildObjects {n : ℕ}
    (h : Working (spare + Pi.single ut (n : ℤ)) m) (slotCount : ℕ) (htype : type ≠ .reserved)
    (hslots : type ≠ .cnode → slotCount = 0) (hut : ut < m.ker.numObjs) :
    ∃ spare', (∀ u, spare u ≤ spare' u) ∧
      ((m.buildObjects ut type slotCount n).2.2 = true → spare' = spare) ∧
      Working spare' (m.buildObjects ut type slotCount n).1 := by
  induction n generalizing m spare with
  | zero =>
    rw [buildObjects]
    simpa using h
  | succ n ih =>
    have hsplit : (spare + Pi.single ut ((n + 1 : ℕ) : ℤ) : ObjId → ℤ) =
        spare + Pi.single ut 1 + Pi.single ut (n : ℤ) := by
      rw [add_assoc, ← Pi.single_add]
      push_cast
      rw [add_comm (1 : ℤ)]
    rw [hsplit] at h
    have hone : ∀ {m : Memory}, Working (spare + Pi.single ut 1 + Pi.single ut (n : ℤ)) m →
        ut < m.ker.numObjs → ∃ spare', (∀ u, spare u ≤ spare' u) ∧
          (((m.addObject type slotCount ut ut).buildObjects ut type slotCount n).2.2 = true →
            spare' = spare) ∧
          Working spare' ((m.addObject type slotCount ut ut).buildObjects ut type slotCount n).1 := by
      intro m h hut
      have hnew := h.addObject htype hslots hut hut (.inl rfl)
      have hspare : (spare + Pi.single ut 1 + Pi.single ut (n : ℤ) - Pi.single ut 1 -
          if ut = ut then 0 else Pi.single ut 1 : ObjId → ℤ) = spare + Pi.single ut (n : ℤ) := by
        rw [if_pos rfl, sub_zero, add_right_comm, add_sub_cancel_right]
      rw [hspare] at hnew
      refine ih hnew ?_
      rw [numObjs_addObject]
      exact Nat.lt_succ_of_lt hut
    rw [buildObjects]
    split_ifs with hpool
    · unfold kasidpoolCarveRange
      split_ifs
      · obtain ⟨spare', hle, -, hwork⟩ := ih h hut
        refine ⟨spare', fun u => le_trans ?_ (hle u), nofun, hwork⟩
        have hnonneg : (0 : ℤ) ≤ (Pi.single ut 1 : ObjId → ℤ) u := by
          by_cases hu : u = ut <;> simp [hu]
        simpa using hnonneg
      · exact hone (h.setKasid _) hut
    · exact hone h hut

/-- Only ASID pools can stop the loop, when the range of identifiers runs out. -/
theorem buildObjects_all (ut : ObjId) (type : KObjType) (slotCount n : ℕ) (m : Memory)
    (h : type = .asidPool → m.kasidNext + n * Memory.kasidPoolSize ≤ Memory.kasidLast + 1) :
    (m.buildObjects ut type slotCount n).2.2 = true := by
  induction n generalizing m with
  | zero => rfl
  | succ n ih =>
    have hnext : ∀ m : Memory, (m.addObject type slotCount ut ut).kasidNext = m.kasidNext :=
      fun m => rfl
    rw [Memory.buildObjects]
    split_ifs with hpool
    · have hroom := h hpool
      have hfits : ¬ kasidLast < m.kasidNext + kasidPoolSize - 1 := by
        simp only [kasidLast, kasidPoolSize] at hroom ⊢
        omega
      simp only [kasidpoolCarveRange, if_neg hfits]
      refine ih _ fun _ => ?_
      simp only [hnext, kasidLast, kasidPoolSize] at hroom ⊢
      omega
    · exact ih _ fun h => absurd h hpool

theorem buildObjects_uts (ut : ObjId) (type : KObjType) (slotCount n : ℕ) (m : Memory) :
    (m.buildObjects ut type slotCount n).1.uts = m.uts := by
  induction n generalizing m with
  | zero => rfl
  | succ n ih =>
    rw [Memory.buildObjects]
    split_ifs
    · unfold kasidpoolCarveRange
      split_ifs
      · exact ih m
      · exact ih _
    · exact ih _

theorem retain_iterate_fields (o : ObjId) (n : ℕ) (m : Memory) :
    ((fun m : Memory => m.retain o)^[n] m).uts = m.uts ∧
      ((fun m : Memory => m.retain o)^[n] m).kasidNext = m.kasidNext ∧
      m.ker.numObjs ≤ ((fun m : Memory => m.retain o)^[n] m).ker.numObjs := by
  induction n generalizing m with
  | zero => exact ⟨rfl, rfl, le_rfl⟩
  | succ n ih =>
    obtain ⟨huts, hkasid, hnum⟩ := ih (m.retain o)
    exact ⟨huts, hkasid, (Touches.hold m.ker o).moreObjs.numObjs.trans hnum⟩

theorem createBatch_mem {payload objArg : UInt64} {count : UInt32} {b : KUntyped.Batch} (m : Memory)
    (h : (m.uts ut).kuntypedAllocChildrenAtomic payload count = (x, .ok b)) :
    (m.createBatch ut type payload objArg count).mem =
      (((fun m : Memory => m.retain ut)^[count.toNat] (m.setUt ut x)).buildObjects ut type
        (if type = .cnode then objArg.toNat else 0) count.toNat).1 := by
  unfold createBatch
  simp only [h]
  generalize Memory.buildObjects _ _ _ _ _ = r
  obtain ⟨m', objs, ok⟩ := r
  cases ok <;> rfl

/-- What a batch leaves spare is the children of the objects it failed to build. -/
theorem createBatch (h : Working spare m) (payload objArg : UInt64)
    (count : UInt32) (hut : ut < m.ker.numObjs) (htype : type ≠ .reserved) :
    ∃ spare', (∀ u, spare u ≤ spare' u) ∧
      ((type = .asidPool → (m.uts ut).batchFits payload count = true →
        m.kasidNext + count.toNat * Memory.kasidPoolSize ≤ Memory.kasidLast + 1) →
          spare' = spare) ∧
      Working spare' (m.createBatch ut type payload objArg count).mem := by
  have hfits := (m.uts ut).kuntypedAllocChildrenAtomic_isOk payload count
  rcases (m.uts ut).kuntypedAllocChildrenAtomic_spec payload count
    with ⟨e, he⟩ | ⟨u', b, he, hc, -⟩
  · refine ⟨spare, fun _ => le_rfl, fun _ => rfl, ?_⟩
    unfold Memory.createBatch
    simpa only [he] using h
  rw [createBatch_mem m he]
  obtain ⟨-, hkasid, hnum⟩ := retain_iterate_fields ut count.toNat (m.setUt ut u')
  have hcarved : Working (spare + Pi.single ut (count.toNat : ℤ)) _ :=
    (h.carve hut hc.keeps).retain_iterate ut count.toNat
  obtain ⟨spare', hle, hall, hwork⟩ := hcarved.buildObjects
    (if type = .cnode then objArg.toNat else 0) htype (fun hne => if_neg hne)
    (hut.trans_le hnum)
  refine ⟨spare', hle, fun hfit => hall (buildObjects_all _ _ _ _ _ fun hpool => ?_), hwork⟩
  rw [hkasid]
  exact hfit hpool (by rw [← hfits, he]; rfl)

/-! ### Physical regions -/

/-- The record of a new Untyped starts with no children. -/
theorem initUntyped (h : Working spare m) (ut : ObjId) (type : KObjType) (phys size : UInt64) :
    Working spare (m.initUntyped ut type phys size) := by
  unfold Memory.initUntyped
  split_ifs
  · exact ⟨h.setUt_unnamed le_rfl rfl rfl, h.running⟩
  · exact h

theorem initUntyped_fields (m : Memory) (hut : ut < m.ker.numObjs) (type : KObjType)
    (phys size : UInt64) : (m.initUntyped ut type phys size).ker = m.ker ∧
      (m.initUntyped ut type phys size).uts ut = m.uts ut ∧
      (m.initUntyped ut type phys size).pml4Pool = m.pml4Pool := by
  unfold Memory.initUntyped
  split_ifs
  · exact ⟨rfl, m.setUt_of_ne _ hut.ne, rfl⟩
  · exact ⟨rfl, rfl, rfl⟩

section

variable (h : Working spare m)
include h

theorem addPage {ut o : ObjId} (hlive : (m.ker.objs o).live = true)
    (hnone : m.pml4Pool o = none) (hhome : m.home o = some ut) :
    Working (spare - Pi.single ut 1) (m.addPage ut o) := by
  have hret := h.retain ut
  have ho := h.named_of_live hlive
  have hmore := (Touches.hold m.ker ut).moreObjs
  exact ⟨hret.toLedger.setPool (ho.trans_le hmore.numObjs) ((hmore.live o ho).trans hlive) hnone hhome,
    hret.running⟩

theorem addRegion (hut : ut < m.ker.numObjs) :
    Working (spare + if (m.uts ut).isDevice then Pi.single ut 1 else 0) (m.addRegion ut) := by
  unfold Memory.addRegion
  split_ifs
  · have hone := h.carve (c := 1)
      (x := { m.uts ut with childCount := (m.uts ut).childCount + 1 }) hut ⟨rfl, rfl, rfl⟩
    exact hone.retain ut
  · simpa using h

/-- An object for a region: the header's child, and the child of the page where there is one. -/
theorem placeRegion (phys size : UInt64) (htype : type ≠ .reserved) (hhd : hd < m.ker.numObjs)
    (hut : ut < m.ker.numObjs) (hregion : (m.uts ut).isDevice = true ↔ ut ≠ hd)
    (hpage : pageChild = true → hd = ut) :
    Working (spare - Pi.single hd 1 - if pageChild then Pi.single ut 1 else 0)
      (m.placeRegion ut hd type phys size pageChild) := by
  obtain ⟨hker, huts, hpool⟩ := initUntyped_fields m hut type phys size
  have hregion' : hd = ut ∨ ((m.initUntyped ut type phys size).uts ut).isDevice = true := by
    rw [huts, hregion]
    exact (em _).imp_right Ne.symm
  have hnew := (h.initUntyped ut type phys size).addObject (n := 0) htype (fun _ => rfl)
    (hker ▸ hhd) (hker ▸ hut) hregion'
  set m' := (m.initUntyped ut type phys size).addObject type 0 hd ut
  have hnum : m.ker.numObjs ≤ m'.ker.numObjs := by
    rw [numObjs_addObject, hker]
    exact Nat.le_succ _
  have hdone : ∀ {spare' : ObjId → ℤ} {m1 : Memory}, Working spare' m1 → m1.uts = m'.uts →
      m'.ker.numObjs ≤ m1.ker.numObjs →
      Working (spare' + if ut = hd then 0 else Pi.single ut 1) (m1.addRegion ut) := by
    intro spare' m1 h1 huts1 hnum1
    have hreg := h1.addRegion (hut.trans_le (hnum.trans hnum1))
    have hdev : (m1.uts ut).isDevice = (m.uts ut).isDevice := by
      rw [huts1]
      exact congrArg KUntyped.isDevice huts
    by_cases heq : ut = hd
    · have hram : ¬ (m1.uts ut).isDevice = true := by
        rw [hdev, hregion]
        exact not_not.mpr heq
      simpa only [if_neg hram, if_pos heq] using hreg
    · have hmmio : (m1.uts ut).isDevice = true := by
        rw [hdev, hregion]
        exact heq
      simpa only [if_pos hmmio, if_neg heq] using hreg
  unfold Memory.placeRegion
  cases pageChild with
  | false =>
    have := hdone hnew rfl le_rfl
    simpa using this
  | true =>
    obtain rfl := hpage rfl
    have hlive : (m'.ker.objs m.ker.numObjs).live = true := by
      rw [live_addObject, hker, if_pos rfl]
    have hnone : m'.pml4Pool m.ker.numObjs = none := by
      change (m.initUntyped hd type phys size).pml4Pool _ = none
      rw [hpool]
      exact (h.bare _ le_rfl).2.1
    have hhome : m'.home m.ker.numObjs = some hd := by
      change update _ (m.initUntyped hd type phys size).ker.numObjs _ _ = _
      rw [hker, update_self]
    simpa using hdone (hnew.addPage hlive hnone hhome) rfl (Touches.hold m'.ker hd).moreObjs.numObjs

/-- A device Untyped keeps its headers in another Untyped, every other one in itself. -/
theorem hdrHost (hut : ut < m.ker.numObjs) (hhost : m.hdrHost ut = some hd) :
    hd < m.ker.numObjs ∧ ((m.uts ut).isDevice = true ↔ ut ≠ hd) := by
  unfold Memory.hdrHost at hhost
  split_ifs at hhost with hdev
  · obtain ⟨hlt, hram⟩ := h.budget ut hd hhost
    have hne : ut ≠ hd := fun heq => by simp [heq, hram] at hdev
    exact ⟨hlt, fun _ => hne, fun _ => hdev⟩
  · cases hhost
    exact ⟨hut, fun h => absurd h hdev, fun h => absurd rfl h⟩

end

/-- The two ways a region is carved differ in whether the page counts as a child. -/
theorem regionCarve (u : KUntyped) (pageChild : Bool) (objArg : UInt64) :
    ∃ u' phys c, (if pageChild then u.kuntypedAllocPageChild
        else u.kuntypedBumpAllocPhysPage objArg) = (u', phys) ∧
      (u'.isDevice = u.isDevice ∧ u'.hdrBudget = u.hdrBudget ∧ u'.childCount = u.childCount + c) ∧
      c = if pageChild = true ∧ phys ≠ 0 then 1 else 0 := by
  cases pageChild with
  | false =>
    rcases u.kuntypedBumpAllocPhysPage_spec objArg with h | ⟨u', start, h, hc, -⟩
    · exact ⟨u, 0, 0, h, ⟨rfl, rfl, rfl⟩, by simp⟩
    · exact ⟨u', _, 0, h, hc.keeps, by simp⟩
  | true =>
    rcases u.kuntypedAllocPagesChild_spec 4096 with h | ⟨u', start, n, h, hc, hn, -⟩
    · exact ⟨u, 0, 0, h, ⟨rfl, rfl, rfl⟩, by simp⟩
    · refine ⟨u', _, n, h, hc.keeps, ?_⟩
      rw [hn]
      by_cases hz : u.physBase + UInt64.ofNat start = 0 <;> simp [hz]

/-- A region retyped, or refused at any of its steps, leaves nothing spare. -/
theorem retypeRegion (sz : Sizes) (hspare : ∀ u, 0 ≤ spare u) (h : Working spare m)
    {objArg : UInt64} (hut : ut < m.ker.numObjs) (htype : type ≠ .reserved)
    (hpage : pageChild = true → (m.uts ut).isDevice = false) :
    Working spare (m.retypeRegion sz ut objArg type pageChild).mem := by
  unfold Memory.retypeRegion
  cases hhost : m.hdrHost ut with
  | none => exact h
  | some hd =>
    obtain ⟨hhd, hregion⟩ := h.hdrHost hut hhost
    rcases (m.uts hd).kuntypedAllocChildTop_spec (sz.object type) with he | ⟨hu, span, he, hc, -⟩
    · simpa only [he] using h
    simp only [he]
    have hhdr := (h.carve hhd hc.keeps).retain hd
    set m1 := (m.setUt hd hu).retain hd with hm1
    have hdev : (m1.uts ut).isDevice = (m.uts ut).isDevice := by
      by_cases heq : ut = hd
      · subst heq
        exact (congrArg KUntyped.isDevice (m.setUt_self ut hu)).trans hc.keeps.1
      · exact congrArg KUntyped.isDevice (m.setUt_of_ne hu heq)
    have hnum : m.ker.numObjs ≤ m1.ker.numObjs := (Touches.hold m.ker hd).moreObjs.numObjs
    obtain ⟨u', phys, c, hcarve, hkeeps, hentry⟩ := regionCarve (m1.uts ut) pageChild objArg
    simp only [hcarve]
    have hboth := hhdr.carve (hut.trans_le hnum) hkeeps
    split_ifs with hphys
    · have hc0 : c = 0 := by simp [hentry, hphys]
      have hback := hboth.toLedger.releaseChild (x := some hd) fun u hu => by
        cases hu
        have hpos := hspare hd
        simp only [hc0, Nat.cast_one, Nat.cast_zero, Pi.single_zero, Pi.add_apply,
          Pi.single_eq_same, Pi.zero_apply]
        omega
      refine ⟨?_, hboth.running⟩
      convert hback using 1
      funext v
      by_cases hv : v = hd
      · simp [hv, hc0]
      · simp [hv, Ne.symm hv, hc0]
    · have hram : pageChild = true → hd = ut := fun hp => by
        by_contra hne
        have hmmio := hregion.mpr (Ne.symm hne)
        rw [hpage hp] at hmmio
        cases hmmio
      have hdev' : ((m1.setUt ut u').uts ut).isDevice = true ↔ ut ≠ hd := by
        rw [setUt_self, hkeeps.1, hdev]
        exact hregion
      have hplace := hboth.placeRegion phys objArg htype (hhd.trans_le hnum)
        (hut.trans_le hnum) hdev' hram
      convert hplace using 1
      cases pageChild with
      | false => simp [hentry]
      | true =>
        simp [hentry, hphys]
        ring

end Working
end IrisOS.Untyped
