import IrisOS.Cap.System

/-! Resolving a CPtr (`cspace.c`). Three functions walk from a root CNode to a slot; the references
they take on the way and give back are left out. -/
namespace IrisOS.Cap
open Kernel

def cspaceMaxDepth : ℕ := 8

/-- A guard: the bits a CPtr must have after the index of a level, and how many they are. -/
structure Guard where
  value : ℕ := 0
  bits : ℕ := 0
  deriving DecidableEq

/-- The part of a thread that the walk reads. -/
structure Task where
  cspaceRoot : Option ObjId
  cspaceRootGuard : UInt64
  cspaceRootGuardBits : UInt8
  deriving DecidableEq

structure ResolvedCap where
  obj : ObjId
  rights : Rights
  badge : UInt64
  deriving DecidableEq

def Guard.mask (g : Guard) : ℕ := if 64 ≤ g.bits then 2 ^ 64 - 1 else 2 ^ g.bits - 1

/-- Check and consume a guard. -/
def Guard.consume (g : Guard) (cptr : ℕ) : Option ℕ :=
  if g.bits = 0 then some cptr
  else if cptr &&& g.mask ≠ g.value then none
  else some (cptr >>> g.bits)

def KCSlot.slotGuard (s : KCSlot) : Guard := ⟨s.guard.toNat, s.guardBits.toNat⟩

/-- The guard of the root: that of the running thread, if the root is its own. -/
def rootGuard (self : Option Task) (root : ObjId) : Guard :=
  match self with
  | none => {}
  | some t =>
    if t.cspaceRoot = some root ∧ t.cspaceRootGuardBits ≠ 0
    then ⟨t.cspaceRootGuard.toNat, t.cspaceRootGuardBits.toNat⟩ else {}

namespace Kernel

def radix (σ : Kernel) (cn : ObjId) : ℕ := ctzll (σ.objs cn).slotCount

def index (σ : Kernel) (cn : ObjId) (cptr : ℕ) : ℕ := cptr &&& ((σ.objs cn).slotCount - 1)

/-- `kcnode_fetch_guarded`, with the whole slot for the outputs the callers read. -/
def kcnodeFetchGuarded (σ : Kernel) (cn : ObjId) (idx : ℕ) : Except IrisError (ObjId × KCSlot) :=
  if (σ.objs cn).slotCount ≤ idx then .error .invalidArg
  else match (σ.slots (.slot cn idx)).object with
    | none => .error .notFound
    | some obj => .ok (obj, σ.slots (.slot cn idx))

/-- The loop of `cspace_resolve_cap_badged`, which also returns the slots gone through. -/
def resolveCapFrom (σ : Kernel) (required : Rights) :
    ℕ → ObjId → Guard → ℕ → Except IrisError (List (ObjId × ℕ) × ResolvedCap)
  | 0, _, _, _ => .error .invalidArg
  | n+1, cur, g, cptr =>
    let idx := σ.index cur cptr
    match g.consume (cptr >>> σ.radix cur) with
    | none => .error .notFound
    | some rest =>
      match σ.kcnodeFetchGuarded cur idx with
      | .error e => .error e
      | .ok (obj, slot) =>
        if rest ≠ 0 ∧ (σ.objs obj).type ≠ .cnode then .error .invalidArg
        else if rest = 0 then
          if required ≠ rightNone ∧ !rightsCheck slot.rights required then .error .accessDenied
          else .ok ([(cur, idx)], ⟨obj, slot.rights, slot.badge⟩)
        else (resolveCapFrom σ required n obj slot.slotGuard rest).map
          fun r => ((cur, idx) :: r.1, r.2)

def cspaceResolveCapBadged (σ : Kernel) (self : Option Task) (root : Option ObjId) (cptr : UInt64)
    (required : Rights) : Except IrisError (List (ObjId × ℕ) × ResolvedCap) :=
  if cptr = 0 then .error .invalidArg
  else match root with
    | none => .error .notFound
    | some root =>
      σ.resolveCapFrom required cspaceMaxDepth root (rootGuard self root) cptr.toNat

/-- The loop of `cspace_resolve_slot`. -/
def resolveSlotFrom (σ : Kernel) : ℕ → ObjId → ℕ → Except IrisError (ObjId × ℕ)
  | 0, _, _ => .error .invalidArg
  | n+1, cur, cptr =>
    let idx := σ.index cur cptr
    let rest := cptr >>> σ.radix cur
    match σ.kcnodeFetchGuarded cur idx with
    | .error e => .error e
    | .ok (obj, _) =>
      if rest ≠ 0 ∧ (σ.objs obj).type ≠ .cnode then .error .invalidArg
      else if rest = 0 then .ok (cur, idx)
      else resolveSlotFrom σ n obj rest

def cspaceResolveSlot (σ : Kernel) (root : Option ObjId) (cptr : UInt64) :
    Except IrisError (ObjId × ℕ) :=
  if cptr = 0 then .error .invalidArg
  else match root with
    | none => .error .notFound
    | some root => σ.resolveSlotFrom cspaceMaxDepth root cptr.toNat

/-- The loop of `cspace_resolve_dest_slot`. -/
def resolveDestSlotFrom (σ : Kernel) : ℕ → ObjId → ℕ → Except IrisError (ObjId × ℕ)
  | 0, _, _ => .error .invalidArg
  | n+1, cur, cptr =>
    let idx := σ.index cur cptr
    let rest := cptr >>> σ.radix cur
    if rest = 0 then .ok (cur, idx)
    else match σ.kcnodeFetchGuarded cur idx with
      | .error e => .error e
      | .ok (obj, _) =>
        if (σ.objs obj).type ≠ .cnode then .error .invalidArg
        else resolveDestSlotFrom σ n obj rest

def cspaceResolveDestSlot (σ : Kernel) (root : Option ObjId) (cptr : UInt64) :
    Except IrisError (ObjId × ℕ) :=
  if cptr = 0 then .error .invalidArg
  else match root with
    | none => .error .notFound
    | some root => σ.resolveDestSlotFrom cspaceMaxDepth root cptr.toNat

/-! ## One level -/

section
variable {σ : Kernel} {required : Rights} {n : ℕ} {cur obj : ObjId} {g : Guard} {cptr rest idx : ℕ}
  {slot : KCSlot} {path : List (ObjId × ℕ)} {r : ResolvedCap} {cn : ObjId}

theorem kcnodeFetchGuarded_ok (h : σ.kcnodeFetchGuarded cur idx = .ok (obj, slot)) :
    slot = σ.slots (.slot cur idx) ∧ (σ.slots (.slot cur idx)).object = some obj := by
  unfold kcnodeFetchGuarded at h
  split_ifs at h
  split at h
  · cases h
  · rename_i x hx
    cases h
    exact ⟨rfl, hx⟩

theorem resolveCapFrom_ok (h : σ.resolveCapFrom required (n + 1) cur g cptr = .ok (path, r)) :
    ∃ rest obj slot, g.consume (cptr >>> σ.radix cur) = some rest ∧
      σ.kcnodeFetchGuarded cur (σ.index cur cptr) = .ok (obj, slot) ∧
      ((rest = 0 ∧ path = [(cur, σ.index cur cptr)] ∧ r = ⟨obj, slot.rights, slot.badge⟩) ∨
        (rest ≠ 0 ∧ (σ.objs obj).type = .cnode ∧ ∃ below,
          σ.resolveCapFrom required n obj slot.slotGuard rest = .ok (below, r) ∧
          path = (cur, σ.index cur cptr) :: below)) := by
  simp only [resolveCapFrom] at h
  split at h
  · cases h
  rename_i rest hrest
  split at h
  · cases h
  rename_i obj slot hfetch
  refine ⟨rest, obj, slot, hrest, hfetch, ?_⟩
  split_ifs at h with hbad hzero hrights
  · cases h
    exact .inl ⟨hzero, rfl, rfl⟩
  cases hbelow : σ.resolveCapFrom required n obj slot.slotGuard rest with
  | error e =>
    rw [hbelow] at h
    cases h
  | ok p =>
    rw [hbelow] at h
    cases h
    exact .inr ⟨hzero, not_not.mp fun hne => hbad ⟨hzero, hne⟩, p.1, rfl, rfl⟩

/-- What is returned is the capability of the last slot of the path. -/
theorem resolveCapFrom_last (h : σ.resolveCapFrom required n cur g cptr = .ok (path, r)) :
    ∃ cn idx, path.getLast? = some (cn, idx) ∧ (σ.slots (.slot cn idx)).object = some r.obj ∧
      (σ.slots (.slot cn idx)).rights = r.rights ∧ (σ.slots (.slot cn idx)).badge = r.badge := by
  induction n generalizing cur g cptr path with
  | zero => cases h
  | succ n ih =>
    obtain ⟨rest, obj, slot, -, hfetch, ⟨-, rfl, rfl⟩ | ⟨-, -, below, hbelow, rfl⟩⟩ :=
      resolveCapFrom_ok h
    · obtain ⟨rfl, hobj⟩ := kcnodeFetchGuarded_ok hfetch
      exact ⟨_, _, rfl, hobj, rfl, rfl⟩
    · obtain ⟨cn, idx, hlast, hcap⟩ := ih hbelow
      exact ⟨cn, idx, by simp [List.getLast?_cons, hlast], hcap⟩

theorem resolveCapFrom_names (h : σ.resolveCapFrom required n cur g cptr = .ok (path, r)) :
    ∃ s, (σ.slots s).object = some r.obj := by
  obtain ⟨cn, idx, -, hobj, -⟩ := resolveCapFrom_last h
  exact ⟨_, hobj⟩

/-- The rights asked for are checked at the end of the walk. -/
theorem resolveCapFrom_required :
    σ.resolveCapFrom required n cur g cptr =
      (σ.resolveCapFrom rightNone n cur g cptr).bind fun p =>
        if required ≠ rightNone ∧ !rightsCheck p.2.rights required then .error .accessDenied
        else .ok p := by
  induction n generalizing cur g cptr with
  | zero => rfl
  | succ n ih =>
    simp only [resolveCapFrom]
    rcases g.consume (cptr >>> σ.radix cur) with - | rest
    · rfl
    rcases σ.kcnodeFetchGuarded cur (σ.index cur cptr) with e | ⟨obj, slot⟩
    · rfl
    by_cases hzero : rest = 0
    · simp [hzero, Except.bind]
    by_cases htype : (σ.objs obj).type = .cnode
    · simp only [hzero, htype, ne_eq, not_true_eq_false, and_false, if_false]
      rw [ih]
      cases σ.resolveCapFrom rightNone n obj slot.slotGuard rest with
      | error e => rfl
      | ok p =>
        simp only [Except.bind, Except.map]
        split_ifs <;> rfl
    · simp [hzero, htype, Except.bind]

theorem kcnodeFetchGuarded_error {e : IrisError} (h : σ.kcnodeFetchGuarded cur idx = .error e) :
    e ≠ .ok := by
  unfold kcnodeFetchGuarded at h
  split_ifs at h
  · cases h
    decide
  · split at h
    · cases h
      decide
    · cases h

theorem resolveCapFrom_error {e : IrisError}
    (h : σ.resolveCapFrom required n cur g cptr = .error e) : e ≠ .ok := by
  induction n generalizing cur g cptr with
  | zero =>
    cases h
    decide
  | succ n ih =>
    simp only [resolveCapFrom] at h
    split at h
    · cases h
      decide
    rename_i rest _
    split at h
    · rename_i hfetch
      cases h
      exact kcnodeFetchGuarded_error hfetch
    rename_i obj slot hfetch
    split_ifs at h
    · cases h
      decide
    · cases h
      decide
    cases hbelow : σ.resolveCapFrom required n obj slot.slotGuard rest with
    | error e' =>
      rw [hbelow] at h
      cases h
      exact ih hbelow
    | ok p =>
      rw [hbelow] at h
      cases h

theorem resolveCapFrom_occupied (h : σ.resolveCapFrom required n cur g cptr = .ok (path, r)) :
    ∃ idx, σ.occupied (.slot cur idx) = true := by
  cases n with
  | zero => cases h
  | succ n =>
    obtain ⟨rest, obj, slot, -, hfetch, -⟩ := resolveCapFrom_ok h
    exact ⟨σ.index cur cptr, by simp [occupied, (kcnodeFetchGuarded_ok hfetch).2]⟩

theorem resolveSlotFrom_occupied (h : σ.resolveSlotFrom n cur cptr = .ok (cn, idx)) :
    σ.occupied (.slot cn idx) = true := by
  induction n generalizing cur cptr with
  | zero => cases h
  | succ n ih =>
    simp only [resolveSlotFrom] at h
    split at h
    · cases h
    rename_i obj slot hfetch
    split_ifs at h
    · cases h
      simp [occupied, (kcnodeFetchGuarded_ok hfetch).2]
    · exact ih h

end

/-! ## Walks in states that look the same -/

section
variable {σ τ : Kernel} {P : ObjId → Prop} {n : ℕ} {cur : ObjId} {cptr : ℕ}

/-- A walk reads the slots, and the type and size of the objects it comes by. -/
structure SameWalks (P : ObjId → Prop) (σ τ : Kernel) : Prop where
  slots : τ.slots = σ.slots
  named : ∀ s o, (σ.slots s).object = some o → P o
  type : ∀ o, P o → (τ.objs o).type = (σ.objs o).type
  slotCount : ∀ o, P o → (τ.objs o).slotCount = (σ.objs o).slotCount

namespace SameWalks

section

variable (h : SameWalks P σ τ) (hcur : P cur)
include h hcur

theorem index : τ.index cur cptr = σ.index cur cptr := by
  rw [Kernel.index, Kernel.index, h.slotCount cur hcur]

theorem radix : τ.radix cur = σ.radix cur := by
  rw [Kernel.radix, Kernel.radix, h.slotCount cur hcur]

theorem fetch (idx : ℕ) : τ.kcnodeFetchGuarded cur idx = σ.kcnodeFetchGuarded cur idx := by
  simp only [kcnodeFetchGuarded, h.slotCount cur hcur, h.slots]

theorem resolveSlotFrom : τ.resolveSlotFrom n cur cptr = σ.resolveSlotFrom n cur cptr := by
  induction n generalizing cur cptr with
  | zero => rfl
  | succ n ih =>
    simp only [resolveSlotFrom]
    rw [h.index hcur, h.radix hcur, h.fetch hcur]
    split
    · rfl
    · rename_i obj slot hfetch
      have hobj : P obj := h.named _ _ (kcnodeFetchGuarded_ok hfetch).2
      rw [h.type obj hobj, ih hobj]

end

variable {required : Rights}

theorem resolveCapFrom (h : SameWalks P σ τ) (hcur : P cur) {g : Guard} :
    τ.resolveCapFrom required n cur g cptr = σ.resolveCapFrom required n cur g cptr := by
  induction n generalizing cur cptr g with
  | zero => rfl
  | succ n ih =>
    simp only [resolveCapFrom]
    rw [h.index hcur, h.radix hcur, h.fetch hcur]
    split
    · rfl
    split
    · rfl
    · rename_i obj slot hfetch
      have hobj : P obj := h.named _ _ (kcnodeFetchGuarded_ok hfetch).2
      rw [h.type obj hobj, ih hobj]

end SameWalks
end

/-! ## The address of a path -/

/-- Every CNode has a power of two of slots, as `kcnode_alloc` makes them. -/
def Radixed (σ : Kernel) : Prop :=
  ∀ o, (σ.objs o).type = .cnode → ∃ k < 64, (σ.objs o).slotCount = 2 ^ k

/-- The CPtr of a path: at each level the index, the guard entered through, and the levels below. -/
def addressOf (σ : Kernel) : Guard → List (ObjId × ℕ) → ℕ
  | _, [] => 0
  | g, (cn, idx) :: path =>
    idx + 2 ^ σ.radix cn * ((if g.bits = 0 then 0 else g.value) +
      2 ^ g.bits * addressOf σ (σ.slots (.slot cn idx)).slotGuard path)

theorem ctzll_two_pow {k : ℕ} (hk : k < 64) : ctzll (2 ^ k) = k := by
  have hfind : (List.range 64).find? (2 ^ k).testBit = some k := by
    rw [List.find?_range_eq_some]
    refine ⟨by simp, List.mem_range.mpr hk, fun j hj => ?_⟩
    simp [hj.ne']
  simp [ctzll, hfind]

theorem index_add_radix {σ : Kernel} (hσ : σ.Radixed) (hcn : (σ.objs cn).type = .cnode) (cptr : ℕ) :
    σ.index cn cptr + 2 ^ σ.radix cn * (cptr >>> σ.radix cn) = cptr := by
  obtain ⟨k, hk, hslots⟩ := hσ cn hcn
  rw [index, radix, hslots, ctzll_two_pow hk, Nat.and_two_pow_sub_one_eq_mod,
    Nat.shiftRight_eq_div_pow]
  exact Nat.mod_add_div cptr (2 ^ k)

theorem consume_add {g : Guard} (hc : cptr < 2 ^ 64) (h : g.consume cptr = some rest) :
    (if g.bits = 0 then 0 else g.value) + 2 ^ g.bits * rest = cptr := by
  unfold Guard.consume at h
  split_ifs at h with hbits hguard
  · cases h
    simp [hbits]
  cases h
  rw [if_neg hbits, ← not_not.mp hguard, Nat.shiftRight_eq_div_pow]
  unfold Guard.mask
  split_ifs with hwide
  · have hpow : cptr < 2 ^ g.bits := lt_of_lt_of_le hc (Nat.pow_le_pow_right (by decide) hwide)
    rw [Nat.and_two_pow_sub_one_eq_mod, Nat.mod_eq_of_lt hc, Nat.div_eq_of_lt hpow]
    omega
  · rw [Nat.and_two_pow_sub_one_eq_mod]
    exact Nat.mod_add_div cptr (2 ^ g.bits)

theorem consume_le {g : Guard} (h : g.consume cptr = some rest) : rest ≤ cptr := by
  unfold Guard.consume at h
  split_ifs at h
  · cases h
    exact le_rfl
  · cases h
    exact Nat.shiftRight_le cptr g.bits

variable {path : List (ObjId × ℕ)} {cur : ObjId} {cptr n : ℕ} {r : ResolvedCap}

theorem resolveCapFrom_address {σ : Kernel} (hσ : σ.Radixed) {g : Guard}
    (hcur : (σ.objs cur).type = .cnode) (hc : cptr < 2 ^ 64)
    (h : σ.resolveCapFrom required n cur g cptr = .ok (path, r)) : cptr = σ.addressOf g path := by
  induction n generalizing cur g cptr path with
  | zero => cases h
  | succ n ih =>
    obtain ⟨rest, obj, slot, hrest, hfetch, hend⟩ := resolveCapFrom_ok h
    have hle : cptr >>> σ.radix cur ≤ cptr := Nat.shiftRight_le cptr _
    have hlevel := index_add_radix hσ hcur cptr
    have hguard := consume_add (lt_of_le_of_lt hle hc) hrest
    obtain ⟨rfl, -⟩ := kcnodeFetchGuarded_ok hfetch
    rcases hend with ⟨rfl, rfl, -⟩ | ⟨-, hobj, below, hbelow, rfl⟩
    · rw [addressOf, addressOf, hguard, hlevel]
    · have hrest' : rest < 2 ^ 64 :=
        lt_of_le_of_lt ((consume_le hrest).trans hle) hc
      have haddr := ih hobj hrest' hbelow
      rw [addressOf, ← haddr, hguard, hlevel]

end Kernel

section
variable {σ : Kernel} {self : Option Task} {root : ObjId}

theorem cspaceResolveCapBadged_ok {cptr : UInt64}
    (h : σ.cspaceResolveCapBadged self (some root) cptr required = .ok (path, r)) :
    σ.resolveCapFrom required cspaceMaxDepth root (rootGuard self root) cptr.toNat =
      .ok (path, r) := by
  unfold cspaceResolveCapBadged at h
  split_ifs at h
  exact h

/-- A CPtr that resolves is determined by the slots it goes through and the guards on the way. -/
theorem cspaceResolveCapBadged_injective (hσ : σ.Radixed) (hroot : (σ.objs root).type = .cnode)
    (required : Rights) :
    (∀ (cptr : UInt64) path r,
      σ.cspaceResolveCapBadged self (some root) cptr required = .ok (path, r) →
        cptr.toNat = σ.addressOf (rootGuard self root) path) ∧
    ∀ (cptr₁ cptr₂ : UInt64) path r₁ r₂,
      σ.cspaceResolveCapBadged self (some root) cptr₁ required = .ok (path, r₁) →
      σ.cspaceResolveCapBadged self (some root) cptr₂ required = .ok (path, r₂) →
        cptr₁ = cptr₂ := by
  have haddress : ∀ (cptr : UInt64) path r,
      σ.cspaceResolveCapBadged self (some root) cptr required = .ok (path, r) →
        cptr.toNat = σ.addressOf (rootGuard self root) path := fun cptr path r h =>
    σ.resolveCapFrom_address hσ hroot cptr.toNat_lt (cspaceResolveCapBadged_ok h)
  refine ⟨haddress, fun cptr₁ cptr₂ path r₁ r₂ h₁ h₂ => ?_⟩
  apply UInt64.toNat_inj.mp
  rw [haddress cptr₁ path r₁ h₁, haddress cptr₂ path r₂ h₂]

end

/-- Three CNodes of two slots in a row, the second entered with the given guard, and an endpoint
at the end. -/
def chainedSpace (guard : UInt64) (guardBits : UInt8) : Kernel where
  objs o := if o < 3 then { type := .cnode, slotCount := 2 } else {}
  numObjs := 4
  slots
    | .slot 0 1 => { object := some 1, rights := rightRead, guard, guardBits }
    | .slot 1 1 => { object := some 2, rights := rightRead }
    | .slot 2 1 => { object := some 3, rights := rightRead }
    | _ => {}

theorem chainedSpace_radixed (guard : UInt64) (guardBits : UInt8) :
    (chainedSpace guard guardBits).Radixed := by
  intro o htype
  by_cases ho : o < 3
  · exact ⟨1, by decide, by simp [chainedSpace, ho]⟩
  · simp [chainedSpace, ho] at htype

theorem cspaceResolveCapBadged_injective_chainedSpace :
    (chainedSpace 1 1).cspaceResolveCapBadged none (some 0) 7 rightRead =
      .ok ([(0, 1), (1, 1)], ⟨2, rightRead, 0⟩) ∧
    (7 : UInt64).toNat = (chainedSpace 1 1).addressOf {} [(0, 1), (1, 1)] :=
  have hok : (chainedSpace 1 1).cspaceResolveCapBadged none (some 0) 7 rightRead =
      .ok ([(0, 1), (1, 1)], ⟨2, rightRead, 0⟩) := by decide
  ⟨hok,
    (@cspaceResolveCapBadged_injective _ none _ (chainedSpace_radixed 1 1) rfl rightRead).1 7 _ _ hok⟩

/-! ## Agreement -/

namespace Kernel

theorem consume_inert {g : Guard} {rest : ℕ} (h : g.bits = 0 ∨ rest = 0 ∧ g.value = 0) :
    g.consume rest = some rest := by
  unfold Guard.consume
  rcases h with hbits | ⟨rfl, hvalue⟩
  · rw [if_pos hbits]
  · split_ifs with hbits hguard
    · rfl
    · simp [hvalue] at hguard
    · simp

theorem consume_zero {g : Guard} {left : ℕ} (h : g.consume 0 = some left) :
    g.bits = 0 ∨ 0 = 0 ∧ g.value = 0 := by
  unfold Guard.consume at h
  split_ifs at h with hbits hguard
  · exact .inl hbits
  · exact .inr ⟨rfl, by simpa [eq_comm] using hguard⟩

variable {s : ObjId × ℕ}

/-- The slot where the walk with guards ends. -/
def capEnd (σ : Kernel) (n : ℕ) (cur : ObjId) (g : Guard) (cptr : ℕ) : Option (ObjId × ℕ) :=
  (σ.resolveCapFrom rightNone n cur g cptr).toOption.bind fun p => p.1.getLast?

/-- The slot where the walk without guards ends. -/
def slotEnd (σ : Kernel) (n : ℕ) (cur : ObjId) (cptr : ℕ) : Option (ObjId × ℕ) :=
  (σ.resolveSlotFrom n cur cptr).toOption

/-- A guard does not matter if it has no bits, or is zero with nothing left to check it against. A
CPtr that the first one that matters refuses names nothing without it either; where that guard uses
up the CPtr, its bits read as indices lead back to the slot it stands on; and where something is
left, the two walks below end at the same slot. -/
def guardsHarmless (σ : Kernel) : ℕ → ObjId → Guard → ℕ → Bool
  | 0, _, _, _ => true
  | n+1, cur, g, cptr =>
    let rest := cptr >>> σ.radix cur
    match σ.kcnodeFetchGuarded cur (σ.index cur cptr) with
    | .error _ => true
    | .ok (obj, slot) =>
      let leaf : Bool := (σ.objs obj).type ≠ .cnode
      if g.bits = 0 ∨ rest = 0 ∧ g.value = 0 then
        rest = 0 || leaf || guardsHarmless σ n obj slot.slotGuard rest
      else match g.consume rest with
        | none => rest ≠ 0 && (leaf || σ.slotEnd n obj rest = none)
        | some 0 => !leaf && σ.slotEnd n obj rest = some (cur, σ.index cur cptr)
        | some left => leaf || σ.capEnd n obj slot.slotGuard left = σ.slotEnd n obj rest

section
variable {σ : Kernel} {g : Guard} {obj : ObjId} {slot : KCSlot}

theorem ends_of_fetch_error {e : IrisError}
    (hfetch : σ.kcnodeFetchGuarded cur (σ.index cur cptr) = .error e) :
    σ.capEnd (n + 1) cur g cptr = none ∧ σ.slotEnd (n + 1) cur cptr = none := by
  simp only [capEnd, slotEnd, resolveCapFrom, resolveSlotFrom, hfetch]
  refine ⟨?_, rfl⟩
  split <;> rfl

theorem capEnd_succ (hfetch : σ.kcnodeFetchGuarded cur (σ.index cur cptr) = .ok (obj, slot)) :
    σ.capEnd (n + 1) cur g cptr = (g.consume (cptr >>> σ.radix cur)).bind fun left =>
      if left = 0 then some (cur, σ.index cur cptr)
      else if (σ.objs obj).type = .cnode then σ.capEnd n obj slot.slotGuard left else none := by
  simp only [capEnd, resolveCapFrom, hfetch]
  cases g.consume (cptr >>> σ.radix cur) with
  | none => rfl
  | some left =>
    rw [Option.bind_some]
    by_cases hzero : left = 0
    · simp [hzero, Except.toOption]
    · by_cases htype : (σ.objs obj).type = .cnode
      · simp only [hzero, htype, ne_eq, not_true_eq_false, and_false, if_false, if_true]
        cases hbelow : σ.resolveCapFrom rightNone n obj slot.slotGuard left with
        | error e => rfl
        | ok p =>
          obtain ⟨cn, idx, hlast, -⟩ := resolveCapFrom_last hbelow
          simp [Except.map, Except.toOption, List.getLast?_cons, hlast]
      · simp [hzero, htype, Except.toOption]

theorem slotEnd_succ (hfetch : σ.kcnodeFetchGuarded cur (σ.index cur cptr) = .ok (obj, slot)) :
    σ.slotEnd (n + 1) cur cptr =
      if cptr >>> σ.radix cur = 0 then some (cur, σ.index cur cptr)
      else if (σ.objs obj).type = .cnode then σ.slotEnd n obj (cptr >>> σ.radix cur) else none := by
  simp only [slotEnd, resolveSlotFrom, hfetch]
  by_cases hzero : cptr >>> σ.radix cur = 0
  · simp [hzero, Except.toOption]
  · by_cases htype : (σ.objs obj).type = .cnode <;> simp [hzero, htype, Except.toOption]

/-- The guards are harmless exactly when the two walks end at the same slot. -/
theorem guardsHarmless_iff :
    σ.guardsHarmless n cur g cptr = true ↔ σ.capEnd n cur g cptr = σ.slotEnd n cur cptr := by
  induction n generalizing cur g cptr with
  | zero => simp [guardsHarmless, capEnd, slotEnd, resolveCapFrom, resolveSlotFrom, Except.toOption]
  | succ n ih =>
    cases hfetch : σ.kcnodeFetchGuarded cur (σ.index cur cptr) with
    | error e =>
      obtain ⟨hcap, hslot⟩ := ends_of_fetch_error (n := n) (g := g) hfetch
      simp [guardsHarmless, hfetch, hcap, hslot]
    | ok p =>
      obtain ⟨obj, slot⟩ := p
      simp only [guardsHarmless, hfetch, capEnd_succ hfetch, slotEnd_succ hfetch]
      generalize cptr >>> σ.radix cur = rest
      by_cases hinert : g.bits = 0 ∨ rest = 0 ∧ g.value = 0
      · rw [if_pos hinert, consume_inert hinert, Option.bind_some]
        by_cases hzero : rest = 0
        · simp [hzero]
        · by_cases htype : (σ.objs obj).type = .cnode <;> simp [hzero, htype, ih]
      · rw [if_neg hinert]
        cases hleft : g.consume rest with
        | none =>
          by_cases hzero : rest = 0
          · simp [hzero]
          · by_cases htype : (σ.objs obj).type = .cnode <;> simp [hzero, htype, eq_comm]
        | some left =>
          have hrest : rest ≠ 0 := by
            rintro rfl
            exact hinert (consume_zero hleft)
          cases left with
          | zero => by_cases htype : (σ.objs obj).type = .cnode <;> simp [hrest, htype, eq_comm]
          | succ left => by_cases htype : (σ.objs obj).type = .cnode <;> simp [hrest, htype]

end

/-- Two walks that end at the same slot return, the one this slot and the other its capability,
unless it lacks the rights. -/
theorem ends_eq_iff {σ : Kernel} {g : Guard} :
    σ.capEnd n cur g cptr = σ.slotEnd n cur cptr ↔
      (∀ required path r, σ.resolveCapFrom required n cur g cptr = .ok (path, r) →
        ∃ cn idx, σ.resolveSlotFrom n cur cptr = .ok (cn, idx) ∧ path.getLast? = some (cn, idx) ∧
          (σ.slots (.slot cn idx)).object = some r.obj ∧
          (σ.slots (.slot cn idx)).rights = r.rights ∧ (σ.slots (.slot cn idx)).badge = r.badge) ∧
      ∀ cn idx, σ.resolveSlotFrom n cur cptr = .ok (cn, idx) → ∀ required, ∃ path obj,
        path.getLast? = some (cn, idx) ∧ (σ.slots (.slot cn idx)).object = some obj ∧
        σ.resolveCapFrom required n cur g cptr =
          if required ≠ rightNone ∧ !rightsCheck (σ.slots (.slot cn idx)).rights required
          then .error .accessDenied
          else .ok (path, ⟨obj, (σ.slots (.slot cn idx)).rights,
            (σ.slots (.slot cn idx)).badge⟩) := by
  cases hcap : σ.resolveCapFrom rightNone n cur g cptr with
  | error e =>
    have hnever : ∀ required, σ.resolveCapFrom required n cur g cptr = .error e := fun required => by
      rw [resolveCapFrom_required, hcap, Except.bind]
    cases hslot : σ.resolveSlotFrom n cur cptr with
    | error e' => simp [capEnd, slotEnd, hcap, hslot, hnever, Except.toOption]
    | ok s =>
      simp only [capEnd, slotEnd, hcap, hslot, Except.toOption, Option.bind_none, reduceCtorEq,
        false_iff, not_and, not_forall]
      intro _
      refine ⟨s.1, s.2, rfl, rightNone, ?_⟩
      rintro ⟨path, obj, -, -, heq⟩
      rw [if_neg fun h => h.1 rfl, hcap] at heq
      cases heq
  | ok p =>
    obtain ⟨path, r⟩ := p
    obtain ⟨cn, idx, hlast, hobj, hrights, hbadge⟩ := resolveCapFrom_last hcap
    have hends : σ.capEnd n cur g cptr = some (cn, idx) := by
      simp [capEnd, hcap, Except.toOption, hlast]
    rw [hends]
    cases hslot : σ.resolveSlotFrom n cur cptr with
    | error e =>
      simp only [slotEnd, hslot, Except.toOption, reduceCtorEq, false_iff, not_and]
      intro h
      obtain ⟨_, _, h, -⟩ := h rightNone path r hcap
      cases h
    | ok s =>
      simp only [slotEnd, hslot, Except.toOption, Option.some.injEq, Except.ok.injEq]
      constructor
      · rintro rfl
        have hreq : ∀ required, σ.resolveCapFrom required n cur g cptr = 
          if required ≠ rightNone ∧ !rightsCheck r.rights required then .error .accessDenied
          else .ok (path, r) := fun required => by
          rw [resolveCapFrom_required, hcap, Except.bind]
        refine ⟨fun required path' r' h => ?_, ?_⟩
        · rw [hreq] at h
          split_ifs at h
          cases h
          exact ⟨cn, idx, rfl, hlast, hobj, hrights, hbadge⟩
        · rintro _ _ ⟨⟩ required
          refine ⟨path, r.obj, hlast, hobj, ?_⟩
          rw [hreq, hrights, hbadge]
      · intro h
        obtain ⟨_, _, rfl, hlast', -⟩ := h.1 rightNone path r hcap
        exact Option.some.inj (hlast.symm.trans hlast')

theorem resolveSlotFrom_iff_dest {σ : Kernel} :
    σ.resolveSlotFrom n cur cptr = .ok s ↔
      σ.resolveDestSlotFrom n cur cptr = .ok s ∧ ∃ p, σ.kcnodeFetchGuarded s.1 s.2 = .ok p := by
  induction n generalizing cur cptr with
  | zero => simp [resolveSlotFrom, resolveDestSlotFrom]
  | succ n ih =>
    simp only [resolveSlotFrom, resolveDestSlotFrom]
    by_cases hzero : cptr >>> σ.radix cur = 0
    · rw [if_pos hzero, Except.ok.injEq]
      cases hfetch : σ.kcnodeFetchGuarded cur (σ.index cur cptr) with
      | error e =>
        constructor
        · intro h
          cases h
        · rintro ⟨rfl, p, hp⟩
          cases hfetch.symm.trans hp
      | ok p =>
        simp only [hzero, ne_eq, not_true_eq_false, false_and, if_false, if_true, Except.ok.injEq]
        constructor
        · rintro rfl
          exact ⟨rfl, p, hfetch⟩
        · exact And.left
    · rw [if_neg hzero]
      cases hfetch : σ.kcnodeFetchGuarded cur (σ.index cur cptr) with
      | error e => simp
      | ok p =>
        by_cases htype : (σ.objs p.1).type = .cnode
        · simp only [htype, ne_eq, not_true_eq_false, and_false, if_false, hzero]
          exact ih
        · simp [htype, hzero]

end Kernel

-- Without guards; with one that both walks fail behind; and with one that only the second reads as
-- an index.
example : (chainedSpace 0 0).guardsHarmless cspaceMaxDepth 0 {} 7 = true ∧
    (chainedSpace 1 1).guardsHarmless cspaceMaxDepth 0 {} 11 = true ∧
    (chainedSpace 1 1).guardsHarmless cspaceMaxDepth 0 {} 7 = false := by decide

/-- The same CSpace, built by the kernel's own operations. -/
def chainedRun (guard : UInt64) (guardBits : UInt8) : List Action :=
  [.allocCNode 2, .allocCNode 2, .allocCNode 2, .initObject .endpoint,
    .installLinked 0 1 1 rightRead 0 none none true true,
    .installLinked 1 1 2 rightRead 0 none none true true,
    .installLinked 2 1 3 rightRead 0 none none true true, .setGuard 0 1 guard guardBits]

end IrisOS.Cap
