import IrisOS.Lib.LittleEndian
import IrisOS.Lib.Traced
import Mathlib.Data.UInt
import Mathlib.Tactic.IntervalCases

/-! Relocation of ELF images: the shared pass over `R_X86_64_RELATIVE` entries and the dynamic
linker's pass over the entries that name symbols. -/
namespace IrisOS.Elf
open Lib (loadLe Traced)
open Lib.Traced List

/-- What a pass touches: bytes of the image or of a window, and the eight bytes of a relocation. -/
inductive Access
  | read (off len : ℕ)
  | fill (window off len : ℕ)
  | store (vaddr host value : UInt64)
  deriving DecidableEq

def load (mem : ℕ → UInt8) (off len : ℕ) : Traced Access ℕ := do
  emit (.read off len)
  pure (loadLe (fun i => mem (off + i)) len)

def load64 (mem : ℕ → UInt8) (off : ℕ) : Traced Access UInt64 := do
  let v ← load mem off 8
  pure (UInt64.ofNat v)

/-- A loadable segment: where the image puts it, how big it is, and where it can be written. -/
structure SegView where
  vaddr : UInt64
  bytes : UInt64
  host : UInt64
  deriving DecidableEq

def relaBytes : ℕ := 24
def rX8664Abs : ℕ := 1
def rX8664Copy : ℕ := 5
def rX8664GlobDat : ℕ := 6
def rX8664JumpSlot : ℕ := 7
def rX8664Relative : ℕ := 8

/-- The thread-local kinds, from `R_X86_64_DTPMOD64` to `R_X86_64_TPOFF32`. -/
def tlsKinds : List ℕ := [16, 17, 18, 19, 20, 21, 22, 23]

/-- The containment test of both passes, in 64-bit arithmetic. -/
def SegView.accepts (s : SegView) (off : UInt64) : Bool :=
  !decide (off < s.vaddr) && !decide (s.bytes < off - s.vaddr + 8)

def findSeg (segs : List SegView) (off : UInt64) : Option SegView := segs.find? (·.accepts off)

/-- Where a virtual address can be written. -/
def site (segs : List SegView) (off : UInt64) : Traced Access UInt64 :=
  match findSeg segs off with
  | none => refuse
  | some s => pure (s.host + (off - s.vaddr))

/-- The kind of an entry and the index of its symbol. -/
def elf64RType (info : UInt64) : ℕ := info.toNat % 2 ^ 32
def elf64RSym (info : UInt64) : ℕ := info.toNat / 2 ^ 32

/-- The memory that a pass reads and writes, by host address. -/
abbrev Mem := UInt64 → UInt8

/-- The bytes from a host address on. -/
def Mem.view (mem : Mem) (table : UInt64) (i : ℕ) : UInt8 := mem (table + UInt64.ofNat i)

/-- The eight bytes of a relocated value, stored one at a time. -/
def Mem.put (mem : Mem) (host value : UInt64) : Mem := fun a =>
  if a - host < 8 then Lib.byteOf value.toNat (a - host).toNat else mem a

/-- The loop of both passes over the entries of a table. A store can change an entry that the pass
has not come to yet, for the table may lie in a segment. -/
def sweep {σ : Type} (rela ent : ℕ) (step : σ → ℕ → Traced Access σ) (s : σ) (bytes : ℕ) :
    Traced Access σ :=
  (List.range (bytes / ent)).foldlM (fun s i => step s (rela + i * ent)) s

/-- One entry of the relative pass, with the number of entries applied before it; entries of other
kinds are left alone. Entries are found at their distance from the host address `table`. -/
def applyRelativeEntry (segs : List SegView) (bias table : UInt64) (s : ℕ × Mem) (entry : ℕ) :
    Traced Access (ℕ × Mem) := do
  let info ← load64 (s.2.view table) (entry + 8)
  if elf64RType info ≠ rX8664Relative then pure s
  else do
    let off ← load64 (s.2.view table) entry
    let host ← site segs off
    let addend ← load64 (s.2.view table) (entry + 16)
    emit (.store off host (bias + addend))
    pure (s.1 + 1, s.2.put host (bias + addend))

def elfApplyRelative (segs : List SegView) (bias table : UInt64) (mem : Mem)
    (rela bytes ent : ℕ) : Traced Access (ℕ × Mem) :=
  if segs = [] ∨ ent < relaBytes then refuse else
  sweep rela ent (applyRelativeEntry segs bias table) (0, mem) bytes

/-- A dynamic symbol, with its name read out of the string table. -/
structure Sym where
  name : List UInt8
  weak : Bool
  undefined : Bool
  value : UInt64
  deriving DecidableEq

/-- An object to resolve against: its base and its symbols, the first of which is reserved. -/
structure DlObj where
  base : UInt64
  syms : List Sym

/-- A defined symbol by name: a strong one anywhere before a weak one anywhere. -/
def dlLookup (objs : List DlObj) (name : List UInt8) : Option UInt64 :=
  let all := objs.flatMap fun o => (o.syms.drop 1).map fun s => (o.base + s.value, s)
  let pass (weak : Bool) := all.find? fun d =>
    !d.2.undefined && d.2.weak == weak && d.2.name == name
  ((pass false).or (pass true)).map Prod.fst

/-- The value of the symbol that an entry names; zero for a weak symbol that nothing defines. -/
def dlValue (objs : List DlObj) (self : Option DlObj) (si : ℕ) : Option UInt64 :=
  if si = 0 then none else
  match self.bind fun o => o.syms[si]? with
  | none => none
  | some ref =>
    match dlLookup objs ref.name with
    | some value => some value
    | none => if ref.weak then some 0 else none

/-- The addend of an entry, which only an absolute one has. -/
def dlAddend (mem : ℕ → UInt8) (entry kind : ℕ) : Traced Access UInt64 :=
  if kind = rX8664Abs then load64 mem (entry + 16) else pure 0

/-- What the symbol tables say, which lie in memory themselves. -/
structure Symbols where
  objs : Mem → List DlObj
  self : Mem → Option DlObj

/-- An entry of the dynamic linker's pass, by its kind and the index of its symbol. -/
def dlApplyKind (segs : List SegView) (base : UInt64) (syms : Symbols) (table : UInt64)
    (mem : Mem) (entry kind si : ℕ) : Traced Access Mem :=
  if kind = rX8664Relative then do
    let s ← elfApplyRelative segs base table mem entry relaBytes relaBytes
    pure s.2
  else if kind ∈ tlsKinds then refuse
  else if kind ∉ [rX8664GlobDat, rX8664JumpSlot, rX8664Abs] then
    if kind = rX8664Copy then refuse else pure mem
  else
    match dlValue (syms.objs mem) (syms.self mem) si with
    | none => refuse
    | some value => do
      let addend ← dlAddend (mem.view table) entry kind
      let off ← load64 (mem.view table) entry
      let host ← site segs off
      emit (.store off host (value + addend))
      pure (mem.put host (value + addend))

def dlApplyEntry (segs : List SegView) (base : UInt64) (syms : Symbols) (table : UInt64)
    (mem : Mem) (entry : ℕ) : Traced Access Mem := do
  let info ← load64 (mem.view table) (entry + 8)
  dlApplyKind segs base syms table mem entry (elf64RType info) (elf64RSym info)

def dlApply (segs : List SegView) (base : UInt64) (syms : Symbols) (table : UInt64) (mem : Mem)
    (rela bytes ent : ℕ) : Traced Access Mem :=
  if ent < relaBytes then refuse else sweep rela ent (dlApplyEntry segs base syms table) mem bytes

/-! ### What the passes read and store -/

/-- The virtual address and the kind of an entry. -/
def entryOff (mem : ℕ → UInt8) (entry : ℕ) : UInt64 :=
  UInt64.ofNat (loadLe (fun i => mem (entry + i)) 8)

def entryKind (mem : ℕ → UInt8) (entry : ℕ) : ℕ := elf64RType (entryOff mem (entry + 8))

section
variable {ok : Access → Prop} {segs : List SegView} {mem : ℕ → UInt8} {entry : ℕ}
  {off : UInt64} {s : SegView}

theorem result_load (off len : ℕ) :
    (load mem off len).result = some (loadLe (fun i => mem (off + i)) len) := rfl

theorem result_load_bind {α : Type} {off len : ℕ} {f : ℕ → Traced Access α}
    {next : Traced Access α} (hnext : f (loadLe (fun i => mem (off + i)) len) = next) :
    (load mem off len >>= f).result = next.result := hnext ▸ rfl

@[simp] theorem result_load64 (off : ℕ) : (load64 mem off).result = some (entryOff mem off) := rfl

theorem within_load {off len : ℕ} : Within ok (load mem off len) ↔ ok (.read off len) := by
  simp [load]

@[simp] theorem within_load64 {off : ℕ} : Within ok (load64 mem off) ↔ ok (.read off 8) := by
  simp [load64, within_load]

theorem within_load64_bind {α : Type} {off : ℕ} {f : UInt64 → Traced Access α} :
    Within ok (load64 mem off >>= f) ↔ ok (.read off 8) ∧ Within ok (f (entryOff mem off)) := by
  simp

theorem result_load64_bind {α : Type} {off : ℕ} {f : UInt64 → Traced Access α}
    {next : Traced Access α} (hnext : f (entryOff mem off) = next) :
    (load64 mem off >>= f).result = next.result := hnext ▸ rfl

@[simp] theorem within_site : Within ok (site segs off) := by
  unfold site
  split <;> simp

@[simp] theorem result_site :
    (site segs off).result = (findSeg segs off).map fun s => s.host + (off - s.vaddr) := by
  unfold site
  split <;> simp [*]

/-- An entry of an applied kind is stored where the segment found for it has it. -/
theorem within_applyRelativeEntry {bias table : UInt64} {s : ℕ × Mem} :
    Within ok (applyRelativeEntry segs bias table s entry) ↔ ok (.read (entry + 8) 8) ∧
      (entryKind (s.2.view table) entry = rX8664Relative → ok (.read entry 8) ∧
        ∀ seg ∈ findSeg segs (entryOff (s.2.view table) entry), ok (.read (entry + 16) 8) ∧
          ok (.store (entryOff (s.2.view table) entry)
            (seg.host + (entryOff (s.2.view table) entry - seg.vaddr))
            (bias + entryOff (s.2.view table) (entry + 16)))) := by
  rw [applyRelativeEntry, within_load64_bind]
  refine and_congr_right fun _ => ?_
  split_ifs with hkind
  · exact iff_of_true (within_pure s) fun hrel => absurd hrel hkind
  · have hrel : entryKind (s.2.view table) entry = rX8664Relative := not_not.mp hkind
    simp [hrel]

theorem isSome_applyRelativeEntry {bias table : UInt64} {s : ℕ × Mem}
    (h : (applyRelativeEntry segs bias table s entry).result.isSome)
    (hkind : entryKind (s.2.view table) entry = rX8664Relative) :
    (findSeg segs (entryOff (s.2.view table) entry)).isSome := by
  rw [applyRelativeEntry, result_bind, result_load64, Option.bind_some] at h
  split_ifs at h with hother
  · exact absurd hkind hother
  · cases hseg : findSeg segs (entryOff (s.2.view table) entry) with
    | none => simp [hseg] at h
    | some seg => rfl

theorem elfApplyRelative_one (bias table : UInt64) (mem : Mem) (hsegs : segs ≠ []) :
    elfApplyRelative segs bias table mem entry relaBytes relaBytes =
      applyRelativeEntry segs bias table (0, mem) entry := by
  rw [elfApplyRelative, if_neg (by simp [hsegs])]
  show List.foldlM _ _ [0] = _
  rw [List.foldlM_cons, Nat.zero_mul, Nat.add_zero]
  exact bind_pure _

end

/-! ### Where the stores land -/

/-- A segment holds the eight bytes at a virtual address. -/
def Covers (s : SegView) (off : UInt64) : Prop :=
  s.vaddr.toNat ≤ off.toNat ∧ off.toNat + 8 ≤ s.vaddr.toNat + s.bytes.toNat

/-- The host window of a segment does not wrap around the address space. -/
def SegView.Windowed (s : SegView) : Prop := s.host.toNat + s.bytes.toNat ≤ 2 ^ 64

/-- The store lies in the window of a segment that holds the address, as far in as the address is.
-/
def Lands (segs : List SegView) : Access → Prop
  | .store off host _ => ∃ s ∈ segs, Covers s off ∧ s.host.toNat ≤ host.toNat ∧
      host.toNat + 8 ≤ s.host.toNat + s.bytes.toNat ∧
      host.toNat - s.host.toNat = off.toNat - s.vaddr.toNat
  | _ => True

/-- The segment found for an address is so far below it that the containment test wraps, and where
the store then goes is not where a segment that holds the address has it. -/
def WrapsAway (segs : List SegView) (off : UInt64) : Prop :=
  ∃ s ∈ findSeg segs off, 2 ^ 64 ≤ off.toNat - s.vaddr.toNat + 8 ∧
    ∀ s' ∈ segs, Covers s' off → s'.host + (off - s'.vaddr) ≠ s.host + (off - s.vaddr)

instance decidableCovers (s : SegView) (off : UInt64) : Decidable (Covers s off) :=
  inferInstanceAs (Decidable (_ ∧ _))

instance decidableWrapsAway (segs : List SegView) (off : UInt64) :
    Decidable (WrapsAway segs off) :=
  inferInstanceAs (Decidable (∃ s ∈ findSeg segs off, _))

section
variable {segs : List SegView} {off value : UInt64} {s : SegView}

theorem covers_of_findSeg (hs : findSeg segs off = some s)
    (hsum : off.toNat - s.vaddr.toNat + 8 < 2 ^ 64) : Covers s off := by
  have haccepts := find?_some hs
  simp only [SegView.accepts, Bool.and_eq_true, Bool.not_eq_true', decide_eq_false_iff_not]
    at haccepts
  obtain ⟨hlow, hhigh⟩ := haccepts
  have hle : s.vaddr ≤ off := UInt64.not_lt.mp hlow
  have hhigh' := UInt64.le_iff_toNat_le.mp (UInt64.not_lt.mp hhigh)
  rw [UInt64.toNat_add, UInt64.toNat_sub_of_le _ _ hle, show (8 : UInt64).toNat = 8 from rfl,
    Nat.mod_eq_of_lt hsum] at hhigh'
  have hle' := UInt64.le_iff_toNat_le.mp hle
  exact ⟨hle', by omega⟩

/-- Where the window of a segment that holds an address has it. -/
theorem toNat_host (hwin : s.Windowed) (hcovers : Covers s off) :
    (s.host + (off - s.vaddr)).toNat = s.host.toNat + (off.toNat - s.vaddr.toNat) := by
  obtain ⟨hlow, hhigh⟩ := hcovers
  unfold SegView.Windowed at hwin
  rw [UInt64.toNat_add, UInt64.toNat_sub_of_le _ _ (UInt64.le_iff_toNat_le.mpr hlow)]
  exact Nat.mod_eq_of_lt (by omega)

theorem lands_of_covers (hwin : s.Windowed) (hs : s ∈ segs) (hcovers : Covers s off) :
    Lands segs (.store off (s.host + (off - s.vaddr)) value) := by
  have hhost := toNat_host hwin hcovers
  obtain ⟨hlow, hhigh⟩ := id hcovers
  refine ⟨s, hs, hcovers, ?_, ?_, ?_⟩
  all_goals
    omega

theorem lands_read {off len : ℕ} : Lands segs (.read off len) := trivial

/-- A store through the segment found lands unless it wraps away. -/
theorem lands_iff (hwin : ∀ s ∈ segs, s.Windowed) (hs : findSeg segs off = some s) :
    Lands segs (.store off (s.host + (off - s.vaddr)) value) ↔ ¬ WrapsAway segs off := by
  constructor
  · rintro ⟨s', hs', hcovers, hlow, -, hdist⟩ ⟨s'', hs'', -, haway⟩
    obtain rfl := Option.some.inj (hs.symm.trans hs'')
    refine haway s' hs' hcovers (UInt64.toNat_inj.mp ?_)
    rw [toNat_host (hwin s' hs') hcovers]
    omega
  · intro hnot
    by_cases hsum : off.toNat - s.vaddr.toNat + 8 < 2 ^ 64
    · have hmem := mem_of_find?_eq_some hs
      exact lands_of_covers (hwin s hmem) hmem (covers_of_findSeg hs hsum)
    · have hheld : ∃ s' ∈ segs, Covers s' off ∧
          s'.host + (off - s'.vaddr) = s.host + (off - s.vaddr) := by
        by_contra hnone
        exact hnot ⟨s, hs, by omega, fun s' hs' hcovers hhost => hnone ⟨s', hs', hcovers, hhost⟩⟩
      obtain ⟨s', hs', hcovers, hhost⟩ := hheld
      rw [← hhost]
      exact lands_of_covers (hwin s' hs') hs' hcovers

theorem lands_found_iff (hwin : ∀ s ∈ segs, s.Windowed) :
    (∀ s ∈ findSeg segs off, Lands segs (.store off (s.host + (off - s.vaddr)) value)) ↔
      ¬ WrapsAway segs off := by
  constructor
  · rintro hlands ⟨s, hs, haway⟩
    exact (lands_iff hwin hs).mp (hlands s hs) ⟨s, hs, haway⟩
  · exact fun hnot s hs => (lands_iff hwin hs).mpr hnot

end

section
variable {σ : Type} (segs : List SegView) (table : UInt64) (rela bytes ent : ℕ) (memOf : σ → Mem)
  (run : ℕ → Traced Access σ)

/-- Every store of a pass lands, and an entry of the kinds that the pass applies lies in a segment
if the pass comes to its end. Entries count as they stand when the pass over the ones before is
through. -/
def LandsAll (kinds : List ℕ) : Prop :=
  (∀ a ∈ (run bytes).log, Lands segs a) ∧
  ((run bytes).result.isSome → ∀ i < bytes / ent, ∀ s ∈ (run (i * ent)).result,
    entryKind ((memOf s).view table) (rela + i * ent) ∈ kinds →
      ∃ seg ∈ segs, Covers seg (entryOff ((memOf s).view table) (rela + i * ent)))

/-- No entry that a pass comes to and applies wraps away. -/
def NoneWrapsAway (applies : Mem → ℕ → Prop) : Prop :=
  ∀ i < bytes / ent, ∀ s ∈ (run (i * ent)).result, applies (memOf s) (rela + i * ent) →
    ¬ WrapsAway segs (entryOff ((memOf s).view table) (rela + i * ent))

instance decidableNoneWrapsAway (applies : Mem → ℕ → Prop) [∀ mem, DecidablePred (applies mem)] :
    Decidable (NoneWrapsAway segs table rela bytes ent memOf run applies) :=
  inferInstanceAs (Decidable (∀ i < bytes / ent, _))

variable {segs table rela bytes ent memOf} {kinds : List ℕ} {applies : Mem → ℕ → Prop}
  {step : σ → ℕ → Traced Access σ} {s : σ}

theorem landsAll_refused : LandsAll segs table rela bytes ent memOf (fun _ => refuse) kinds ↔
    NoneWrapsAway segs table rela bytes ent memOf (fun _ => refuse) applies := by
  refine iff_of_true ⟨within_refuse, fun h => absurd h Bool.false_ne_true⟩ fun i _ s hs => ?_
  exact absurd hs (Option.not_mem_none s)

theorem sweep_entries (hent : 0 < ent) (i : ℕ) : sweep rela ent step s (i * ent) =
    (List.range i).foldlM (fun s i => step s (rela + i * ent)) s := by
  rw [sweep, Nat.mul_div_cancel _ hent]

/-- A pass whose step stores an applied entry through the segment found for it. -/
theorem landsAll_sweep (hwin : ∀ s ∈ segs, s.Windowed) (hent : 0 < ent)
    (hstep : ∀ s entry, Within (Lands segs) (step s entry) ↔ (applies (memOf s) entry →
      ¬ WrapsAway segs (entryOff ((memOf s).view table) entry)))
    (hsome : ∀ s entry, (step s entry).result.isSome →
      entryKind ((memOf s).view table) entry ∈ kinds → applies (memOf s) entry ∧
        (findSeg segs (entryOff ((memOf s).view table) entry)).isSome) :
    LandsAll segs table rela bytes ent memOf (sweep rela ent step s) kinds ↔
      NoneWrapsAway segs table rela bytes ent memOf (sweep rela ent step s) applies := by
  have hlog : (∀ a ∈ (sweep rela ent step s bytes).log, Lands segs a) ↔
      NoneWrapsAway segs table rela bytes ent memOf (sweep rela ent step s) applies := by
    refine (within_foldlM_range _).trans ?_
    simp only [NoneWrapsAway, sweep_entries hent, hstep]
  refine ⟨fun h => hlog.mp h.1, fun hnone => ⟨hlog.mpr hnone, fun hend i hi s' hs' hkind => ?_⟩⟩
  have hdone := isSome_of_foldlM_range hend i hi s' (sweep_entries hent i ▸ hs')
  obtain ⟨happlies, hfound⟩ := hsome s' _ hdone hkind
  obtain ⟨seg, hseg⟩ := Option.isSome_iff_exists.mp hfound
  have hlands : Lands segs (.store _ _ 0) :=
    (lands_iff hwin hseg).mpr (hnone i hi s' hs' happlies)
  obtain ⟨seg', hmem, hcovers, -⟩ := hlands
  exact ⟨seg', hmem, hcovers⟩

end

section
variable {segs : List SegView}

/-- The relative pass applies its own kind. -/
def relativeApplies (table : UInt64) (mem : Mem) (entry : ℕ) : Prop :=
  entryKind (mem.view table) entry = rX8664Relative

theorem within_lands_relative (hwin : ∀ s ∈ segs, s.Windowed) (bias table : UInt64) (s : ℕ × Mem)
    (entry : ℕ) :
    Within (Lands segs) (applyRelativeEntry segs bias table s entry) ↔
      (relativeApplies table s.2 entry →
        ¬ WrapsAway segs (entryOff (s.2.view table) entry)) := by
  rw [within_applyRelativeEntry, and_iff_right lands_read]
  refine imp_congr_right fun _ => ?_
  simp only [lands_read, true_and, lands_found_iff hwin]

/-- The kinds that the dynamic linker applies by their symbol. -/
def symbolKinds : List ℕ := [rX8664GlobDat, rX8664JumpSlot, rX8664Abs]

def dlKinds : List ℕ := rX8664Relative :: symbolKinds

/-- The dynamic linker applies a relative entry, and another one if it can give its symbol a value.
-/
def dlAppliesKind (syms : Symbols) (mem : Mem) (kind si : ℕ) : Prop :=
  kind = rX8664Relative ∨
    kind ∈ symbolKinds ∧ (dlValue (syms.objs mem) (syms.self mem) si).isSome

def dlApplies (syms : Symbols) (table : UInt64) (mem : Mem) (entry : ℕ) : Prop :=
  dlAppliesKind syms mem (entryKind (mem.view table) entry)
    (elf64RSym (entryOff (mem.view table) (entry + 8)))

instance decidableRelativeApplies (table : UInt64) (mem : Mem) :
    DecidablePred (relativeApplies table mem) := fun _ => inferInstanceAs (Decidable (_ = _))

instance decidableDlApplies (syms : Symbols) (table : UInt64) (mem : Mem) :
    DecidablePred (dlApplies syms table mem) := fun _ => inferInstanceAs (Decidable (_ ∨ _))

theorem within_dlAddend {mem : ℕ → UInt8} {entry kind : ℕ} :
    Within (Lands segs) (dlAddend mem entry kind) := by
  unfold dlAddend
  split_ifs
  · exact within_load64.mpr lands_read
  · exact within_pure 0

theorem result_dlAddend (mem : ℕ → UInt8) (entry kind : ℕ) : (dlAddend mem entry kind).result =
    some (if kind = rX8664Abs then entryOff mem (entry + 16) else 0) := by
  unfold dlAddend
  split_ifs <;> rfl

theorem not_mem_symbolKinds {kind : ℕ} (h : kind ∈ tlsKinds) : kind ∉ symbolKinds := by
  revert kind
  decide

/-- An entry with a symbol, whose value is known, is stored where the segment found for it has it.
-/
theorem within_symbol {mem : ℕ → UInt8} {next : UInt64 → UInt64 → Mem} {entry kind : ℕ}
    {value : UInt64} (hwin : ∀ s ∈ segs, s.Windowed) :
    Within (Lands segs) (do
      let addend ← dlAddend mem entry kind
      let off ← load64 mem entry
      let host ← site segs off
      emit (.store off host (value + addend))
      pure (next host (value + addend))) ↔ ¬ WrapsAway segs (entryOff mem entry) := by
  rw [within_bind, and_iff_right within_dlAddend, result_dlAddend]
  simp only [Option.mem_some_iff, forall_eq', within_load64, result_load64, lands_read, true_and,
    within_bind, within_site, result_site, within_emit, within_pure, implies_true, and_true,
    Option.mem_map, forall_exists_index, and_imp, forall_apply_eq_imp_iff₂]
  exact lands_found_iff hwin

theorem within_dlApplyKind (hwin : ∀ s ∈ segs, s.Windowed) (base : UInt64) (syms : Symbols)
    (table : UInt64) (mem : Mem) {entry kind : ℕ} (si : ℕ)
    (hkind : entryKind (mem.view table) entry = kind) :
    Within (Lands segs) (dlApplyKind segs base syms table mem entry kind si) ↔
      (dlAppliesKind syms mem kind si →
        ¬ WrapsAway segs (entryOff (mem.view table) entry)) := by
  have hskip (hrel : ¬ kind = rX8664Relative) (hother : kind ∉ symbolKinds) :
      dlAppliesKind syms mem kind si →
        ¬ WrapsAway segs (entryOff (mem.view table) entry) :=
    fun happlies => (happlies.elim hrel fun h => hother h.1).elim
  unfold dlApplyKind
  split_ifs with hrel htls hother hcopy
  · rw [bind_pure_comp, within_map, forall_prop_of_true (.inl hrel)]
    rcases eq_or_ne segs [] with rfl | hsegs
    · refine iff_of_true (by simp [elfApplyRelative]) ?_
      rintro ⟨s, hs, -⟩
      exact absurd hs (Option.not_mem_none s)
    · rw [elfApplyRelative_one base table mem hsegs, within_lands_relative hwin]
      exact forall_prop_of_true (hkind.trans hrel)
  · exact iff_of_true within_refuse (hskip hrel (not_mem_symbolKinds htls))
  · cases hvalue : dlValue (syms.objs mem) (syms.self mem) si with
    | none =>
      refine iff_of_true within_refuse fun happlies => ?_
      rcases happlies with hrel' | ⟨-, hsome⟩
      · exact absurd hrel' hrel
      · rw [hvalue] at hsome
        exact absurd hsome Bool.false_ne_true
    | some value =>
      rw [forall_prop_of_true (.inr ⟨hother, Option.isSome_of_eq_some hvalue⟩)]
      exact within_symbol hwin
  · exact iff_of_true within_refuse (hskip hrel hother)
  · exact iff_of_true (within_pure mem) (hskip hrel hother)

theorem isSome_dlApplyKind (base : UInt64) (syms : Symbols) (table : UInt64) (mem : Mem)
    {entry : ℕ} (kind si : ℕ) (hkind : entryKind (mem.view table) entry = kind)
    (h : (dlApplyKind segs base syms table mem entry kind si).result.isSome)
    (hmem : kind ∈ dlKinds) :
    dlAppliesKind syms mem kind si ∧
      (findSeg segs (entryOff (mem.view table) entry)).isSome := by
  unfold dlApplyKind at h
  split_ifs at h with hrel htls hother hcopy
  · refine ⟨.inl hrel, ?_⟩
    rcases eq_or_ne segs [] with rfl | hsegs
    · rw [elfApplyRelative, if_pos (.inl rfl)] at h
      exact absurd h Bool.false_ne_true
    · rw [elfApplyRelative_one base table mem hsegs, bind_pure_comp, result_map,
        Option.isSome_map] at h
      have hfound := isSome_applyRelativeEntry h (hkind.trans hrel)
      exact hfound
  · exact absurd h Bool.false_ne_true
  · cases hvalue : dlValue (syms.objs mem) (syms.self mem) si with
    | none =>
      rw [hvalue] at h
      exact absurd h Bool.false_ne_true
    | some value =>
      refine ⟨.inr ⟨hother, Option.isSome_of_eq_some hvalue⟩, ?_⟩
      rw [hvalue] at h
      cases hseg : findSeg segs (entryOff (mem.view table) entry) with
      | none => simp [hseg, result_dlAddend] at h
      | some seg => rfl
  · exact absurd h Bool.false_ne_true
  · exact ((mem_cons.mp hmem).elim hrel hother).elim

theorem within_dlApplyEntry (hwin : ∀ s ∈ segs, s.Windowed) (base : UInt64) (syms : Symbols)
    (table : UInt64) (mem : Mem) (entry : ℕ) :
    Within (Lands segs) (dlApplyEntry segs base syms table mem entry) ↔
      (dlApplies syms table mem entry → ¬ WrapsAway segs (entryOff (mem.view table) entry)) := by
  rw [dlApplyEntry, within_load64_bind, and_iff_right lands_read]
  exact within_dlApplyKind hwin base syms table mem _ rfl

theorem isSome_dlApplyEntry (base : UInt64) (syms : Symbols) (table : UInt64) (mem : Mem)
    (entry : ℕ) (h : (dlApplyEntry segs base syms table mem entry).result.isSome)
    (hkind : entryKind (mem.view table) entry ∈ dlKinds) :
    dlApplies syms table mem entry ∧ (findSeg segs (entryOff (mem.view table) entry)).isSome := by
  rw [dlApplyEntry, result_load64_bind rfl] at h
  exact isSome_dlApplyKind base syms table mem (elf64RType _) (elf64RSym _) rfl h hkind

end

/-- A memory with 64-bit words from a host address on. -/
def wordsAt (host : UInt64) (ws : List UInt64) : Mem := fun a =>
  Lib.byteOf (ws.getD ((a - host).toNat / 8) 0).toNat ((a - host).toNat % 8)

end IrisOS.Elf
