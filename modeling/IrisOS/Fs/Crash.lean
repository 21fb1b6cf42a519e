import IrisOS.Fs.Service
import IrisOS.Lib.Steps
import Mathlib.Tactic.IntervalCases

/-! Files across crashes and failed block operations: a file reads back as one whole write, unless a
format or a replacement with another length stops between its two sector writes. -/
namespace IrisOS.Fs
open Lib List

/-- The data are those of one write to the name, and no later one was answered OK. -/
def Current (log : List Written) (name data : List UInt8) : Prop :=
  ∃ newer ok older, log = newer ++ ⟨name, data, ok⟩ :: older ∧
    ∀ w ∈ newer, w.name = name → w.ok = false

/-- The directory has no name twice, and every file in it is a whole write. -/
structure Tidy (disk : Disk) (log : List Written) : Prop where
  unique : ∀ i < fsMaxFiles, ∀ j < fsMaxFiles, entrySize (disk fsDirLba) i ≠ 0 →
    entrySize (disk fsDirLba) j ≠ 0 →
    entryName (disk fsDirLba) i = entryName (disk fsDirLba) j → i = j
  whole : ∀ i < fsMaxFiles, entrySize (disk fsDirLba) i ≠ 0 →
    entrySize (disk fsDirLba) i ≤ fsSector ∧
      Current log (entryName (disk fsDirLba) i)
        ((List.range (entrySize (disk fsDirLba) i)).map (disk (fsDataLba + i)))

/-- A format stops between its two sectors, or a write over a file of another length does. -/
def Torn (s : State) : Op → Prop
  | .mount io => io.read = true ∧ ¬ IsSuper (s.disk 0) ∧ hasToken (s.disk 0) = true ∧
      io.superLands = true ∧ io.dirLands = false
  | .write q io => s.mounted = true ∧ ∃ i, target s q io = some i ∧
      entrySize (s.disk fsDirLba) i ≠ 0 ∧ entrySize (s.disk fsDirLba) i ≠ q.len.toNat ∧
      io.dataLands = true ∧ io.dirLands = false
  | .crash => False

/-- The invariant of the runs without torn writes. -/
structure Inv (s : State) : Prop where
  super : s.mounted = true → IsSuper (s.disk 0)
  tidy : IsSuper (s.disk 0) → Tidy s.disk s.log

variable {s : State} {d : Sector} {i j len : ℕ} {name : ℕ → UInt8} {log : List Written}
  {disk : Disk}

theorem Current.cons_other {n data : List UInt8} {w : Written} (h : Current log n data)
    (hw : w.name = n → w.ok = false) : Current (w :: log) n data := by
  obtain ⟨newer, ok, older, rfl, hnewer⟩ := h
  exact ⟨w :: newer, ok, older, rfl, forall_mem_cons.2 ⟨hw, hnewer⟩⟩

theorem Current.head (n data : List UInt8) (ok : Bool) : Current (⟨n, data, ok⟩ :: log) n data :=
  ⟨[], ok, log, rfl, nofun⟩

/-! ## Sectors -/

theorem isSuper_superSector (h : IsSuper d) : IsSuper (superSector d) := by
  refine ⟨(loadLe_congr fun j hj => ?_).trans h.1, (loadLe_congr fun j hj => ?_).trans h.2⟩
  · exact if_pos (by omega)
  · exact if_pos (by omega)

theorem isSuper_nextSuper (h : IsSuper d) : IsSuper (nextSuper d) := by
  refine ⟨(loadLe_congr fun j hj => ?_).trans h.1, (loadLe_congr fun j hj => ?_).trans h.2⟩
  · exact if_neg (by omega)
  · exact if_neg (by omega)

theorem isSuper_newSuper : IsSuper newSuper := by decide

theorem entryName_setEntry : entryName (setEntry d i name len) j
    = if j = i then (List.range fsNameBytes).map name else entryName d j := by
  split_ifs with hji
  · refine map_congr_left fun k hk => ?_
    have hk' : k < 16 := mem_range.1 hk
    rw [setEntry, if_pos (by omega)]
    congr 1
    omega
  · refine map_congr_left fun k hk => ?_
    have hk' : k < 16 := mem_range.1 hk
    rw [setEntry, if_neg (by omega), if_neg (by omega)]

theorem entrySize_setEntry (hlen : len < 2 ^ 32) : entrySize (setEntry d i name len) j
    = if j = i then len else entrySize d j := by
  split_ifs with hji
  · have hback : loadLe (byteOf len) 4 = len := loadLe_byteOf_of_lt hlen
    refine (loadLe_congr fun k hk => ?_).trans hback
    rw [setEntry, if_neg (by omega), if_pos (by omega)]
    congr 1
    omega
  · refine loadLe_congr fun k hk => ?_
    rw [setEntry, if_neg (by omega), if_neg (by omega)]

theorem entrySize_zero : entrySize (fun _ => 0) i = 0 := by simp [entrySize, loadLe]

theorem dirFind_spec {n : List UInt8} {wantFree : Bool} (h : dirFind d n wantFree = some i) :
    i < fsMaxFiles ∧ ((entrySize d i ≠ 0 ∧ entryName d i = n) ∨
      (wantFree = true ∧ entrySize d i = 0 ∧
        ∀ j < fsMaxFiles, entrySize d j ≠ 0 → entryName d j ≠ n)) := by
  rcases Option.or_eq_some_iff.1 h with hk | ⟨hk, hfree⟩
  · exact ⟨mem_range.1 (mem_of_find?_eq_some hk), .inl (by simpa using find?_some hk)⟩
  split_ifs at hfree with hwant
  refine ⟨mem_range.1 (mem_of_find?_eq_some hfree), .inr ⟨hwant, ?_, ?_⟩⟩
  · simpa using find?_some hfree
  · intro j hj hsize hname
    exact find?_eq_none.1 hk j (mem_range.2 hj) (by simp [hsize, hname])

/-! ## Steps -/

theorem store_disk (lands : Bool) (lba : ℕ) (sector : Sector) (x : ℕ) :
    (s.store lands lba sector).disk x = if lands = true ∧ x = lba then sector else s.disk x := by
  unfold State.store
  by_cases hx : x = lba <;> cases lands <;> simp [hx]

theorem store_log (lands : Bool) (lba : ℕ) (sector : Sector) :
    (s.store lands lba sector).log = s.log := by
  unfold State.store
  split_ifs <;> rfl

theorem Tidy.congr {disk disk' : Disk} (h : Tidy disk log) (hdir : disk' fsDirLba = disk fsDirLba)
    (hdata : ∀ i, disk' (fsDataLba + i) = disk (fsDataLba + i)) : Tidy disk' log := by
  refine ⟨?_, ?_⟩
  · rw [hdir]
    exact h.unique
  · simp only [hdir, hdata]
    exact h.whole

theorem tidy_empty (hdir : disk fsDirLba = fun _ => 0) : Tidy disk log := by
  refine ⟨fun i _ j _ hi => ?_, fun i _ hi => ?_⟩ <;> rw [hdir] at hi <;>
    exact absurd entrySize_zero hi

theorem Inv.unmounted (h : Inv s) : Inv { s with mounted := false } := ⟨nofun, h.tidy⟩

theorem Inv.mount (h : Inv s) {io : MountIo} (hwhole : ¬ Torn s (.mount io)) :
    Inv (mount s io) := by
  unfold Fs.mount
  split_ifs with hread hsuper htoken
  · exact h.unmounted
  · have hnext := isSuper_superSector (isSuper_nextSuper hsuper)
    refine ⟨fun _ => ?_, fun _ => ?_⟩
    · simp only [store_disk]
      split_ifs
      · exact hnext
      · exact hsuper
    · simp only [store_log]
      refine (h.tidy hsuper).congr ?_ fun i => ?_ <;> rw [store_disk, if_neg] <;>
        simp [fsDirLba, fsDataLba]
  · have hread' : io.read = true := by simpa using hread
    by_cases hlands : io.superLands = true
    · have hdir : io.dirLands = true := by
        by_contra hdir
        exact hwhole ⟨hread', hsuper, htoken, hlands, by simpa using hdir⟩
      refine ⟨fun _ => ?_, fun _ => tidy_empty ?_⟩
      · change IsSuper ((State.store _ _ _ _).disk 0)
        rw [store_disk, if_neg (by simp [fsDirLba]), store_disk, if_pos ⟨hlands, rfl⟩]
        exact isSuper_superSector isSuper_newSuper
      · simp [store_disk, hdir]
    · have hbuffer : (io.buffer && decide (io.super = .ok)) = false := by
        by_contra hok
        simp only [Bool.not_eq_false, Bool.and_eq_true, decide_eq_true_eq] at hok
        exact hlands (by simp [MountIo.superLands, hok, Fate.landed])
      have hdir : io.dirLands = false := by simp [MountIo.dirLands, hbuffer]
      refine ⟨by simp [hbuffer], fun hs => ?_⟩
      simp only [store_disk, hlands, hdir] at hs
      exact absurd (by simpa using hs) hsuper
  · exact h.unmounted

theorem Tidy.log_failed (h : Tidy disk log) (n data : List UInt8) :
    Tidy disk (⟨n, data, false⟩ :: log) :=
  ⟨h.unique, fun i hi hsize => ⟨(h.whole i hi hsize).1,
    (h.whole i hi hsize).2.cons_other fun _ => rfl⟩⟩

section
variable {q : WriteReq} {io : WriteIo}

theorem target_spec (h : target s q io = some i) :
    i < fsMaxFiles ∧ q.len.toNat ≤ fsSector ∧ q.len.toNat ≠ 0 ∧
      ((entrySize (s.disk fsDirLba) i ≠ 0 ∧ entryName (s.disk fsDirLba) i = q.name) ∨
        (entrySize (s.disk fsDirLba) i = 0 ∧ ∀ j < fsMaxFiles,
          entrySize (s.disk fsDirLba) j ≠ 0 → entryName (s.disk fsDirLba) j ≠ q.name)) := by
  unfold target at h
  split_ifs at h with hlen
  obtain ⟨hi, hcases⟩ := dirFind_spec h
  exact ⟨hi, hlen.2.1, by omega, hcases.imp_right And.right⟩

theorem Tidy.name_ne (h : Tidy s.disk log) (ht : target s q io = some i) (hj : j < fsMaxFiles)
    (hji : j ≠ i) (hsize : entrySize (s.disk fsDirLba) j ≠ 0) :
    entryName (s.disk fsDirLba) j ≠ q.name := by
  obtain ⟨hi, -, -, ⟨hused, hname⟩ | ⟨-, hnone⟩⟩ := target_spec ht
  · exact fun he => hji (h.unique j hj i hi hsize hused (he.trans hname.symm))
  · exact hnone j hj hsize

theorem data_eq : (List.range q.len.toNat).map q.sector = q.data :=
  map_congr_left fun _ ha => if_pos (mem_range.1 ha)

theorem Tidy.replaced (h : Tidy s.disk s.log) (ht : target s q io = some i) (ok : Bool)
    (hdir : disk fsDirLba = setEntry (s.disk fsDirLba) i (namePack q.w₀ q.w₁) q.len.toNat)
    (hdata : ∀ j, disk (fsDataLba + j) = if j = i then q.sector else s.disk (fsDataLba + j)) :
    Tidy disk (⟨q.name, q.data, ok⟩ :: s.log) := by
  obtain ⟨-, hlen, -, -⟩ := target_spec ht
  have hsize : ∀ j, entrySize (disk fsDirLba) j
      = if j = i then q.len.toNat else entrySize (s.disk fsDirLba) j := fun j => by
    rw [hdir, entrySize_setEntry q.len.toNat_lt]
  have hname : ∀ j, entryName (disk fsDirLba) j
      = if j = i then q.name else entryName (s.disk fsDirLba) j := fun j => by
    rw [hdir, entryName_setEntry]
    rfl
  have hother : ∀ j < fsMaxFiles, j ≠ i → entrySize (disk fsDirLba) j ≠ 0 →
      entrySize (s.disk fsDirLba) j ≠ 0 ∧ entryName (disk fsDirLba) j ≠ q.name := by
    intro j hj hji hused
    rw [hsize, if_neg hji] at hused
    rw [hname, if_neg hji]
    exact ⟨hused, h.name_ne ht hj hji hused⟩
  refine ⟨fun j hj k hk hjused hkused heq => ?_, fun j hj hused => ?_⟩
  · by_cases hji : j = i <;> by_cases hki : k = i
    · rw [hji, hki]
    · exact absurd (by rw [← heq, hname, if_pos hji]) (hother k hk hki hkused).2
    · exact absurd (by rw [heq, hname, if_pos hki]) (hother j hj hji hjused).2
    · rw [hname, hname, if_neg hji, if_neg hki] at heq
      exact h.unique j hj k hk (hother j hj hji hjused).1 (hother k hk hki hkused).1 heq
  · by_cases hji : j = i
    · rw [hsize, hname, hdata, if_pos hji, if_pos hji, if_pos hji, data_eq]
      exact ⟨hlen, .head ..⟩
    · obtain ⟨hold, hne⟩ := hother j hj hji hused
      rw [hname, if_neg hji] at hne
      rw [hsize, hname, hdata, if_neg hji, if_neg hji, if_neg hji]
      exact ⟨(h.whole j hj hold).1, (h.whole j hj hold).2.cons_other fun he => absurd he.symm hne⟩

/-- Contents that are written over nothing, or over a file of the same length. -/
theorem Tidy.overwritten (h : Tidy s.disk s.log) (ht : target s q io = some i)
    (hdir : disk fsDirLba = s.disk fsDirLba)
    (hdata : ∀ j, disk (fsDataLba + j) = if j = i then q.sector else s.disk (fsDataLba + j))
    (hlen : entrySize (s.disk fsDirLba) i ≠ 0 → entrySize (s.disk fsDirLba) i = q.len.toNat) :
    Tidy disk (⟨q.name, q.data, false⟩ :: s.log) := by
  refine ⟨?_, fun j hj hused => ?_⟩
  · rw [hdir]
    exact h.unique
  rw [hdir] at hused ⊢
  refine ⟨(h.whole j hj hused).1, ?_⟩
  by_cases hji : j = i
  · subst hji
    obtain ⟨-, -, -, ⟨-, hname⟩ | ⟨hfree, -⟩⟩ := target_spec ht
    · rw [hdata, if_pos rfl, hlen hused, data_eq, hname]
      exact .head ..
    · exact absurd hfree hused
  · rw [hdata, if_neg hji]
    exact (h.whole j hj hused).2.cons_other fun _ => rfl

theorem Inv.write (h : Inv s) (hwhole : ¬ Torn s (.write q io)) : Inv (write s q io) := by
  have hrefused : Inv (logged s q false) := ⟨h.super, fun hs => (h.tidy hs).log_failed ..⟩
  unfold Fs.write
  split_ifs with hmounted
  · exact hrefused
  cases ht : target s q io with
  | none => exact hrefused
  | some i =>
    have hmounted' : s.mounted = true := by simpa using hmounted
    have hsuper := h.super hmounted'
    have htidy := h.tidy hsuper
    obtain ⟨D, hD⟩ : ∃ D, D = ((s.store io.dataLands (fsDataLba + i) q.sector).store io.dirLands
      fsDirLba (setEntry (s.disk fsDirLba) i (namePack q.w₀ q.w₁) q.len.toNat)).disk := ⟨_, rfl⟩
    have hzero : D 0 = s.disk 0 := by
      rw [hD, store_disk, if_neg fun hz => by simp [fsDirLba] at hz, store_disk,
        if_neg fun hz => by simp [fsDataLba] at hz; omega]
    have hdir : D fsDirLba = if io.dirLands = true then
        setEntry (s.disk fsDirLba) i (namePack q.w₀ q.w₁) q.len.toNat else s.disk fsDirLba := by
      have hne : ¬ (io.dataLands = true ∧ fsDirLba = fsDataLba + i) := fun hz => by
        simp only [fsDirLba, fsDataLba] at hz
        omega
      rw [hD, store_disk, store_disk, if_neg hne]
      simp
    have hdata : ∀ j, D (fsDataLba + j)
        = if io.dataLands = true ∧ j = i then q.sector else s.disk (fsDataLba + j) := fun j => by
      have hne : ¬ (io.dirLands = true ∧ fsDataLba + j = fsDirLba) := fun hz => by
        simp only [fsDirLba, fsDataLba] at hz
        omega
      rw [hD, store_disk, if_neg hne, store_disk]
      simp
    refine ⟨fun _ => ?_, fun _ => ?_⟩
    · change IsSuper ((State.store _ _ _ _).disk 0)
      rw [← hD, hzero]
      exact hsuper
    simp only [logged, store_log, ← hD]
    by_cases hlands : io.dirLands = true
    · have hlands' : io.dataLands = true := by
        simp only [WriteIo.dirLands, WriteIo.dirTried, Bool.and_eq_true, decide_eq_true_eq] at hlands
        simp [WriteIo.dataLands, hlands.1.1.1, Fate.landed]
      exact htidy.replaced ht _ (hdir.trans (if_pos hlands)) (by simpa [hlands'] using hdata)
    have hfailed : (io.dirTried && decide (io.dir = .ok)) = false := by
      by_contra hok
      simp only [Bool.not_eq_false, Bool.and_eq_true, decide_eq_true_eq] at hok
      exact hlands (by simp [WriteIo.dirLands, hok, Fate.landed])
    rw [if_neg hlands] at hdir
    rw [hfailed]
    by_cases hlands' : io.dataLands = true
    · refine htidy.overwritten ht hdir (by simpa [hlands'] using hdata) fun hused => ?_
      by_contra hne
      exact hwhole ⟨hmounted', i, ht, hused, hne, hlands', by simpa using hlands⟩
    · exact (htidy.congr hdir (by simpa [hlands'] using hdata)).log_failed ..

end

theorem Inv.step (h : Inv s) {op : Op} (hwhole : ¬ Torn s op) : Inv (step s op) := by
  cases op with
  | mount io => exact h.mount hwhole
  | write q io => exact h.write hwhole
  | crash => exact h.unmounted

theorem Inv.read {w₀ w₁ : UInt64} {dirRead dataRead : Bool} {size : ℕ} {bytes : List UInt8}
    (h : Inv s) (hread : read s w₀ w₁ dirRead dataRead = some (size, bytes)) :
    size ≤ bytes.length ∧
      Current s.log ((List.range fsNameBytes).map (namePack w₀ w₁)) (bytes.take size) := by
  unfold Fs.read at hread
  split_ifs at hread with hmounted
  have hmounted' : s.mounted = true := by
    by_contra hm
    exact hmounted (.inl (by simpa using hm))
  cases hfind : dirFind (s.disk fsDirLba) ((range fsNameBytes).map (namePack w₀ w₁)) false with
  | none => simp [hfind] at hread
  | some i =>
    simp only [hfind] at hread
    split_ifs at hread with hsize
    obtain ⟨rfl, rfl⟩ := hread
    obtain ⟨hi, ⟨hused, hname⟩ | ⟨hwant, -⟩⟩ := dirFind_spec hfind
    swap
    · cases hwant
    have hwhole := (h.tidy (h.super hmounted')).whole i hi hused
    refine ⟨by simpa using hsize.2.1, ?_⟩
    rw [← map_take, take_range, min_eq_left hsize.2.1, ← hname]
    exact hwhole.2

/-- Over every run without torn writes no name is twice in the directory, and what is read is a
whole write of that name: the last one answered OK, or a later one. -/
theorem files_survive_crashes (disk : Disk) (hfresh : ¬ IsSuper (disk 0)) (ops : List Op)
    (hwhole : Meets step (fun s op => ¬ Torn s op) ⟨disk, false, []⟩ ops) :
    let s := runFrom step ⟨disk, false, []⟩ ops
    (IsSuper (s.disk 0) → ∀ i < fsMaxFiles, ∀ j < fsMaxFiles,
      entrySize (s.disk fsDirLba) i ≠ 0 → entrySize (s.disk fsDirLba) j ≠ 0 →
      entryName (s.disk fsDirLba) i = entryName (s.disk fsDirLba) j → i = j) ∧
    ∀ w₀ w₁ dirRead dataRead size bytes, read s w₀ w₁ dirRead dataRead = some (size, bytes) →
      size ≤ bytes.length ∧
        Current s.log ((range fsNameBytes).map (namePack w₀ w₁)) (bytes.take size) := by
  have hstart : Inv ⟨disk, false, []⟩ := ⟨nofun, fun hs => absurd hs hfresh⟩
  have hinv := hwhole.keeps (I := Inv) hstart fun s op h hop => h.step hop
  exact ⟨fun hs => (hinv.tidy hs).unique, fun _ _ _ _ _ _ hread => hinv.read hread⟩

/-- A disk offered for a filesystem: the token in its first sector, some bytes after it. -/
def scratchDisk : Disk := fun lba a =>
  if lba = 0 then if 496 ≤ a ∧ a < 504 then byteOf fsScratchToken (a - fsScratchOff) else 0
  else if a % 32 = 16 then 1 else 0

/-- A file `a` of the given bytes. -/
def writeA (len : UInt32) (byte : UInt8) : WriteReq := ⟨97, 0, len, fun _ => byte⟩

theorem files_survive_crashes_oneFile :
    let s := runFrom step ⟨scratchDisk, false, []⟩ [.mount {}, .write (writeA 2 7) {}, .crash,
      .mount {}]
    read s 97 0 true true = some (2, [7, 7] ++ replicate 510 0) ∧
      Current s.log (writeA 2 7).name [7, 7] := by
  have hread : read (runFrom step ⟨scratchDisk, false, []⟩ [.mount {}, .write (writeA 2 7) {},
      .crash, .mount {}]) 97 0 true true = some (2, [7, 7] ++ replicate 510 0) := by
    decide +kernel
  have hmount : ∀ s, ¬ Torn s (.mount {}) := fun s h => by simp [Torn, MountIo.dirLands,
    Fate.landed] at h
  have hwrite : ∀ s q, ¬ Torn s (.write q {}) := fun s q h => by simp [Torn, WriteIo.dirLands,
    WriteIo.dirTried, Fate.landed] at h
  exact ⟨hread, ((files_survive_crashes scratchDisk (by decide +kernel)
    [.mount {}, .write (writeA 2 7) {}, .crash, .mount {}]
    ⟨hmount _, hwrite _ _, id, hmount _, trivial⟩).2 97 0 true true _ _ hread).2⟩

/-- A format that is cut in two reads a file nobody wrote, and a shorter file whose directory write
fails is read with the old length. -/
theorem torn_writes_are_read :
    let s₀ : State := ⟨scratchDisk, false, []⟩
    let s₁ := runFrom step s₀ [.mount { dir := .crash false }, .mount {}]
    let s₂ := runFrom step s₀ [.mount {}, .write (writeA 2 7) {},
      .write (writeA 1 8) { dir := .failed false }]
    (hasToken (scratchDisk 0) = true ∧ ¬ IsSuper (scratchDisk 0)) ∧
      (s₁.log = [] ∧ (read s₁ 0 0 true true).map (fun r => r.2.take r.1) = some [0] ∧
        entrySize (s₁.disk fsDirLba) 0 ≠ 0 ∧ entrySize (s₁.disk fsDirLba) 1 ≠ 0 ∧
        entryName (s₁.disk fsDirLba) 0 = entryName (s₁.disk fsDirLba) 1) ∧
      s₂.log = [⟨(writeA 1 8).name, [8], false⟩, ⟨(writeA 2 7).name, [7, 7], true⟩] ∧
      (read s₂ 97 0 true true).map (fun r => r.2.take r.1) = some [8, 0] := by
  decide +kernel

end IrisOS.Fs
