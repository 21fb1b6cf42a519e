import IrisOS.Blk.Driver
import Mathlib.Tactic.IntervalCases

/-! Where the block service's commands land: every command is compared with the driver's window, and
the window with the IRIS entry of the partition table. -/
namespace IrisOS.Blk

open Function
open Lib (loadLe byteOf runFrom Meets)

/-- Where the partition entries start, by the header in sector 1. -/
def entryLba (disk : Disk) : ℕ := (ld64 (disk 1) 72).toNat

/-- The IRIS entry of a disk whose partition entries start at the given sector. -/
def entryFrom (disk : Disk) (lba : ℕ) : Option (UInt64 × UInt64) :=
  if holdsAt (disk 1) 0 gptSignature = false then none
  else if ld32 (disk 1) 84 ≠ 128 ∨ ld32 (disk 1) 80 = 0 then none
  else scanEntries (fun k => disk (lba + k / blkSectorBytes) (k % blkSectorBytes))
    (min (ld32 (disk 1) 80) 32)

/-- The IRIS entry of a disk: the first of its type among 32, with its first and last sector. -/
def irisEntry (disk : Disk) : Option (UInt64 × UInt64) := entryFrom disk (entryLba disk)

/-- Every sector of a command lies in the IRIS partition, and is neither sector 0 nor 1. -/
def Confined (disk : Disk) (c : Command) : Prop :=
  ∃ first last, irisEntry disk = some (first, last) ∧
    ∀ k < c.count, first.toNat ≤ c.lba + k ∧ c.lba + k ≤ last.toNat ∧ 1 < c.lba + k

section
variable {d : Driver} {idx sectors : ℕ} {lba : UInt64} {write : Bool}

theorem lba_transfer :
    (d.command idx (transferFis lba sectors write)).lba = lba.toNat % 2 ^ 48 := by
  have hbytes : (d.command idx (transferFis lba sectors write)).lba =
      loadLe (byteOf lba.toNat) 6 := by
    apply Lib.loadLe_congr
    intro i hi
    interval_cases i <;> rfl
  rw [hbytes, Lib.loadLe_byteOf, show 256 ^ 6 = 2 ^ 48 from rfl]

theorem count_transfer (hpos : 0 < sectors) (hmax : sectors ≤ blkMaxSectors) :
    (d.command idx (transferFis lba sectors write)).count = sectors := by
  have hbytes : loadLe (fun i => (d.command idx (transferFis lba sectors write)).byte (12 + i)) 2 =
      loadLe (byteOf sectors) 2 := by
    apply Lib.loadLe_congr
    intro i hi
    interval_cases i <;> rfl
  have hlt : sectors < 256 ^ 2 := lt_of_le_of_lt hmax (by decide)
  rw [Command.count, hbytes, Lib.loadLe_byteOf_of_lt hlt]
  exact if_neg hpos.ne'

theorem not_writes_read : ¬ (d.command idx (transferFis lba sectors false)).Writes := by
  intro h
  exact absurd (show ataReadDmaExt = ataWriteDmaExt from h) (by decide)

theorem not_transfer_flush :
    ¬ (d.command idx flushFis).Writes ∧ ¬ (d.command idx flushFis).Reads := by
  constructor
  · intro h
    exact absurd (show ataFlushCacheExt = ataWriteDmaExt from h) (by decide)
  · intro h
    exact absurd (show ataFlushCacheExt = ataReadDmaExt from h) (by decide)

end

/-! ### The window and the entry it comes from -/

theorem scanEntries_range {e : ℕ → UInt8} {count : ℕ} {first last : UInt64}
    (h : scanEntries e count = some (first, last)) : first ≠ 0 ∧ first ≤ last := by
  unfold scanEntries at h
  split at h
  · cases h
  · dsimp only at h
    split_ifs at h with hlt hzero
    obtain ⟨rfl, rfl⟩ := Prod.mk.inj (Option.some.inj h)
    exact ⟨hzero, UInt64.not_lt.mp hlt⟩

theorem entryFrom_range {lba : ℕ} {first last : UInt64}
    (h : entryFrom disk lba = some (first, last)) : first ≠ 0 ∧ first ≤ last := by
  unfold entryFrom at h
  split_ifs at h
  exact scanEntries_range h

theorem toNat_range {first last : UInt64} (h0 : first ≠ 0) (hle : first ≤ last) :
    (last - first + 1).toNat = last.toNat - first.toNat + 1 := by
  have hfirst : first.toNat ≠ 0 := fun h => h0 (UInt64.toNat_inj.mp h)
  have hlast : last.toNat < 2 ^ 64 := last.toNat_lt
  rw [UInt64.toNat_add, UInt64.toNat_sub_of_le _ _ hle]
  exact Nat.mod_eq_of_lt (by show last.toNat - first.toNat + 1 < 2 ^ 64; omega)

/-- Windows are only on ready disks and as their entries say, and transfers stay inside the
partition. -/
structure Sound (hw : Machine) (d : Driver) : Prop where
  idle : ∀ idx, d.ready ≤ idx → d.winCount idx = 0
  window : ∀ idx, d.winCount idx ≠ 0 → ∃ first last,
    entryFrom (hw.disk (d.port idx)) (entryLba (hw.disk (d.port idx)) % 2 ^ 48) =
      some (first, last) ∧ d.winBase idx = first ∧ d.winCount idx = last - first + 1
  commands : ∀ c ∈ d.issued, c.Writes ∨ c.Reads ∧ c.windowed → Confined (hw.disk c.port) c

namespace Sound
variable {hw : Machine} {d : Driver} {idx : ℕ}

theorem start (hw : Machine) : Sound hw .start :=
  ⟨fun _ _ => rfl, fun _ h => absurd rfl h, fun _ h => absurd h List.not_mem_nil⟩

theorem issue (h : Sound hw d) {table : List UInt8} {o : Outcome}
    (hc : (d.command idx table).Writes ∨
      (d.command idx table).Reads ∧ (d.command idx table).windowed →
      Confined (hw.disk (d.port idx)) (d.command idx table)) :
    Sound hw (d.issue idx table o).1 := by
  have hissued : Sound hw { d with issued := d.command idx table :: d.issued } := by
    refine ⟨h.idle, h.window, fun c hmem => ?_⟩
    rcases List.mem_cons.mp hmem with rfl | hmem
    · exact hc
    · exact h.commands c hmem
  cases o
  · exact h
  · exact hissued
  · exact hissued

theorem read (h : Sound hw d) (hwin : d.winCount idx = 0) (lba : UInt64) (sectors : ℕ)
    (o : Outcome) : Sound hw (d.blkXfer idx lba sectors false o).1 := by
  unfold Driver.blkXfer
  split_ifs
  · exact h
  · refine h.issue ?_
    rintro (hwrites | ⟨-, hwindowed⟩)
    · exact absurd hwrites not_writes_read
    · exact absurd hwin (of_decide_eq_true hwindowed)

end Sound

theorem blkXfer_state (d : Driver) (idx : ℕ) (lba : UInt64) (sectors : ℕ) (write : Bool)
    (o : Outcome) : ∃ cs, (d.blkXfer idx lba sectors write o).1 = { d with issued := cs } := by
  unfold Driver.blkXfer
  split_ifs
  · exact ⟨_, rfl⟩
  · cases o <;> exact ⟨_, rfl⟩

/-! ### Bringing the disks up -/

theorem data_transfer {d : Driver} {idx sectors : ℕ} {lba : UInt64} {write : Bool} (disk : Disk) :
    (d.command idx (transferFis lba sectors write)).data disk =
      fun k => disk (lba.toNat % 2 ^ 48 + k / blkSectorBytes) (k % blkSectorBytes) := by
  funext k
  rw [Command.data, lba_transfer]

theorem data_header {d : Driver} {idx : ℕ} (disk : Disk) {k : ℕ} (hk : k < blkSectorBytes) :
    (d.command idx (transferFis 1 1 false)).data disk k = disk 1 k := by
  rw [data_transfer]
  dsimp only
  rw [Nat.div_eq_of_lt hk, Nat.mod_eq_of_lt hk]
  rfl

theorem holdsAt_congr {mem mem' : ℕ → UInt8} {off : ℕ} {bytes : List UInt8}
    (h : ∀ i < bytes.length, mem (off + i) = mem' (off + i)) :
    holdsAt mem off bytes = holdsAt mem' off bytes := by
  unfold holdsAt
  rw [Bool.eq_iff_iff, List.all_eq_true, List.all_eq_true]
  refine forall₂_congr fun i hi => ?_
  rw [h i (List.mem_range.mp hi)]

theorem entryFrom_data {d d' : Driver} {idx idx' : ℕ} {h : ℕ → UInt8}
    (hh : h = (d.command idx (transferFis 1 1 false)).data disk)
    (hsig : holdsAt h 0 gptSignature ≠ false) (hsize : ¬ (ld32 h 84 ≠ 128 ∨ ld32 h 80 = 0)) :
    entryFrom disk (entryLba disk % 2 ^ 48) =
      scanEntries ((d'.command idx' (transferFis (ld64 h 72) 8 false)).data disk)
        (min (ld32 h 80) 32) := by
  have hbyte : ∀ k < blkSectorBytes, h k = disk 1 k := fun k hk => by rw [hh, data_header disk hk]
  have hload : ∀ off width, off + width ≤ blkSectorBytes →
      loadLe (fun i => h (off + i)) width = loadLe (fun i => disk 1 (off + i)) width :=
    fun off width hle => Lib.loadLe_congr fun i hi => hbyte _ (by omega)
  have hsize84 : ld32 h 84 = ld32 (disk 1) 84 := hload 84 4 (by decide)
  have hsize80 : ld32 h 80 = ld32 (disk 1) 80 := hload 80 4 (by decide)
  have hlba : ld64 h 72 = ld64 (disk 1) 72 := congrArg UInt64.ofNat (hload 72 8 (by decide))
  have hsame : holdsAt h 0 gptSignature = holdsAt (disk 1) 0 gptSignature :=
    holdsAt_congr fun i hi => hbyte _ (by simp only [gptSignature, List.length_cons,
      List.length_nil, blkSectorBytes] at hi ⊢; omega)
  rw [hsame] at hsig
  rw [hsize84, hsize80] at hsize
  rw [data_transfer, hlba, hsize80, entryFrom, if_neg hsig, if_neg hsize, entryLba]

theorem Sound.flush {hw : Machine} {d : Driver} (h : Sound hw d) (idx : ℕ) (o : Outcome) :
    Sound hw (d.blkFlush idx o).1 := by
  refine h.issue ?_
  rintro (hwrites | ⟨hreads, -⟩)
  · exact absurd hwrites not_transfer_flush.1
  · exact absurd hreads not_transfer_flush.2

namespace Sound
variable {hw : Machine} {d : Driver} {idx : ℕ}

theorem resetWindow (h : Sound hw d) (idx : ℕ) : Sound hw (d.resetWindow idx) := by
  refine ⟨fun i hi => ?_, fun i hi => ?_, h.commands⟩
  · rcases eq_or_ne i idx with rfl | hne
    · exact update_self ..
    · exact (update_of_ne hne ..).trans (h.idle i hi)
  rcases eq_or_ne i idx with rfl | hne
  · exact absurd (update_self ..) hi
  · dsimp only [Driver.resetWindow] at hi ⊢
    rw [update_of_ne hne] at hi ⊢
    rw [update_of_ne hne]
    exact h.window i hi

theorem setWindow (h : Sound hw d) (hidx : idx < d.ready) {found : Option (UInt64 × UInt64)}
    (hentry : entryFrom (hw.disk (d.port idx)) (entryLba (hw.disk (d.port idx)) % 2 ^ 48) =
      found) : Sound hw (d.setWindow idx found) := by
  cases found with
  | none => exact h
  | some entry =>
    refine ⟨fun i hi => ?_, fun i hi => ?_, h.commands⟩
    · have hne : i ≠ idx := fun heq => absurd hi (by subst heq; exact Nat.not_le.mpr hidx)
      exact (update_of_ne hne ..).trans (h.idle i hi)
    rcases eq_or_ne i idx with rfl | hne
    · exact ⟨entry.1, entry.2, hentry, update_self .., update_self ..⟩
    · dsimp only [Driver.setWindow] at hi ⊢
      rw [update_of_ne hne] at hi ⊢
      rw [update_of_ne hne]
      exact h.window i hi

theorem findPartition (h : Sound hw d) (hidx : idx < d.ready) :
    Sound hw (blkFindPartition hw d idx) := by
  have hreset := h.resetWindow idx
  have hwin : (d.resetWindow idx).winCount idx = 0 := update_self ..
  have hready : (d.resetWindow idx).ready = d.ready := rfl
  unfold blkFindPartition
  generalize d.resetWindow idx = d0 at hreset hwin hready
  dsimp only
  have hheader := hreset.read hwin 1 1 (hw.header (d0.port idx))
  obtain ⟨cs, hcs⟩ := blkXfer_state d0 idx 1 1 false (hw.header (d0.port idx))
  rw [hcs] at hheader ⊢
  generalize hh : Command.data (d0.command idx (transferFis 1 1 false)) _ = h1
  split_ifs with _ hsig hsize
  · exact hheader
  · exact hheader
  · exact hheader
  · exact hheader.read hwin (ld64 h1 72) 8 _
  have hentries := hheader.read hwin (ld64 h1 72) 8 (hw.entries (d0.port idx))
  obtain ⟨cs', hcs'⟩ := blkXfer_state { d0 with issued := cs } idx (ld64 h1 72) 8 false
    (hw.entries (d0.port idx))
  rw [hcs'] at hentries ⊢
  exact hentries.setWindow (hready ▸ hidx) (entryFrom_data hh.symm hsig hsize)

theorem bringUpPort (h : Sound hw d) (p : ℕ) : Sound hw (blkBringUpPort hw d p) := by
  have hport : Sound hw { d with port := update d.port d.ready p } := by
    refine ⟨h.idle, fun i hi => ?_, h.commands⟩
    have hne : i ≠ d.ready := fun heq => hi (h.idle i heq.ge)
    dsimp only at hi ⊢
    rw [update_of_ne hne]
    exact h.window i hi
  have hraised : Sound hw { d with
      port := update d.port d.ready p, ready := d.ready + 1 } :=
    ⟨fun i hi => h.idle i (by dsimp only at hi; omega), hport.window, hport.commands⟩
  have hprobe := hraised.read (h.idle d.ready le_rfl) 0 1 (hw.probe p)
  obtain ⟨cs, hcs⟩ := blkXfer_state ({ d with
    port := update d.port d.ready p, ready := d.ready + 1 }) d.ready 0 1 false (hw.probe p)
  unfold blkBringUpPort
  dsimp only
  rw [hcs] at hprobe ⊢
  split_ifs
  · exact h
  · exact h
  · exact hport
  · exact ⟨h.idle, hprobe.window, hprobe.commands⟩
  · have hfound := hprobe.findPartition (Nat.lt_succ_self d.ready)
    exact ⟨hfound.idle, hfound.window, hfound.commands⟩

theorem bringUp (hw : Machine) : Sound hw (blkBringUp hw) := by
  unfold blkBringUp
  split_ifs
  · exact start hw
  · exact Lib.runFrom_keeps (start hw) (fun d p h => h.bringUpPort p) (List.range 32)

end Sound

/-! ### Serving clients -/

/-- A read or write that the service's own checks let through to a windowed disk. -/
def Accepted (d : Driver) (r : Request) : Prop :=
  (r.label = blkOpWrite ∨ r.label = blkOpRead) ∧ r.index < blkMaxPorts ∧ r.index < d.ready ∧
    0 < r.sectors ∧ r.sectors ≤ blkMaxSectors ∧ d.winCount r.index ≠ 0 ∧
    r.word0 < d.winCount r.index ∧ r.sectors ≤ (d.winCount r.index - r.word0).toNat

/-- The first sector of the disk that a request addresses. -/
def Request.target (d : Driver) (r : Request) : ℕ := (d.winBase r.index + r.word0).toNat

/-- A request let through to the partition table header, or whose sectors lie beyond the 48 bits. -/
def Strays (hw : Machine) (d : Driver) (r : Request) : Prop :=
  Accepted d r ∧ (r.target d ≤ 1 ∨ 2 ^ 48 ≤ r.target d ∨
    2 ^ 48 ≤ entryLba (hw.disk (d.port r.index)))

instance (hw : Machine) (d : Driver) (r : Request) : Decidable (Strays hw d r) :=
  inferInstanceAs (Decidable ((_ ∧ _) ∧ _))

section
variable {hw : Machine} {d : Driver} {r : Request}

theorem confined_of_accepted (h : Sound hw d) (hacc : Accepted d r) (hstray : ¬ Strays hw d r)
    (write : Bool) : Confined (hw.disk (d.port r.index)) (d.command r.index
      (transferFis (d.winBase r.index + r.word0) r.sectors write)) := by
  obtain ⟨-, -, -, hpos, hmax, hwin, hrel, hfit⟩ := id hacc
  obtain ⟨first, last, hentry, hbase, hcount⟩ := h.window r.index hwin
  have hrange : 1 < r.target d ∧ r.target d < 2 ^ 48 ∧
      entryLba (hw.disk (d.port r.index)) < 2 ^ 48 := by
    refine ⟨?_, ?_, ?_⟩ <;> by_contra hge <;> refine hstray ⟨hacc, ?_⟩ <;> omega
  obtain ⟨hone, hlba, htable⟩ := hrange
  rw [Nat.mod_eq_of_lt htable] at hentry
  obtain ⟨hzero, hle⟩ := entryFrom_range hentry
  have hsize := toNat_range hzero hle
  rw [UInt64.toNat_sub_of_le _ _ (UInt64.le_of_lt hrel)] at hfit
  rw [UInt64.lt_iff_toNat_lt] at hrel
  rw [hcount, hsize] at hfit hrel
  have hle' : first.toNat ≤ last.toNat := UInt64.le_iff_toNat_le.mp hle
  have hlast : last.toNat < 2 ^ 64 := last.toNat_lt
  have htarget : r.target d = first.toNat + r.word0.toNat := by
    rw [Request.target, hbase, UInt64.toNat_add]
    exact Nat.mod_eq_of_lt (by omega)
  refine ⟨first, last, hentry, fun k hk => ?_⟩
  rw [count_transfer hpos hmax] at hk
  have hat : (d.command r.index (transferFis (d.winBase r.index + r.word0) r.sectors write)).lba =
      r.target d := by
    rw [lba_transfer]
    exact Nat.mod_eq_of_lt hlba
  omega

namespace Sound

theorem xferWin (h : Sound hw d) (hstray : ¬ Strays hw d r)
    (hlabel : r.label = blkOpWrite ∨ r.label = blkOpRead)
    (hsectors : ¬ (r.sectors < 1 ∨ blkMaxSectors < r.sectors)) (write : Bool) (o : Outcome) :
    Sound hw (d.blkXferWin r.index r.word0 r.sectors write o).1 := by
  unfold Driver.blkXferWin
  split_ifs with hidx _ hwin _ hrel hfit
  · exact h
  · exact h
  · exact h
  · exact h.read hwin r.word0 r.sectors o
  · exact h
  · exact h
  have hacc : Accepted d r := by
    refine ⟨hlabel, by omega, by omega, by omega, by omega, hwin, ?_, by omega⟩
    exact UInt64.not_le.mp hrel
  unfold Driver.blkXfer
  split_ifs
  · exact h
  · exact h.issue fun _ => confined_of_accepted h hacc hstray write

theorem serve (h : Sound hw d) (hstray : ¬ Strays hw d r) : Sound hw (d.serve hw r).1 := by
  unfold Driver.serve
  simp only [apply_ite Prod.fst]
  split_ifs with _ _ _ _ _ hwrite hread
  iterate 5 exact h
  · unfold Driver.writeRequest
    dsimp only
    split_ifs with hsectors
    · exact h
    · exact h.xferWin hstray (.inl hwrite.1) hsectors true r.transfer
    · exact (h.xferWin hstray (.inl hwrite.1) hsectors true r.transfer).flush _ _
    · exact (h.xferWin hstray (.inl hwrite.1) hsectors true r.transfer).flush _ _
  · unfold Driver.readRequest
    dsimp only
    split_ifs with hsectors
    · exact h
    · exact h.xferWin hstray (.inr hread.1) hsectors false r.transfer
    · have hsent := h.xferWin hstray (.inr hread.1) hsectors false r.transfer
      exact ⟨hsent.idle, hsent.window, hsent.commands⟩
  · exact h

end Sound
end

/-- The service after bring-up and a sequence of requests. -/
def afterRequests (hw : Machine) (rs : List Request) : Driver :=
  runFrom (fun d r => (d.serve hw r).1) (blkBringUp hw) rs

def NoneStray (hw : Machine) (rs : List Request) : Prop :=
  Meets (fun d r => (d.serve hw r).1) (fun d r => ¬ Strays hw d r) (blkBringUp hw) rs

/-- In a run whose requests do not stray every write, and every read of a windowed disk, stays
inside the IRIS partition. -/
theorem transfers_stay_in_the_partition (hw : Machine) (rs : List Request)
    (h : NoneStray hw rs) : ∀ c ∈ (afterRequests hw rs).issued,
    c.Writes ∨ c.Reads ∧ c.windowed → Confined (hw.disk c.port) c :=
  (Meets.keeps (I := Sound hw) h (Sound.bringUp hw)
    fun _ _ hsound hstray => hsound.serve hstray).commands

/-- A disk whose partition table has one IRIS entry with the given first and last sector. -/
def partitioned (first last : ℕ) : Disk := fun sector k =>
  if sector = 1 then
    (gptSignature ++ List.replicate 64 0 ++ [2, 0, 0, 0, 0, 0, 0, 0, 1, 0, 0, 0, 128, 0, 0, 0]).getD
      k 0
  else if sector = 2 then
    (blkPartType ++ List.replicate 16 0 ++ (List.range 8).map (byteOf first) ++
      (List.range 8).map (byteOf last)).getD k 0
  else 0

/-- A machine with one disk, on port 0. -/
def oneDisk (disk : Disk) : Machine :=
  ⟨true, 0, 0, fun p => p == 0, fun _ => true, fun _ => true, fun _ => true, fun _ => disk,
    fun _ => .done, fun _ => .done, fun _ => .done⟩

/-- A transfer of the first two sectors of the window. -/
def firstSectors (label : ℕ) : Request := ⟨label, 0, 2, 0, .done, .done⟩

theorem transfers_stay_in_the_partition_small :
    NoneStray (oneDisk (partitioned 40 47)) [firstSectors blkOpWrite, firstSectors blkOpRead] ∧
      ∀ c ∈ (afterRequests (oneDisk (partitioned 40 47))
        [firstSectors blkOpWrite, firstSectors blkOpRead]).issued,
      c.Writes ∨ c.Reads ∧ c.windowed → Confined (partitioned 40 47) c := by
  have h : NoneStray (oneDisk (partitioned 40 47))
      [firstSectors blkOpWrite, firstSectors blkOpRead] := by
    unfold NoneStray
    decide +kernel
  exact ⟨h, transfers_stay_in_the_partition (oneDisk (partitioned 40 47)) _ h⟩

/-- An entry that starts at 2⁴⁸ sends a write to sector 0, and one that starts at 1 sends it to
the partition table header. -/
theorem write_outside_the_partition :
    (∃ c ∈ (afterRequests (oneDisk (partitioned (2 ^ 48) (2 ^ 48 + 7)))
        [firstSectors blkOpWrite]).issued, c.Writes ∧ c.lba = 0 ∧
        ¬ Confined (partitioned (2 ^ 48) (2 ^ 48 + 7)) c) ∧
      ∃ c ∈ (afterRequests (oneDisk (partitioned 1 8)) [firstSectors blkOpWrite]).issued,
        c.Writes ∧ c.lba = 1 ∧ ¬ Confined (partitioned 1 8) c := by
  constructor
  · refine ⟨⟨0, transferFis 0 2 true, true⟩, by decide +kernel, by decide, by decide, ?_⟩
    rintro ⟨first, last, -, h⟩
    exact absurd (h 0 (by decide)).2.2 (by decide)
  · refine ⟨⟨0, transferFis 1 2 true, true⟩, by decide +kernel, by decide, by decide, ?_⟩
    rintro ⟨first, last, -, h⟩
    exact absurd (h 0 (by decide)).2.2 (by decide)

end IrisOS.Blk
