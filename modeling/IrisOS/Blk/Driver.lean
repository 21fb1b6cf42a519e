import IrisOS.Lib.LittleEndian
import IrisOS.Lib.Steps

/-! The block service: one AHCI controller, at most two disks, and a window on each disk with an
IRIS partition. What the controller is told is recorded as the command table stands when the port is
started. -/
namespace IrisOS.Blk
open Lib (loadLe byteOf)

/-- What a disk holds: the bytes of each sector. -/
abbrev Disk := ℕ → ℕ → UInt8

def blkMaxPorts : ℕ := 2
def blkMaxSectors : ℕ := 8
def blkSectorBytes : ℕ := 512

def ataReadDmaExt : UInt8 := 0x25
def ataWriteDmaExt : UInt8 := 0x35
def ataFlushCacheExt : UInt8 := 0xEA

/-- A command the controller was given, and whether the disk had a window then. -/
structure Command where
  port : ℕ
  table : List UInt8
  windowed : Bool
  deriving DecidableEq

namespace Command

def byte (c : Command) (i : ℕ) : UInt8 := c.table.getD i 0

def opcode (c : Command) : UInt8 := c.byte 2

/-- The 48-bit address, in bytes 4 to 6 and 8 to 10 of the table. -/
def lba (c : Command) : ℕ := loadLe (fun i => c.byte (if i < 3 then i + 4 else i + 5)) 6

/-- The 16-bit sector count of the command; the device takes zero as 65536. -/
def count (c : Command) : ℕ :=
  let n := loadLe (fun i => c.byte (12 + i)) 2
  if n = 0 then 65536 else n

def Reads (c : Command) : Prop := c.opcode = ataReadDmaExt
def Writes (c : Command) : Prop := c.opcode = ataWriteDmaExt

instance (c : Command) : Decidable c.Reads := inferInstanceAs (Decidable (_ = _))
instance (c : Command) : Decidable c.Writes := inferInstanceAs (Decidable (_ = _))

/-- The bytes that a read command leaves in the buffer. -/
def data (c : Command) (disk : Disk) (k : ℕ) : UInt8 :=
  disk (c.lba + k / blkSectorBytes) (k % blkSectorBytes)

end Command

/-- The port never goes idle and nothing is issued, the command fails, or it completes. -/
inductive Outcome
  | busy
  | failed
  | done
  deriving DecidableEq

/-- The service's own state, and every command it has issued so far. -/
structure Driver where
  ready : ℕ
  port : ℕ → ℕ
  winBase : ℕ → UInt64
  winCount : ℕ → UInt64
  generation : ℕ
  issued : List Command

/-- The driver before any port is brought up. -/
def Driver.start : Driver := ⟨0, fun _ => 0, fun _ => 0, fun _ => 0, 0, []⟩

/-- The command FIS of a transfer: opcode, address and count, each truncated to its bytes. -/
def transferFis (lba : UInt64) (sectors : ℕ) (write : Bool) : List UInt8 :=
  [0x27, 0x80, if write then ataWriteDmaExt else ataReadDmaExt, 0,
    byteOf lba.toNat 0, byteOf lba.toNat 1, byteOf lba.toNat 2, 0x40,
    byteOf lba.toNat 3, byteOf lba.toNat 4, byteOf lba.toNat 5, 0,
    byteOf sectors 0, byteOf sectors 1]

def flushFis : List UInt8 := [0x27, 0x80, ataFlushCacheExt, 0, 0, 0, 0, 0x40]

namespace Driver

/-- The command that a table makes on the port of a disk. -/
def command (d : Driver) (idx : ℕ) (table : List UInt8) : Command :=
  ⟨d.port idx, table, decide (d.winCount idx ≠ 0)⟩

/-- Start the port with a table, and wait for the command to finish. -/
def issue (d : Driver) (idx : ℕ) (table : List UInt8) : Outcome → Driver × Bool
  | .busy => (d, false)
  | .failed => ({ d with issued := d.command idx table :: d.issued }, false)
  | .done => ({ d with issued := d.command idx table :: d.issued }, true)

def blkXfer (d : Driver) (idx : ℕ) (lba : UInt64) (sectors : ℕ) (write : Bool) (o : Outcome) :
    Driver × Bool :=
  if d.ready ≤ idx then (d, false) else d.issue idx (transferFis lba sectors write) o

def blkFlush (d : Driver) (idx : ℕ) (o : Outcome) : Driver × Bool := d.issue idx flushFis o

end Driver

def ld64 (mem : ℕ → UInt8) (off : ℕ) : UInt64 := UInt64.ofNat (loadLe (fun i => mem (off + i)) 8)
def ld32 (mem : ℕ → UInt8) (off : ℕ) : ℕ := loadLe (fun i => mem (off + i)) 4

/-- The signature of a partition table header, "EFI PART". -/
def gptSignature : List UInt8 := [0x45, 0x46, 0x49, 0x20, 0x50, 0x41, 0x52, 0x54]

/-- The partition type that names this system's partition, "IRISFS-PARTITION". -/
def blkPartType : List UInt8 :=
  [0x49, 0x52, 0x49, 0x53, 0x46, 0x53, 0x2D, 0x50, 0x41, 0x52, 0x54, 0x49, 0x54, 0x49, 0x4F, 0x4E]

def holdsAt (mem : ℕ → UInt8) (off : ℕ) (bytes : List UInt8) : Bool :=
  (List.range bytes.length).all fun i => mem (off + i) == bytes.getD i 0

/-- The first entry of the wanted type among the first `count`, unless its range is malformed. -/
def scanEntries (e : ℕ → UInt8) (count : ℕ) : Option (UInt64 × UInt64) :=
  match (List.range count).find? fun i => holdsAt e (i * 128) blkPartType with
  | none => none
  | some i =>
    let first := ld64 e (i * 128 + 32)
    let last := ld64 e (i * 128 + 40)
    if last < first then none else if first = 0 then none else some (first, last)

/-- The controller and its disks, as bring-up finds them. -/
structure Machine where
  controller : Bool
  sourceId : ℕ
  contained : ℕ
  implemented : ℕ → Bool
  present : ℕ → Bool
  ata : ℕ → Bool
  portInit : ℕ → Bool
  disk : ℕ → Disk
  probe : ℕ → Outcome
  header : ℕ → Outcome
  entries : ℕ → Outcome

/-- Set the window of a disk, given the first and the last sector of the entry found. -/
def Driver.setWindow (d : Driver) (idx : ℕ) : Option (UInt64 × UInt64) → Driver
  | none => d
  | some (first, last) => { d with
      winBase := Function.update d.winBase idx first
      winCount := Function.update d.winCount idx (last - first + 1) }

def Driver.resetWindow (d : Driver) (idx : ℕ) : Driver := { d with
  winBase := Function.update d.winBase idx 0, winCount := Function.update d.winCount idx 0 }

/-- Read the partition table of a disk and set its window. -/
def blkFindPartition (hw : Machine) (d₀ : Driver) (idx : ℕ) : Driver :=
  let d := d₀.resetWindow idx
  let p := d.port idx
  let header := d.blkXfer idx 1 1 false (hw.header p)
  if header.2 = false then header.1 else
  let h := (d.command idx (transferFis 1 1 false)).data (hw.disk p)
  if holdsAt h 0 gptSignature = false then header.1 else
  let entLba := ld64 h 72
  let entCount := ld32 h 80
  let entSize := ld32 h 84
  if entSize ≠ 128 ∨ entCount = 0 then header.1 else
  let entries := header.1.blkXfer idx entLba 8 false (hw.entries p)
  if entries.2 = false then entries.1 else
  let e := (header.1.command idx (transferFis entLba 8 false)).data (hw.disk p)
  entries.1.setWindow idx (scanEntries e (min entCount 32))

/-- One port of the bring-up loop. -/
def blkBringUpPort (hw : Machine) (d : Driver) (p : ℕ) : Driver :=
  if blkMaxPorts ≤ d.ready then d else
  if (hw.implemented p && hw.present p && hw.ata p) = false then d else
  let idx := d.ready
  let d := { d with port := Function.update d.port idx p }
  if hw.portInit p = false then d else
  let probe := ({ d with ready := idx + 1 }).blkXfer idx 0 1 false (hw.probe p)
  if probe.2 = false then { probe.1 with ready := idx } else
  { blkFindPartition hw probe.1 idx with generation := 1 }

def blkBringUp (hw : Machine) : Driver :=
  if hw.controller = false then .start else (List.range 32).foldl (blkBringUpPort hw) .start

/-- A client transfer: bounded by the window where there is one. -/
def Driver.blkXferWin (d : Driver) (idx : ℕ) (rel : UInt64) (sectors : ℕ) (write : Bool)
    (o : Outcome) : Driver × Bool :=
  if blkMaxPorts ≤ idx ∨ d.ready ≤ idx then (d, false) else
  if sectors = 0 then (d, false) else
  if d.winCount idx = 0 then
    if write then (d, false) else d.blkXfer idx rel sectors false o
  else if d.winCount idx ≤ rel then (d, false) else
  if (d.winCount idx - rel).toNat < sectors then (d, false) else
  d.blkXfer idx (d.winBase idx + rel) sectors write o

def blkOpInfo : ℕ := 0x7101
def blkOpRead : ℕ := 0x7102
def blkOpWrbuf : ℕ := 0x7103
def blkOpWrite : ℕ := 0x7104
def blkOpPart : ℕ := 0x7105
def blkOpHome : ℕ := 0x7106
def blkOpScan : ℕ := 0x7107
def blkRepOk : ℕ := 0x7180
def blkRepErr : ℕ := 0x7181

/-- A client's message, and how the hardware answers the commands it leads to. -/
structure Request where
  label : ℕ
  word0 : UInt64
  word1 : UInt64
  word2 : UInt64
  transfer : Outcome
  flush : Outcome

/-- The buffer that a reply hands over. -/
inductive Buffer
  | readData
  | writeData
  deriving DecidableEq

structure Reply where
  label : ℕ
  words : List ℕ
  cap : Option Buffer
  deriving DecidableEq

def Reply.error : Reply := ⟨blkRepErr, [], none⟩

/-- A word as the source's `uint32_t` conversion leaves it. -/
def low32 (w : UInt64) : ℕ := w.toNat % 2 ^ 32

def Request.sectors (r : Request) : ℕ := low32 r.word1
def Request.index (r : Request) : ℕ := low32 r.word2

namespace Driver

/-- The first disk with a window. -/
def home (d : Driver) : Option ℕ :=
  (List.range (min d.ready blkMaxPorts)).find? fun i => d.winCount i ≠ 0

def writeRequest (d : Driver) (r : Request) : Driver × Reply :=
  if r.sectors < 1 ∨ blkMaxSectors < r.sectors then (d, .error) else
  let sent := d.blkXferWin r.index r.word0 r.sectors true r.transfer
  if sent.2 = false then (sent.1, .error) else
  let flushed := sent.1.blkFlush r.index r.flush
  if flushed.2 = false then (flushed.1, .error) else
  (flushed.1, ⟨blkRepOk, [r.sectors * blkSectorBytes], none⟩)

def readRequest (d : Driver) (r : Request) : Driver × Reply :=
  if r.sectors < 1 ∨ blkMaxSectors < r.sectors then (d, .error) else
  let sent := d.blkXferWin r.index r.word0 r.sectors false r.transfer
  if sent.2 = false then (sent.1, .error) else
  let generation := (sent.1.generation + 1) % 2 ^ 64
  ({ sent.1 with generation := generation },
    ⟨blkRepOk, [r.sectors * blkSectorBytes, generation], some .readData⟩)

/-- The body of the service loop. The words of a scan reply are diagnostics and are not kept. -/
def serve (hw : Machine) (d : Driver) (r : Request) : Driver × Reply :=
  if r.label = blkOpInfo then
    (d, ⟨blkRepOk, [d.ready, blkSectorBytes, hw.sourceId, hw.contained], none⟩)
  else if r.label = blkOpHome then
    (d, ⟨blkRepOk, [d.home.getD 0, if d.home.isSome then 1 else 0], none⟩)
  else if r.label = blkOpScan then (d, ⟨blkRepOk, [], none⟩)
  else if r.label = blkOpPart then
    let i := low32 r.word0
    let known := i < blkMaxPorts ∧ i < d.ready
    (d, ⟨blkRepOk, [if known then (d.winCount i).toNat else 0,
      if known then (d.winBase i).toNat else 0], none⟩)
  else if r.label = blkOpWrbuf ∧ d.ready ≠ 0 then (d, ⟨blkRepOk, [4096], some .writeData⟩)
  else if r.label = blkOpWrite ∧ d.ready ≠ 0 then d.writeRequest r
  else if r.label = blkOpRead ∧ d.ready ≠ 0 then d.readRequest r
  else (d, .error)

end Driver
end IrisOS.Blk
