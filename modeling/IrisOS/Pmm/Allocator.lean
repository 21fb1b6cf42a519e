import IrisOS.Lib.Bitmap
import IrisOS.Lib.Buddy
import IrisOS.Lib.Steps

/-! The physical memory manager (`pmm.c`): a bitmap of the pages in use, and from `pmm_buddy_setup`
on a buddy system over the same pages. An allocation that fails answers `0`. -/
namespace IrisOS.Pmm
open Lib

abbrev pageSize : ℕ := 4096
abbrev maxOrder : ℕ := 20
abbrev maxPages : ℕ := 1024 * 1024
abbrev bitmapWords : ℕ := maxPages / 64

/-- An entry of the boot memory map; `usable` says its type is `IRIS_MEM_USABLE`. -/
structure MmapEntry where
  usable : Bool
  base : ℕ
  length : ℕ
  deriving DecidableEq

/-- The variables of the manager; `buddy` is `fl_heads` with `page_blk_order`. -/
structure Manager where
  bitmap : Words := fun _ => ~~~0
  buddy : Buddy := {}
  buddyActive : Bool := false
  totalPagesCount : ℕ := 0
  usedPagesCount : ℕ := 0
  lastSearchIndex : ℕ := 0

/-! ## Blocks of bits -/

def bitmapSetBlock (b : Words) (page order : ℕ) : Words :=
  if 6 ≤ order then b.fill (page / 64) (2 ^ order >>> 6) (~~~0) else b.setBits page (2 ^ order)

def bitmapClearBlock (b : Words) (page order : ℕ) : Words :=
  if 6 ≤ order then b.fill (page / 64) (2 ^ order >>> 6) 0 else b.clearBits page (2 ^ order)

/-! ## The buddy system -/

/-- The loop of `buddy_release`, with the orders that are left to coalesce. -/
def releaseLoop : ℕ → Buddy → ℕ → ℕ → Buddy
  | 0, B, page, order => B.insert page order
  | left + 1, B, page, order =>
    let buddy := page ^^^ 2 ^ order
    if buddy + 2 ^ order > maxPages then B.insert page order
    else if B.tag buddy ≠ order + 1 then B.insert page order
    else releaseLoop left (B.remove buddy order) (if buddy < page then buddy else page) (order + 1)

def buddyRelease (B : Buddy) (page order : ℕ) : Buddy := releaseLoop (maxOrder - order) B page order

/-- Give the upper halves of a block of order `order + d` back, down to `order`. -/
def splitLoop : ℕ → Buddy → ℕ → ℕ → Buddy
  | 0, B, _, _ => B
  | d + 1, B, page, order => splitLoop d (B.insert (page + 2 ^ (order + d)) (order + d)) page order

def availOrder (B : Buddy) (order : ℕ) : Option ℕ :=
  (List.range' order (maxOrder + 1 - order)).find? fun k => !(B.fl k).isEmpty

def buddyClaim (s : Manager) (order : ℕ) : Manager × ℕ :=
  match availOrder s.buddy order with
  | none => (s, 0)
  | some avail =>
    match s.buddy.fl avail with
    | [] => (s, 0)
    | page :: _ =>
      ({ s with
          bitmap := bitmapSetBlock s.bitmap page order
          buddy := splitLoop (avail - order) (s.buddy.remove page avail) page order
          usedPagesCount := s.usedPagesCount + 2 ^ order }, page * pageSize)

/-! ## Start and switch -/

def initEntry (s : Manager) (e : MmapEntry) : Manager :=
  if !e.usable then s
  else if e.base = 0 then s
  else
    let page := e.base / pageSize
    let count := e.length / pageSize
    if page ≥ maxPages then s
    else
      let count := if page + count > maxPages then maxPages - page else count
      { s with
        bitmap := s.bitmap.clearBits page count
        totalPagesCount := s.totalPagesCount + count }

def reservePage (s : Manager) (k : ℕ) : Manager :=
  if !s.bitmap.testBit k then
    { s with bitmap := s.bitmap.setBit k, usedPagesCount := s.usedPagesCount + 1 }
  else s

/-- The pages of the kernel image from address `ks` to `ke`. -/
def kernelPages (ks ke : ℕ) : List ℕ :=
  let first := ks / pageSize
  let last := min ((ke + pageSize - 1) / pageSize) maxPages
  List.range' first (last - first)

def pmmInit (mmap : List MmapEntry) (ks ke : ℕ) : Manager :=
  let s := mmap.foldl initEntry {}
  (kernelPages ks ke).foldl reservePage { s with bitmap := s.bitmap.setBit 0 }

/-- The end of a run of free pages, with the pages that are left. -/
def runEnd (b : Words) : ℕ → ℕ → ℕ
  | 0, page => page
  | left + 1, page => if b.testBit page then page else runEnd b left (page + 1)

/-- The largest order whose size divides a position and fits, with the orders that are left. -/
def largestOrder (pos remaining : ℕ) : ℕ → ℕ → ℕ
  | 0, ord => ord
  | left + 1, ord =>
    if pos &&& (2 ^ (ord + 1) - 1) = 0 ∧ 2 ^ (ord + 1) ≤ remaining then
      largestOrder pos remaining left (ord + 1)
    else ord

/-- Cut a run of free pages into blocks, at most `fuel` of them. -/
def decompose : ℕ → Buddy → ℕ → ℕ → Buddy
  | 0, B, _, _ => B
  | fuel + 1, B, pos, remaining =>
    if remaining = 0 then B
    else
      let ord := largestOrder pos remaining maxOrder 0
      decompose fuel (B.insert pos ord) (pos + 2 ^ ord) (remaining - 2 ^ ord)

/-- Insert the runs of free pages from `page` on, in at most `fuel` rounds. -/
def setupLoop (b : Words) : ℕ → Buddy → ℕ → Buddy
  | 0, B, _ => B
  | fuel + 1, B, page =>
    if page < maxPages then
      if b.testBit page then setupLoop b fuel B (page + 1)
      else
        let stop := runEnd b (maxPages - page) page
        setupLoop b fuel (decompose (stop - page) B page (stop - page)) stop
    else B

def pmmBuddySetup (s : Manager) : Manager :=
  { s with
    buddy := setupLoop s.bitmap maxPages { s.buddy with fl := fun _ => [] } 1
    buddyActive := true }

/-! ## Allocation -/

def takeBits (s : Manager) (page count : ℕ) : Manager :=
  { s with
    bitmap := s.bitmap.setBits page count
    usedPagesCount := s.usedPagesCount + count }

def pmmAllocPageBelow (s : Manager) (limit : ℕ) : Manager × ℕ :=
  let maxIdx := min (limit / pageSize) maxPages
  match (List.range' 1 (maxIdx - 1)).find? fun i => !s.bitmap.testBit i with
  | none => (s, 0)
  | some idx => (takeBits s idx 1, idx * pageSize)

/-- `__builtin_ctzll`. -/
def ctzll (m : UInt64) : ℕ := ((List.range 64).find? fun i => decide (m &&& Words.mask i ≠ 0)).getD 64

/-- The first free page of a word, other than page 0. -/
def freeInWord (b : Words) (w : ℕ) : Option ℕ :=
  let freeMask := ~~~b w
  let freeMask := if w = 0 then freeMask &&& ~~~1 else freeMask
  if freeMask = 0 then none else some (w * 64 + ctzll freeMask)

/-- The first free page from the word of the hint on, and from the first word up to it after. -/
def scanWords (b : Words) (fromWord : ℕ) : Option ℕ :=
  match (List.range' fromWord (bitmapWords - fromWord)).findSome? (freeInWord b) with
  | some idx => some idx
  | none => (List.range fromWord).findSome? (freeInWord b)

def pmmAllocPage (s : Manager) : Manager × ℕ :=
  if s.buddyActive then buddyClaim s 0
  else
    match scanWords s.bitmap (s.lastSearchIndex / 64) with
    | none => (s, 0)
    | some idx => ({ takeBits s idx 1 with lastSearchIndex := idx + 1 }, idx * pageSize)

def nextPow2 (n : UInt32) : UInt32 :=
  if n ≤ 1 then 1
  else
    let n := n - 1
    let n := n ||| n >>> 1
    let n := n ||| n >>> 2
    let n := n ||| n >>> 4
    let n := n ||| n >>> 8
    let n := n ||| n >>> 16
    n + 1

/-- `__builtin_ctz`, with 32 for 0. -/
def ctz (m : UInt32) : ℕ := ((List.range 32).find? fun i => m.toNat.testBit i).getD 32

def ceilLog2 (n : UInt32) : ℕ := if n ≤ 1 then 0 else ctz (nextPow2 n)

/-- The loop that looks for `n` free pages in a row, with the pages that are left. -/
def runScan (b : Words) (n : ℕ) : ℕ → ℕ → ℕ → ℕ → Option ℕ
  | 0, _, _, _ => none
  | left + 1, i, start, count =>
    if !b.testBit i then
      let start := if count = 0 then i else start
      if count + 1 = n then some start else runScan b n left (i + 1) start (count + 1)
    else runScan b n left (i + 1) start 0

def scanRuns (b : Words) (n hint : ℕ) : Option ℕ :=
  match runScan b n (maxPages - hint) hint 0 0 with
  | some start => some start
  | none => runScan b n (hint - 1) 1 0 0

def pmmAllocPages (s : Manager) (n : UInt32) : Manager × ℕ :=
  if n = 0 then (s, 0)
  else if s.buddyActive then buddyClaim s (ceilLog2 n)
  else
    match scanRuns s.bitmap n.toNat (if s.lastSearchIndex > 0 then s.lastSearchIndex else 1) with
    | none => (s, 0)
    | some start =>
      ({ takeBits s start n.toNat with lastSearchIndex := start + n.toNat }, start * pageSize)

/-- The largest free block, with its order. -/
def pmmAllocBlock (s : Manager) : Manager × ℕ × ℕ :=
  if !s.buddyActive then (s, 0, 0)
  else
    match (List.range (maxOrder + 1)).reverse.find? fun k => !(s.buddy.fl k).isEmpty with
    | none => (s, 0, 0)
    | some ord =>
      let (s, result) := buddyClaim s ord
      (s, result, ord)

/-! ## Release -/

def lowerHint (s : Manager) (page : ℕ) : Manager :=
  if page < s.lastSearchIndex then { s with lastSearchIndex := page } else s

/-- Free one page. A page that is free already is a panic, and the state is `none`. -/
def pmmFreePage (s : Manager) (physAddr : ℕ) : Option Manager :=
  if physAddr = 0 then some s
  else
    let page := physAddr / pageSize
    if page ≥ maxPages then some s
    else if !s.bitmap.testBit page then none
    else
      let s := { s with
        bitmap := s.bitmap.clearBit page
        usedPagesCount := s.usedPagesCount - 1 }
      if s.buddyActive then some { s with buddy := buddyRelease s.buddy page 0 }
      else some (lowerHint s page)

def clearUsed (s : Manager) (page : ℕ) : Manager :=
  if s.bitmap.testBit page then
    { s with bitmap := s.bitmap.clearBit page, usedPagesCount := s.usedPagesCount - 1 }
  else s

def pmmFreeContig (s : Manager) (physBase : ℕ) (n : UInt32) : Manager :=
  if physBase = 0 ∨ n = 0 then s
  else
    let page := physBase / pageSize
    let order := ceilLog2 n
    let count := 2 ^ order
    if page + count > maxPages then s
    else if s.buddyActive then
      { s with
        bitmap := bitmapClearBlock s.bitmap page order
        usedPagesCount :=
          if s.usedPagesCount ≥ count then s.usedPagesCount - count else s.usedPagesCount
        buddy := buddyRelease s.buddy page order }
    else lowerHint ((List.range' page n.toNat).foldl clearUsed s) page

def pmmFreePages (s : Manager) : UInt64 :=
  UInt64.ofNat s.totalPagesCount - UInt64.ofNat s.usedPagesCount

/-! ## Runs -/

/-- Where the pages of a caller start, how many it asked for and how many it was given. -/
structure Range where
  start : ℕ
  asked : UInt32
  pages : ℕ
  deriving DecidableEq

/-- The manager with what its callers hold. -/
structure State where
  pmm : Manager
  held : List Range := []

inductive Event
  | allocPage
  | allocPageBelow (limit : ℕ)
  | allocPages (n : UInt32)
  | allocBlock
  | freePage (i : ℕ)
  | freeContig (i : ℕ)
  | buddySetup

/-- Record what an allocation has handed out. -/
def State.hand (s : State) (r : Manager × ℕ) (asked : UInt32) (pages : ℕ) : State :=
  if r.2 = 0 then { s with pmm := r.1 }
  else { pmm := r.1, held := ⟨r.2 / pageSize, asked, pages⟩ :: s.held }

/-- The pages an allocation of `n` pages is given: all of a block once there are blocks. -/
def pagesOf (s : Manager) (n : UInt32) : ℕ := if s.buddyActive then 2 ^ ceilLog2 n else n.toNat

/-- One call. A free names a range held, with the size asked for; the switch happens once. -/
def act (s : State) : Event → State
  | .allocPage => s.hand (pmmAllocPage s.pmm) 1 1
  | .allocPageBelow limit => s.hand (pmmAllocPageBelow s.pmm limit) 1 1
  | .allocPages n => s.hand (pmmAllocPages s.pmm n) n (pagesOf s.pmm n)
  | .allocBlock =>
    let (pmm, result, ord) := pmmAllocBlock s.pmm
    s.hand (pmm, result) (2 ^ ord).toUInt32 (2 ^ ord)
  | .freePage i =>
    match s.held[i]? with
    | none => s
    | some r =>
      if r.asked ≠ 1 then s
      else
        match pmmFreePage s.pmm (r.start * pageSize) with
        | none => s
        | some pmm => { pmm, held := s.held.eraseIdx i }
  | .freeContig i =>
    match s.held[i]? with
    | none => s
    | some r =>
      { pmm := pmmFreeContig s.pmm (r.start * pageSize) r.asked, held := s.held.eraseIdx i }
  | .buddySetup => if s.pmm.buddyActive then s else { s with pmm := pmmBuddySetup s.pmm }

def start (mmap : List MmapEntry) (ks ke : ℕ) : State := { pmm := pmmInit mmap ks ke }

end IrisOS.Pmm
