import IrisOS.Lib.Steps
import Mathlib.Data.List.Basic
import Mathlib.Order.Nat

/-! The receive path of the e1000 driver. The card completes the descriptors of the ring in order,
as far as the tail lets it; only the last descriptor of a frame carries the end-of-packet flag. -/
namespace IrisOS.Net
open Lib Function List

def netRingLen : ℕ := 8
def netRxPerFrame : ℕ := 4
def netFrameBytes : ℕ := 1024
def rxdStatDd : UInt32 := 1
def rxdStatEop : UInt32 := 2

/-- The length and status words of a receive descriptor. -/
structure Desc where
  lenWord : UInt32
  statusWord : UInt32

namespace Desc
variable (d : Desc)

def dd : Bool := d.statusWord &&& 0xFF &&& rxdStatDd ≠ 0
def eop : Bool := d.statusWord &&& 0xFF &&& rxdStatEop ≠ 0
def len : ℕ := (d.lenWord &&& 0xFFFF).toNat

end Desc

/-- The ring with the card's head and tail registers, and the driver's cursor and skip flag. -/
structure Hw where
  rxd : ℕ → Desc := fun _ => ⟨0, 0⟩
  rdh : ℕ := 0
  rdt : ℕ := netRingLen - 1
  rxNext : ℕ := 0
  rxSkipping : Bool := false

/-- Where the buffer of a descriptor is. -/
def bufferOff (i : ℕ) : ℕ := i / netRxPerFrame * 4096 + i % netRxPerFrame * netFrameBytes

/-- What `e1000_recv` makes of the descriptor at the cursor: the length it returns and the flag. -/
def accept (skipping : Bool) (d : Desc) : ℕ × Bool :=
  if skipping then (0, if d.eop then false else true)
  else if !d.eop then (0, true)
  else if d.len = 0 ∨ d.len > netFrameBytes then (0, false)
  else (d.len, false)

/-- Nothing, or the length and the buffer offset of what the call returns. -/
def e1000Recv (hw : Hw) : Hw × Option (ℕ × ℕ) :=
  let i := hw.rxNext
  if !(hw.rxd i).dd then (hw, none)
  else
    let r := accept hw.rxSkipping (hw.rxd i)
    ({ hw with
        rxd := update hw.rxd i { hw.rxd i with statusWord := 0 }
        rdt := i
        rxNext := (i + 1) % netRingLen
        rxSkipping := r.2 }, some (r.1, bufferOff i))

inductive Event
  | complete (lenWord statusWord : UInt32)
  | recv

/-- A run, with the descriptors completed, the frames handed up, and how many were given back. -/
structure Run where
  hw : Hw := {}
  done : List Desc := []
  got : List (ℕ × ℕ) := []
  taken : ℕ := 0

/-- A conforming card completes the descriptor at its head, unless the tail stops it. -/
def step (r : Run) : Event → Run
  | .complete lenWord statusWord =>
    let d : Desc := ⟨lenWord, statusWord ||| rxdStatDd⟩
    if r.hw.rdh = r.hw.rdt then r
    else { r with
      hw := { r.hw with rxd := update r.hw.rxd r.hw.rdh d, rdh := (r.hw.rdh + 1) % netRingLen }
      done := r.done ++ [d] }
  | .recv =>
    match e1000Recv r.hw with
    | (_, none) => r
    | (hw, some (len, off)) =>
      { r with hw, got := if len = 0 then r.got else r.got ++ [(len, off)], taken := r.taken + 1 }

/-- A packet starts at a descriptor: it is the first, or the one before it ended a packet. -/
def starts (done : List Desc) (k : ℕ) : Bool := k = 0 || (done[k - 1]?.any Desc.eop)

/-- The frame that a completed descriptor holds as a whole, if it does and the frame fits. -/
def wholeFrame (done : List Desc) (k : ℕ) : Option (ℕ × ℕ) :=
  done[k]?.bind fun d =>
    if starts done k ∧ d.eop ∧ 1 ≤ d.len ∧ d.len ≤ netFrameBytes then
      some (d.len, bufferOff (k % netRingLen))
    else none

/-- The ring holds the completed descriptors that are not taken, and the results are those of the
taken ones. -/
structure Inv (r : Run) : Prop where
  le : r.taken ≤ r.done.length
  room : r.done.length < r.taken + 8
  head : r.hw.rdh = r.done.length % 8
  tail : r.hw.rdt = (r.taken + 7) % 8
  next : r.hw.rxNext = r.taken % 8
  skip : r.hw.rxSkipping = !starts r.done r.taken
  full : ∀ k d, r.taken ≤ k → r.done[k]? = some d → r.hw.rxd (k % 8) = d
  marked : ∀ d ∈ r.done, d.dd = true
  free : ∀ k, r.done.length ≤ k → k < r.taken + 8 → (r.hw.rxd (k % 8)).dd = false
  got : r.got = (List.range r.taken).filterMap (wholeFrame r.done)

variable {r : Run} {done : List Desc} {d : Desc} {k : ℕ}

theorem starts_append (hk : k ≤ done.length) : starts (done ++ [d]) k = starts done k := by
  unfold starts
  cases k with
  | zero => rfl
  | succ k => rw [Nat.add_sub_cancel, getElem?_append_left (by omega)]

theorem dd_zero (lenWord : UInt32) : Desc.dd ⟨lenWord, 0⟩ = false := by simp [Desc.dd]

theorem dd_completed (lenWord statusWord : UInt32) :
    Desc.dd ⟨lenWord, statusWord ||| rxdStatDd⟩ = true := by
  refine decide_eq_true fun hzero => ?_
  have hbit := congrArg (fun x : UInt32 => x.toBitVec.getLsbD 0) hzero
  simp [rxdStatDd] at hbit

/-- A descriptor is returned if it holds a whole frame, and the flag says whether a packet goes
on after it. -/
theorem accept_spec (start : Bool) (d : Desc) : accept (!start) d =
    (if start ∧ d.eop ∧ 1 ≤ d.len ∧ d.len ≤ netFrameBytes then d.len else 0, !d.eop) := by
  unfold accept
  cases start <;> cases d.eop <;> simp
  split_ifs <;> first | rfl | omega

theorem Inv.complete (h : Inv r) (lenWord statusWord : UInt32) :
    Inv (step r (.complete lenWord statusWord)) := by
  obtain ⟨hle, hroom, hhead, htail, hnext, hskip, hfull, hmarked, hfree, hgot⟩ := id h
  simp only [step]
  split_ifs with hstop
  · exact h
  have hmark := dd_completed lenWord statusWord
  refine ⟨?_, ?_, ?_, htail, hnext, ?_, fun k e hk he => ?_, fun e he => ?_, fun k hk hk' => ?_, ?_⟩ <;>
    simp only [length_append, length_singleton, netRingLen] at *
  · omega
  · omega
  · omega
  · rw [starts_append hle, hskip]
  · have hlt := (List.getElem?_eq_some_iff.mp he).1
    simp only [length_append, length_singleton] at hlt
    rw [hhead]
    rcases Nat.lt_succ_iff_lt_or_eq.mp hlt with hlt | rfl
    · rw [getElem?_append_left hlt] at he
      rw [update_of_ne (by omega), hfull k e hk he]
    · rw [getElem?_concat_length] at he
      rw [update_self, Option.some.inj he]
  · rcases mem_append.mp he with he | he
    · exact hmarked e he
    · rwa [mem_singleton.mp he]
  · rw [hhead, update_of_ne (by omega)]
    exact hfree k (by omega) hk'
  · rw [hgot]
    apply filterMap_congr
    intro k hk
    have hlt := (mem_range.mp hk).trans_le hle
    simp only [wholeFrame, getElem?_append_left hlt, starts_append hlt.le]

theorem Inv.recv (h : Inv r) : Inv (step r .recv) ∧
    (step r .recv).taken = min (r.taken + 1) r.done.length := by
  obtain ⟨hle, hroom, hhead, htail, hnext, hskip, hfull, hmarked, hfree, hgot⟩ := id h
  rcases hle.eq_or_lt with heq | hlt
  · have hidle := hfree r.taken heq.ge (by omega)
    rw [← hnext] at hidle
    simp only [step, e1000Recv, hidle, Bool.not_false, if_true]
    exact ⟨h, by omega⟩
  obtain ⟨d, hd⟩ : ∃ d, r.done[r.taken]? = some d := ⟨_, getElem?_eq_getElem hlt⟩
  have hcell : r.hw.rxd r.hw.rxNext = d := hnext ▸ hfull _ d le_rfl hd
  have hdd : d.dd = true := hmarked d (mem_of_getElem? hd)
  simp only [step, e1000Recv, hcell, hdd, Bool.not_true, Bool.false_eq_true, if_false, hskip,
    accept_spec]
  refine ⟨⟨hlt, ?_, hhead, ?_, ?_, ?_, fun k e hk he => ?_, hmarked, fun k hk hk' => ?_, ?_⟩, ?_⟩ <;>
    simp only [hnext, netRingLen] at *
  · omega
  · omega
  · omega
  · simp [starts, hd]
  · have hkc := (List.getElem?_eq_some_iff.mp he).1
    rw [update_of_ne (by omega), hfull k e (by omega) he]
  · by_cases hlast : k % 8 = r.taken % 8
    · rw [hlast, update_self, dd_zero]
    · rw [update_of_ne hlast, hfree k hk (by omega)]
  · rw [range_succ, filterMap_append, ← hgot]
    simp only [filterMap_cons, filterMap_nil, wholeFrame, hd, Option.bind_some]
    by_cases hwhole : starts r.done r.taken ∧ d.eop ∧ 1 ≤ d.len ∧ d.len ≤ netFrameBytes
    · rw [if_pos hwhole, if_neg (by omega), if_pos hwhole]
      rfl
    · simp only [if_neg hwhole, if_true, append_nil]
  · omega

theorem inv_run (es : List Event) : Inv (runFrom step {} es) := by
  refine runFrom_keeps ?_ (fun r e h => ?_) es
  · exact ⟨le_rfl, by decide, rfl, rfl, rfl, rfl, nofun, nofun, fun _ _ _ => dd_zero 0, rfl⟩
  · cases e with
    | complete lenWord statusWord => exact h.complete lenWord statusWord
    | recv => exact h.recv.1

/-- The card never completes more descriptors than the ring has: none that is not given back yet is
written over, and those it may still fill are unmarked. -/
theorem ring_is_never_overrun (es : List Event) :
    let r := runFrom step {} es
    r.done.length < r.taken + netRingLen ∧
      (∀ k d, r.taken ≤ k → r.done[k]? = some d → r.hw.rxd (k % netRingLen) = d) ∧
      ∀ k, r.done.length ≤ k → k < r.taken + netRingLen →
        (r.hw.rxd (k % netRingLen)).dd = false :=
  ⟨(inv_run es).room, (inv_run es).full, (inv_run es).free⟩

end IrisOS.Net
