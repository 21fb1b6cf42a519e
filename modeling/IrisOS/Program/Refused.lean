import IrisOS.Program.Consistent

/-! Requests of a program that fail. A refused `brk` or `mmap` leaves the memory record and the
frames as they were, but for the slot it took: `pm_add` never gives it back. -/
namespace IrisOS.Program
open Lib State

/-- Nothing is different but the scratch slot for page tables. -/
def Untouched (s t : State) : Prop := t.mem = s.mem ∧ ∀ x ≠ s.mem.ptSlot, t.frames x = s.frames x

/-- At most slots have been taken from the supply. -/
def Spent (s t : State) : Prop := Untouched { s with mem.slotNext := t.mem.slotNext } t

/-- The `brk` or `mmap` fails. -/
def failed (s : State) : (ℕ → Answer) × Call → Prop
  | (env, .brk delta) => (s.progBrk env delta).2 = none
  | (env, .mmap bytes prot) => (s.progMmap env bytes prot).2 = 0
  | _ => False

/-- The addresses asked for are out of range. -/
def outOfRange (s : State) : Call → Prop
  | .brk delta =>
    let want := (s.mem.brkCur + delta.toNat) % 2 ^ 64
    delta ≤ 0 ∨ want < s.mem.brkCur ∨ s.mem.brkEnd < want
  | .mmap bytes _ => progMemPages bytes = 0 ∨ s.mem.mmapEnd < s.mem.mmapCur + progMemPages bytes
  | _ => True

variable {r : SlotRange} {s t : State} {env : ℕ → Answer}

theorem Spent.untouched_iff (h : Spent s t) :
    Untouched s t ↔ t.mem.slotNext = s.mem.slotNext :=
  ⟨fun ht => congrArg _ ht.1, fun ht => by rwa [Spent, ht] at h⟩

theorem Spent.refl (s : State) : Spent s s := ⟨rfl, fun _ _ => rfl⟩

/-- A chunk covers what is needed and fits, so the loop makes one pass. -/
theorem Sound.growHeap_false (h : Sound r s) {want n k : ℕ} (hwant : want ≤ heapHi)
    (hgrow : s.growHeap env want n k = (t, false)) :
    Spent s t ∧ (t.mem.slotNext = s.mem.slotNext ↔ s.mem.slotEnd < s.mem.slotNext) := by
  obtain ⟨hbase, hend, -⟩ := h.fixed
  obtain ⟨hlow, hle, hhigh, hpage⟩ := h.inv.brk
  have hlayout := layout
  cases n with
  | zero => cases hgrow
  | succ n =>
    simp only [State.growHeap] at hgrow
    split_ifs at hgrow with hlt h0
    · simp only [ProgMem.progMemChunk, progMemPages, progMemChunkMin, pageSize, hbase, hend] at *
      split_ifs at h0 <;> omega
    · obtain ⟨-, hneed, hfits, hpages⟩ := h.chunk h0
      generalize s.mem.progMemChunk (want - s.mem.heapTop) = c at hgrow hneed hpages hfits h0
      cases hres : s.mem.progMemReserve c true with
      | none =>
        simp only [ProgMem.progMemReserve, hpages, hend, if_true] at hres
        split_ifs at hres
        omega
      | some p =>
        obtain ⟨m, va⟩ := p
        obtain ⟨rfl, rfl, -⟩ := reserve_heap hres hpages
        rw [hres] at hgrow
        dsimp only at hgrow
        generalize hadd : pmAdd _ (env k) s.mem.heapTop c progProtRW true = res at hgrow
        cases h.add hadd ⟨rfl, rfl, rfl⟩ with
        | failed hn hlast hk =>
          cases hgrow
          exact ⟨⟨rfl, hk⟩, hlast⟩
        | added =>
          have hdone : ¬ s.mem.heapTop + c < want := by omega
          cases n <;> simp [State.growHeap, hdone] at hgrow
    · cases hgrow

theorem Sound.progMmap_zero (h : Sound r s) {bytes prot : ℕ}
    (hfail : (s.progMmap env bytes prot).2 = 0) : Spent s (s.progMmap env bytes prot).1 ∧
      ((s.progMmap env bytes prot).1.mem.slotNext = s.mem.slotNext ↔
        outOfRange s (.mmap bytes prot) ∨ s.mem.slotEnd < s.mem.slotNext) := by
  simp only [State.progMmap, outOfRange] at hfail ⊢
  split_ifs at hfail ⊢ with h0
  · exact ⟨.refl s, iff_of_true rfl (.inl (.inl h0))⟩
  obtain ⟨-, -, hidem⟩ := pages_spec h0
  generalize progMemPages bytes = n at *
  cases hres : s.mem.progMemReserve n false with
  | none =>
    refine ⟨.refl s, iff_of_true rfl (.inl (.inr ?_))⟩
    simp only [ProgMem.progMemReserve, hidem, Bool.false_eq_true, if_false] at hres
    split_ifs at hres
    omega
  | some p =>
    obtain ⟨m, va⟩ := p
    obtain ⟨rfl, rfl, hfits⟩ := reserve_mmap hres hidem
    simp only [hres] at hfail ⊢
    generalize hadd : pmAdd _ (env 0) s.mem.mmapCur n prot false = res at hfail ⊢
    cases h.add hadd ⟨rfl, rfl, rfl⟩ with
    | failed hn hlast hk =>
      refine ⟨⟨rfl, hk⟩, hlast.trans (or_iff_right ?_).symm⟩
      exact not_or.mpr ⟨h0, hfits.not_gt⟩
    | added =>
      have hcur := h.inv.cursor.1
      have hzero : s.mem.mmapCur = 0 := hfail
      rw [hzero] at hcur
      exact absurd hcur (by decide)

/-- A `brk` or `mmap` that fails leaves everything as it was, but for a slot; and the slots too
exactly if the addresses are refused or there is no slot to take. -/
theorem refused_request_leaves_no_trace (r : SlotRange) (k : Frames)
    (calls : List ((ℕ → Answer) × Call)) (env : ℕ → Answer) (call : Call)
    (hfail : failed (runFrom act (r.start k) calls) (env, call)) :
    let s := runFrom act (r.start k) calls
    Spent s (act s (env, call)) ∧ (Untouched s (act s (env, call)) ↔
      outOfRange s call ∨ s.mem.slotEnd < s.mem.slotNext) := by
  have h := runFrom_keeps (r.sound_start k) (fun _ call h => Sound.act h call) calls
  generalize runFrom act (r.start k) calls = s at *
  suffices hspent : Spent s (act s (env, call)) ∧ ((act s (env, call)).mem.slotNext = s.mem.slotNext ↔
      outOfRange s call ∨ s.mem.slotEnd < s.mem.slotNext) from
    ⟨hspent.1, hspent.1.untouched_iff.trans hspent.2⟩
  cases call with
  | brk delta =>
    have hbase : s.mem.brkBase ≠ 0 := h.fixed.1 ▸ by decide
    simp only [failed, act, State.progBrk, outOfRange, if_neg hbase] at hfail ⊢
    split_ifs at hfail ⊢ with hpos hbad hneg hdrop
    · exact ⟨.refl s, iff_of_true rfl (.inl (.inr hbad))⟩
    · generalize hgrow : s.growHeap env _ _ 0 = res at hfail ⊢
      obtain ⟨t, ok⟩ := res
      cases ok with
      | true => cases hfail
      | false =>
        obtain ⟨hspent, hslots⟩ := h.growHeap_false (by have := h.fixed.2.1; omega) hgrow
        refine ⟨hspent, hslots.trans (or_iff_right ?_).symm⟩
        exact not_or.mpr ⟨not_le.mpr hpos, hbad⟩
    · exact ⟨.refl s, iff_of_true rfl (.inl (.inl hneg.le))⟩
  | mmap bytes prot => exact h.progMmap_zero hfail
  | munmap _ => exact hfail.elim
  | mprotect _ _ _ => exact hfail.elim

/-- A program with one slot for its mappings. -/
def oneSlot : State := SlotRange.start ⟨70, 70, 60, by decide, by decide⟩ fun _ => none

/-- With the slot used up by an `mmap`, a `brk` fails when it has reserved its addresses, and an
`mmap` of the whole region fails before; neither leaves a trace. -/
theorem refused_requests_leave_no_trace_oneSlot :
    let all : ℕ → Answer := fun _ => ⟨true, true, true⟩
    let s := act oneSlot (all, .mmap 1 1)
    failed s (all, .brk 1) ∧ Untouched s (act s (all, .brk 1)) ∧
      Untouched s (act s (all, .mmap (2 ^ 39) 1)) := by
  intro all s
  have hbrk : (s.progBrk all 1).2 = none := by decide +kernel
  have hmmap : (s.progMmap all (2 ^ 39) 1).2 = 0 := by decide +kernel
  exact ⟨hbrk,
    (refused_request_leaves_no_trace _ _ [(all, .mmap 1 1)] all (.brk 1) hbrk).2.mpr
      (.inr (by decide +kernel)),
    (refused_request_leaves_no_trace _ _ [(all, .mmap 1 1)] all (.mmap (2 ^ 39) 1) hmmap).2.mpr
      (.inl (.inr (by decide +kernel)))⟩

/-- One `mmap` that the budget refuses uses the slot up, and the same request then fails with memory
there. -/
theorem refused_mmap_spends_slot :
    let t := act oneSlot (fun _ => ⟨false, true, true⟩, .mmap 1 1)
    failed oneSlot (fun _ => ⟨false, true, true⟩, .mmap 1 1) ∧
      t.mem.slotNext ≠ oneSlot.mem.slotNext ∧ failed t (fun _ => ⟨true, true, true⟩, .mmap 1 1) ∧
      ¬ failed oneSlot (fun _ => ⟨true, true, true⟩, .mmap 1 1) :=
  ⟨rfl, by decide, rfl, nofun⟩

end IrisOS.Program
