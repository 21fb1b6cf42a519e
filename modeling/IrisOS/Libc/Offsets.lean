import IrisOS.Libc.Duplicates

/-! A descriptor as a file with an offset, as POSIX has it. The library passes the signed offset as
an unsigned word, and the service takes a sum below its base for an overflow. -/
namespace IrisOS.Fd
open Vfs

inductive FileOp
  | read (n : ℕ)
  | lseek (off : Int64) (whence : ℤ)

def FileOp.call (fd : ℤ) : FileOp → Op
  | .read n => .read fd n
  | .lseek off whence => .lseek fd off.toUInt64 whence

/-- The answers to operations on one descriptor, each with the service's receiving buffer. -/
def trace (fd : ℤ) : World → List (FileOp × List UInt8) → List (FileOp × Result)
  | _, [] => []
  | w, (op, page) :: rest =>
    (op, (step w ⟨op.call fd, page⟩).2) :: trace fd (step w ⟨op.call fd, page⟩).1 rest

namespace Posix
variable (bytes : List UInt8) (pos : ℕ)

def base (whence : ℤ) : Option ℕ :=
  if whence = 0 then some 0 else if whence = 1 then some pos
  else if whence = 2 then some bytes.length else none

def target (off : Int64) (whence : ℤ) : Option ℕ :=
  (base bytes pos whence).bind fun b =>
    if 0 ≤ b + off.toInt then some (b + off.toInt).toNat else none

/-- The offset is not negative and the target is one that `off_t` has. -/
def Forward (off : Int64) (whence : ℤ) : Prop :=
  ∀ b ∈ base bytes pos whence, 0 ≤ off.toInt ∧ b + off.toInt < 2 ^ 63

/-- Bytes from the offset on, not more than asked for, and none only at the end. -/
def Reads (n : ℕ) (got : List UInt8) : Prop :=
  got <+: bytes.drop pos ∧ got.length ≤ n ∧ (got = [] → n = 0 ∨ bytes.length ≤ pos)

/-- The answers are those of a file with these bytes, from an offset on, while the seeks go
forward. -/
def Allows : ℕ → List (FileOp × Result) → Prop
  | _, [] => True
  | pos, (.read n, r) :: rest => ∃ got, Reads bytes pos n got ∧ r = .ok (got.length, got) ∧
      Allows (pos + got.length) rest
  | pos, (.lseek off whence, r) :: rest => Forward bytes pos off whence →
      match target bytes pos off whence with
      | none => (∃ e, r = .error e) ∧ Allows pos rest
      | some p => r = .ok (p, []) ∧ Allows p rest

end Posix

/-- The descriptor is open on a file with these bytes, at this offset. -/
def Opened (w : World) (fd : ℤ) (bytes : List UInt8) (pos : ℕ) : Prop :=
  ∃ s f off, fdResolve fd = .slot s ∧ w.slots s = some (irisBadgeVfsFileOf f) ∧
    Entry w.vfs f ⟨bytes, off⟩ ∧ off.toNat = pos

variable {w : World} {fd : ℤ} {bytes : List UInt8} {pos : ℕ} {f : FileId} {file : SpecFile}
  {off : Int64}

theorem Entry.moved {st st' : VfsState} {off : UInt64} (h : Entry st f file) (hep : st'.ep = st.ep)
    (hfiles : st'.files = Function.update st.files f { st.files f with offset := off }) :
    Entry st' f ⟨file.bytes, off⟩ := by
  obtain ⟨hused, hread, -, hbytes⟩ := h
  constructor <;> simp_all [VfsState.exportOf]

theorem Entry.length_lt {st : VfsState} (h : Entry st f file) : file.bytes.length < 2 ^ 32 := by
  rw [← h.bytes, contents, List.length_map, List.length_range]
  exact UInt32.toNat_lt _

theorem toNat_toUInt64 (h : 0 ≤ off.toInt) : (off.toUInt64.toNat : ℤ) = off.toInt := by
  have hint : off.toInt = off.toUInt64.toBitVec.toInt := rfl
  rw [hint, BitVec.toInt_eq_toNat_cond] at h ⊢
  split_ifs at h ⊢
  · rfl
  · omega

theorem reads_readBytes (file : SpecFile) (n : ℕ) :
    Posix.Reads file.bytes file.offset.toNat n (Spec.readBytes file n) := by
  refine ⟨ List.take_prefix _ _, ?_, fun hnil => ?_⟩
  · exact (List.length_take_le ..).trans (Nat.min_le_left ..)
  · have hlen := congrArg List.length hnil
    simp only [Spec.readBytes, List.length_take, List.length_drop, List.length_nil, vfsEpDataMax]
      at hlen
    omega

/-- A forward seek goes where POSIX says. -/
theorem seekTo_eq_target {whence : ℤ} (hlen : file.bytes.length < 2 ^ 32)
    (hfwd : Posix.Forward file.bytes file.offset.toNat off whence) :
    (Spec.seekTo file off.toUInt64 whence).map UInt64.toNat =
      Posix.target file.bytes file.offset.toNat off whence := by
  by_cases hwhence : whence < 0 ∨ whence > 2
  · have hnone : Posix.base file.bytes file.offset.toNat whence = none := by
      simp only [Posix.base]
      split_ifs <;> first | omega | rfl
    simp [Spec.seekTo, hwhence, Posix.target, hnone]
  have hbase : Posix.base file.bytes file.offset.toNat whence
      = some (Spec.seekBase file whence).toNat := by
    have hsize : file.bytes.length.toUInt64.toNat = file.bytes.length := by
      rw [Nat.toUInt64, UInt64.toNat_ofNat']
      omega
    obtain rfl | rfl | rfl : whence = 0 ∨ whence = 1 ∨ whence = 2 := by omega
    · rfl
    · rfl
    · exact congrArg some hsize.symm
  obtain ⟨hpos, hsum⟩ := hfwd _ hbase
  have hoff := toNat_toUInt64 hpos
  have hadd : (Spec.seekBase file whence + off.toUInt64).toNat =
      (Spec.seekBase file whence).toNat + off.toUInt64.toNat := by
    rw [UInt64.toNat_add]
    omega
  have hover : ¬ Spec.seekBase file whence + off.toUInt64 < Spec.seekBase file whence := by
    rw [UInt64.lt_iff_toNat_lt]
    omega
  rw [Spec.seekTo, if_neg hwhence, if_neg hover, Posix.target, hbase, Option.bind_some,
    if_pos (by omega),
    Option.map_some, hadd]
  congr 1
  omega

/-- The answers to reads and to seeks that go forward are those of a POSIX file. -/
theorem descriptor_is_a_file (h : Opened w fd bytes pos) (ops : List (FileOp × List UInt8)) :
    Posix.Allows bytes pos (trace fd w ops) := by
  induction ops generalizing w pos with
  | nil => trivial
  | cons o ops ih =>
    obtain ⟨op, page⟩ := o
    obtain ⟨s, f, off, hfd, hslot, hentry, rfl⟩ := h
    have hlen : bytes.length < 2 ^ 32 := hentry.length_lt
    cases op with
    | read n =>
      obtain ⟨st, hread, hep, hfiles⟩ := hentry.read hslot hfd page n
      have hgot := reads_readBytes ⟨bytes, off⟩ n
      generalize Spec.readBytes ⟨bytes, off⟩ n = got at hread hfiles hgot
      have hstep : step w ⟨.read fd n, page⟩ = ({ w with vfs := st }, .ok (got.length, got)) := hread
      have hoff : (off + got.length.toUInt64).toNat = off.toNat + got.length := by
        have hshort := hgot.1.length_le
        simp only [List.length_drop] at hshort
        have := off.toNat_lt
        rw [UInt64.toNat_add, Nat.toUInt64, UInt64.toNat_ofNat']
        omega
      simp only [trace, FileOp.call, hstep]
      exact ⟨got, hgot, rfl, ih ⟨s, f, _, hfd, hslot, hentry.moved hep hfiles, hoff⟩⟩
    | lseek d whence =>
      intro hfwd
      have hseek := hentry.lseek hslot hfd page d.toUInt64 whence
      rw [← @seekTo_eq_target ⟨bytes, off⟩ d whence hlen hfwd]
      cases hto : Spec.seekTo ⟨bytes, off⟩ d.toUInt64 whence with
      | none =>
        obtain ⟨st, e, hfail, hep, hfiles⟩ := hto ▸ hseek
        have hstep : step w ⟨.lseek fd d.toUInt64 whence, page⟩ = ({ w with vfs := st }, .error e) :=
          hfail
        simp only [FileOp.call, hstep, Option.map_none]
        exact ⟨⟨e, rfl⟩, ih ⟨s, f, off, hfd, hslot, hentry.congr hep (by rw [hfiles]), rfl⟩⟩
      | some p =>
        obtain ⟨st, hok, hep, hfiles⟩ := hto ▸ hseek
        have hstep : step w ⟨.lseek fd d.toUInt64 whence, page⟩
            = ({ w with vfs := st }, .ok (p.toNat, [])) := hok
        simp only [FileOp.call, hstep, Option.map_some]
        exact ⟨trivial, ih ⟨s, f, p, hfd, hslot, hentry.moved hep hfiles, rfl⟩⟩

/-- A program that has opened a file of three bytes. -/
def openedWorld : World :=
  (step ⟨boot twoExports noMem 0 true, 0x200, fun _ => none⟩ ⟨.openPath [97] true true, []⟩).1

theorem opened_openedWorld : Opened openedWorld 40 [1, 2, 3] 0 :=
  ⟨40, 0, 0, rfl, by decide +kernel, ⟨by decide +kernel, by decide +kernel, by decide +kernel,
    by decide +kernel⟩, rfl⟩

theorem descriptor_is_a_file_openedWorld : Opened openedWorld 40 [1, 2, 3] 0 ∧
    Posix.Allows [1, 2, 3] 0 (trace 40 openedWorld [(.read 2, []), (.lseek 1 1, [])]) :=
  ⟨opened_openedWorld, descriptor_is_a_file opened_openedWorld _⟩

/-- Going back by one byte is refused, and a negative offset from the start is accepted. -/
theorem seek_backwards_fails :
    (trace 40 openedWorld [(.read 3, []), (.lseek (-1) 1, []), (.lseek (-5) 0, [])]).map Prod.snd =
      [.ok (3, [1, 2, 3]), .error (.iris IrisError.invalidArg.word), .ok (2 ^ 64 - 5, [])] ∧
      Posix.target [1, 2, 3] 3 (-1) 1 = some 2 ∧ Posix.target [1, 2, 3] 3 (-5) 0 = none := by
  decide +kernel

end IrisOS.Fd
