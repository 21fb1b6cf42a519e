import Mathlib.Data.UInt
import Mathlib.Order.Nat

/-! Buffered reading in the C library (`stdio_file.c`). The three reading functions share a buffer
that is refilled by reads of any length; the abstract stream is the bytes still to be consumed. -/
namespace IrisOS.Libc
open List

/-- A stream, with what its descriptor has still to deliver and how the next reads go: an error, or
a byte and at most so many more. -/
structure File where
  rest : List UInt8
  reads : List (Option ℕ) := []
  eof : Bool := false
  err : Bool := false
  buf : List UInt8 := []
  pos : ℕ := 0

namespace File

def read (f : File) (n : ℕ) : File × Option (List UInt8) :=
  match f.reads with
  | [] => ({ f with rest := f.rest.drop n }, some (f.rest.take n))
  | none :: reads => ({ f with reads }, none)
  | some k :: reads =>
    ({ f with reads, rest := f.rest.drop (min (k + 1) n) }, some (f.rest.take (min (k + 1) n)))

def fileFill (f : File) : File × ℕ :=
  if f.pos < f.buf.length then (f, f.buf.length - f.pos)
  else match { f with pos := 0, buf := [] }.read 256 with
    | (f, none) => ({ f with err := true }, 0)
    | (f, some []) => ({ f with eof := true }, 0)
    | (f, some got) => ({ f with buf := got }, got.length)

def fgetc (f : File) : File × Option UInt8 :=
  let (f, avail) := f.fileFill
  if avail = 0 then (f, none) else ({ f with pos := f.pos + 1 }, f.buf[f.pos]?)

/-- The loop of `fread`, with the bytes it still wants. -/
def freadLoop (f : File) (left : ℕ) : File × List UInt8 :=
  if left = 0 then (f, [])
  else if f.fileFill.2 = 0 then (f.fileFill.1, [])
  else
    let take := min left f.fileFill.2
    let f := f.fileFill.1
    let (g, more) := freadLoop { f with pos := f.pos + take } (left - take)
    (g, (f.buf.drop f.pos).take take ++ more)
termination_by left
decreasing_by omega

/-- The bytes delivered, and the number of items returned. -/
def fread (f : File) (sz n : ℕ) : File × List UInt8 × ℕ :=
  if sz = 0 ∨ n = 0 then (f, [], 0)
  else if n > (2 ^ 64 - 1) / sz then ({ f with err := true }, [], 0)
  else
    let (f, bytes) := f.freadLoop (sz * n)
    (f, bytes, bytes.length / sz)

def fgetsLoop (f : File) : ℕ → File × List UInt8
  | 0 => (f, [])
  | k + 1 =>
    match f.fgetc with
    | (f, none) => (f, [])
    | (f, some c) => if c = 10 then (f, [c]) else ((fgetsLoop f k).1, c :: (fgetsLoop f k).2)

/-- What is stored at the pointer returned, or nothing for a null pointer. -/
def fgets (f : File) (n : ℤ) : File × Option (List UInt8) :=
  if n ≤ 0 then (f, none)
  else
    let (f, l) := f.fgetsLoop (n - 1).toNat
    (f, if l = [] then none else some (l ++ [0]))

end File

inductive ReadOp
  | fgetc
  | fread (sz n : ℕ)
  | fgets (n : ℤ)

inductive Answer
  | char (c : Option UInt8)
  | items (bytes : List UInt8) (count : ℕ)
  | line (dst : Option (List UInt8))
deriving DecidableEq

/-- The bytes that an operation has consumed. -/
def Answer.bytes : Answer → List UInt8
  | .char c => c.toList
  | .items bytes _ => bytes
  | .line dst => (dst.getD []).dropLast

namespace File

def step (f : File) : ReadOp → File × Answer
  | .fgetc => (f.fgetc.1, .char f.fgetc.2)
  | .fread sz n => ((f.fread sz n).1, .items (f.fread sz n).2.1 (f.fread sz n).2.2)
  | .fgets n => ((f.fgets n).1, .line (f.fgets n).2)

def run (f : File) : List ReadOp → File × List Answer
  | [] => (f, [])
  | op :: ops => (((f.step op).1.run ops).1, (f.step op).2 :: ((f.step op).1.run ops).2)

end File

/-! ## The abstract stream -/

/-- The bytes up to a newline, at most `k` of them. -/
def lineOf : ℕ → List UInt8 → List UInt8
  | 0, _ => []
  | _, [] => []
  | k + 1, c :: l => if c = 10 then [c] else c :: lineOf k l

/-- What C says of an operation on a stream of bytes. -/
def answerOn (l : List UInt8) : ReadOp → Answer
  | .fgetc => .char l.head?
  | .fread sz n => .items (l.take (sz * n)) ((l.take (sz * n)).length / sz)
  | .fgets n =>
    .line (if n ≤ 0 ∨ n ≠ 1 ∧ l = [] then none else some (lineOf (n - 1).toNat l ++ [0]))

def answersOn (l : List UInt8) : List ReadOp → List Answer
  | [] => []
  | op :: ops => answerOn l op :: answersOn (l.drop (answerOn l op).bytes.length) ops

namespace File
variable {f : File}

def pending (f : File) : List UInt8 := f.buf.drop f.pos ++ f.rest

theorem read_some {f' : File} {n : ℕ} {got : List UInt8} (hn : 0 < n)
    (h : f.read n = (f', some got)) : f'.err = f.err ∧ f'.buf = f.buf ∧ f'.pos = f.pos ∧
      got ++ f'.rest = f.rest ∧ (got = [] → f.rest = []) := by
  unfold read at h
  split at h
  · cases h
    refine ⟨rfl, rfl, rfl, take_append_drop _ _, fun hnil => ?_⟩
    exact (take_eq_nil_iff.mp hnil).resolve_left (by omega)
  · cases h
  · cases h
    refine ⟨rfl, rfl, rfl, take_append_drop _ _, fun hnil => ?_⟩
    exact (take_eq_nil_iff.mp hnil).resolve_left (by omega)

/-- A refill that reads no error keeps what is pending, and finds nothing only at its end. -/
theorem fileFill_spec (h : f.fileFill.1.err = false) :
    f.err = false ∧ f.fileFill.1.pending = f.pending ∧
      f.fileFill.2 = (f.fileFill.1.buf.drop f.fileFill.1.pos).length ∧
      (f.fileFill.2 = 0 → f.pending = []) := by
  unfold fileFill at h ⊢
  split_ifs at h ⊢ with hpos
  · exact ⟨h, rfl, length_drop.symm, fun hzero => by dsimp only at hzero; omega⟩
  · have hdrop : f.buf.drop f.pos = [] := drop_eq_nil_of_le (not_lt.mp hpos)
    split at h
    · cases h
    · rename_i f' hread
      obtain ⟨herr, hbuf, hpos', hrest, hend⟩ := read_some (by decide) hread
      simp only [pending, hdrop, hbuf, hpos'] at h ⊢
      exact ⟨herr ▸ h, hrest, rfl, fun _ => hend rfl⟩
    · rename_i f' got hnil hread
      obtain ⟨herr, -, hpos', hrest, -⟩ := read_some (by decide) hread
      simp only [pending, hdrop, hpos', drop_zero] at h ⊢
      exact ⟨herr ▸ h, hrest, trivial, fun hzero => absurd (length_eq_zero_iff.mp hzero) hnil⟩

theorem fgetc_spec (h : f.fgetc.1.err = false) : f.err = false ∧ f.fgetc.2 = f.pending.head? ∧
    f.fgetc.2.toList ++ f.fgetc.1.pending = f.pending := by
  have hfill := @fileFill_spec f
  unfold fgetc at h ⊢
  generalize f.fileFill = r at h hfill
  obtain ⟨g, avail⟩ := r
  dsimp only at h hfill ⊢
  split_ifs at h ⊢ with hzero
  · obtain ⟨herr, hpend, -, hend⟩ := hfill h
    simp [herr, hpend, hend hzero]
  · obtain ⟨herr, hpend, havail, -⟩ := hfill h
    have hlt : g.pos < g.buf.length := by
      rw [length_drop] at havail
      omega
    rw [← hpend, pending, drop_eq_getElem_cons hlt, getElem?_eq_getElem hlt]
    exact ⟨herr, rfl, rfl⟩

theorem freadLoop_spec {left : ℕ} (h : (f.freadLoop left).1.err = false) : f.err = false ∧
    (f.freadLoop left).2 = f.pending.take left ∧
    (f.freadLoop left).2 ++ (f.freadLoop left).1.pending = f.pending := by
  fun_induction freadLoop f left with
  | case1 f => exact ⟨h, rfl, rfl⟩
  | case2 f left hleft hzero =>
    obtain ⟨herr, hpend, -, hend⟩ := fileFill_spec h
    simp [herr, hpend, hend hzero]
  | case3 f left hleft hzero take g r more hmore ih =>
    obtain ⟨hg, htake, happ⟩ := ih (by rwa [hmore])
    obtain ⟨herr, hpend, havail, -⟩ := fileFill_spec hg
    rw [hmore] at htake happ
    have hwhole : f.pending =
        (g.buf.drop g.pos).take take ++ { g with pos := g.pos + take }.pending := by
      rw [← hpend, pending, pending, ← append_assoc, ← drop_drop, take_append_drop]
    have hlen : ((g.buf.drop g.pos).take take).length = take := by
      rw [length_take]
      exact min_eq_left (havail ▸ min_le_right _ _)
    refine ⟨herr, ?_, ?_⟩
    · rw [hwhole, take_append, hlen, take_of_length_le (hlen.trans_le (min_le_left _ _)), ← htake]
    · rw [hwhole, ← happ, append_assoc]

theorem fgetsLoop_spec {k : ℕ} (h : (f.fgetsLoop k).1.err = false) : f.err = false ∧
    (f.fgetsLoop k).2 = lineOf k f.pending ∧
    (f.fgetsLoop k).2 ++ (f.fgetsLoop k).1.pending = f.pending := by
  induction k generalizing f with
  | zero => exact ⟨h, rfl, rfl⟩
  | succ k ih =>
    have hgetc := @fgetc_spec f
    unfold fgetsLoop at h ⊢
    split at h
    · rename_i g hg
      rw [hg] at hgetc
      obtain ⟨herr, hhead, happ⟩ := hgetc h
      have hnil : f.pending = [] := head?_eq_none_iff.mp hhead.symm
      rw [hnil] at happ ⊢
      exact ⟨herr, rfl, happ⟩
    · rename_i g c hg
      rw [hg] at hgetc
      have hg' : g.err = false := by
        split_ifs at h
        · exact h
        · exact (ih h).1
      obtain ⟨herr, -, happ⟩ := hgetc hg'
      change c :: g.pending = f.pending at happ
      rw [← happ]
      split_ifs at h ⊢ with hnl
      · simp [herr, lineOf, hnl]
      · obtain ⟨-, hline, hrest⟩ := ih h
        refine ⟨herr, ?_, congrArg (c :: ·) hrest⟩
        rw [lineOf, if_neg hnl, hline]

theorem lineOf_ne_nil {k : ℕ} {l : List UInt8} (hk : k ≠ 0) (hl : l ≠ []) : lineOf k l ≠ [] := by
  cases k with
  | zero => exact absurd rfl hk
  | succ k =>
    cases l with
    | nil => exact absurd rfl hl
    | cons c l =>
      rw [lineOf]
      split_ifs <;> exact cons_ne_nil _ _

theorem step_spec {op : ReadOp} (h : (f.step op).1.err = false) (hop : op ≠ .fgets 1) :
    f.err = false ∧ (f.step op).2 = answerOn f.pending op ∧
      (f.step op).2.bytes ++ (f.step op).1.pending = f.pending := by
  cases op with
  | fgetc =>
    obtain ⟨herr, hhead, happ⟩ := fgetc_spec h
    exact ⟨herr, congrArg Answer.char hhead, happ⟩
  | fread sz n =>
    simp only [step, fread] at h ⊢
    split_ifs at h ⊢ with hzero hover
    · have hnone : sz * n = 0 := Nat.mul_eq_zero.mpr hzero
      exact ⟨h, by simp [answerOn, hnone], rfl⟩
    · obtain ⟨herr, hbytes, happ⟩ := freadLoop_spec h
      exact ⟨herr, by rw [answerOn, hbytes], happ⟩
  | fgets n =>
    have hone : n ≠ 1 := fun he => hop (he ▸ rfl)
    simp only [step, fgets] at h ⊢
    split_ifs at h ⊢ with hneg hnil
    · exact ⟨h, by simp [answerOn, hneg], rfl⟩
    · obtain ⟨herr, hline, happ⟩ := fgetsLoop_spec h
      have hend : f.pending = [] := by
        by_contra hne
        exact lineOf_ne_nil (by omega) hne (hline.symm.trans hnil)
      rw [hnil] at happ
      exact ⟨herr, by simp [answerOn, hone, hend], happ⟩
    · obtain ⟨herr, hline, happ⟩ := fgetsLoop_spec h
      have hmore : f.pending ≠ [] := by
        intro hend
        rw [hend] at hline
        exact hnil (hline.trans (by cases (n - 1).toNat <;> rfl))
      refine ⟨herr, by rw [answerOn, if_neg (by simp [hneg, hmore]), hline], ?_⟩
      simpa [Answer.bytes] using happ

theorem run_spec {ops : List ReadOp} (h : (f.run ops).1.err = false) (hops : .fgets 1 ∉ ops) :
    f.err = false ∧ (f.run ops).2 = answersOn f.pending ops ∧
      (f.run ops).2.flatMap Answer.bytes ++ (f.run ops).1.pending = f.pending := by
  induction ops generalizing f with
  | nil => exact ⟨h, rfl, rfl⟩
  | cons op ops ih =>
    obtain ⟨hne, hops⟩ := not_or.mp (mem_cons.not.mp hops)
    obtain ⟨herr, hall, hkeep⟩ := ih h hops
    obtain ⟨herr, hone, happ⟩ := step_spec herr (Ne.symm hne)
    refine ⟨herr, ?_, ?_⟩
    · rw [answersOn, ← hone, ← happ, drop_left, run, hall]
    · rw [run, flatMap_cons, append_assoc, hkeep, happ]

/-- In every run without an error in which `fgets` is not asked for one byte, the answers are those
of the stream itself, and what is consumed is a part of it from its start, with nothing lost. -/
theorem run_reads_the_stream (l : List UInt8) (reads : List (Option ℕ)) (ops : List ReadOp)
    (h : (run { rest := l, reads } ops).1.err = false) (hops : ReadOp.fgets 1 ∉ ops) :
    (run { rest := l, reads } ops).2 = answersOn l ops ∧
      (run { rest := l, reads } ops).2.flatMap Answer.bytes ++
        (run { rest := l, reads } ops).1.pending = l :=
  (run_spec h hops).2

theorem run_reads_the_stream_twice :
    (run { rest := [104, 105, 10, 33], reads := [some 0] } [.fgets 9, .fread 2 3]).2 =
      answersOn [104, 105, 10, 33] [.fgets 9, .fread 2 3] :=
  (run_reads_the_stream _ _ _ (by decide +kernel) (by simp)).1

/-- Asked for one byte, `fgets` returns a null pointer where C has an empty string. -/
theorem fgets_one_is_null :
    (run { rest := [104] } [.fgets 1]).2 = [.line none] ∧
      (run { rest := [104] } [.fgets 1]).1.err = false ∧
      answersOn [104] [.fgets 1] = [.line (some [0])] := by
  decide +kernel

end File
end IrisOS.Libc
