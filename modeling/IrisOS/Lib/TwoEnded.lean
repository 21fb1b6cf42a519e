import Mathlib.Order.Basic
import Mathlib.Data.List.Basic

/-! Regions handed out from both ends: what has been handed out lies below the low cursor or above
the high one. -/
namespace IrisOS.Lib

/-- A range of offsets, `stop` excluded. -/
structure Span where
  start : ℕ
  stop : ℕ
  deriving DecidableEq

namespace Span

def Disjoint (s t : Span) : Prop := s.stop ≤ t.start ∨ t.stop ≤ s.start

instance (s t : Span) : Decidable (s.Disjoint t) := inferInstanceAs (Decidable (_ ∨ _))

theorem Disjoint.symm {s t : Span} (h : s.Disjoint t) : t.Disjoint s := Or.symm h

end Span

/-- The spans handed out of a region of size `n` whose cursors have moved by `lo` and `hi`. -/
structure TwoEnded (n lo hi : ℕ) (spans : List Span) : Prop where
  fits : lo + hi ≤ n
  pos : ∀ s ∈ spans, s.start < s.stop
  placed : ∀ s ∈ spans, s.stop ≤ lo ∨ n - hi ≤ s.start ∧ s.stop ≤ n
  disjoint : spans.Pairwise Span.Disjoint

namespace TwoEnded
variable {n lo hi : ℕ} {spans : List Span}

theorem nil (h : lo + hi ≤ n) : TwoEnded n lo hi [] :=
  ⟨h, by simp, by simp, .nil⟩

section

variable (h : TwoEnded n lo hi spans)
include h

theorem inside {s : Span} (hs : s ∈ spans) : s.stop ≤ n := by
  have hfits := h.fits
  rcases h.placed s hs with hlow | hhigh
  · omega
  · exact hhigh.2

theorem sublist {spans' : List Span} (hs : spans'.Sublist spans) : TwoEnded n lo hi spans' where
  fits := h.fits
  pos s m := h.pos s (hs.subset m)
  placed s m := h.placed s (hs.subset m)
  disjoint := h.disjoint.sublist hs

theorem disjoint_free {s t : Span} (hs : s ∈ spans)
    (hlo : lo ≤ t.start) (hhi : t.stop ≤ n - hi) : t.Disjoint s := by
  rcases h.placed s hs with hlow | hhigh
  · exact .inr (Nat.le_trans hlow hlo)
  · exact .inl (Nat.le_trans hhi hhigh.1)

theorem widen {lo' hi' : ℕ} (hlo : lo ≤ lo') (hhi : hi ≤ hi')
    (hfits : lo' + hi' ≤ n) : TwoEnded n lo' hi' spans where
  fits := hfits
  pos := h.pos
  placed s hs := by
    have := h.placed s hs
    omega
  disjoint := h.disjoint

theorem carve {lo' hi' : ℕ} {new : List Span}
    (hnew : ∀ s ∈ new, lo ≤ s.start ∧ s.start < s.stop ∧ s.stop ≤ n - hi ∧
      (s.stop ≤ lo' ∨ n - hi' ≤ s.start))
    (hd : new.Pairwise Span.Disjoint) (hlo : lo ≤ lo') (hhi : hi ≤ hi') (hfits : lo' + hi' ≤ n) :
    TwoEnded n lo' hi' (new ++ spans) where
  fits := hfits
  pos s hs := by
    rcases List.mem_append.mp hs with hs | hs
    · exact (hnew s hs).2.1
    · exact h.pos s hs
  placed s hs := by
    rcases List.mem_append.mp hs with hs | hs
    · have := hnew s hs
      omega
    · exact (h.widen hlo hhi hfits).placed s hs
  disjoint := List.pairwise_append.mpr
    ⟨hd, h.disjoint, fun s hs t ht => h.disjoint_free ht (hnew s hs).1 (hnew s hs).2.2.1⟩

theorem rewind {w : Span} (hw : w.start < w.stop) (hend : w.stop = lo)
    (hd : ∀ s ∈ spans, s.Disjoint w) : TwoEnded n w.start hi spans where
  fits := by
    have := h.fits
    omega
  pos := h.pos
  placed s hs := by
    have hpos := h.pos s hs
    have hplaced := h.placed s hs
    have hdisj := hd s hs
    unfold Span.Disjoint at hdisj
    omega
  disjoint := h.disjoint

end

end TwoEnded
end IrisOS.Lib
