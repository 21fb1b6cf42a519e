import Mathlib.Data.List.Basic

/-! Authorities with a lineage: an administrator opens them in a session, the session hands them on
with no more rights, a reset drops them. A history has the latest step first. -/
namespace IrisOS.Lib

/-- Which steps open an authority, derive one, and reset a session, and how rights compare. -/
structure GrantSystem (A S I X R : Type*) where
  opens : A → S → I → X → R → Prop
  derives : A → S → I → I → R → Prop
  resets : A → S → Prop
  le : R → R → Prop
  le_refl : ∀ r, le r r
  le_trans : ∀ {r r' r''}, le r r' → le r' r'' → le r r''

namespace GrantSystem
variable {A S I X R : Type*} (G : GrantSystem A S I X R)

/-- The authority goes back, through derivations that add no right, to an opening since the last
reset of the session. -/
inductive Traced (s : S) (x : X) : List A → I → R → Prop
  | opened {a h i r} (ha : G.opens a s i x r) : Traced s x (a :: h) i r
  | derived {a h i j r r'} (source : Traced s x h i r) (ha : G.derives a s i j r')
      (less : G.le r' r) (still : ¬ G.resets a s) : Traced s x (a :: h) j r'
  | later {a h i r} (before : Traced s x h i r) (still : ¬ G.resets a s) :
      Traced s x (a :: h) i r

/-- The resource was opened in the session with those rights, and no reset came since. -/
def OpenedSince (s : S) (x : X) (h : List A) (r : R) : Prop :=
  ∃ after a before, h = after ++ a :: before ∧ (∃ i, G.opens a s i x r) ∧
    ∀ b ∈ after, ¬ G.resets b s

variable {G} {s : S} {x : X} {h : List A} {a : A} {i : I} {r : R}

theorem OpenedSince.cons (ho : G.OpenedSince s x h r) (still : ¬ G.resets a s) :
    G.OpenedSince s x (a :: h) r := by
  obtain ⟨after, b, before, rfl, hb, hafter⟩ := ho
  refine ⟨a :: after, b, before, rfl, hb, fun c hc => ?_⟩
  rcases List.mem_cons.mp hc with rfl | hc
  · exact still
  · exact hafter c hc

theorem Traced.origin (ht : G.Traced s x h i r) : ∃ r0, G.OpenedSince s x h r0 ∧ G.le r r0 := by
  induction ht with
  | @opened a h i r ha => exact ⟨r, ⟨[], a, h, rfl, ⟨i, ha⟩, nofun⟩, G.le_refl r⟩
  | derived _ _ less still ih =>
    obtain ⟨r0, ho, hle⟩ := ih
    exact ⟨r0, ho.cons still, G.le_trans less hle⟩
  | later _ still ih =>
    obtain ⟨r0, ho, hle⟩ := ih
    exact ⟨r0, ho.cons still, hle⟩

/-- Every authority of a table has a lineage. -/
def AllTraced (G : GrantSystem A S I X R) (row : S → I → Option (X × R)) (h : List A) : Prop :=
  ∀ s i x r, row s i = some (x, r) → G.Traced s x h i r

/-- Where the authorities of a table come from when a step has changed it. -/
def Explains (G : GrantSystem A S I X R) (a : A) (row row' : S → I → Option (X × R)) : Prop :=
  ∀ s i x r, row' s i = some (x, r) →
    (row s i = some (x, r) ∧ ¬ G.resets a s) ∨ G.opens a s i x r ∨
      ∃ j r', row s j = some (x, r') ∧ G.derives a s j i r ∧ G.le r r' ∧ ¬ G.resets a s

theorem AllTraced.step {row row' : S → I → Option (X × R)} (ht : G.AllTraced row h)
    (ha : G.Explains a row row') : G.AllTraced row' (a :: h) := by
  intro s i x r hrow
  rcases ha s i x r hrow with ⟨hold, still⟩ | hopen | ⟨j, r', hold, hder, hle, still⟩
  · exact .later (ht s i x r hold) still
  · exact .opened hopen
  · exact .derived (ht s j x r' hold) hder hle still

end GrantSystem
end IrisOS.Lib
