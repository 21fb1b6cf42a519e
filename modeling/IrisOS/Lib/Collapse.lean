import Mathlib.Logic.Basic

/-! What falls when references are cut: a node that nothing else holds falls with the last edge that
refers to it, and takes the edges it owns with it. -/
namespace IrisOS.Lib
variable {ν ε : Type*}

/-- Who refers to a node, what it owns, and whether something outside the graph holds it. -/
structure RefGraph (ν ε : Type*) where
  held : ν → Prop
  refs : ν → ε → Prop
  owns : ν → ε → Prop

namespace RefGraph

/-- The edges that are gone once the edges in `R` are cut. -/
inductive Falls (G : RefGraph ν ε) (R : ε → Prop) : ε → Prop
  | cut {e} (h : R e) : Falls G R e
  | owned {n e} (hn : ¬ G.held n) (hrefs : ∀ e', G.refs n e' → Falls G R e') (he : G.owns n e) :
      Falls G R e

/-- The node goes: nothing outside holds it, and every edge that refers to it falls. -/
def Loses (G : RefGraph ν ε) (R : ε → Prop) (n : ν) : Prop :=
  ¬ G.held n ∧ ∀ e, G.refs n e → G.Falls R e

variable {G : RefGraph ν ε} {R S : ε → Prop} {e : ε}

theorem Loses.falls {n : ν} (h : G.Loses R n) (he : G.owns n e) : G.Falls R e :=
  .owned h.1 h.2 he

/-- What falls is the least set with the cut edges that is closed under nodes that nothing holds. -/
theorem Falls.least (hcut : ∀ e, R e → S e)
    (hclosed : ∀ n, ¬ G.held n → (∀ e, G.refs n e → S e) → ∀ e, G.owns n e → S e)
    (h : G.Falls R e) : S e := by
  induction h with
  | cut h => exact hcut _ h
  | owned hn _ he ih => exact hclosed _ hn ih _ he

end RefGraph
end IrisOS.Lib
