import IrisOS.Lib.Forest

/-! Neighbours in a forest: parent and child, and the members of one sibling list. A connected set
of nodes stays connected when a node is removed. -/
namespace IrisOS.Lib.Forest
open Relation

variable {S : Type*} {F F' : Forest S} {a b p s x y z : S} {n : Owner S}

/-- Two nodes are neighbours. -/
def Adj (F : Forest S) (x y : S) : Prop :=
  F.Child x y ∨ F.Child y x ∨ ∃ n, x ∈ F.kids n ∧ y ∈ F.kids n

theorem Adj.symm (h : F.Adj x y) : F.Adj y x := by
  rcases h with h | h | ⟨n, hx, hy⟩
  · exact .inr (.inl h)
  · exact .inl h
  · exact .inr (.inr ⟨n, hy, hx⟩)

theorem Adj.of_kids (hx : x ∈ F.kids n) (hy : y ∈ F.kids n) : F.Adj x y := .inr (.inr ⟨n, hx, hy⟩)

theorem adj_rename (e : Equiv.Perm S) (h : F.Adj x y) : (F.rename e).Adj (e x) (e y) := by
  rcases h with h | h | ⟨n, hx, hy⟩
  · exact .inl ((child_rename e).mpr (by simpa using h))
  · exact .inr (.inl ((child_rename e).mpr (by simpa using h)))
  refine .of_kids (n := n.map e) ?_ ?_
  · rw [mem_rename_kids]
    cases n <;> simpa using hx
  · rw [mem_rename_kids]
    cases n <;> simpa using hy

section
variable [DecidableEq S] {hs : ¬ F.Mem s} {hn : ∀ p, n = .node p → F.Mem p}

theorem mem_insert_kids {m : Owner S} (hx : x ∈ F.kids m) : x ∈ (F.insert n s hs hn).kids m := by
  refine F.mem_update_cons.mpr ?_
  by_cases hm : m = n
  · exact .inl ⟨hm, .inr (hm ▸ hx)⟩
  · exact .inr ⟨hm, hx⟩

theorem mem_insert_self : s ∈ (F.insert n s hs hn).kids n :=
  F.mem_update_cons.mpr (.inl ⟨rfl, .inl rfl⟩)

theorem Adj.insert (h : F.Adj x y) : (F.insert n s hs hn).Adj x y := by
  rcases h with h | h | ⟨m, hx, hy⟩
  · exact .inl (mem_insert_kids h)
  · exact .inr (.inl (mem_insert_kids h))
  · exact .of_kids (mem_insert_kids hx) (mem_insert_kids hy)

end

namespace Detaches

theorem mem_kids_of_adj (h : F.Detaches s F') (hs : s ∈ F.kids n) (hx : x ≠ s) (hadj : F.Adj x s) :
    x ∈ F'.kids n ∨ n = .node x := by
  have hns : n ≠ .node s := fun e => Child.ne (F := F) (e ▸ hs) rfl
  rcases hadj with hadj | hadj | ⟨m, hxm, hsm⟩
  · exact .inr (F.unique hs hadj)
  · exact .inl ((h.spec _ _).mpr ⟨hx, hns, .inr ⟨hadj, hs⟩⟩)
  · obtain rfl := F.unique hsm hs
    exact .inl ((h.spec _ _).mpr ⟨hx, hns, .inl hxm⟩)

theorem adj_through (h : F.Detaches s F') (hs : F.Mem s) (hx : x ≠ s) (hy : y ≠ s) (hxy : x ≠ y)
    (hxs : F.Adj x s) (hys : F.Adj y s) : F'.Adj x y := by
  obtain ⟨n, hn⟩ := hs
  rcases h.mem_kids_of_adj hn hx hxs with hx' | hx'
  · rcases h.mem_kids_of_adj hn hy hys with hy' | hy'
    · exact .of_kids hx' hy'
    · subst hy'
      exact .inr (.inl hx')
  · rcases h.mem_kids_of_adj hn hy hys with hy' | hy'
    · subst hx'
      exact .inl hy'
    · exact (hxy (Owner.node.inj (hx'.symm.trans hy'))).elim

theorem adj (h : F.Detaches s F') (hs : F.Mem s) (hx : x ≠ s) (hy : y ≠ s) (hxy : F.Adj x y) :
    F'.Adj x y := by
  rcases hxy with hxy | hxy | ⟨m, hxm, hym⟩
  · exact .inl (h.child_iff.mpr ⟨hx, hy, .inl hxy⟩)
  · exact .inr (.inl (h.child_iff.mpr ⟨hy, hx, .inl hxy⟩))
  by_cases hm : m = .node s
  · obtain ⟨n, hn⟩ := hs
    subst hm
    have hns : n ≠ .node s := fun e => Child.ne (F := F) (e ▸ hn) rfl
    exact .of_kids ((h.spec _ _).mpr ⟨hx, hns, .inr ⟨hxm, hn⟩⟩)
      ((h.spec _ _).mpr ⟨hy, hns, .inr ⟨hym, hn⟩⟩)
  · exact .of_kids ((h.spec _ _).mpr ⟨hx, hm, .inl hxm⟩) ((h.spec _ _).mpr ⟨hy, hm, .inl hym⟩)

end Detaches

/-! ## Connected sets of nodes -/

/-- A step from one node of `P` to a neighbour in `P`. -/
def AdjIn (F : Forest S) (P : S → Prop) (x y : S) : Prop := F.Adj x y ∧ P x ∧ P y

/-- Any two nodes of `P` are joined by neighbours in `P`. -/
def Connected (F : Forest S) (P : S → Prop) : Prop :=
  ∀ x y, P x → P y → ReflTransGen (F.AdjIn P) x y

variable {P P' : S → Prop}

theorem adjIn_symm (h : F.AdjIn P x y) : F.AdjIn P y x := ⟨h.1.symm, h.2.2, h.2.1⟩

theorem exists_adj_of_path (h : ReflTransGen (F.AdjIn P) x s) (hx : x ≠ s) :
    ∃ y, y ≠ s ∧ P y ∧ F.Adj y s := by
  induction h using ReflTransGen.head_induction_on with
  | refl => exact (hx rfl).elim
  | @head b c hbc _ ih =>
    by_cases hc : c = s
    · subst hc
      exact ⟨b, hx, hbc.2.1, hbc.1⟩
    · exact ih hc

theorem Detaches.path (h : F.Detaches s F') (hs : F.Mem s) (hP : ∀ x, x ≠ s → P x → P' x)
    (hx : x ≠ s) (hpath : ReflTransGen (F.AdjIn P) x y) :
    (y ≠ s → ReflTransGen (F'.AdjIn P') x y) ∧
      (y = s → ∃ z, z ≠ s ∧ P z ∧ F.Adj z s ∧ ReflTransGen (F'.AdjIn P') x z) := by
  induction hpath with
  | refl => exact ⟨fun _ => .refl, fun e => (hx e).elim⟩
  | @tail b c _ hbc ih =>
    obtain ⟨hadj, hPb, hPc⟩ := hbc
    by_cases hb : b = s
    · obtain ⟨z, hz, hPz, hzs, hxz⟩ := ih.2 hb
      refine ⟨fun hc => ?_, fun _ => ⟨z, hz, hPz, hzs, hxz⟩⟩
      by_cases hzc : z = c
      · exact hzc ▸ hxz
      · exact hxz.tail ⟨h.adj_through hs hz hc hzc hzs (hb ▸ hadj.symm), hP z hz hPz, hP c hc hPc⟩
    · refine ⟨fun hc => ?_, fun hc => ⟨b, hb, hPb, hc ▸ hadj, ih.1 hb⟩⟩
      exact (ih.1 hb).tail ⟨h.adj hs hb hc hadj, hP b hb hPb, hP c hc hPc⟩

theorem Connected.detaches (hc : F.Connected P) (h : F.Detaches s F') (hs : F.Mem s)
    (hP : ∀ x, P' x ↔ x ≠ s ∧ P x) : F'.Connected P' := by
  intro x y hx hy
  obtain ⟨hxs, hx⟩ := (hP x).mp hx
  obtain ⟨hys, hy⟩ := (hP y).mp hy
  exact (h.path hs (fun z hz hPz => (hP z).mpr ⟨hz, hPz⟩) hxs (hc x y hx hy)).1 hys

theorem Connected.rename (hc : F.Connected P) (e : Equiv.Perm S) (hP : ∀ x, P' x ↔ P (e.symm x)) :
    (F.rename e).Connected P' := by
  intro x y hx hy
  have hpath := hc _ _ ((hP x).mp hx) ((hP y).mp hy)
  have := ReflTransGen.lift (r := F.AdjIn P) (p := (F.rename e).AdjIn P') e
    (fun a b hab => ⟨adj_rename e hab.1, (hP _).mpr (by simpa using hab.2.1),
      (hP _).mpr (by simpa using hab.2.2)⟩) _ _ hpath
  simpa [Function.onFun] using this

section
variable [DecidableEq S] (hs : ¬ F.Mem s) (hn : ∀ p, n = .node p → F.Mem p)

theorem Connected.insert (hc : F.Connected P) (hP : ∀ x, P' x ↔ P x) :
    (F.insert n s hs hn).Connected P' := by
  intro x y hx hy
  refine ReflTransGen.mono (fun a b hab => ?_) _ _ (hc x y ((hP x).mp hx) ((hP y).mp hy))
  exact ⟨hab.1.insert, (hP a).mpr hab.2.1, (hP b).mpr hab.2.2⟩

theorem Connected.insert_self (hc : F.Connected P) (hP : ∀ x, P' x ↔ x = s ∨ P x)
    (hjoin : (∀ x, ¬ P x) ∨ ∃ y, P y ∧ (F.insert n s hs hn).Adj y s) :
    (F.insert n s hs hn).Connected P' := by
  have hold : ∀ x y, P x → P y → ReflTransGen ((F.insert n s hs hn).AdjIn P') x y := by
    intro x y hx hy
    refine ReflTransGen.mono (fun a b hab => ?_) _ _ (hc x y hx hy)
    exact ⟨hab.1.insert, (hP a).mpr (.inr hab.2.1), (hP b).mpr (.inr hab.2.2)⟩
  rcases hjoin with hnone | ⟨z, hz, hzs⟩
  · intro x y hx hy
    obtain rfl := ((hP x).mp hx).resolve_right (hnone x)
    obtain rfl := ((hP y).mp hy).resolve_right (hnone y)
    exact .refl
  have hstep : (F.insert n s hs hn).AdjIn P' z s :=
    ⟨hzs, (hP z).mpr (.inr hz), (hP s).mpr (.inl rfl)⟩
  intro x y hx hy
  rcases (hP x).mp hx with rfl | hx
  · rcases (hP y).mp hy with rfl | hy
    · exact .refl
    · exact .head (adjIn_symm hstep) (hold z y hz hy)
  · rcases (hP y).mp hy with rfl | hy
    · exact (hold x z hx hz).tail hstep
    · exact hold x y hx hy

end
end IrisOS.Lib.Forest
