import IrisOS.Lib.Layout
import Mathlib.Data.List.Induction

/-! Bounded walks along the links of a heap, and what they visit when the heap lays out a
forest: the rest of a sibling list, the ancestors of a node, a leaf below a node. -/
namespace IrisOS.Lib

open List
variable {S : Type*}

/-- The nodes met from `o` along `next`, at most as many as the fuel allows. -/
def chain (next : S → Option S) : ℕ → Option S → List S
  | 0, _ => []
  | _ + 1, none => []
  | n + 1, some a => a :: chain next n (next a)

/-- The nodes met on the way up from `s`. -/
def ancestors (h : LinkHeap S) (n : ℕ) (s : S) : List S :=
  chain (fun x => (h x).parent) n (h s).parent

/-- Descend along the first-child links until a childless node is met. -/
def leftmost (h : LinkHeap S) : ℕ → S → S
  | 0, v => v
  | n + 1, v => (h v).firstChild.elim v (leftmost h n)

/-- Give every node of a list the same parent. -/
def setParents [DecidableEq S] (h : LinkHeap S) (v : Option S) (l : List S) : LinkHeap S :=
  l.foldl (fun h c => h.setParent c v) h

@[simp] theorem setParents_apply [DecidableEq S] (h : LinkHeap S) (v : Option S) (l : List S)
    (x : S) : setParents h v l x = if x ∈ l then { h x with parent := v } else h x := by
  induction l generalizing h with
  | nil => simp [setParents]
  | cons a l ih =>
    change setParents (h.setParent a v) v l x = _
    rw [ih]
    by_cases hx : x ∈ l <;> by_cases hxa : x = a <;> simp [hx, hxa]

section
variable {next : S → Option S} {o : Option S} {a b x : S} {n : ℕ}

@[simp] theorem chain_none : chain next n none = [] := by cases n <;> rfl

theorem chain_some : chain next (n + 1) (some a) = a :: chain next n (next a) := rfl

theorem length_chain_eq_min {N : ℕ} (h : (chain next N o).length < N) :
    (chain next n o).length = min n (chain next N o).length := by
  induction n generalizing N o with
  | zero => simp [chain]
  | succ n ih =>
    cases o with
    | none => simp
    | some a =>
      cases N with
      | zero => simp [chain] at h
      | succ N =>
        simp only [chain_some, length_cons] at h ⊢
        rw [ih (Nat.lt_of_succ_lt_succ h), Nat.succ_min_succ]

variable {r : S → S → Prop} {h : LinkHeap S} {l : List S}

theorem chain_reaches (hr : ∀ x y, next x = some y → r x y)
    (ho : ∀ y, o = some y → r a y) : ∀ x ∈ chain next n o, Relation.TransGen r a x := by
  induction n generalizing o a with
  | zero => simp [chain]
  | succ n ih =>
    cases o with
    | none => simp
    | some b =>
      intro x hx
      rcases mem_cons.mp hx with rfl | hx
      · exact .single (ho _ rfl)
      · exact .head (ho b rfl) (ih (hr b) x hx)

theorem chain_pairwise (hr : ∀ x y, next x = some y → r x y) :
    (chain next n o).Pairwise (Relation.TransGen r) := by
  induction n generalizing o with
  | zero => simp [chain]
  | succ n ih =>
    cases o with
    | none => simp
    | some a => exact pairwise_cons.mpr ⟨chain_reaches hr (hr a), ih⟩

theorem chain_nextSib {p : Option S} (hs : Seg h p l none)
    (hn : l.length ≤ n) : chain (fun x => (h x).nextSib) n l.head? = l := by
  induction l generalizing n p with
  | nil => simp
  | cons a l ih =>
    cases n with
    | zero => simp at hn
    | succ n =>
      rw [head?_cons, chain_some, hs.2.1, Option.or_none,
        ih hs.2.2 (by simpa using hn)]

theorem chain_prevSib {q : Option S} (hs : Seg h none l q)
    (hn : l.length ≤ n) : chain (fun x => (h x).prevSib) n l.getLast? = l.reverse := by
  induction l using reverseRecOn generalizing n q with
  | nil => simp
  | append_singleton l a ih =>
    cases n with
    | zero => simp at hn
    | succ n =>
      obtain ⟨h1, h2, -⟩ := Seg.append_iff.mp hs
      rw [getLast?_concat, chain_some, h2, Option.or_none,
        ih h1 (by simpa using hn), reverse_concat]

end

/-! ## Walks in a heap that lays out a forest -/

/-- No list of distinct nodes of the forest is longer than `N`. -/
def Forest.BoundedBy (F : Forest S) (N : ℕ) : Prop :=
  ∀ l : List S, l.Nodup → (∀ x ∈ l, F.Mem x) → l.length ≤ N

namespace Represents
variable {h : LinkHeap S} {F : Forest S} {N : ℕ} {n : Owner S} {s v x : S} {l1 l2 : List S}

section

variable (hR : Represents h F.kids)
include hR

theorem chain_next (hN : F.BoundedBy N)
    (hn : F.kids n = l1 ++ l2) : chain (fun x => (h x).nextSib) N l2.head? = l2 := by
  have hs := hR.seg n
  have hlen := hN _ (F.nodup n) fun x hx => ⟨n, hx⟩
  rw [hn] at hs hlen
  rw [length_append] at hlen
  exact chain_nextSib (Seg.append_iff.mp hs).2 (by omega)

theorem chain_prev (hN : F.BoundedBy N)
    (hn : F.kids n = l1 ++ l2) : chain (fun x => (h x).prevSib) N l1.getLast? = l1.reverse := by
  have hs := hR.seg n
  have hlen := hN _ (F.nodup n) fun x hx => ⟨n, hx⟩
  rw [hn] at hs hlen
  rw [length_append] at hlen
  exact chain_prevSib (Seg.append_iff.mp hs).1 (by omega)

theorem chain_children (hN : F.BoundedBy N) :
    chain (fun x => (h x).nextSib) N (h s).firstChild = F.kids (.node s) := by
  rw [hR.first]
  exact hR.chain_next hN (nil_append _).symm

theorem parent_anc : ∀ x y, (h x).parent = some y → F.Child y x := fun _ _ => hR.parent_eq_some.mp

theorem anc_of_mem_ancestors (hx : x ∈ ancestors h N s) : F.Anc x s := by
  have := chain_reaches (r := fun a b => F.Child b a) hR.parent_anc (hR.parent_anc s) x hx
  exact Relation.transGen_swap.mp this

theorem ancestors_nodup : (s :: ancestors h N s).Nodup := by
  refine nodup_cons.mpr ⟨fun hs => Forest.Anc.irrefl s (hR.anc_of_mem_ancestors hs), ?_⟩
  have hpw := chain_pairwise (n := N) (o := (h s).parent) (r := fun a b => F.Child b a) hR.parent_anc
  refine hpw.imp fun {a b} hab => ?_
  rintro rfl
  exact Forest.Anc.irrefl a (Relation.transGen_swap.mp hab)

theorem leftmost_spec (hN : F.BoundedBy N) (hv : F.Mem v) :
    F.kids (.node (leftmost h N v)) = [] ∧ (leftmost h N v = v ∨ F.Anc v (leftmost h N v)) := by
  have key : ∀ n v (l : List S), F.Mem v → l.Nodup → (∀ x ∈ l, F.Anc x v) → N ≤ l.length + n →
      F.kids (.node (leftmost h n v)) = [] ∧ (leftmost h n v = v ∨ F.Anc v (leftmost h n v)) := by
    intro n
    induction n with
    | zero =>
      intro v l hv hl hanc hlen
      have hv' : v ∉ l := fun hv => Forest.Anc.irrefl v (hanc v hv)
      have := hN (v :: l) (nodup_cons.mpr ⟨hv', hl⟩) fun x hx => by
        rcases mem_cons.mp hx with rfl | hx
        · exact hv
        · exact (hanc x hx).owner
      rw [length_cons] at this
      omega
    | succ n ih =>
      intro v l hv hl hanc hlen
      cases hc : (h v).firstChild with
      | none =>
        have hl : leftmost h (n + 1) v = v := by simp [leftmost, hc]
        rw [hl]
        exact ⟨hR.first_eq_none.mp hc, .inl rfl⟩
      | some c =>
        have hvc : F.Child v c := by
          obtain ⟨t, ht⟩ := hR.first_eq_some.mp hc
          simp [Forest.Child, ht]
        have hv' : v ∉ l := fun hv => Forest.Anc.irrefl v (hanc v hv)
        have := ih c (v :: l) hvc.mem (nodup_cons.mpr ⟨hv', hl⟩) (fun x hx => by
          rcases mem_cons.mp hx with rfl | hx
          · exact .single hvc
          · exact (hanc x hx).tail hvc) (by rw [length_cons]; omega)
        have hl : leftmost h (n + 1) v = leftmost h n c := by simp [leftmost, hc]
        rw [hl]
        refine ⟨this.1, .inr ?_⟩
        rcases this.2 with h | h
        · rw [h]
          exact .single hvc
        · exact h.head hvc
  exact key N v [] hv nodup_nil (by simp) (by simp)

end

end Represents
end IrisOS.Lib
