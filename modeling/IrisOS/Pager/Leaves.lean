import IrisOS.Pager.Basic

/-! The reply objects of the pager (`pg_leaf_take` to `pg_fault_answer`). A fault that is refused
takes its leaf's reply object with it, and the leaf goes back to the pool all the same. -/
namespace IrisOS.Pager
open Lib Function List

abbrev Leaf := Fin pgrMaxTargets

/-- The reply object of a leaf. -/
inductive ReplyObj
  | free | bound | gone
  deriving DecidableEq

/-- The leaf of each held fault, the leaves in use and their objects; `refused` counts deletions. -/
structure LeafPool where
  faultLeaf : Target → Option Leaf := fun _ => none
  busy : Leaf → Bool := fun _ => false
  obj : Leaf → ReplyObj := fun _ => .free
  refused : ℕ := 0

namespace LeafPool

def leafTake (p : LeafPool) : Option (Leaf × LeafPool) :=
  ((finRange pgrMaxTargets).find? fun k => !p.busy k).map fun k =>
    (k, { p with busy := update p.busy k true })

def leafGive (p : LeafPool) (leaf : Leaf) : LeafPool :=
  { p with busy := update p.busy leaf false }

/-- A receive with the leaf's reply object, which has to be there and to have no caller. -/
def nbRecv (p : LeafPool) (leaf : Leaf) (arrival : Option UInt64) : Option (UInt64 × LeafPool) :=
  if p.obj leaf = .free then
    arrival.map fun badge => (badge, { p with obj := update p.obj leaf .bound })
  else none

/-- The leaf's reply object is deleted, and its caller destroyed. -/
def delete (p : LeafPool) (leaf : Leaf) : LeafPool :=
  { p with obj := update p.obj leaf .gone, refused := p.refused + 1 }

/-- The caller of the leaf's reply object is resumed, or gone by itself. -/
def unbind (p : LeafPool) (leaf : Leaf) : LeafPool :=
  if p.obj leaf = .bound then { p with obj := update p.obj leaf .free } else p

def hold (p : LeafPool) (who : Target) (leaf : Leaf) : LeafPool :=
  { p with faultLeaf := update p.faultLeaf who (some leaf) }

/-- The retries of `pg_wait_fault`, with the badge of the fault that each of them finds. -/
def waitLoop (t : Target) : List (Option UInt64) → LeafPool → LeafPool × Bool
  | [], p => (p, false)
  | arrival :: rest, p =>
    match p.leafTake with
    | none => (p, false)
    | some (leaf, p) =>
      match p.nbRecv leaf arrival with
      | none => waitLoop t rest (p.leafGive leaf)
      | some (badge, p) =>
        if h : badge ≠ 0 ∧ badge.toNat - 1 < pgrMaxTargets then
          let who : Target := ⟨badge.toNat - 1, h.2⟩
          if (p.faultLeaf who).isSome then waitLoop t rest ((p.delete leaf).leafGive leaf)
          else if who = t then (p.hold who leaf, true)
          else waitLoop t rest (p.hold who leaf)
        else waitLoop t rest ((p.delete leaf).leafGive leaf)

def waitFault (p : LeafPool) (t : Target) (arrivals : List (Option UInt64)) : LeafPool × Bool :=
  if (p.faultLeaf t).isSome then (p, true) else waitLoop t (arrivals.take 4096) p

def faultAnswer (p : LeafPool) (t : Target) (resume : Bool) : LeafPool :=
  match p.faultLeaf t with
  | none => p
  | some leaf =>
    let p := { p with faultLeaf := update p.faultLeaf t none }
    (if resume then p.unbind leaf else p.delete leaf).leafGive leaf

/-- The pager waits for a fault or answers one, or a thread that waits for an answer dies. -/
inductive Event
  | wait (t : Target) (arrivals : List (Option UInt64))
  | answer (t : Target) (resume : Bool)
  | died (leaf : Leaf)

def step (p : LeafPool) : Event → LeafPool
  | .wait t arrivals => (p.waitFault t arrivals).1
  | .answer t resume => p.faultAnswer t resume
  | .died leaf => p.unbind leaf

/-! ## The books -/

/-- The leaves in use are those of held faults, and without a deletion the others are usable. -/
structure Booked (p : LeafPool) : Prop where
  busy : ∀ k, p.busy k = true ↔ ∃ t, p.faultLeaf t = some k
  single : ∀ t u k, p.faultLeaf t = some k → p.faultLeaf u = some k → t = u
  usable : p.refused = 0 → ∀ k, p.obj k = .free ∨ p.obj k = .bound ∧ p.busy k = true

section
variable {p q : LeafPool} {leaf : Leaf} {t : Target}

theorem leafTake_eq (h : p.leafTake = some (leaf, q)) :
    p.busy leaf = false ∧ q = { p with busy := update p.busy leaf true } := by
  obtain ⟨k, hk, heq⟩ := Option.map_eq_some_iff.mp h
  cases heq
  exact ⟨by simpa using find?_some hk, rfl⟩

section

variable (h : Booked p)
include h

theorem Booked.setObj (leaf : Leaf) {o : ReplyObj} {n : ℕ}
    (ho : n = 0 → o = .free ∨ o = .bound ∧ p.busy leaf = true) :
    Booked { p with obj := update p.obj leaf o, refused := p.refused + n } := by
  refine ⟨h.busy, h.single, fun hr k => ?_⟩
  have hold := h.usable (Nat.eq_zero_of_add_eq_zero_right hr) k
  grind [update_apply]

theorem Booked.take (hleaf : p.busy leaf = false) (ht : p.faultLeaf t = none) :
    Booked { p with
      busy := update p.busy leaf true, faultLeaf := update p.faultLeaf t (some leaf) } := by
  have hbusy := h.busy
  refine ⟨fun k => ?_, fun u v k hu hv => ?_, fun hr k => ?_⟩
  · simp only [update_apply]
    grind
  · have hsingle := h.single u v k
    grind [update_apply]
  · have hold := h.usable hr k
    grind [update_apply]

theorem Booked.drop (ht : p.faultLeaf t = some leaf) (hfree : p.refused = 0 → p.obj leaf = .free) :
    Booked { p with
      busy := update p.busy leaf false, faultLeaf := update p.faultLeaf t none } := by
  have hbusy := h.busy
  have hsingle := h.single
  refine ⟨fun k => ?_, fun u v k hu hv => ?_, fun hr k => ?_⟩
  · simp only [update_apply]
    grind
  · grind [update_apply]
  · have hold := h.usable hr k
    grind [update_apply]

end

theorem Booked.unbind (h : Booked p) (leaf : Leaf) : Booked (p.unbind leaf) := by
  unfold LeafPool.unbind
  split
  · exact h.setObj leaf (n := 0) fun _ => .inl rfl
  · exact h

theorem leafGive_taken (hleaf : p.busy leaf = false) (o : Leaf → ReplyObj) (n : ℕ) :
    leafGive ⟨p.faultLeaf, update p.busy leaf true, o, n⟩ leaf =
      { p with obj := o, refused := n } := by
  simp [leafGive, ← hleaf]

theorem Booked.waitLoop (h : Booked p) (t : Target) (arrivals : List (Option UInt64)) :
    Booked (waitLoop t arrivals p).1 := by
  induction arrivals generalizing p with
  | nil => exact h
  | cons arrival rest ih =>
    unfold LeafPool.waitLoop
    split
    · exact h
    rename_i leaf q htake
    obtain ⟨hleaf, rfl⟩ := leafTake_eq htake
    unfold nbRecv
    split
    · rw [leafGive_taken hleaf]
      exact ih h
    rename_i badge q hrecv
    split_ifs at hrecv
    obtain ⟨_, -, heq⟩ := Option.map_eq_some_iff.mp hrecv
    cases heq
    have hdelete := h.setObj leaf (o := .gone) (n := 1) (by simp)
    split
    swap
    · rw [delete, leafGive_taken hleaf, update_idem]
      exact ih hdelete
    dsimp only
    split
    · rw [delete, leafGive_taken hleaf, update_idem]
      exact ih hdelete
    rename_i hnone
    have hhold := (h.take hleaf (by simpa using hnone)).setObj leaf (n := 0) fun _ =>
      .inr ⟨rfl, update_self ..⟩
    split
    · exact hhold
    · exact ih hhold

theorem Booked.step (h : Booked p) (e : Event) : Booked (p.step e) := by
  cases e with
  | wait t arrivals =>
    unfold LeafPool.step waitFault
    dsimp only
    split
    · exact h
    · exact h.waitLoop t _
  | answer t resume =>
    unfold LeafPool.step faultAnswer
    dsimp only
    split
    · exact h
    rename_i leaf ht
    cases resume with
    | true =>
      unfold LeafPool.unbind
      dsimp only
      by_cases hobj : p.obj leaf = .bound
      · rw [if_pos rfl, if_pos hobj]
        exact (h.setObj leaf (n := 0) fun _ => .inl rfl).drop ht fun _ => update_self ..
      · rw [if_pos rfl, if_neg hobj]
        exact h.drop ht fun hr => (h.usable hr leaf).resolve_right fun hb => hobj hb.1
    | false =>
      exact (h.setObj leaf (o := .gone) (n := 1) (by simp)).drop ht (by simp)
  | died leaf => exact h.unbind leaf

end

theorem Booked.exists_free {p : LeafPool} (h : Booked p)
    (hheld : (Finset.univ.filter fun t => (p.faultLeaf t).isSome).card < pgrMaxTargets) :
    ∃ k, p.busy k = false := by
  by_contra! hall
  -- Every leaf would be the leaf of a target of its own.
  choose f hf using fun k => (h.busy k).mp (by simpa using hall k)
  have hcard := Finset.card_le_card_of_injOn f (s := Finset.univ)
    (t := Finset.univ.filter fun t => (p.faultLeaf t).isSome) (fun k _ => by simp [hf])
    fun k _ l _ hkl => Option.some.inj ((hf k).symm.trans (hkl ▸ hf l))
  rw [Finset.card_univ, Fintype.card_fin] at hcard
  exact absurd hheld hcard.not_gt

/-- The leaves in use are those of held faults, each of one. As long as no fault was refused every
other leaf has a free reply object, and there is one unless every target has a held fault. -/
theorem unrefused_leaves_are_usable (es : List Event) :
    let p := runFrom step {} es
    (∀ k, p.busy k = true ↔ ∃ t, p.faultLeaf t = some k) ∧
      (∀ t u k, p.faultLeaf t = some k → p.faultLeaf u = some k → t = u) ∧
      (p.refused = 0 → (∀ k, p.busy k = false → p.obj k = .free) ∧
        ((Finset.univ.filter fun t => (p.faultLeaf t).isSome).card < pgrMaxTargets →
          ∀ badge, ∃ x ∈ p.leafTake, (x.2.nbRecv x.1 (some badge)).isSome)) := by
  intro p
  have h : Booked p := runFrom_keeps (I := Booked) ⟨by simp, by simp, by simp⟩
    (fun _ e h => h.step e) es
  have hfree : p.refused = 0 → ∀ k, p.busy k = false → p.obj k = .free := fun hr k hk =>
    (h.usable hr k).resolve_right fun hb => by simp [hk] at hb
  refine ⟨h.busy, h.single, fun hr => ⟨hfree hr, fun hheld badge => ?_⟩⟩
  obtain ⟨k, hk⟩ := h.exists_free hheld
  cases hfind : (finRange pgrMaxTargets).find? fun k => !p.busy k with
  | none => simpa [hk] using find?_eq_none.mp hfind k (mem_finRange k)
  | some leaf =>
    refine ⟨_, congrArg (Option.map _) hfind, ?_⟩
    simp [nbRecv, hfree hr leaf (by simpa using find?_some hfind)]

/-- A killed fault leaves its leaf free without a reply object, and the next receive picks it. -/
theorem killed_fault_spoils_its_leaf :
    let p := runFrom step {} [.wait 0 [some 1], .answer 0 false]
    p.busy 0 = false ∧ p.obj 0 = .gone ∧
      p.leafTake.bind (fun x => x.2.nbRecv x.1 (some 2)) = none := by
  refine ⟨?_, ?_, ?_⟩ <;> decide +kernel

end LeafPool

end IrisOS.Pager
