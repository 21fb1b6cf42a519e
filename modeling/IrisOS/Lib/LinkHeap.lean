import Mathlib.Data.List.Nodup
import Mathlib.Logic.Equiv.Basic

/-! Heaps of intrusive tree links and the doubly linked segments laid out in them.
A node is any value of a type `S`; a null pointer is `none`. -/
namespace IrisOS.Lib
open Function

/-- The four links an intrusive tree keeps inside each node. -/
@[ext] structure Links (S : Type*) where
  parent : Option S := none
  firstChild : Option S := none
  nextSib : Option S := none
  prevSib : Option S := none
  deriving DecidableEq

def Links.empty {S : Type*} : Links S := {}

def Links.map {S T : Type*} (f : S → T) (l : Links S) : Links T :=
  ⟨l.parent.map f, l.firstChild.map f, l.nextSib.map f, l.prevSib.map f⟩

section
variable {S : Type*} (c : Prop) [Decidable c] (k l : Links S)

@[simp] theorem Links.ite_parent : (if c then k else l).parent = if c then k.parent else l.parent :=
  apply_ite ..
@[simp] theorem Links.ite_firstChild :
    (if c then k else l).firstChild = if c then k.firstChild else l.firstChild := apply_ite ..
@[simp] theorem Links.ite_nextSib : (if c then k else l).nextSib = if c then k.nextSib else l.nextSib :=
  apply_ite ..
@[simp] theorem Links.ite_prevSib : (if c then k else l).prevSib = if c then k.prevSib else l.prevSib :=
  apply_ite ..

end

abbrev LinkHeap (S : Type*) := S → Links S

namespace LinkHeap
variable {S : Type*}

/-- A store through a possibly null pointer, guarded as in `if (p) p->link = v`. -/
def through (p : Option S) (set : S → LinkHeap S) (h : LinkHeap S) : LinkHeap S :=
  p.elim h set

@[simp] theorem through_none (set : S → LinkHeap S) (h : LinkHeap S) : through none set h = h := rfl
@[simp] theorem through_some (x : S) (set : S → LinkHeap S) (h : LinkHeap S) :
    through (some x) set h = set x := rfl

/-- The heap in which every node and every pointer goes by its new name. -/
def rename (h : LinkHeap S) (e : Equiv.Perm S) : LinkHeap S := fun x => (h (e.symm x)).map e

variable [DecidableEq S]

def setParent (h : LinkHeap S) (x : S) (v : Option S) : LinkHeap S :=
  update h x { h x with parent := v }
def setFirst (h : LinkHeap S) (x : S) (v : Option S) : LinkHeap S :=
  update h x { h x with firstChild := v }
def setNext (h : LinkHeap S) (x : S) (v : Option S) : LinkHeap S :=
  update h x { h x with nextSib := v }
def setPrev (h : LinkHeap S) (x : S) (v : Option S) : LinkHeap S :=
  update h x { h x with prevSib := v }

section
variable (h : LinkHeap S) (x y : S) (o v : Option S)

@[simp] theorem setParent_apply :
    h.setParent x v y = if y = x then { h y with parent := v } else h y := by
  by_cases hy : y = x <;> simp [setParent, hy]
@[simp] theorem setFirst_apply :
    h.setFirst x v y = if y = x then { h y with firstChild := v } else h y := by
  by_cases hy : y = x <;> simp [setFirst, hy]
@[simp] theorem setNext_apply :
    h.setNext x v y = if y = x then { h y with nextSib := v } else h y := by
  by_cases hy : y = x <;> simp [setNext, hy]
@[simp] theorem setPrev_apply :
    h.setPrev x v y = if y = x then { h y with prevSib := v } else h y := by
  by_cases hy : y = x <;> simp [setPrev, hy]

/-! A guarded store changes one link of the node its pointer names, if it names one. -/

@[simp] theorem through_setFirst : through o (fun z => h.setFirst z v) h x =
    if o = some x then { h x with firstChild := v } else h x := by cases o <;> simp [eq_comm]
@[simp] theorem through_setNext : through o (fun z => h.setNext z v) h x =
    if o = some x then { h x with nextSib := v } else h x := by cases o <;> simp [eq_comm]
@[simp] theorem through_setPrev : through o (fun z => h.setPrev z v) h x =
    if o = some x then { h x with prevSib := v } else h x := by cases o <;> simp [eq_comm]

end
end LinkHeap

/-- `Seg h p l q`: the nodes of `l` are doubly linked, from `p` before them to `q` after them. -/
def Seg {S : Type*} (h : LinkHeap S) : Option S → List S → Option S → Prop
  | _, [], _ => True
  | p, a :: l, q => (h a).prevSib = p ∧ (h a).nextSib = l.head?.or q ∧ Seg h (some a) l q

namespace Seg
variable {S : Type*} {h h' : LinkHeap S} {p q : Option S} {a : S} {l l1 l2 : List S}

@[simp] theorem nil : Seg h p [] q := trivial

theorem cons_iff : Seg h p (a :: l) q ↔
    (h a).prevSib = p ∧ (h a).nextSib = l.head?.or q ∧ Seg h (some a) l q := Iff.rfl

theorem append_iff : Seg h p (l1 ++ l2) q ↔
    Seg h p l1 (l2.head?.or q) ∧ Seg h (l1.getLast?.or p) l2 q := by
  induction l1 generalizing p with
  | nil => simp
  | cons a l ih =>
    simp only [List.cons_append, cons_iff, ih, and_assoc]
    have hhead : (l ++ l2).head?.or q = l.head?.or (l2.head?.or q) := by
      cases l <;> simp
    have hlast : (a :: l).getLast?.or p = l.getLast?.or (some a) := by
      cases hl : l.getLast? with
      | none => simp [List.getLast?_eq_none_iff.mp hl]
      | some b => simp [List.getLast?_cons, hl]
    rw [hhead, hlast]

theorem congr (hs : Seg h p l q)
    (hh : ∀ x ∈ l, (h' x).prevSib = (h x).prevSib ∧ (h' x).nextSib = (h x).nextSib) :
    Seg h' p l q := by
  induction l generalizing p with
  | nil => trivial
  | cons a l ih =>
    obtain ⟨hp, hn, ht⟩ := hs
    have ha := hh a (by simp)
    exact ⟨ha.1.trans hp, ha.2.trans hn, ih ht fun x hx => hh x (by simp [hx])⟩

theorem nextSib_eq (hs : Seg h p (l1 ++ a :: l2) q) : (h a).nextSib = l2.head?.or q :=
  (append_iff.mp hs).2.2.1

theorem prevSib_eq (hs : Seg h p (l1 ++ a :: l2) q) : (h a).prevSib = l1.getLast?.or p :=
  (append_iff.mp hs).2.1

theorem head_prev (hs : Seg h p l q) (ha : l.head? = some a) : (h a).prevSib = p := by
  obtain ⟨t, rfl⟩ := List.head?_eq_some_iff.mp ha
  exact hs.1

theorem last_next (hs : Seg h p l q) (ha : l.getLast? = some a) : (h a).nextSib = q := by
  obtain ⟨t, rfl⟩ := List.getLast?_eq_some_iff.mp ha
  simpa using hs.nextSib_eq

variable [DecidableEq S] {p' q' : Option S}

section

variable (hs : Seg h p l q) (hd : l.Nodup)
include hs hd

/-- New links at both ends of a list. -/
theorem retarget
    (hp : ∀ x ∈ l, (h' x).prevSib = if l.head? = some x then p' else (h x).prevSib)
    (hn : ∀ x ∈ l, (h' x).nextSib = if l.getLast? = some x then q' else (h x).nextSib) :
    Seg h' p' l q' := by
  induction l generalizing p p' with
  | nil => trivial
  | cons a l ih =>
    obtain ⟨-, hnext, hrest⟩ := hs
    obtain ⟨ha, hd⟩ := List.nodup_cons.mp hd
    refine ⟨by simpa using hp a (by simp), ?_, ih hrest hd (fun x hx => ?_) fun x hx => ?_⟩
    · rw [hn a (by simp)]
      cases l with
      | nil => simp
      | cons b t =>
        have hne : (b :: t).getLast? ≠ some a := fun e => ha (List.mem_of_getLast? e)
        simpa [List.getLast?_cons_cons, hne] using hnext
    · have hne : a ≠ x := fun e => ha (e ▸ hx)
      rw [hp x (by simp [hx]), if_neg (by simpa using hne)]
      split_ifs with hhead
      · exact hrest.head_prev hhead
      · rfl
    · cases l with
      | nil => cases hx
      | cons b t => simpa [List.getLast?_cons_cons] using hn x (by simp [hx])

theorem retarget_last
    (hp : ∀ x ∈ l, (h' x).prevSib = (h x).prevSib)
    (hn : ∀ x ∈ l, (h' x).nextSib = if l.getLast? = some x then q' else (h x).nextSib) :
    Seg h' p l q' := by
  refine hs.retarget hd (fun x hx => ?_) hn
  rw [hp x hx]
  split_ifs with hhead
  · exact hs.head_prev hhead
  · rfl

theorem retarget_head
    (hp : ∀ x ∈ l, (h' x).prevSib = if l.head? = some x then p' else (h x).prevSib)
    (hn : ∀ x ∈ l, (h' x).nextSib = (h x).nextSib) : Seg h' p' l q := by
  refine hs.retarget hd hp fun x hx => ?_
  rw [hn x hx]
  split_ifs with hlast
  · exact hs.last_next hlast
  · rfl

end

end Seg
end IrisOS.Lib
