import Mathlib.Data.List.Nodup
import Mathlib.Data.List.Flatten
import Mathlib.Logic.Equiv.Basic

/-! Ordered forests whose parentless nodes are in sibling lists too, and how linking, removing and
renaming a node change the ancestor relation. -/
namespace IrisOS.Lib
open Relation Function

/-- The owner of a sibling list: a node, or one of the lists of parentless nodes. -/
inductive Owner (S : Type*) where
  | node (p : S)
  | top (k : ℕ)
  deriving DecidableEq

namespace Owner
variable {S T : Type*}

def toOption : Owner S → Option S
  | node p => some p
  | top _ => none

def map (f : S → T) : Owner S → Owner T
  | node p => node (f p)
  | top k => top k

@[simp] theorem toOption_node (p : S) : (node p).toOption = some p := rfl
@[simp] theorem toOption_top (k : ℕ) : (top k : Owner S).toOption = none := rfl
@[simp] theorem map_node (f : S → T) (p : S) : (node p).map f = node (f p) := rfl
@[simp] theorem map_top (f : S → T) (k : ℕ) : (top k : Owner S).map f = top k := rfl

theorem map_injective {f : S → T} (hf : Injective f) : Injective (map f) := by
  intro n m h
  cases n <;> cases m <;> simp_all [hf.eq_iff]

theorem toOption_eq_some {n : Owner S} {p : S} : n.toOption = some p ↔ n = node p := by
  cases n <;> simp

end Owner

/-- Every node sits in one sibling list, once, and so does the owner of a nonempty list. -/
structure Laid {S : Type*} (kids : Owner S → List S) : Prop where
  nodup : ∀ n, (kids n).Nodup
  unique : ∀ {s n m}, s ∈ kids n → s ∈ kids m → n = m
  owner_mem : ∀ {p c}, c ∈ kids (.node p) → ∃ n, p ∈ kids n

/-- An ordered forest: sibling lists as above, and no node is above itself. -/
structure Forest (S : Type*) where
  kids : Owner S → List S
  nodup : ∀ n, (kids n).Nodup
  unique : ∀ {s n m}, s ∈ kids n → s ∈ kids m → n = m
  owner_mem : ∀ {p c}, c ∈ kids (.node p) → ∃ n, p ∈ kids n
  acyclic : ∀ s, ¬ TransGen (fun p c => c ∈ kids (.node p)) s s
  bounded : ∃ N, ∀ k ≥ N, kids (.top k) = []

namespace Forest
variable {S : Type*} (F F' : Forest S) {a b c p s x y : S} {n m : Owner S}

def empty : Forest S where
  kids _ := []
  nodup _ := List.nodup_nil
  unique h := (List.not_mem_nil h).elim
  owner_mem h := (List.not_mem_nil h).elim
  acyclic s hs := by
    cases hs with
    | single h => exact List.not_mem_nil h
    | tail _ h => exact List.not_mem_nil h
  bounded := ⟨0, fun _ _ => rfl⟩

def Mem (s : S) : Prop := ∃ n, s ∈ F.kids n
def Child (p c : S) : Prop := c ∈ F.kids (.node p)

theorem laid : Laid F.kids := ⟨F.nodup, F.unique, F.owner_mem⟩

/-- `F.Anc a b`: the node `a` is a proper ancestor of `b`. -/
def Anc : S → S → Prop := TransGen F.Child

variable {F F'} {r r' : S → S → Prop}

theorem Child.mem (h : F.Child p c) : F.Mem c := ⟨_, h⟩
theorem Child.owner (h : F.Child p c) : F.Mem p := F.owner_mem h

theorem Anc.irrefl (s : S) : ¬ F.Anc s s := F.acyclic s

theorem Anc.mem (h : F.Anc a b) : F.Mem b := by
  cases h with
  | single h => exact h.mem
  | tail _ h => exact h.mem

theorem Anc.owner (h : F.Anc a b) : F.Mem a := by
  induction h using TransGen.head_induction_on with
  | single h => exact h.owner
  | head h _ _ => exact h.owner

theorem Child.ne (h : F.Child p c) : p ≠ c := by
  rintro rfl
  exact F.acyclic p (.single h)

/-! ## Splicing one node out of a relation -/

theorem transGen_contract {d : S} (h : ∀ x y, r' x y ↔ x ≠ d ∧ y ≠ d ∧ (r x y ∨ r x d ∧ r d y))
    (ha : a ≠ d) (hb : b ≠ d) : TransGen r' a b ↔ TransGen r a b := by
  constructor
  · intro hab
    induction hab with
    | single hx =>
      rcases ((h _ _).mp hx).2.2 with hx | ⟨h₁, h₂⟩
      · exact .single hx
      · exact .tail (.single h₁) h₂
    | @tail x y _ hx ih =>
      have ih := ih ((h _ _).mp hx).1
      rcases ((h _ _).mp hx).2.2 with hx | ⟨h₁, h₂⟩
      · exact ih.tail hx
      · exact (ih.tail h₁).tail h₂
  · intro hab
    have key : (b ≠ d → TransGen r' a b) ∧
        (b = d → ∃ x, (x = a ∨ TransGen r' a x) ∧ x ≠ d ∧ r x d) := by
      clear hb
      induction hab with
      | @single y hy =>
        refine ⟨fun hd => .single ((h _ _).mpr ⟨ha, hd, .inl hy⟩), ?_⟩
        rintro rfl
        exact ⟨a, .inl rfl, ha, hy⟩
      | @tail y z _ hy ih =>
        by_cases hyd : y = d
        · obtain ⟨x, hx, hxd, hr⟩ := ih.2 hyd
          refine ⟨fun hz => ?_, fun _ => ⟨x, hx, hxd, hr⟩⟩
          have hstep : r' x z := (h _ _).mpr ⟨hxd, hz, .inr ⟨hr, hyd ▸ hy⟩⟩
          rcases hx with rfl | hx
          · exact .single hstep
          · exact hx.tail hstep
        · refine ⟨fun hz => (ih.1 hyd).tail ((h _ _).mpr ⟨hyd, hz, .inl hy⟩), ?_⟩
          rintro rfl
          exact ⟨y, .inr (ih.1 hyd), hyd, hy⟩
    exact key.1 hb

theorem acyclic_of_le (hr : ∀ s, ¬ TransGen r s s)
    (h : ∀ x y, r' x y → TransGen r x y) (s : S) : ¬ TransGen r' s s := by
  intro hs
  exact hr s (TransGen.closed (fun x y => h x y) _ _ hs)

/-! ## Linking a new node -/

section
variable (F)

theorem exists_top_empty : ∃ k, F.kids (.top k) = [] := by
  obtain ⟨N, hN⟩ := F.bounded
  exact ⟨N, hN N (Nat.le_refl N)⟩

variable [DecidableEq S]

theorem mem_update_cons {c : S} {l : List S} :
    x ∈ update F.kids n (c :: l) m ↔
      (m = n ∧ (x = c ∨ x ∈ l)) ∨ (m ≠ n ∧ x ∈ F.kids m) := by
  by_cases hm : m = n
  · subst hm; simp
  · simp [hm]

/-- Put a new node in front of the sibling list of `n`. -/
def insert (n : Owner S) (c : S) (hc : ¬ F.Mem c) (hn : ∀ p, n = .node p → F.Mem p) : Forest S where
  kids := update F.kids n (c :: F.kids n)
  nodup m := by
    by_cases hm : m = n
    · subst hm
      simpa [F.nodup m] using fun h => hc ⟨_, h⟩
    · simpa [hm] using F.nodup m
  unique {s m₁ m₂} h₁ h₂ := by
    rw [mem_update_cons] at h₁ h₂
    rcases h₁ with ⟨rfl, h₁⟩ | ⟨hm₁, h₁⟩ <;> rcases h₂ with ⟨rfl, h₂⟩ | ⟨hm₂, h₂⟩
    · rfl
    · rcases h₁ with rfl | h₁
      · exact (hc ⟨_, h₂⟩).elim
      · exact F.unique h₁ h₂
    · rcases h₂ with rfl | h₂
      · exact (hc ⟨_, h₁⟩).elim
      · exact F.unique h₁ h₂
    · exact F.unique h₁ h₂
  owner_mem {p d} h := by
    have hp : F.Mem p := by
      rw [mem_update_cons] at h
      rcases h with ⟨rfl, _⟩ | ⟨_, h⟩
      · exact hn p rfl
      · exact F.owner_mem h
    obtain ⟨m, hm⟩ := hp
    refine ⟨m, ?_⟩
    rw [mem_update_cons]
    by_cases hmn : m = n
    · exact .inl ⟨hmn, .inr (hmn ▸ hm)⟩
    · exact .inr ⟨hmn, hm⟩
  acyclic s hs := by
    have hstep : ∀ x y, y ∈ update F.kids n (c :: F.kids n) (.node x) →
        x ≠ c ∧ (y = c ∨ F.Child x y) := by
      intro x y hy
      rw [mem_update_cons] at hy
      rcases hy with ⟨rfl, hy⟩ | ⟨_, hy⟩
      · exact ⟨fun hxc => hc (hxc ▸ hn x rfl), hy⟩
      · exact ⟨fun hxc => hc (hxc ▸ Child.owner hy), .inr hy⟩
    have hpath : ∀ x y, TransGen (fun p d => d ∈ update F.kids n (c :: F.kids n) (.node p)) x y →
        x ≠ c ∧ (y = c ∨ F.Anc x y) := by
      intro x y hxy
      induction hxy with
      | single h => exact ⟨(hstep _ _ h).1, (hstep _ _ h).2.imp id .single⟩
      | tail _ h ih =>
        refine ⟨ih.1, ?_⟩
        rcases ih.2 with rfl | hxy
        · exact ((hstep _ _ h).1 rfl).elim
        · exact (hstep _ _ h).2.imp id hxy.tail
    rcases hpath s s hs with ⟨hne, rfl | h⟩
    · exact hne rfl
    · exact F.acyclic s h
  bounded := by
    obtain ⟨N, hN⟩ := F.bounded
    cases n with
    | node p => exact ⟨N, fun k hk => by simpa using hN k hk⟩
    | top j =>
      refine ⟨max N (j+1), fun k hk => ?_⟩
      have hkj : k ≠ j := by omega
      simpa [hkj] using hN k (by omega)

theorem mem_insert (hs : ¬ F.Mem s) (hn : ∀ p, n = .node p → F.Mem p) :
    (F.insert n s hs hn).Mem x ↔ x = s ∨ F.Mem x := by
  constructor
  · rintro ⟨m, hm⟩
    rcases F.mem_update_cons.mp hm with ⟨rfl, rfl | hm⟩ | ⟨-, hm⟩
    · exact .inl rfl
    · exact .inr ⟨_, hm⟩
    · exact .inr ⟨_, hm⟩
  · rintro (rfl | ⟨m, hm⟩)
    · exact ⟨n, F.mem_update_cons.mpr (.inl ⟨rfl, .inl rfl⟩)⟩
    · refine ⟨m, F.mem_update_cons.mpr ?_⟩
      by_cases hmn : m = n
      · exact .inl ⟨hmn, .inr (hmn ▸ hm)⟩
      · exact .inr ⟨hmn, hm⟩

theorem child_insert_node (hs : ¬ F.Mem s) (hn : ∀ q, Owner.node p = .node q → F.Mem q) :
    (F.insert (.node p) s hs hn).Child x y ↔ x = p ∧ y = s ∨ F.Child x y := by
  refine F.mem_update_cons.trans ?_
  simp only [Owner.node.injEq, Child]
  constructor
  · rintro (⟨rfl, rfl | h⟩ | ⟨-, h⟩)
    · exact .inl ⟨rfl, rfl⟩
    · exact .inr h
    · exact .inr h
  rintro (⟨rfl, rfl⟩ | h)
  · exact .inl ⟨rfl, .inl rfl⟩
  · by_cases hx : x = p
    · exact .inl ⟨hx, .inr (hx ▸ h)⟩
    · exact .inr ⟨fun e => hx (Owner.node.inj e), h⟩

theorem child_insert_top {k : ℕ} (hs : ¬ F.Mem s) (hn : ∀ q, Owner.top k = .node q → F.Mem q) :
    (F.insert (.top k) s hs hn).Child x y ↔ F.Child x y := by
  rfl

/-! ## Removing a node -/

/-- The membership side of removing `s`: its children move to the list `s` was in. -/
def DetachSpec (s : S) (kids' : Owner S → List S) : Prop :=
  ∀ n x, x ∈ kids' n ↔
    x ≠ s ∧ n ≠ .node s ∧ (x ∈ F.kids n ∨ x ∈ F.kids (.node s) ∧ s ∈ F.kids n)

omit [DecidableEq S] in
theorem DetachSpec.child_iff {kids' : Owner S → List S} (h : F.DetachSpec s kids') (x y : S) :
    y ∈ kids' (.node x) ↔ x ≠ s ∧ y ≠ s ∧ (F.Child x y ∨ F.Child x s ∧ F.Child s y) := by
  rw [h]
  simp only [ne_eq, Owner.node.injEq, Child]
  tauto

/-- Any lists that meet the membership side of removing `s` form a forest. -/
def detach (s : S) (kids' : Owner S → List S) (hnodup : ∀ n, (kids' n).Nodup)
    (h : F.DetachSpec s kids') : Forest S where
  kids := kids'
  nodup := hnodup
  unique {x n m} hn hm := by
    obtain ⟨-, hns, hn⟩ := (h _ _).mp hn
    obtain ⟨-, hms, hm⟩ := (h _ _).mp hm
    rcases hn with hn | ⟨hn, hsn⟩ <;> rcases hm with hm | ⟨hm, hsm⟩
    · exact F.unique hn hm
    · exact (hns (F.unique hn hm)).elim
    · exact (hms (F.unique hm hn)).elim
    · exact F.unique hsn hsm
  owner_mem {p c} hc := by
    obtain ⟨hps, -, hc⟩ := (h.child_iff F p c).mp hc
    obtain ⟨n, hn⟩ : F.Mem p := by
      rcases hc with hc | hc
      · exact hc.owner
      · exact hc.1.owner
    by_cases hns : n = .node s
    · subst hns
      obtain ⟨m, hm⟩ := F.owner_mem hn
      refine ⟨m, (h _ _).mpr ⟨hps, ?_, .inr ⟨hn, hm⟩⟩⟩
      rintro rfl
      exact Child.ne hm rfl
    · exact ⟨n, (h _ _).mpr ⟨hps, hns, .inl hn⟩⟩
  acyclic := by
    refine acyclic_of_le F.acyclic fun x y hxy => ?_
    obtain ⟨-, -, hxy | ⟨h₁, h₂⟩⟩ := (h.child_iff F x y).mp hxy
    · exact .single hxy
    · exact .tail (.single h₁) h₂
  bounded := by
    obtain ⟨N, hN⟩ := F.bounded
    refine ⟨N, fun k hk => List.eq_nil_iff_forall_not_mem.mpr fun x hx => ?_⟩
    have := (h _ _).mp hx
    simp [hN k hk] at this

end

/-- `F'` is `F` without `s`, whose children are in the list `s` was in; other lists are as before,
and a childless node leaves every order alone. -/
structure Detaches (F : Forest S) (s : S) (F' : Forest S) : Prop where
  spec : F.DetachSpec s F'.kids
  same : ∀ n, n ≠ .node s → s ∉ F.kids n → F'.kids n = F.kids n
  sublist : F.kids (.node s) = [] → ∀ n, (F'.kids n).Sublist (F.kids n)

namespace Detaches

theorem mem_iff (h : F.Detaches s F') : F'.Mem x ↔ x ≠ s ∧ F.Mem x := by
  constructor
  · rintro ⟨n, hn⟩
    obtain ⟨hx, -, hn | ⟨hn, -⟩⟩ := (h.spec _ _).mp hn
    · exact ⟨hx, n, hn⟩
    · exact ⟨hx, _, hn⟩
  rintro ⟨hx, n, hn⟩
  by_cases hns : n = .node s
  · subst hns
    obtain ⟨m, hm⟩ := F.owner_mem hn
    refine ⟨m, (h.spec _ _).mpr ⟨hx, ?_, .inr ⟨hn, hm⟩⟩⟩
    rintro rfl
    exact Child.ne hm rfl
  · exact ⟨n, (h.spec _ _).mpr ⟨hx, hns, .inl hn⟩⟩

theorem child_iff (h : F.Detaches s F') :
    F'.Child x y ↔ x ≠ s ∧ y ≠ s ∧ (F.Child x y ∨ F.Child x s ∧ F.Child s y) :=
  h.spec.child_iff F x y

theorem anc_iff (h : F.Detaches s F') (ha : a ≠ s) (hb : b ≠ s) : F'.Anc a b ↔ F.Anc a b :=
  transGen_contract (fun _ _ => h.child_iff) ha hb

end Detaches

/-! ## Renaming the nodes -/

theorem mem_map_perm (e : Equiv.Perm S) {l : List S} : x ∈ l.map e ↔ e.symm x ∈ l := by
  constructor
  · intro h
    obtain ⟨y, hy, rfl⟩ := List.mem_map.mp h
    simpa using hy
  · exact fun h => List.mem_map.mpr ⟨e.symm x, h, by simp⟩

def rename (F : Forest S) (e : Equiv.Perm S) : Forest S where
  kids n := (F.kids (n.map e.symm)).map e
  nodup n := (F.nodup _).map e.injective
  unique {x n m} hn hm := by
    rw [mem_map_perm] at hn hm
    exact Owner.map_injective e.symm.injective (F.unique hn hm)
  owner_mem {p c} hc := by
    rw [mem_map_perm] at hc
    obtain ⟨n, hn⟩ := F.owner_mem hc
    refine ⟨n.map e, ?_⟩
    rw [mem_map_perm]
    cases n <;> simpa using hn
  acyclic s hs := by
    refine F.acyclic (e.symm s) (TransGen.lift e.symm (fun x y hxy => ?_) _ _ hs)
    exact (mem_map_perm e).mp hxy
  bounded := by
    obtain ⟨N, hN⟩ := F.bounded
    exact ⟨N, fun k hk => by simp [hN k hk]⟩

theorem mem_rename_kids (e : Equiv.Perm S) :
    x ∈ (F.rename e).kids n ↔ e.symm x ∈ F.kids (n.map e.symm) := mem_map_perm e

theorem mem_rename (e : Equiv.Perm S) : (F.rename e).Mem x ↔ F.Mem (e.symm x) := by
  constructor
  · rintro ⟨n, hn⟩
    exact ⟨_, (mem_rename_kids e).mp hn⟩
  · rintro ⟨n, hn⟩
    refine ⟨n.map e, (mem_rename_kids e).mpr ?_⟩
    cases n <;> simpa using hn

theorem child_rename (e : Equiv.Perm S) :
    (F.rename e).Child x y ↔ F.Child (e.symm x) (e.symm y) := mem_rename_kids e

end Forest
end IrisOS.Lib
