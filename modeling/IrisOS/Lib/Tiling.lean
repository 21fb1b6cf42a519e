import Mathlib.Data.List.Pairwise
import Mathlib.Data.List.Perm.Basic
import Mathlib.Order.Nat

/-! Tilings of a set of addresses by blocks that lie apart and cover it. A block is named by its
first address and extends over `ext` addresses. -/
namespace IrisOS.Lib

open List

variable {ext ext' : ℕ → ℕ} {b c r : ℕ} {bs bs' : List ℕ} {S : ℕ → Prop}

/-- The address lies in the block. -/
def InTile (ext : ℕ → ℕ) (b a : ℕ) : Prop := b ≤ a ∧ a < b + ext b

def Apart (ext : ℕ → ℕ) (b c : ℕ) : Prop := b + ext b ≤ c ∨ c + ext c ≤ b

/-- The blocks are pairwise apart and cover the set exactly. -/
structure Tiles (ext : ℕ → ℕ) (bs : List ℕ) (S : ℕ → Prop) : Prop where
  apart : bs.Pairwise (Apart ext)
  covers : ∀ a, S a ↔ ∃ b ∈ bs, InTile ext b a

namespace Tiles

section

variable (h : Tiles ext bs S)
include h

theorem perm (hp : bs.Perm bs') : Tiles ext bs' S :=
  ⟨(hp.pairwise_iff fun {_ _} => Or.symm).1 h.apart,
    fun a => (h.covers a).trans (exists_congr fun _ => and_congr_left' hp.mem_iff)⟩

theorem congr (hsame : ∀ b ∈ bs, ext' b = ext b) : Tiles ext' bs S := by
  refine ⟨h.apart.imp_of_mem fun hb hc hap => ?_, fun a => (h.covers a).trans ?_⟩
  · rw [Apart, hsame _ hb, hsame _ hc]
    exact hap
  · exact exists_congr fun b => and_congr_right fun hb => by rw [InTile, InTile, hsame b hb]

theorem apart_of_ne (hb : b ∈ bs) (hc : c ∈ bs) (hne : b ≠ c) : Apart ext b c :=
  have : Std.Symm (Apart ext) := ⟨fun _ _ => Or.symm⟩
  h.apart.forall hb hc hne

theorem nodup (hpos : ∀ b ∈ bs, 0 < ext b) : bs.Nodup :=
  h.apart.imp_of_mem fun {b c} hb _ hap heq => by
    have := hpos b hb
    subst heq
    rcases hap with hap | hap <;> omega

theorem add (hnew : ∀ a, InTile ext b a → ¬ S a) (hpos : 0 < ext b)
    (hexts : ∀ c ∈ bs, 0 < ext c) : Tiles ext (b :: bs) fun a => InTile ext b a ∨ S a := by
  refine ⟨pairwise_cons.2 ⟨fun c hc => ?_, h.apart⟩, fun a => by
    simp only [mem_cons, exists_eq_or_imp, h.covers a]⟩
  by_contra hap
  have hc0 := hexts c hc
  -- two blocks that meet do so at the later of their first addresses
  have hmeet : InTile ext b (max b c) ∧ InTile ext c (max b c) := by
    simp only [Apart, not_or] at hap
    exact ⟨⟨by omega, by omega⟩, by omega, by omega⟩
  exact hnew _ hmeet.1 ((h.covers _).2 ⟨c, hc, hmeet.2⟩)

end

theorem split (h : Tiles ext (b :: bs) S) (hr : r = b + ext' b) (hsum : ext' b + ext' r = ext b)
    (hsame : ∀ c ∈ bs, ext' c = ext c) : Tiles ext' (b :: r :: bs) S := by
  obtain ⟨hb, hbs⟩ := pairwise_cons.1 h.apart
  have hrest := (⟨hbs, fun _ => Iff.rfl⟩ : Tiles ext bs _).congr hsame
  have htail : ∀ c ∈ bs, Apart ext' b c ∧ Apart ext' r c := by
    intro c hc
    have hap := hb c hc
    simp only [Apart] at hap ⊢
    rw [hsame c hc]
    omega
  refine ⟨pairwise_cons.2 ⟨?_, pairwise_cons.2 ⟨fun c hc => (htail c hc).2, ?_⟩⟩, ?_⟩
  · exact forall_mem_cons.2 ⟨.inl hr.ge, fun c hc => (htail c hc).1⟩
  · exact hrest.apart
  intro a
  rw [h.covers]
  simp only [mem_cons, exists_eq_or_imp]
  rw [← hrest.covers a, ← or_assoc]
  exact or_congr_left (by simp only [InTile]; omega)

theorem merge (h : Tiles ext (b :: r :: bs) S) (hr : r = b + ext b)
    (hsum : ext' b = ext b + ext r) (hsame : ∀ c ∈ bs, ext' c = ext c)
    (hexts : ∀ c ∈ bs, 0 < ext c) : Tiles ext' (b :: bs) S := by
  obtain ⟨hb, hrbs⟩ := pairwise_cons.1 h.apart
  obtain ⟨hr', hbs⟩ := pairwise_cons.1 hrbs
  have hrest := (⟨hbs, fun _ => Iff.rfl⟩ : Tiles ext bs _).congr hsame
  refine ⟨pairwise_cons.2 ⟨fun c hc => ?_, ?_⟩, fun a => ?_⟩
  · have hbc := hb c (mem_cons_of_mem r hc)
    have hrc := hr' c hc
    have hpos := hexts c hc
    simp only [Apart] at hbc hrc ⊢
    rw [hsame c hc]
    omega
  · exact hrest.apart
  · rw [h.covers]
    simp only [mem_cons, exists_eq_or_imp]
    rw [← hrest.covers a, ← or_assoc]
    exact or_congr_left (by simp only [InTile]; omega)

end Tiles

end IrisOS.Lib
