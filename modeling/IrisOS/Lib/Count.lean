import Mathlib.Data.List.Nodup

/-! Counting the members of a list that meet a condition, when the condition changes at one
place. -/
namespace IrisOS.Lib
open Function
variable {α : Type*} {p q : α → Bool} {l : List α} {a b : α}

theorem countP_eq_of_agree (h : ∀ x ∈ l, p x = q x) : l.countP p = l.countP q :=
  List.countP_congr fun x hx => by rw [h x hx]

theorem countP_change (hl : l.Nodup) (ha : a ∈ l) (h : ∀ x, x ≠ a → p x = q x) :
    l.countP p + (q a).toNat = l.countP q + (p a).toNat := by
  obtain ⟨l1, l2, rfl⟩ := List.append_of_mem ha
  have hl1 : a ∉ l1 := fun ha => (List.disjoint_of_nodup_append hl) ha (by simp)
  have hl2 : a ∉ l2 := (List.nodup_cons.mp hl.of_append_right).1
  have h1 : l1.countP p = l1.countP q := countP_eq_of_agree fun x hx => h x (ne_of_mem_of_not_mem hx hl1)
  have h2 : l2.countP p = l2.countP q := countP_eq_of_agree fun x hx => h x (ne_of_mem_of_not_mem hx hl2)
  simp only [List.countP_append, List.countP_cons, h1, h2]
  cases p a <;> cases q a <;> simp <;> omega

theorem countP_change2 [DecidableEq α] (hl : l.Nodup) (ha : a ∈ l) (hb : b ∈ l) (hab : a ≠ b)
    (h : ∀ x, x ≠ a → x ≠ b → p x = q x) :
    l.countP p + (q a).toNat + (q b).toNat = l.countP q + (p a).toNat + (p b).toNat := by
  have h1 := countP_change (p := p) (q := update p a (q a)) hl ha fun x hx => by simp [hx]
  have h2 := countP_change (p := update p a (q a)) (q := q) hl hb fun x hx => by
    by_cases hxa : x = a
    · simp [hxa]
    · simpa [hxa] using h x hxa hx
  simp only [update_self] at h1
  rw [update_of_ne hab.symm] at h2
  omega

end IrisOS.Lib
