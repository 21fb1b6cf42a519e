import Mathlib.Data.List.Induction
import Mathlib.Data.List.Nodup

/-! Singly linked lists laid out in a memory, and the walk that stops at the first node with a
property, remembering the node before it. -/
namespace IrisOS.Lib

variable {α : Type*} [DecidableEq α] {null : α} {next next' : α → α} {p q r : α} {l : List α}

/-- Following the links from `p` passes the nodes of the list in order and arrives at `q`. -/
def Linked (null : α) (next : α → α) : α → List α → α → Prop
  | p, [], q => p = q
  | p, b :: l, q => p = b ∧ b ≠ null ∧ Linked null next (next b) l q

/-- The walk from `cur`, after `prev`, to the first node that passes the test or to the end, within
a number of nodes. -/
def findFrom (null : α) (next : α → α) (test : α → Bool) : ℕ → α → α → Option (α × α)
  | 0, _, _ => none
  | fuel + 1, prev, cur =>
    if cur = null ∨ test cur then some (prev, cur) else findFrom null next test fuel cur (next cur)

omit [DecidableEq α] in
theorem linked_append {l₁ l₂ : List α} :
    Linked null next p (l₁ ++ l₂) r ↔
      ∃ q, Linked null next p l₁ q ∧ Linked null next q l₂ r := by
  induction l₁ generalizing p with
  | nil => simp [Linked]
  | cons b l₁ ih => simp only [List.cons_append, Linked, ih]; tauto

omit [DecidableEq α] in
theorem Linked.ne_null (h : Linked null next p l q) {b : α} (hb : b ∈ l) : b ≠ null := by
  induction l generalizing p with
  | nil => cases hb
  | cons c l ih =>
    rcases List.mem_cons.1 hb with rfl | hb
    · exact h.2.1
    · exact ih h.2.2 hb

omit [DecidableEq α] in
theorem Linked.congr (h : Linked null next p l q) (hsame : ∀ b ∈ l, next' b = next b) :
    Linked null next' p l q := by
  induction l generalizing p with
  | nil => exact h
  | cons b l ih =>
    refine ⟨h.1, h.2.1, ?_⟩
    rw [hsame b List.mem_cons_self]
    exact ih h.2.2 fun c hc => hsame c (List.mem_cons_of_mem b hc)

omit [DecidableEq α] in
theorem getLastD_mem (h : l ≠ []) : l.getLastD null ∈ l := by
  cases l using List.reverseRecOn with
  | nil => exact absurd rfl h
  | append_singleton l z => simp

theorem Linked.redirect (h : Linked null next p l q) (hnodup : l.Nodup)
    (hnext : ∀ b ∈ l, next' b = if b = l.getLastD null then r else next b) :
    Linked null next' (if l.getLastD null = null then r else p) l r := by
  induction l using List.reverseRecOn with
  | nil => simp [Linked]
  | append_singleton l z _ =>
    obtain ⟨z', hl, rfl, hz, -⟩ := linked_append.1 h
    have hlast : (l ++ [z']).getLastD null = z' := by simp
    rw [hlast] at hnext ⊢
    rw [if_neg hz]
    have hnot : ∀ b ∈ l, b ≠ z' := fun b hb he =>
      (List.nodup_append.1 hnodup).2.2 b hb z' (by simp) he
    refine linked_append.2 ⟨z', hl.congr fun b hb => ?_, rfl, hz, ?_⟩
    · rw [hnext b (by simp [hb]), if_neg (hnot b hb)]
    · exact (hnext z' (by simp)).trans (if_pos rfl)

theorem Linked.remove {l₁ l₂ : List α} {b prev : α} (h : Linked null next p (l₁ ++ b :: l₂) q)
    (hnodup : (l₁ ++ b :: l₂).Nodup) (hprev : prev = l₁.getLastD null)
    (hnext : ∀ c ∈ l₁ ++ l₂, next' c = if c = prev then next b else next c) :
    Linked null next' (if prev = null then next b else p) (l₁ ++ l₂) q := by
  obtain ⟨b', hl1, rfl, -, hl2⟩ := linked_append.1 h
  obtain ⟨hnodup1, -, hdisj⟩ := List.nodup_append.1 hnodup
  subst hprev
  refine linked_append.2 ⟨next b', hl1.redirect hnodup1 fun c hc => hnext c (by simp [hc]),
    hl2.congr fun c hc => ?_⟩
  have hcprev : c ≠ l₁.getLastD null := by
    rintro rfl
    by_cases hnil : l₁ = []
    · subst hnil
      exact hl2.ne_null hc rfl
    · exact hdisj _ (getLastD_mem hnil) _ (List.mem_cons_of_mem b' hc) rfl
  rw [hnext c (by simp [hc]), if_neg hcprev]

theorem findFrom_spec {fuel : ℕ} (test : α → Bool) (prev : α) (h : Linked null next p l null)
    (hfuel : l.length < fuel) :
    findFrom null next test fuel prev p = some (l.getLastD prev, null) ∨
      ∃ l₁ b l₂, l = l₁ ++ b :: l₂ ∧ test b = true ∧
        findFrom null next test fuel prev p = some (l₁.getLastD prev, b) := by
  induction l generalizing p prev fuel with
  | nil =>
    obtain ⟨fuel, rfl⟩ := Nat.exists_eq_add_of_lt hfuel
    exact .inl (by simp [findFrom, show p = null from h])
  | cons c l ih =>
    obtain ⟨fuel, rfl⟩ : ∃ n, fuel = n + 1 := ⟨fuel - 1, by omega⟩
    obtain ⟨rfl, hp, htail⟩ := h
    cases htest : test p with
    | true => exact .inr ⟨[], p, l, rfl, htest, by simp [findFrom, htest]⟩
    | false =>
      have hstep : findFrom null next test (fuel + 1) prev p
          = findFrom null next test fuel p (next p) := by simp [findFrom, hp, htest]
      rw [hstep]
      rcases ih p htail (by simpa using hfuel) with hend | ⟨l₁, b, l₂, rfl, hb, hfound⟩
      · exact .inl (by rw [hend]; cases l <;> simp [List.getLastD])
      · exact .inr ⟨p :: l₁, b, l₂, rfl, hb, by
          rw [hfound]; cases l₁ <;> simp [List.getLastD]⟩

end IrisOS.Lib
