import IrisOS.Cap.ActiveRefs
import IrisOS.Cap.Teardown

/-! How long objects live: an object is there exactly as long as it has references or its
destruction is under way, in every state that actions and calls lead to. -/
namespace IrisOS.Cap
open Kernel

/-- The names that have not been given out stand for nothing. -/
def Unnamed (σ : Kernel) : Prop :=
  ∀ o, σ.numObjs ≤ o → (σ.objs o).type = .reserved ∧ (σ.objs o).live = false

/-- The references and the objects of a state in which calls wait. -/
structure Lifetimes (σ : Kernel) (k : List Call) : Prop where
  accounted : Accounted .refs σ k
  alive : σ.panic = none → ∀ o, (σ.objs o).live.toNat =
    (0 < (σ.objs o).refcount : Bool).toNat + k.countP (Call.destroys o)
  unnamed : Unnamed σ

section
variable {b : Bool} {σ τ : Kernel}

theorem Touches.panic_none (h : Touches b σ τ) (hp : τ.panic = none) : σ.panic = none := by
  induction h with
  | same _ _ _ hpanic => exact hpanic ▸ hp
  | @retain σ x _ =>
    unfold kobjectRetain irisAssert at hp
    split_ifs at hp
    · exact hp
    · simp [stop] at hp
  | activeRetain | create | setHeld => exact hp
  | trans _ _ ih1 ih2 => exact ih1 (ih2 hp)

theorem Touches.live (h : Touches b σ τ) (hp : τ.panic = none)
    (hfresh : ∀ o, σ.numObjs ≤ o → (σ.objs o).live = false ∧ (σ.objs o).refcount = 0) :
    (∀ o, τ.numObjs ≤ o → (τ.objs o).live = false ∧ (τ.objs o).refcount = 0) ∧
    ∀ o, (τ.objs o).live.toNat + (0 < (σ.objs o).refcount : Bool).toNat =
      (σ.objs o).live.toNat + (0 < (τ.objs o).refcount : Bool).toNat := by
  induction h with
  | same hn ho _ _ => exact ⟨fun o h => by rw [ho]; exact hfresh o (hn ▸ h), fun o => by rw [ho]⟩
  | @retain σ x hx =>
    have hpos : 1 ≤ (σ.objs x).refcount := by
      by_contra hzero
      simp [kobjectRetain, irisAssert, hzero, stop] at hp
    obtain ⟨p, hret⟩ := kobjectRetain_eq σ x
    rw [hret]
    refine ⟨fun o ho => ?_, fun o => ?_⟩
    · by_cases hox : o = x
      · subst hox
        simp [(hfresh o ho).1] at hx
      · simpa [setObj, hox] using hfresh o ho
    · by_cases hox : o = x
      · subst hox
        simp [setObj, Nat.lt_of_succ_le hpos]
      · simp [setObj, hox]
  | @activeRetain σ x hx =>
    refine ⟨fun o ho => ?_, fun o => ?_⟩
    · by_cases hox : o = x
      · subst hox
        simp [(hfresh o ho).1] at hx
      · simpa [kobjectActiveRetain, setObj, hox] using hfresh o ho
    · by_cases hox : o = x
      · subst hox
        simp [kobjectActiveRetain, setObj]
      · simp [kobjectActiveRetain, setObj, hox]
  | create σ type n _ =>
    refine ⟨fun o ho => ?_, fun o => ?_⟩
    · have hne : o ≠ σ.numObjs := (Nat.lt_of_succ_le ho).ne'
      simpa [addObject, hne] using hfresh o (Nat.le_of_succ_le ho)
    by_cases hon : o = σ.numObjs
    · subst hon
      obtain ⟨hlive, href⟩ := hfresh _ le_rfl
      simp [addObject, hlive, href]
    · simp [addObject, hon]
  | setHeld => exact ⟨hfresh, fun o => rfl⟩
  | trans _ h2 ih1 ih2 =>
    obtain ⟨hfresh1, h1⟩ := ih1 (h2.panic_none hp) hfresh
    obtain ⟨hfresh2, h2⟩ := ih2 hp hfresh1
    refine ⟨hfresh2, fun o => ?_⟩
    have := h1 o
    have := h2 o
    omega

/-- There may be new objects; the others are of the same type and as much there as before. -/
structure MoreObjs (σ τ : Kernel) : Prop where
  numObjs : σ.numObjs ≤ τ.numObjs
  type : ∀ o < σ.numObjs, (τ.objs o).type = (σ.objs o).type
  live : ∀ o < σ.numObjs, (τ.objs o).live = (σ.objs o).live
  unnamed : Unnamed σ → Unnamed τ

theorem MoreObjs.of_objs (hn : τ.numObjs = σ.numObjs)
    (h : ∀ o, (τ.objs o).type = (σ.objs o).type ∧ (τ.objs o).live = (σ.objs o).live) :
    MoreObjs σ τ :=
  ⟨hn.ge, fun o _ => (h o).1, fun o _ => (h o).2, fun hσ o ho =>
    ⟨(h o).1.trans (hσ o (hn ▸ ho)).1, (h o).2.trans (hσ o (hn ▸ ho)).2⟩⟩

theorem Touches.moreObjs (h : Touches b σ τ) : MoreObjs σ τ := by
  induction h with
  | same hn ho _ _ => exact .of_objs hn fun o => by rw [ho]; exact ⟨rfl, rfl⟩
  | @retain σ x _ =>
    obtain ⟨p, hret⟩ := kobjectRetain_eq σ x
    refine .of_objs (by rw [hret]; rfl) fun o => ?_
    by_cases ho : o = x <;> simp [hret, setObj, ho]
  | @activeRetain σ x _ =>
    refine .of_objs rfl fun o => ?_
    by_cases ho : o = x <;> simp [kobjectActiveRetain, setObj, ho]
  | create σ type n _ =>
    refine ⟨Nat.le_succ _, fun o ho => ?_, fun o ho => ?_, fun hσ o ho => ?_⟩
    · simp [addObject, ho.ne]
    · simp [addObject, ho.ne]
    · have hne : o ≠ σ.numObjs := (Nat.lt_of_succ_le ho).ne'
      simpa [addObject, hne] using hσ o (Nat.le_of_succ_le ho)
  | setHeld => exact .of_objs rfl fun o => ⟨rfl, rfl⟩
  | trans _ _ ih1 ih2 =>
    exact ⟨ih1.numObjs.trans ih2.numObjs,
      fun o ho => (ih2.type o (ho.trans_le ih1.numObjs)).trans (ih1.type o ho),
      fun o ho => (ih2.live o (ho.trans_le ih1.numObjs)).trans (ih1.live o ho),
      fun h => ih2.unnamed (ih1.unnamed h)⟩

end

namespace Lifetimes
variable {σ τ : Kernel} {f : Call} {k l : List Call} {o : ObjId}

section

variable (h : Lifetimes σ k)
include h

theorem live_of_refcount (hp : σ.panic = none) (ho : 1 ≤ (σ.objs o).refcount) :
    (σ.objs o).live = true := by
  have halive := h.alive hp o
  simp only [Nat.lt_of_succ_le ho, decide_true, Bool.toNat_true] at halive
  by_contra hne
  simp only [Bool.not_eq_true] at hne
  simp only [hne, Bool.toNat_false] at halive
  omega

theorem refcount_of_slot (hp : σ.panic = none) {s : SlotRef}
    (hs : (σ.slots s).object = some o) : 1 ≤ (σ.objs o).refcount := by
  obtain ⟨⟨F, hw⟩, -⟩ := h.accounted.inOrder
  have hbal : (σ.objs o).refcount = _ := h.accounted.balanced hp o
  have hocc : σ.occupied s = true := by simp [occupied, hs]
  have hpos : 0 < Account.refs.slots σ o := List.countP_pos_iff.mpr
    ⟨s, hw.mem_allSlots (hw.mem hocc), by simp [names_iff.mpr hs, Account.counts]⟩
  omega

theorem note (st : Stats) (r : RevokeRet) : Lifetimes { σ with stats := st, ret := r } k := by
  obtain ⟨⟨F, hw⟩, hk⟩ := h.accounted.inOrder
  have hkept : Kept σ { σ with stats := st, ret := r } :=
    .of_objs rfl rfl rfl rfl fun _ => ⟨rfl, rfl, rfl⟩
  exact ⟨⟨⟨⟨F, hkept.wf hw⟩, fun f hf => (Effect.kept hkept).frameOk (hk f hf)⟩,
    h.accounted.balanced, h.accounted.fresh, h.accounted.noUnderflow⟩, h.alive, h.unnamed⟩

theorem extend (hl : ∀ o, Account.refs.dueSum o l = Account.refs.dueSum o k)
    (hd : ∀ o, l.countP (Call.destroys o) = k.countP (Call.destroys o))
    (hframe : ∀ f ∈ l, FrameOk σ f) : Lifetimes σ l where
  accounted := ⟨⟨h.accounted.inOrder.1, hframe⟩, fun hp => (h.accounted.balanced hp).congr hl,
    h.accounted.fresh, h.accounted.noUnderflow⟩
  alive hp o := by rw [hd, h.alive hp o]
  unnamed := h.unnamed

end

theorem call (h : Lifetimes σ (f :: k)) (hσ : σ.panic = none) :
    Lifetimes ((machine inertHooks).body σ f).1 (((machine inertHooks).body σ f).2 ++ k) := by
  obtain ⟨⟨F, hw⟩, hk⟩ := h.accounted.inOrder
  have hshape := (body_effect inertHooks hw (hk f List.mem_cons_self)).1.sameShape
  refine ⟨h.accounted.call hσ, fun hp o => ?_, fun o ho => ?_⟩
  · obtain ⟨-, hbody⟩ := body_of_not_halted hp
    rw [hbody] at hp ⊢
    exact live_perform hw hσ hp (h.alive hσ o)
  obtain ⟨htype, hlive⟩ := h.unnamed o (hshape.numObjs ▸ ho)
  refine ⟨(hshape.type o).trans htype, ?_⟩
  unfold machine
  simp only
  split_ifs
  · rw [(perform_outcome inertHooks hw f).live_eq, hlive, Bool.false_and]
  · exact hlive

theorem halt (h : Lifetimes σ k) (hσ : σ.panic ≠ none) : Lifetimes σ [] :=
  ⟨⟨⟨h.accounted.inOrder.1, by simp⟩, fun hp => absurd hp hσ, fun hp => absurd hp hσ,
    h.accounted.noUnderflow⟩, fun hp => absurd hp hσ, h.unnamed⟩

section

variable (h : Lifetimes σ []) (hp : σ.panic = none)
include h hp

theorem touch {b : Bool} (ht : Touches b σ τ)
    (hacc : Accounted .refs τ k) (hk : ∀ f ∈ k, f.isEntry) : Lifetimes τ k := by
  have hfresh : ∀ o, σ.numObjs ≤ o → (σ.objs o).live = false ∧ (σ.objs o).refcount = 0 :=
    fun o ho => ⟨(h.unnamed o ho).2, h.accounted.fresh hp o ho⟩
  refine ⟨hacc, fun hp' o => ?_, ht.moreObjs.unnamed h.unnamed⟩
  have hbefore := h.alive hp o
  have hafter := (ht.live hp' hfresh).2 o
  have hzero : k.countP (Call.destroys o) = 0 := List.countP_eq_zero.mpr fun f hf => by
    have hentry := hk f hf
    cases f with
    | dispatchDestroy | objDestroy | storageFree => exact hentry.elim
    | _ => simp [Call.destroys]
  rw [List.countP_nil] at hbefore
  omega

theorem act (a : Action) : Lifetimes (σ.act a).1 (σ.act a).2 := by
  obtain ⟨⟨F, hw⟩, -⟩ := h.accounted.inOrder
  exact h.touch hp (act_touches hw a) (h.accounted.act hp nofun) (act_isEntry hw a)

theorem addObject {type : KObjType} {n : ℕ}
    (htype : type ≠ .reserved) (hn : type ≠ .cnode → n = 0) :
    Lifetimes (σ.addObject type n) [] := by
  obtain ⟨⟨F, hw⟩, -⟩ := h.accounted.inOrder
  have hfresh := h.accounted.fresh hp
  refine h.touch (b := false) hp (.create σ type n htype) ⟨⟨⟨F, addObject_wf hw hn⟩, by simp⟩,
    fun _ => (h.accounted.balanced hp).addObject hw hfresh type n, fun _ o ho => ?_,
    h.accounted.noUnderflow⟩ (by simp)
  have hne : o ≠ σ.numObjs := (Nat.lt_of_succ_le ho).ne'
  simpa [Kernel.addObject, hne] using hfresh o (Nat.le_of_succ_le ho)

end

end Lifetimes

theorem Initial.lifetimes {σ : Kernel} (h : Initial σ) : Lifetimes σ [] where
  accounted := h.accounted
  alive _ o := by
    have hlive := h.live o
    rw [← (h.counts o).1] at hlive
    congr 1
    rw [Bool.eq_iff_iff, hlive, decide_eq_true_iff]
  unnamed o ho := by rw [(h.fresh o ho).1]; exact ⟨rfl, rfl⟩

end IrisOS.Cap
