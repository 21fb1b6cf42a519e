import IrisOS.Cap.Slices

/-! The depth of a teardown. A CNode closed while a drain is running is put on the list, so calls
are nested to a fixed depth: a call has a larger rank than every call it can issue. -/
namespace IrisOS.Cap
open Lib Kernel List Account Call

/-- The second call goes on with the loop of the first. -/
def Call.continues : Call → Call → Bool
  | .emptySlots _ _, .emptySlots _ _ | .objDestroy _ _, .objDestroy _ _
  | .cascadeDrain _ _, .cascadeDrain _ _ | .revokeLoop _ _ _ _, .revokeLoop _ _ _ _ => true
  | _, _ => false

/-- How deep the calls below a call can be nested. A closed object's destruction finds nothing left.
-/
def Call.rank (σ₀ : Kernel) (inside : Bool) : Call → ℕ
  | .release o => if 0 < (σ₀.objs o).activeRefs then 2 else 11
  | .dispatchDestroy o => if 0 < (σ₀.objs o).activeRefs then 1 else 10
  | .objDestroy o _ => if 0 < (σ₀.objs o).activeRefs then 0 else 9
  | .slotDropOld _ old => if 0 < (σ₀.objs old).activeRefs then (if inside then 3 else 8) else 12
  | .activeRelease _ => if inside then 1 else 7
  | .dispatchClose _ => if inside then 0 else 6
  | .cascadeDrain _ _ => 5
  | .emptySlots cn _ => if inside ∧ 0 < (σ₀.objs cn).activeRefs then 4 else 13
  | .finaliseOrphans _ | .storageFree _ => 0
  | .slotDelete _ _ | .revokeLoop _ _ _ _ | .heldActiveRelease _ | .heldRelease _ => 13

def teardownDepth : ℕ := 13

/-- Every call on the stack leaves room for those below it. -/
def Shallow (σ₀ : Kernel) : List (ℕ × Call) → Prop
  | [] => True
  | p :: k => p.1 + p.2.rank σ₀ (k.any fun q => q.2.isDrain) ≤ teardownDepth ∧ Shallow σ₀ k

section
variable {σ₀ σ : Kernel} {R : SlotRef → Prop} {f : Call} {k : List Call} {o cn : ObjId}

theorem Tearing.activeRefs_eq_zero (h : Tearing σ₀ R σ k)
    (hheld : ∀ o, (σ₀.held o).active ≤ (σ₀.held o).refs) (ho : (σ.objs o).refcount = 0) :
    (σ.objs o).activeRefs = 0 := by
  have hrefs : (σ.objs o).refcount = _ := (h.accounted .refs).balanced h.panic o
  have hactive : (σ.objs o).activeRefs = _ := (h.accounted .active).balanced h.panic o
  have hslots := active.slots_le σ o
  have hdue : active.dueSum o k = 0 := by
    refine sum_eq_zero fun n hn => ?_
    obtain ⟨g, hg, rfl⟩ := mem_map.mp hn
    cases g with
    | slotDropOld cn' old =>
      have hle := refs.due_le_dueSum o hg
      simp only [Account.due] at hle ⊢
      by_cases hold : old = o
      · simp only [hold, decide_true, Bool.toNat_true] at hle
        omega
      · simp [hold]
    | activeRelease x =>
      by_cases hx : x = o
      · have hpos := h.refcount_pos (o := o) hg (by simp [Call.guarded, hx])
        omega
      · simp [Account.due, hx]
    | _ => rfl
  have hle := hheld o
  simp only [Account.held, Account.queued, h.held] at hrefs hactive
  omega

theorem Tearing.refcount_eq_zero (h : Tearing σ₀ R σ (f :: k)) (hf : f.destroys o = true) :
    (σ.objs o).refcount = 0 := by
  have halive := h.alive o
  have hle := Bool.toNat_le (σ.objs o).live
  rw [countP_cons_of_pos hf] at halive
  by_contra hne
  simp only [Nat.pos_of_ne_zero hne, decide_true, Bool.toNat_true] at halive
  omega

theorem Draining.free_of_destroys (h : Draining σ₀ R σ (f :: k))
    (hheld : ∀ o, (σ₀.held o).active ≤ (σ₀.held o).refs) (hf : f.destroys o = true)
    (hpos : 0 < (σ₀.objs o).activeRefs) (i : ℕ) : σ.occupied (.slot o i) = false := by
  have hzero := h.toTearing.refcount_eq_zero hf
  have hactive := h.toTearing.activeRefs_eq_zero hheld hzero
  rcases h.owed .active o hpos hactive with ⟨g, hg, hemp⟩ | ⟨-, hmem⟩ | hfree
  · have hguard : g.guarded = some o := by
      cases g with
      | dispatchClose x => exact congrArg some hemp
      | emptySlots x j => exact congrArg some hemp.1
      | _ => exact hemp.elim
    have hle := h.refcount_pos hg hguard
    omega
  · have hbal : (σ.objs o).refcount = _ := (h.accounted .refs).balanced h.panic o
    have hcount := count_pos_iff.mpr hmem
    simp only [queued] at hbal
    omega
  · exact hfree i

theorem Draining.activeRefs_pos (h : Draining σ₀ R σ k)
    (hslots : ∀ o, Account.active.slots σ₀ o ≤ (σ₀.objs o).activeRefs) {i : ℕ}
    (hs : (σ.slots (.slot cn i)).object = some o) (ho : o ≠ cn) : 0 < (σ₀.objs o).activeRefs := by
  obtain ⟨F0, F, hw0, -, -⟩ := h.pruned
  have hnames : σ₀.names o (.slot cn i) = true := by
    have hocc : σ.occupied (.slot cn i) = true := by rw [occupied, hs, Option.isSome_some]
    rw [names_iff, ← h.slots_eq hocc, hs]
  have hmem := hw0.mem_allSlots (hw0.mem (occupied_of_names hnames))
  have hpos : 0 < active.slots σ₀ o :=
    countP_pos_iff.mpr ⟨_, hmem, by simp [hnames, counts, ho]⟩
  exact lt_of_lt_of_le hpos (hslots o)

theorem Tearing.not_named (h : Tearing σ₀ R σ (f :: k)) (hf : f.destroys o = true) {s : SlotRef} :
    (σ.slots s).object ≠ some o := by
  intro hs
  obtain ⟨F0, F, -, hw, -⟩ := h.pruned
  have hnames : σ.names o s = true := names_iff.mpr hs
  have hmem := hw.mem_allSlots (hw.mem (occupied_of_names hnames))
  have hpos : 0 < refs.slots σ o :=
    countP_pos_iff.mpr ⟨_, hmem, by simp [hnames, counts]⟩
  have hbal : (σ.objs o).refcount = _ := (h.accounted .refs).balanced h.panic o
  have hzero := h.refcount_eq_zero hf
  omega

theorem rank_issues (h : Draining σ₀ R σ (f :: k))
    (hheld : ∀ o, (σ₀.held o).active ≤ (σ₀.held o).refs)
    (hslots : ∀ o, Account.active.slots σ₀ o ≤ (σ₀.objs o).activeRefs) (hf : f.drives = false)
    {g : Call} (hg : Issues inertHooks σ f g) (b : Bool) :
    (if f.continues g then 0 else 1) + g.rank σ₀ b ≤ f.rank σ₀ b := by
  have hdue := h.due f mem_cons_self
  cases hg with
  | deleteOld | heldActive | heldRef => exact hdue.elim
  | cascadeEmpty | cascadeDrain | drainEmpty | drainRelease | drainNext => cases hf
  | orphansHook hc | closeHook hc | destroyHook hc => cases hc
  | dropActive | dropOrphans | dropRef | close | destroy | objDestroy | storageFree
  | revokeOld | revokeNext | emptyNext | destroyNext =>
    simp only [continues, rank]
    split_ifs <;> simp_all
  | @emptyOld cn idx old hs =>
    simp only [continues, rank]
    by_cases hcn : 0 < (σ₀.objs cn).activeRefs
    · have hold : 0 < (σ₀.objs old).activeRefs := by
        by_cases ho : old = cn
        · exact ho ▸ hcn
        · exact h.activeRefs_pos hslots hs ho
      split_ifs <;> simp_all
    · simp only [hcn, and_false, if_false]
      split_ifs <;> simp
  | @destroyOld cn idx old hs =>
    have hcn : ¬ 0 < (σ₀.objs cn).activeRefs := by
      intro hpos
      have hfree := h.free_of_destroys hheld (o := cn) (by simp [destroys]) hpos idx
      simp [occupied, hs] at hfree
    have hne : old ≠ cn := by
      rintro rfl
      exact h.not_named (by simp [destroys]) hs
    have hold := h.activeRefs_pos hslots hs hne
    simp only [continues, rank, hcn, hold, if_true, if_false]
    split_ifs <;> simp

variable {k : List (ℕ × Call)} {τ : Kernel} {d : ℕ}

theorem shallow_cons : Shallow σ₀ ((d, f) :: k) ↔
    d + f.rank σ₀ (k.any fun q => q.2.isDrain) ≤ teardownDepth ∧ Shallow σ₀ k := Iff.rfl

theorem Shallow.append {l k : List (ℕ × Call)} (hk : Shallow σ₀ k)
    (hl : ∀ p ∈ l, p.2.isDrain = false ∧
      p.1 + p.2.rank σ₀ (k.any fun q => q.2.isDrain) ≤ teardownDepth) : Shallow σ₀ (l ++ k) := by
  induction l with
  | nil => exact hk
  | cons p l ih =>
    rw [cons_append]
    refine shallow_cons.mpr ⟨?_, ih fun q hq => hl q (mem_cons_of_mem p hq)⟩
    have hnone : (l.any fun q => q.2.isDrain) = false := by
      refine any_eq_false.mpr fun q hq => ?_
      simp [(hl q (mem_cons_of_mem p hq)).1]
    rw [any_append, hnone, Bool.false_or]
    exact (hl p mem_cons_self).2

theorem Kernel.Loses.activeRefs_pos (h : σ₀.Loses R .active o) : 0 < (σ₀.objs o).activeRefs :=
  Nat.pos_of_ne_zero fun hzero => h.1 (.inl hzero)

theorem Shallow.call {F : Forest SlotRef} {l : List Call}
    (h : Draining σ₀ R σ (f :: k.map Prod.snd)) (hr : Outcome inertHooks σ F f τ l)
    (hheld : ∀ o, (σ₀.held o).active ≤ (σ₀.held o).refs)
    (hslots : ∀ o, Account.active.slots σ₀ o ≤ (σ₀.objs o).activeRefs)
    (hS : Shallow σ₀ ((d, f) :: k)) :
    Shallow σ₀ (CallMachine.nested Call.continues d f l ++ k) := by
  obtain ⟨hroom, hk⟩ := shallow_cons.mp hS
  cases hf : f.drives with
  | false =>
    refine hk.append fun p hp => ?_
    obtain ⟨g, hg, rfl⟩ := mem_map.mp hp
    have hnone := countP_eq_zero.mp (hr.isDrain hf) g hg
    have hrank := rank_issues h hheld hslots hf (hr.issues hg) (k.any fun q => q.2.isDrain)
    refine ⟨by simpa using hnone, ?_⟩
    dsimp only
    split_ifs at hrank ⊢ <;> omega
  | true =>
    have hdrain := h.drain
    have hany : (k.any fun q => q.2.isDrain) = true ↔ 0 < (k.map Prod.snd).countP isDrain := by
      rw [countP_map, countP_pos_iff, any_eq_true]
      rfl
    cases hr with
    | pass hp => cases f <;> cases hp <;> cases hf
    | blank hd | delete hd => cases hd <;> cases hf
    | queued | resurrect | queue | drained => exact hk
    | close _ hl =>
      cases eq_nil_iff_forall_not_mem.mpr fun c hc => nomatch hl c hc
      exact hk
    | cascade _ hrun =>
      have hpos := Loses.activeRefs_pos (h.due _ mem_cons_self)
      have hcount : (k.map Prod.snd).countP isDrain = 0 := by
        simpa [isDrain, hrun] using hdrain.symm
      have hout : (k.any fun q => q.2.isDrain) = false := by
        rw [Bool.eq_false_iff, Ne, hany, hcount]
        omega
      simp only [hout, rank, Bool.false_eq_true, if_false] at hroom
      simp only [CallMachine.nested, map_cons, map_nil, continues,
        Bool.false_eq_true, if_false, cons_append, nil_append]
      refine shallow_cons.mpr ⟨?_, shallow_cons.mpr ⟨?_, hk⟩⟩
      · simp only [rank, any_cons, isDrain, Bool.true_or, hpos, and_self, if_true]
        omega
      · simp only [rank]
        omega
    | @drain _ _ o _ hc =>
      have hpos := Loses.activeRefs_pos (h.queue o (by simp [hc]))
      simp only [rank] at hroom
      simp only [CallMachine.nested, map_cons, map_nil, continues,
        Bool.false_eq_true, if_false, if_true, cons_append, nil_append]
      refine shallow_cons.mpr ⟨?_, shallow_cons.mpr ⟨?_, shallow_cons.mpr ⟨?_, hk⟩⟩⟩
      · simp only [rank, any_cons, isDrain, Bool.true_or, Bool.or_true, hpos,
          and_self, if_true]
        omega
      · simp only [rank, hpos, if_true]
        omega
      · exact hroom
    | _ => cases hf

theorem Draining.within (h : Draining σ₀ R σ (k.map Prod.snd))
    (hheld : ∀ o, (σ₀.held o).active ≤ (σ₀.held o).refs)
    (hslots : ∀ o, Account.active.slots σ₀ o ≤ (σ₀.objs o).activeRefs) (hS : Shallow σ₀ k)
    (hret : (machine inertHooks).Returns σ (k.map Prod.snd) τ) :
    (machine inertHooks).Within Call.continues teardownDepth σ k := by
  refine CallMachine.Returns.within
    (I := fun s l => Draining σ₀ R s (l.map Prod.snd) ∧ Shallow σ₀ l) ?_ hret ⟨h, hS⟩
  rintro s d f l - ⟨hdrain, hshallow⟩
  have hcall := hdrain.call
  obtain ⟨F0, F, -, hw, -⟩ := hdrain.pruned
  have hnext := hshallow.call hdrain (perform_outcome inertHooks hw f) hheld hslots
  rw [(hdrain.body_eq inertHooks).1] at hcall ⊢
  refine ⟨?_, ?_, hnext⟩
  · have hroom := hshallow.1
    omega
  · rw [map_append, CallMachine.map_snd_nested]
    exact hcall

end
end IrisOS.Cap
