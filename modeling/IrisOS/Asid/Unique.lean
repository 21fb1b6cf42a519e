import IrisOS.Asid.Pool

/-! Address-space identifiers are unique: whoever holds one is its only holder, and a pool that is
there and owns it has it marked. -/
namespace IrisOS.Asid
open Lib Function State KAsidPool

/-! ## Pools -/

section
variable {p : KAsidPool} {id : ℕ}

def KAsidPool.owns (p : KAsidPool) (id : ℕ) : Prop := p.first ≤ id ∧ id < p.first + p.count

/-- The pool has marked an identifier of its own as used. -/
def KAsidPool.marks (p : KAsidPool) (id : ℕ) : Prop := p.used.testBit (id - p.first) = true

instance (p : KAsidPool) (id : ℕ) : Decidable (p.owns id) := by
  unfold KAsidPool.owns
  infer_instance

instance (p : KAsidPool) (id : ℕ) : Decidable (p.marks id) := by
  unfold KAsidPool.marks
  infer_instance

theorem kasidpoolTake_spec (h : (kasidpoolTake p).2 ≠ 0) :
    p.owns (kasidpoolTake p).2 ∧ ¬ p.marks (kasidpoolTake p).2 ∧
      (kasidpoolTake p).1.first = p.first ∧ (kasidpoolTake p).1.count = p.count ∧
      ∀ id, p.first ≤ id →
        ((kasidpoolTake p).1.marks id ↔ id = (kasidpoolTake p).2 ∨ p.marks id) := by
  unfold kasidpoolTake at h ⊢
  cases hfirst : p.used.firstClear p.count with
  | none => simp [hfirst] at h
  | some i =>
    obtain ⟨hlt, hclear, -⟩ := Words.firstClear_eq_some hfirst
    have hsub : p.first + i - p.first = i := by omega
    refine ⟨⟨Nat.le_add_right _ _, Nat.add_lt_add_left hlt _⟩, ?_, rfl, rfl, fun id hid => ?_⟩
    · unfold marks
      rw [hsub, hclear]
      exact Bool.false_ne_true
    unfold marks
    dsimp only
    rw [Words.testBit_setBit, Bool.or_eq_true, decide_eq_true_iff]
    refine or_congr_left ?_
    omega

theorem kasidpoolTake_le (hfirst : p.first ≠ 0) (hown : p.owns id) (hfree : ¬ p.marks id) :
    (kasidpoolTake p).2 ≠ 0 ∧ (kasidpoolTake p).2 ≤ id := by
  obtain ⟨hle, hlt⟩ := hown
  obtain ⟨k, hk, hsome⟩ := Words.firstClear_isSome (n := p.count) (i := id - p.first) (by omega)
    (Bool.eq_false_iff.mpr hfree)
  unfold kasidpoolTake
  rw [hsome]
  dsimp only
  omega

/-- What the takes from a pool hand out, one after the other. -/
def KAsidPool.nthTake (p : KAsidPool) : ℕ → ℕ
  | 0 => (kasidpoolTake p).2
  | n + 1 => (kasidpoolTake p).1.nthTake n

theorem nthTake_of_free (d : ℕ) (hfirst : p.first ≠ 0) (hown : p.owns id) (hfree : ¬ p.marks id)
    (hbefore : ∀ j, p.first ≤ j → j + d < id → p.marks j) : ∃ n, p.nthTake n = id := by
  induction d generalizing p with
  | zero =>
    obtain ⟨hne, hle⟩ := kasidpoolTake_le hfirst hown hfree
    obtain ⟨htown, htfree, -⟩ := kasidpoolTake_spec hne
    obtain heq | hlt := Nat.eq_or_lt_of_le hle
    · exact ⟨0, heq⟩
    · exact absurd (hbefore _ htown.1 hlt) htfree
  | succ d ih =>
    obtain ⟨hne, hle⟩ := kasidpoolTake_le hfirst hown hfree
    obtain ⟨htown, htfree, hf, hc, hmarks⟩ := kasidpoolTake_spec hne
    obtain heq | hlt := Nat.eq_or_lt_of_le hle
    · exact ⟨0, heq⟩
    have hown' : (kasidpoolTake p).1.owns id := by
      unfold owns
      rw [hf, hc]
      exact hown
    have hfree' : ¬ (kasidpoolTake p).1.marks id := by
      rw [hmarks id hown.1]
      rintro (rfl | hmarked)
      · exact Nat.lt_irrefl _ hlt
      · exact hfree hmarked
    have hfirst' : (kasidpoolTake p).1.first ≠ 0 := hf ▸ hfirst
    have hbefore' : ∀ j, (kasidpoolTake p).1.first ≤ j → j + d < id →
        (kasidpoolTake p).1.marks j := by
      intro j hj hjd
      rw [hf] at hj
      rw [hmarks j hj]
      -- only the place `id - (d + 1)` may have been free, and the take has marked it
      by_cases hlast : j + (d + 1) < id
      · exact .inr (hbefore j hj hlast)
      by_cases hjm : p.marks j
      · exact .inr hjm
      · have hjown : p.owns j := ⟨hj, by have := hown.2; omega⟩
        have hjle := (kasidpoolTake_le hfirst hjown hjm).2
        by_contra hlow
        exact htfree (hbefore _ htown.1 (by omega))
    obtain ⟨n, hn⟩ := ih hfirst' hown' hfree' hbefore'
    exact ⟨n + 1, hn⟩

theorem first_kasidpoolPut : (kasidpoolPut p id).first = p.first := by
  unfold kasidpoolPut
  split_ifs <;> rfl

theorem count_kasidpoolPut : (kasidpoolPut p id).count = p.count := by
  unfold kasidpoolPut
  split_ifs <;> rfl

theorem marks_kasidpoolPut {id' : ℕ} (hid : id ≠ 0) (hown : p.owns id') :
    (kasidpoolPut p id).marks id' ↔ id' ≠ id ∧ p.marks id' := by
  obtain ⟨hle, hlt⟩ := hown
  unfold kasidpoolPut
  rw [if_neg hid]
  split_ifs with hout
  · have hne : id' ≠ id := by omega
    simp [hne]
  unfold marks
  dsimp only
  rw [Words.testBit_clearBit, Bool.and_eq_true, decide_eq_true_iff]
  refine and_congr_left' ?_
  omega

end

/-! ## Holders -/

/-- Who can hold an identifier. -/
inductive Holder
  | space (v : ℕ)
  | caller (k : ℕ)
  deriving DecidableEq

/-- The identifier that somebody holds, with the address of the pool it will go back to. -/
def State.holding (s : State) : Holder → Option (Option Block × ℕ)
  | .space v =>
    match s.space v with
    | some vs => if vs.pcid = 0 then none else some (vs.asidPool, vs.pcid)
    | none => none
  | .caller k => (s.taken k).map fun x => (some x.1, x.2)

/-- The cursor without the carves that are still to be undone. -/
def State.floor (s : State) : ℕ := s.next - 128 * s.undo

/-- Pools own disjoint ranges below the cursor, and a holder is the only one and has its identifier
marked in its pool. -/
structure Sound (s : State) : Prop where
  pools : ∀ b p, s.pool b = some p → kasidFirst ≤ p.first ∧ p.count = kasidPoolSize ∧
    p.first + kasidPoolSize ≤ s.floor
  below : s.floor ≤ kasidLast + 1
  cursor : kasidFirst + 128 * s.undo ≤ s.next
  full : s.undo ≠ 0 → kasidLast < s.floor + kasidPoolSize - 1
  apart : ∀ b b' p p', s.pool b = some p → s.pool b' = some p' → b ≠ b' →
    p.first + p.count ≤ p'.first ∨ p'.first + p'.count ≤ p.first
  held : ∀ h b id, s.holding h = some (b, id) → 0 < id ∧ id < s.floor ∧
    ∀ b' p, s.pool b' = some p → p.owns id → b = some b' ∧ p.marks id
  only : ∀ h h' x x', s.holding h = some x → s.holding h' = some x' → x.2 = x'.2 → h = h'

section
variable {s s' : State} {b : Block} {id : ℕ} {p : KAsidPool}

variable {x : Option Block × ℕ} {h : Holder} {b' : Block} {g : Holder} {v : ℕ}

theorem holding_start (hx : ({} : State).holding h = some x) :
    h = .space 0 ∧ x = (none, kasidBootstrap) := by
  cases h with
  | caller k => cases hx
  | space v =>
    unfold holding at hx
    dsimp only at hx
    rw [update_apply] at hx
    by_cases hv : v = 0
    · subst hv
      cases hx
      exact ⟨rfl, rfl⟩
    · rw [if_neg hv] at hx
      cases hx

theorem sound_start : Sound {} where
  pools := nofun
  below := by decide
  cursor := by decide
  full := by decide
  apart := nofun
  held h b id hid := by
    obtain ⟨-, hx⟩ := holding_start hid
    cases hx
    exact ⟨by decide, by decide, nofun⟩
  only h h' x x' hx hx' _ := (holding_start hx).1.trans (holding_start hx').1.symm

theorem Sound.move (hs : Sound s) (hpool : s'.pool = s.pool) (hhold : s'.holding = s.holding)
    (hfloor : s'.floor = s.floor) (hcursor : kasidFirst + 128 * s'.undo ≤ s'.next)
    (hfull : s'.undo ≠ 0 → kasidLast < s'.floor + kasidPoolSize - 1) : Sound s' := by
  refine ⟨?_, ?_, hcursor, hfull, ?_, ?_, ?_⟩
  · rw [hpool, hfloor]
    exact hs.pools
  · rw [hfloor]
    exact hs.below
  · rw [hpool]
    exact hs.apart
  · rw [hhold, hpool, hfloor]
    exact hs.held
  · rw [hhold]
    exact hs.only

/-- The pools keep their ranges, so only the holders are to be looked at. -/
theorem Sound.rehold (hs : Sound s) (hnext : s'.next = s.next) (hundo : s'.undo = s.undo)
    (hrange : ∀ b q, s'.pool b = some q →
      ∃ p, s.pool b = some p ∧ q.first = p.first ∧ q.count = p.count)
    (hheld : ∀ h b id, s'.holding h = some (b, id) → 0 < id ∧ id < s.floor ∧
      ∀ b' p, s'.pool b' = some p → p.owns id → b = some b' ∧ p.marks id)
    (honly : ∀ h h' x x', s'.holding h = some x → s'.holding h' = some x' → x.2 = x'.2 → h = h') :
    Sound s' := by
  have hfloor : s'.floor = s.floor := by
    unfold floor
    rw [hnext, hundo]
  refine ⟨fun b q hq => ?_, hfloor ▸ hs.below, ?_, ?_, fun b1 b2 p1 p2 h1 h2 hne => ?_,
    hfloor ▸ hheld, honly⟩
  · obtain ⟨p, hp, hf, hc⟩ := hrange b q hq
    rw [hf, hc, hfloor]
    exact hs.pools b p hp
  · rw [hnext, hundo]
    exact hs.cursor
  · rw [hundo, hfloor]
    exact hs.full
  · obtain ⟨q1, hq1, hf1, hc1⟩ := hrange b1 p1 h1
    obtain ⟨q2, hq2, hf2, hc2⟩ := hrange b2 p2 h2
    rw [hf1, hc1, hf2, hc2]
    exact hs.apart b1 b2 q1 q2 hq1 hq2 hne

theorem Sound.shrink (hs : Sound s) (hpool : ∀ b p, s'.pool b = some p → s.pool b = some p)
    (hnext : s'.next = s.next) (hundo : s'.undo = s.undo)
    (hhold : ∀ h x, s'.holding h = some x → s.holding h = some x) : Sound s' := by
  refine hs.rehold hnext hundo (fun b q hq => ⟨q, hpool b q hq, rfl, rfl⟩) (fun h b id hid => ?_)
    fun h h' x x' hx hx' => hs.only h h' x x' (hhold h x hx) (hhold h' x' hx')
  obtain ⟨hpos, hlt, hmarks⟩ := hs.held h b id (hhold h _ hid)
  exact ⟨hpos, hlt, fun b' p hp => hmarks b' p (hpool b' p hp)⟩

theorem holding_put (s : State) (b : Block) (id : ℕ) : (s.put b id).holding = s.holding := by
  unfold put
  split <;> rfl

theorem put_zero (s : State) (b : Block) : s.put b 0 = s := by
  unfold put
  split
  · rfl
  · rename_i p hp
    change { s with pool := update s.pool b (some p) } = s
    rw [← hp, update_eq_self]

theorem pool_put (h : (s.put b id).pool b' = some p) :
    s.pool b' = some p ∨ b' = b ∧ ∃ p0, s.pool b' = some p0 ∧ p = kasidpoolPut p0 id := by
  unfold put at h
  split at h
  · exact .inl h
  rename_i p0 hp0
  rw [pool_setPool] at h
  split at h
  · rename_i hb
    subst hb
    exact .inr ⟨rfl, p0, hp0, (Option.some.inj h).symm⟩
  · exact .inl h

theorem range_put (h : (s.put b id).pool b' = some p) :
    ∃ p0, s.pool b' = some p0 ∧ p.first = p0.first ∧ p.count = p0.count := by
  obtain h | ⟨-, p0, hp0, rfl⟩ := pool_put h
  · exact ⟨p, h, rfl, rfl⟩
  · exact ⟨p0, hp0, first_kasidpoolPut, count_kasidpoolPut⟩

theorem next_put : (s.put b id).next = s.next := by
  unfold put
  split <;> rfl

theorem undo_put : (s.put b id).undo = s.undo := by
  unfold put
  split <;> rfl

theorem Sound.put (hs : Sound s) (hid : id ≠ 0) (hfree : ∀ h x, s.holding h = some x → x.2 ≠ id) :
    Sound (s.put b id) := by
  refine hs.rehold next_put undo_put (fun _ _ => range_put) (fun h b' id' hh => ?_) ?_
  · rw [holding_put] at hh
    obtain ⟨hpos, hlt, hmarks⟩ := hs.held h b' id' hh
    refine ⟨hpos, hlt, fun b1 p hp hown => ?_⟩
    obtain hp | ⟨-, p0, hp0, rfl⟩ := pool_put hp
    · exact hmarks b1 p hp hown
    have hown0 : p0.owns id' := by
      unfold owns at hown ⊢
      rwa [first_kasidpoolPut, count_kasidpoolPut] at hown
    obtain ⟨hb, hm⟩ := hmarks b1 p0 hp0 hown0
    exact ⟨hb, (marks_kasidpoolPut hid hown0).mpr ⟨hfree h _ hh, hm⟩⟩
  · rw [holding_put]
    exact hs.only

theorem Sound.gain (hs : Sound s) (hp : s.pool b = some p) (hid : (kasidpoolTake p).2 ≠ 0)
    (hpool : s'.pool = update s.pool b (some (kasidpoolTake p).1))
    (hnext : s'.next = s.next) (hundo : s'.undo = s.undo) (hhold : ∀ h x, s'.holding h = some x →
      h = g ∧ x = (some b, (kasidpoolTake p).2) ∨ h ≠ g ∧ s.holding h = some x) : Sound s' := by
  obtain ⟨hown, hfree, hf, hc, hmarks⟩ := kasidpoolTake_spec hid
  obtain ⟨hfirst, hcount, hend⟩ := hs.pools b p hp
  -- a pool after the take has the range of the pool before it at the same address
  have hrange : ∀ b' q, s'.pool b' = some q →
      ∃ q0, s.pool b' = some q0 ∧ q.first = q0.first ∧ q.count = q0.count := by
    intro b' q hq
    rw [hpool] at hq
    by_cases hb : b' = b
    · subst hb
      rw [update_self] at hq
      cases hq
      exact ⟨p, hp, hf, hc⟩
    · rw [update_of_ne hb] at hq
      exact ⟨q, hq, rfl, rfl⟩
  have hnew : ∀ h x, s.holding h = some x → x.2 ≠ (kasidpoolTake p).2 := by
    intro h x hx heq
    have := ((hs.held h x.1 x.2 hx).2.2 b p hp (heq ▸ hown)).2
    rw [heq] at this
    exact hfree this
  refine hs.rehold hnext hundo hrange (fun h b' id' hh => ?_) fun h h' x x' hx hx' heq => ?_
  · rw [hpool]
    obtain ⟨-, hx⟩ | ⟨-, hh⟩ := hhold h _ hh
    · cases hx
      obtain ⟨hlo, hhi⟩ := hown
      refine ⟨Nat.pos_of_ne_zero hid, by omega, fun b' q hq hq' => ?_⟩
      by_cases hb : b' = b
      · subst hb
        rw [update_self] at hq
        cases hq
        exact ⟨rfl, (hmarks _ hlo).mpr (.inl rfl)⟩
      · rw [update_of_ne hb] at hq
        have hapart := hs.apart b' b q p hq hp hb
        unfold owns at hq'
        omega
    · obtain ⟨hpos, hlt, hheld⟩ := hs.held h b' id' hh
      refine ⟨hpos, hlt, fun b'' q hq hq' => ?_⟩
      by_cases hb : b'' = b
      · subst hb
        rw [update_self] at hq
        cases hq
        unfold owns at hq'
        rw [hf, hc] at hq'
        obtain ⟨hat, hm⟩ := hheld b'' p hp hq'
        exact ⟨hat, (hmarks _ hq'.1).mpr (.inr hm)⟩
      · rw [update_of_ne hb] at hq
        exact hheld b'' q hq hq'
  · obtain ⟨rfl, rfl⟩ | ⟨-, hh⟩ := hhold h x hx
    · obtain ⟨rfl, -⟩ | ⟨-, hh'⟩ := hhold h' x' hx'
      · rfl
      · exact absurd heq.symm (hnew h' x' hh')
    · obtain ⟨-, rfl⟩ | ⟨-, hh'⟩ := hhold h' x' hx'
      · exact absurd heq (hnew h x hh)
      · exact hs.only h h' x x' hh hh' heq

theorem Sound.release (hs : Sound s) (hg : s.holding g = some (some b, id))
    (hpool : s'.pool = s.pool) (hnext : s'.next = s.next) (hundo : s'.undo = s.undo)
    (hhold : ∀ h x, s'.holding h = some x → h ≠ g ∧ s.holding h = some x) : Sound (s'.put b id) :=
  (hs.shrink (by simp [hpool]) hnext hundo fun h x hx => (hhold h x hx).2).put
    (Nat.pos_iff_ne_zero.mp (hs.held g _ id hg).1) fun h x hx heq =>
      (hhold h x hx).1 (hs.only h g x _ (hhold h x hx).2 hg heq)

theorem holding_setSpace {y : Option KVSpace} (hx : (s.setSpace v y).holding h = some x) :
    h ≠ .space v ∧ s.holding h = some x ∨
      h = .space v ∧ ∃ vs, y = some vs ∧ vs.pcid ≠ 0 ∧ x = (vs.asidPool, vs.pcid) := by
  cases h with
  | caller k => exact .inl ⟨nofun, hx⟩
  | space v' =>
    unfold holding at hx ⊢
    dsimp only at hx ⊢
    rw [space_setSpace] at hx
    by_cases hv : v' = v
    · subst hv
      rw [if_pos rfl] at hx
      cases y with
      | none => cases hx
      | some vs =>
        dsimp only at hx
        split at hx
        · cases hx
        · rename_i hpcid
          cases hx
          exact .inr ⟨rfl, vs, rfl, hpcid, rfl⟩
    · rw [if_neg hv] at hx
      exact .inl ⟨fun heq => hv (Holder.space.inj heq), hx⟩

theorem holding_setSpace_idle {y : Option KVSpace} (hy : ∀ vs, y = some vs → vs.pcid = 0)
    (hx : (s.setSpace v y).holding h = some x) : h ≠ .space v ∧ s.holding h = some x := by
  obtain hx | ⟨-, vs, hvs, hpcid, -⟩ := holding_setSpace hx
  · exact hx
  · exact absurd (hy vs hvs) hpcid

theorem Sound.idle (hs : Sound s) {y : Option KVSpace} (hy : ∀ vs, y = some vs → vs.pcid = 0) :
    Sound (s.setSpace v y) :=
  hs.shrink (fun _ _ hp => hp) rfl rfl fun _ _ hx => (holding_setSpace_idle hy hx).2

theorem holding_setTaken {k : ℕ} {y : Option (Block × ℕ)}
    (hx : (s.setTaken k y).holding h = some x) :
    h ≠ .caller k ∧ s.holding h = some x ∨
      h = .caller k ∧ ∃ z, y = some z ∧ x = (some z.1, z.2) := by
  cases h with
  | space v => exact .inl ⟨nofun, hx⟩
  | caller k' =>
    unfold holding at hx ⊢
    dsimp only at hx ⊢
    rw [taken_setTaken] at hx
    by_cases hk : k' = k
    · subst hk
      rw [if_pos rfl, Option.map_eq_some_iff] at hx
      obtain ⟨z, hz, hzx⟩ := hx
      exact .inr ⟨rfl, z, hz, hzx.symm⟩
    · rw [if_neg hk] at hx
      exact .inl ⟨fun heq => hk (Holder.caller.inj heq), hx⟩

theorem holding_space {vs : KVSpace} (hvs : s.space v = some vs) (hpcid : vs.pcid ≠ 0) :
    s.holding (.space v) = some (vs.asidPool, vs.pcid) := by
  unfold holding
  dsimp only
  rw [hvs]
  exact if_neg hpcid

section

variable (hs : Sound s)
include hs

theorem sound_kvspaceUnassignAsid (v : ℕ) : Sound (kvspaceUnassignAsid s v) := by
  unfold kvspaceUnassignAsid
  split
  · exact hs
  rename_i vs hvs
  have hidle : ∀ vs', some { vs with pcid := 0, asidPool := none } = some vs' → vs'.pcid = 0 := by
    rintro _ ⟨⟩
    rfl
  split
  · rename_i b hb
    split_ifs with hpcid
    · refine hs.release ?_ rfl rfl rfl fun _ _ => holding_setSpace_idle hidle
      rw [holding_space hvs hpcid, hb]
    · exact hs.idle hidle
  · exact hs.idle hidle

theorem sound_kvspaceSettle (v : ℕ) : Sound (kvspaceSettle s v) := by
  unfold kvspaceSettle
  split
  · exact hs
  rename_i vs hvs
  have hidle : ∀ vs : KVSpace, none = some vs → vs.pcid = 0 := nofun
  split
  · rename_i b hb
    by_cases hpcid : vs.pcid = 0
    · rw [hpcid, put_zero]
      exact hs.idle hidle
    · refine hs.release ?_ rfl rfl rfl fun _ _ => holding_setSpace_idle hidle
      rw [holding_space hvs hpcid, hb]
  · exact hs.idle hidle

theorem sound_kvspaceAssignAsid (v : ℕ) (b : Block) : Sound (kvspaceAssignAsid s v b).1 := by
  unfold kvspaceAssignAsid
  split
  swap
  · exact hs
  rename_i vs p hvs hp
  split
  · exact hs
  split
  · exact hs
  dsimp only
  split
  · exact hs
  rename_i hid
  refine hs.gain hp hid (g := .space v) rfl rfl rfl fun h x hx => ?_
  obtain hx | ⟨rfl, vs', hvs', -, rfl⟩ := holding_setSpace hx
  · exact .inr hx
  · cases hvs'
    exact .inl ⟨rfl, rfl⟩

theorem sound_sysAsidPoolAssign (v : ℕ) (b : Block) (installed : Bool) :
    Sound (sysAsidPoolAssign s v b installed) := by
  unfold sysAsidPoolAssign
  dsimp only
  split
  · exact sound_kvspaceUnassignAsid (sound_kvspaceAssignAsid hs v b) v
  · exact sound_kvspaceAssignAsid hs v b

theorem sound_kasidpoolCarve (hfree : s.pool b = none) : Sound (kasidpoolCarve s b) := by
  have hsize : kasidPoolSize = 128 := rfl
  have hcur := hs.cursor
  have hfull := hs.full
  unfold kasidpoolCarve
  split_ifs with hover
  · have hfloor : ({ s with next := s.next + kasidPoolSize, undo := s.undo + 1 } : State).floor =
        s.floor := by
      unfold floor
      dsimp only
      omega
    refine hs.move rfl rfl hfloor ?_ fun _ => ?_
    · dsimp only
      omega
    · rw [hfloor]
      unfold floor at hfull ⊢
      omega
  · -- nothing is to be undone, so the range starts at the floor
    have hundo : s.undo = 0 := by
      by_contra hne
      have := hfull hne
      unfold floor at this
      omega
    have hfloor : s.floor = s.next := by
      unfold floor
      omega
    generalize hs' : setPool _ _ _ = s'
    have hfloor' : s'.floor = s.next + kasidPoolSize := by
      subst hs'
      unfold floor setPool
      dsimp only
      omega
    have hpool : ∀ b' p, s'.pool b' = some p → b' = b ∧ p.first = s.next ∧ p.count = kasidPoolSize ∨
        b' ≠ b ∧ s.pool b' = some p := by
      intro b' p hp
      subst hs'
      rw [pool_setPool] at hp
      split at hp
      · rename_i hb
        cases hp
        exact .inl ⟨hb, rfl, rfl⟩
      · rename_i hb
        exact .inr ⟨hb, hp⟩
    have hhold : s'.holding = s.holding := hs' ▸ rfl
    refine ⟨fun b' p hp => ?_, by omega, ?_, fun hne => ?_, fun b1 b2 p1 p2 h1 h2 hne => ?_,
      fun h b' id hh => ?_, hhold ▸ hs.only⟩
    · obtain ⟨-, hf, hc⟩ | ⟨-, hp⟩ := hpool b' p hp
      · rw [hf, hc, hfloor']
        exact ⟨by omega, rfl, Nat.le_refl _⟩
      · obtain ⟨h1, h2, h3⟩ := hs.pools b' p hp
        exact ⟨h1, h2, by omega⟩
    · subst hs'
      change kasidFirst + 128 * s.undo ≤ s.next + kasidPoolSize
      omega
    · subst hs'
      exact absurd hundo hne
    · obtain ⟨rfl, hf1, hc1⟩ | ⟨hb1, hp1⟩ := hpool b1 p1 h1
      · obtain ⟨rfl, -⟩ | ⟨-, hp2⟩ := hpool b2 p2 h2
        · exact absurd rfl hne
        · obtain ⟨-, hc2, hend⟩ := hs.pools b2 p2 hp2
          omega
      · obtain ⟨-, hc1, hend⟩ := hs.pools b1 p1 hp1
        obtain ⟨rfl, hf2, hc2⟩ | ⟨-, hp2⟩ := hpool b2 p2 h2
        · omega
        · exact hs.apart b1 b2 p1 p2 hp1 hp2 hne
    · rw [hhold] at hh
      obtain ⟨hpos, hlt, hheld⟩ := hs.held h b' id hh
      refine ⟨hpos, by omega, fun b'' p hp hown => ?_⟩
      obtain ⟨-, hf, -⟩ | ⟨-, hp⟩ := hpool b'' p hp
      · have := hown.1
        omega
      · exact hheld b'' p hp hown

theorem sound_act (e : Event) : Sound (act s e) := by
  unfold act
  cases e with
  | carve b =>
    dsimp only
    split
    · exact hs
    · rename_i hfree
      exact sound_kasidpoolCarve hs (Option.not_isSome_iff_eq_none.mp hfree)
  | carveUndo =>
    dsimp only
    split
    · exact hs
    rename_i hundo
    have hsize : kasidPoolSize = 128 := rfl
    have hcur := hs.cursor
    have hfull := hs.full hundo
    unfold kasidpoolCarveUndo
    generalize hnext : s.next - kasidPoolSize = next, hless : s.undo - 1 = undo
    have hfloor : ({ s with next := next, undo := undo } : State).floor = s.floor := by
      unfold floor
      dsimp only
      omega
    refine hs.move rfl rfl hfloor ?_ fun _ => ?_
    · dsimp only
      omega
    · rw [hfloor]
      exact hfull
  | destroyPool b =>
    refine hs.shrink (fun b' p hp => ?_) rfl rfl fun _ _ => id
    rw [pool_setPool] at hp
    split at hp
    · cases hp
    · exact hp
  | create v =>
    dsimp only
    split
    · exact hs
    refine hs.idle ?_
    rintro _ ⟨⟩
    rfl
  | assign v b installed => exact sound_sysAsidPoolAssign hs v b installed
  | unassign v => exact sound_kvspaceUnassignAsid hs v
  | invalidate v =>
    refine hs.shrink (fun _ _ hp => hp) rfl rfl fun h x hx => ?_
    obtain hx | ⟨rfl, vs, hvs, hpcid, rfl⟩ := holding_setSpace hx
    · exact hx.2
    · obtain ⟨vs0, hvs0, rfl⟩ := Option.map_eq_some_iff.mp hvs
      have hheld : s.holding (.space v) = some (vs0.asidPool, vs0.pcid) := holding_space hvs0 hpcid
      exact hheld
  | settle v => exact sound_kvspaceSettle hs v
  | take b k =>
    dsimp only
    split
    · exact hs
    rename_i p hp
    split
    · exact hs
    split
    · exact hs
    rename_i hid
    refine hs.gain hp hid (g := .caller k) rfl rfl rfl fun h x hx => ?_
    obtain hx | ⟨rfl, z, hz, rfl⟩ := holding_setTaken hx
    · exact .inr hx
    · cases hz
      exact .inl ⟨rfl, rfl⟩
  | put k =>
    dsimp only
    split
    · exact hs
    rename_i b id hk
    refine hs.release (g := .caller k) ?_ rfl rfl rfl fun h x hx => ?_
    · unfold holding
      dsimp only
      rw [hk]
      rfl
    · obtain hx | ⟨-, z, hz, -⟩ := holding_setTaken hx
      · exact hx
      · cases hz

end

end

/-! ## Runs -/

def State.Unheld (s : State) (id : ℕ) : Prop := ∀ h x, s.holding h = some x → x.2 ≠ id

/-- The pool at an address will hand out an identifier again. -/
def State.Available (s : State) (b : Block) (id : ℕ) : Prop :=
  ∃ p, s.pool b = some p ∧ ∃ n, p.nthTake n = id

theorem available_put {s : State} (hs : Sound s) {b : Block} {id : ℕ}
    (hp : s.pool b = some p) (hown : p.owns id) : (s.put b id).Available b id := by
  have hfirst : 2 ≤ p.first := (hs.pools b p hp).1
  have hpos : p.first ≠ 0 := by omega
  have hid : id ≠ 0 := by
    have := hown.1
    omega
  have hfree : ¬ (kasidpoolPut p id).marks id := fun h => ((marks_kasidpoolPut hid hown).mp h).1 rfl
  have hown' : (kasidpoolPut p id).owns id := by
    unfold owns
    rw [first_kasidpoolPut, count_kasidpoolPut]
    exact hown
  refine ⟨kasidpoolPut p id, ?_, nthTake_of_free id (first_kasidpoolPut.symm ▸ hpos) hown' hfree
    fun j _ hj => absurd hj (Nat.not_lt.mpr (Nat.le_add_left _ _))⟩
  unfold put
  rw [hp]
  exact (pool_setPool _ _ _ _).trans (if_pos rfl)

/-- No two live address spaces share an identifier, pools own disjoint ranges, a take hands out an
identifier nobody holds, and one that is given back is available again. -/
theorem asids_are_unique (es : List Event) :
    let s := runFrom act {} es
    (∀ v v' vs vs', s.space v = some vs → s.space v' = some vs' → vs.pcid ≠ 0 →
      vs.pcid = vs'.pcid → v = v') ∧
    (∀ b b' p p' id, s.pool b = some p → s.pool b' = some p' → p.owns id → p'.owns id → b = b') ∧
    (∀ b p, s.pool b = some p → (kasidpoolTake p).2 ≠ 0 →
      p.owns (kasidpoolTake p).2 ∧ s.Unheld (kasidpoolTake p).2) ∧
    (∀ v vs b p, s.space v = some vs → vs.asidPool = some b → s.pool b = some p →
      p.owns vs.pcid →
        (act s (.unassign v)).Available b vs.pcid ∧ (act s (.settle v)).Available b vs.pcid) ∧
    (∀ k b p id, s.taken k = some (b, id) → s.pool b = some p → p.owns id →
      (act s (.put k)).Available b id) := by
  intro s
  have hs : Sound s := runFrom_keeps sound_start (fun _ e hs => sound_act hs e) es
  refine ⟨fun v v' vs vs' hv hv' hpcid heq => ?_, fun b b' p p' id hp hp' hown hown' => ?_,
    fun b p hp hid => ?_, fun v vs b p hv hb hp hown => ?_, fun k b p id hk hp hown => ?_⟩
  · have h := holding_space hv hpcid
    have h' := holding_space hv' (heq ▸ hpcid)
    exact Holder.space.inj (hs.only _ _ _ _ h h' heq)
  · by_contra hne
    have hapart := hs.apart b b' p p' hp hp' hne
    unfold owns at hown hown'
    omega
  · obtain ⟨hown, hfree, -⟩ := kasidpoolTake_spec hid
    refine ⟨hown, fun h x hx heq => hfree ?_⟩
    have hmarks := ((hs.held h x.1 x.2 hx).2.2 b p hp (heq ▸ hown)).2
    rwa [heq] at hmarks
  · have hpos : vs.pcid ≠ 0 := by
      have hfirst : 2 ≤ p.first := (hs.pools b p hp).1
      have hle := hown.1
      omega
    constructor
    · have hunassign : act s (.unassign v) =
          (s.setSpace v (some { vs with pcid := 0, asidPool := none })).put b vs.pcid := by
        unfold act kvspaceUnassignAsid
        dsimp only
        rw [hv]
        dsimp only
        rw [hb]
        exact if_pos hpos
      rw [hunassign]
      refine available_put (hs.idle ?_) hp hown
      rintro vs' ⟨⟩
      rfl
    · have hsettle : act s (.settle v) = (s.setSpace v none).put b vs.pcid := by
        unfold act kvspaceSettle
        dsimp only
        rw [hv]
        dsimp only
        rw [hb]
      rw [hsettle]
      exact available_put (hs.idle (y := none) nofun) hp hown
  · have hput : act s (.put k) = (s.setTaken k none).put b id := by
      unfold act
      dsimp only
      rw [hk]
    rw [hput]
    refine available_put (s := s.setTaken k none)
      (hs.shrink (fun _ _ hp => hp) rfl rfl fun h x hx => ?_) hp hown
    obtain hx | ⟨-, z, hz, -⟩ := holding_setTaken hx
    · exact hx.2
    · cases hz

end IrisOS.Asid
