import IrisOS.Timer.Service
import Mathlib.Order.Nat

/-! The promises of the timer service: every record of the history is compared with the arming it
belongs to, and the rows in use carry the promises still open. -/
namespace IrisOS.Timer

open List Option Function Service
open Lib (runFrom Meets)

/-- The arming that a record ends. -/
def Record.closes : Record → Option ℕ
  | .armed _ => none
  | .signalled n _ _ _ => some n
  | .cancelled n _ _ => some n

/-- A signal has the promise's notification and bits, a cancel its token and badge. -/
def Promise.Owns (p : Promise) : Record → Prop
  | .armed _ => True
  | .signalled _ target bits _ => target = some p.notification ∧ bits = p.bits
  | .cancelled _ token badge => token = p.token ∧ badge = p.badge

/-- A record does not signal a promise before it is due. -/
def Promise.DueBy (p : Promise) : Record → Prop
  | .signalled _ _ _ now => p.time.toNat + p.delay.toNat ≤ now.toNat
  | _ => True

/-- The row and its client slot hold what was asked and, where deadlines are exact, the deadline. -/
structure Open (exact : Prop) (s : Service) (p : Promise) : Prop where
  used : (s.timers p.slot).used = true
  generation : (s.timers p.slot).generation = p.generation
  serial : (s.timers p.slot).serial = p.serial
  bits : (s.timers p.slot).bits = p.bits
  owner : (s.timers p.slot).owner = p.badge
  deadline : exact → ¬ clockFails p.time →
    (s.timers p.slot).deadline.toNat = p.time.toNat + p.delay.toNat
  client : s.client p.slot = some p.notification

/-- What the service keeps of its history, in runs whose deadlines are exact and in others. -/
structure Kept (exact : Prop) (s : Service) : Prop where
  serials : ∀ p, .armed p ∈ s.log → p.serial < s.serial
  serial_inj : ∀ p q, .armed p ∈ s.log → .armed q ∈ s.log → p.serial = q.serial → p = q
  ticket_inj : ∀ p q, .armed p ∈ s.log → .armed q ∈ s.log → p.slot = q.slot →
    p.generation = q.generation → p = q
  known : ∀ p, .armed p ∈ s.log → p.slot < tmrMaxTimers ∧ (exact → p.time ≤ s.clock)
  live : ∀ i, (s.timers i).used = true → ∃ p, .armed p ∈ s.log ∧ p.slot = i ∧
    Open exact s p
  past : ∀ p, .armed p ∈ s.log → (s.timers p.slot).generation ≤ p.generation →
    Open exact s p
  closed : ∀ r ∈ s.log, ∀ n, r.closes = some n → ∃ p, .armed p ∈ s.log ∧ p.serial = n ∧
    p.generation < (s.timers p.slot).generation ∧ p.Owns r ∧ (exact → p.DueBy r)
  once : (s.log.filterMap Record.closes).Nodup

theorem Open.congr {exact : Prop} {s t : Service} {p : Promise} (h : Open exact s p)
    (ht : t.timers p.slot = s.timers p.slot) (hc : t.client p.slot = s.client p.slot) :
    Open exact t p :=
  ⟨ht ▸ h.used, ht ▸ h.generation, ht ▸ h.serial, ht ▸ h.bits, ht ▸ h.owner, ht ▸ h.deadline,
    hc ▸ h.client⟩

namespace Kept
variable {exact : Prop} {s t : Service} {m : Message} {slot : ℕ} {r : Record}

theorem start : Kept exact .start :=
  ⟨fun _ h => absurd h not_mem_nil, fun _ _ h => absurd h not_mem_nil,
    fun _ _ h => absurd h not_mem_nil, fun _ h => absurd h not_mem_nil,
    fun _ h => absurd h Bool.false_ne_true, fun _ h => absurd h not_mem_nil,
    fun _ h => absurd h not_mem_nil, nodup_nil⟩

section

variable (h : Kept exact s)
include h

theorem frame (htimers : t.timers = s.timers) (hlog : t.log = s.log)
    (hserial : t.serial = s.serial) (hclock : exact → s.clock ≤ t.clock)
    (hclient : ∀ i, (s.timers i).used = true → t.client i = s.client i) : Kept exact t := by
  have hopen : ∀ p, Open exact s p → Open exact t p := fun p hp =>
    hp.congr (congrFun htimers _) (hclient _ hp.used)
  obtain ⟨_, _, _, _, _, _, _⟩ := t
  subst htimers hlog hserial
  refine ⟨h.serials, h.serial_inj, h.ticket_inj, fun p hp => ?_, fun i hi => ?_, fun p hp hgen => ?_,
    h.closed, h.once⟩
  · exact (h.known p hp).imp_right fun htime hex => UInt64.le_trans (htime hex) (hclock hex)
  · obtain ⟨p, hp, hslot, hlive⟩ := h.live i hi
    exact ⟨p, hp, hslot, hopen p hlive⟩
  · exact hopen p (h.past p hp hgen)

theorem not_closed {p : Promise} (hp : .armed p ∈ s.log)
    (hopen : Open exact s p) : p.serial ∉ s.log.filterMap Record.closes := by
  intro hmem
  obtain ⟨r, hr, hcloses⟩ := mem_filterMap.mp hmem
  obtain ⟨q, hq, hserial, hgen, -⟩ := h.closed r hr _ hcloses
  obtain rfl := h.serial_inj q p hq hp hserial
  exact absurd hopen.generation hgen.ne'

theorem release {p : Promise} (hp : .armed p ∈ s.log)
    (hopen : Open exact s p) (hcloses : r.closes = some p.serial)
    (hkept : p.Owns r) (hdue : exact → p.DueBy r) : Kept exact (s.release p.slot r) := by
  have harmed : ∀ q, .armed q ∈ (s.release p.slot r).log ↔ .armed q ∈ s.log := by
    intro q
    refine ⟨fun hq => (mem_cons.mp hq).resolve_left ?_, mem_cons_of_mem r⟩
    rintro rfl
    cases hcloses
  have hself : ((s.release p.slot r).timers p.slot).used = false ∧
      ((s.release p.slot r).timers p.slot).generation = p.generation + 1 := by
    simp [Service.release, hopen.generation]
  have hother : ∀ i, i ≠ p.slot → (s.release p.slot r).timers i = s.timers i ∧
      (s.release p.slot r).client i = s.client i := fun i hi =>
    ⟨update_of_ne hi .., update_of_ne hi ..⟩
  have hlift : ∀ q : Promise, q.slot ≠ p.slot → Open exact s q →
      Open exact (s.release p.slot r) q := fun q hne hq =>
    hq.congr (hother _ hne).1 (hother _ hne).2
  have hgrow : ∀ i, (s.timers i).generation ≤ ((s.release p.slot r).timers i).generation := by
    intro i
    rcases eq_or_ne i p.slot with rfl | hne
    · rw [hself.2, hopen.generation]
      exact Nat.le_succ _
    · rw [(hother i hne).1]
  refine ⟨fun q hq => h.serials q ((harmed q).mp hq), fun q q' hq hq' =>
      h.serial_inj q q' ((harmed q).mp hq) ((harmed q').mp hq'), fun q q' hq hq' =>
      h.ticket_inj q q' ((harmed q).mp hq) ((harmed q').mp hq'), fun q hq =>
      h.known q ((harmed q).mp hq), fun i hi => ?_, fun q hq hgen => ?_, fun r' hr n hn => ?_, ?_⟩
  · have hne : i ≠ p.slot := by
      rintro rfl
      exact absurd (hself.1.symm.trans hi) Bool.false_ne_true
    rw [(hother i hne).1] at hi
    obtain ⟨q, hq, rfl, hlive⟩ := h.live i hi
    exact ⟨q, (harmed q).mpr hq, rfl, hlift q hne hlive⟩
  · have hold := h.past q ((harmed q).mp hq) ((hgrow q.slot).trans hgen)
    refine hlift q (fun hslot => ?_) hold
    have hsame := hold.generation
    rw [hslot, hself.2] at hgen
    rw [hslot, hopen.generation] at hsame
    omega
  · rcases mem_cons.mp hr with rfl | hr
    · obtain rfl : p.serial = n := some.inj (hcloses.symm.trans hn)
      exact ⟨p, (harmed p).mpr hp, rfl, by rw [hself.2]; exact Nat.lt_succ_self _, hkept,
        hdue⟩
    · obtain ⟨q, hq, hserial, hgen, hqr⟩ := h.closed r' hr n hn
      exact ⟨q, (harmed q).mpr hq, hserial, hgen.trans_le (hgrow _), hqr⟩
  · rw [Service.release, filterMap_cons_some hcloses]
    exact nodup_cons.mpr ⟨h.not_closed hp hopen, h.once⟩

theorem fireIfDue (hnow : ¬ clockFails s.clock) (i : ℕ) : Kept exact (s.fireIfDue s.clock i) := by
  unfold Service.fireIfDue
  dsimp only
  split_ifs with hused hdue
  · exact h
  · exact h
  obtain ⟨p, hp, rfl, hopen⟩ := h.live i (eq_true_of_ne_false hused)
  rw [hopen.serial, hopen.bits, hopen.client]
  refine h.release hp hopen rfl ⟨rfl, rfl⟩ fun hex => ?_
  have htime : ¬ clockFails p.time := fun hfail =>
    hnow (le_trans hfail (UInt64.le_iff_toNat_le.mp ((h.known p hp).2 hex)))
  rw [Promise.DueBy, ← hopen.deadline hex htime]
  exact UInt64.le_iff_toNat_le.mp (UInt64.not_lt.mp hdue)

theorem tick : Kept exact (s.tmTick s.clock) := by
  unfold tmTick
  split_ifs with hfail
  · exact h
  have hrun : Kept exact ((range tmrMaxTimers).foldl (Service.fireIfDue s.clock) s) ∧
      ((range tmrMaxTimers).foldl (Service.fireIfDue s.clock) s).clock = s.clock := by
    refine Lib.runFrom_keeps (I := fun t => Kept exact t ∧ t.clock = s.clock) ⟨h, rfl⟩ ?_ _
    rintro t i ⟨ht, hclock⟩
    rw [← hclock] at hfail ⊢
    refine ⟨ht.fireIfDue hfail i, ?_⟩
    unfold Service.fireIfDue
    dsimp only
    split_ifs <;> rfl
  exact hrun.1

theorem cancel (m : Message) : Kept exact (s.cancel m).1 := by
  unfold Service.cancel
  dsimp only
  split_ifs with hbad howner
  · exact h
  · exact h
  push Not at hbad
  obtain ⟨hk, -, hused, hgen⟩ := hbad
  obtain ⟨p, hp, hslot, hopen⟩ := h.live _ (eq_true_of_ne_false hused)
  rw [← hslot] at howner hgen ⊢
  push Not at howner
  rw [hopen.serial]
  refine h.release hp hopen rfl ⟨?_, by rw [← howner, hopen.owner]⟩ fun _ => trivial
  rw [hopen.generation] at hgen
  rw [Promise.token, tokenOf, hslot, hgen]
  omega

theorem arm (hslot : slot < tmrMaxTimers)
    (hfree : (s.timers slot).used = false) (hclient : s.client slot = some (m.gift.getD 0))
    (hwrap : exact → ¬ clockFails s.clock → s.clock.toNat + m.word0.toNat < 2 ^ 64) :
    Kept exact (s.arm slot m s.clock).1 := by
  generalize hp0 : (⟨s.serial, slot, (s.timers slot).generation, m.gift.getD 0,
    if m.word1 ≠ 0 then m.word1 else 1, m.word0, m.badge, s.clock⟩ : Promise) = p
  have hlog : (s.arm slot m s.clock).1.log = .armed p :: s.log := by
    rw [← hp0]
    rfl
  have hmem : ∀ q, .armed q ∈ (s.arm slot m s.clock).1.log ↔ q = p ∨ .armed q ∈ s.log := by
    intro q
    rw [hlog, mem_cons, Record.armed.injEq]
  have hother : ∀ i, i ≠ slot → (s.arm slot m s.clock).1.timers i = s.timers i :=
    fun i hi => update_of_ne hi ..
  have hgen : ∀ i, ((s.arm slot m s.clock).1.timers i).generation = (s.timers i).generation := by
    intro i
    rcases eq_or_ne i slot with rfl | hne
    · simp [arm]
    · rw [hother i hne]
  have hlift : ∀ q, Open exact s q → Open exact (s.arm slot m s.clock).1 q := by
    intro q hq
    have hne : q.slot ≠ slot := fun heq =>
      absurd (hq.used.symm.trans (heq ▸ hfree)) Bool.true_eq_false.mp
    exact hq.congr (hother _ hne) rfl
  have hnew : Open exact (s.arm slot m s.clock).1 p := by
    subst hp0
    refine ⟨?_, ?_, ?_, ?_, ?_, fun hex htime => ?_, hclient⟩
    iterate 5 simp [Service.arm]
    have htime' : ¬ clockFails s.clock := htime
    simp only [Service.arm, update_self, clockRead, if_neg htime', UInt64.toNat_add]
    exact Nat.mod_eq_of_lt (hwrap hex htime)
  have hpslot : p.slot = slot ∧ p.generation = (s.timers slot).generation ∧
      p.serial = s.serial ∧ p.time = s.clock := by
    rw [← hp0]
    exact ⟨rfl, rfl, rfl, rfl⟩
  obtain ⟨hps, hpg, hpn, hpt⟩ := hpslot
  have hticket : ∀ q, .armed q ∈ s.log → q.slot = p.slot → q.generation ≠ p.generation := by
    intro q hq hqs hqg
    have hopen := h.past q hq (by rw [hqs, hps, hqg, hpg])
    exact absurd (hopen.used.symm.trans (by rw [hqs, hps, hfree])) Bool.true_eq_false.mp
  refine ⟨?_, ?_, ?_, ?_, fun i hi => ?_, ?_, ?_, ?_⟩
  · intro q hq
    rcases (hmem q).mp hq with rfl | hq
    · rw [hpn]
      exact Nat.lt_succ_self _
    · exact Nat.lt_succ_of_lt (h.serials q hq)
  · intro q q' hq hq' heq
    rcases (hmem q).mp hq with rfl | hq <;> rcases (hmem q').mp hq' with rfl | hq'
    · rfl
    · exact absurd (h.serials q' hq') (by omega)
    · exact absurd (h.serials q hq) (by omega)
    · exact h.serial_inj q q' hq hq' heq
  · intro q q' hq hq' hslot' heq
    rcases (hmem q).mp hq with rfl | hq <;> rcases (hmem q').mp hq' with rfl | hq'
    · rfl
    · exact absurd heq.symm (hticket q' hq' hslot'.symm)
    · exact absurd heq (hticket q hq hslot')
    · exact h.ticket_inj q q' hq hq' hslot' heq
  · intro q hq
    rcases (hmem q).mp hq with rfl | hq
    · exact ⟨hps ▸ hslot, fun _ => hpt ▸ UInt64.le_refl _⟩
    · exact h.known q hq
  · rcases eq_or_ne i slot with rfl | hne
    · exact ⟨p, (hmem p).mpr (.inl rfl), hps, hnew⟩
    · rw [hother i hne] at hi
      obtain ⟨q, hq, hqs, hopen⟩ := h.live i hi
      exact ⟨q, (hmem q).mpr (.inr hq), hqs, hlift q hopen⟩
  · intro q hq hqg
    rcases (hmem q).mp hq with rfl | hq
    · exact hnew
    · exact hlift q (h.past q hq (by rwa [hgen] at hqg))
  · intro r hr n hn
    rcases mem_cons.mp hr with rfl | hr
    · cases hn
    · obtain ⟨q, hq, hserial, hqg, hkept⟩ := h.closed r hr n hn
      exact ⟨q, (hmem q).mpr (.inr hq), hserial, by rwa [hgen], hkept⟩
  · rw [hlog]
    exact h.once

end

end Kept

/-! ### The loop -/

section
variable {exact : Prop} {s : Service} {slot : ℕ} {m : Message} {now : UInt64}

theorem tmFreeSlot_free (h : s.tmFreeSlot < tmrMaxTimers) :
    (s.timers s.tmFreeSlot).used = false := by
  unfold tmFreeSlot at h ⊢
  cases hfind : (range tmrMaxTimers).find? fun i => !(s.timers i).used with
  | none =>
    rw [hfind] at h
    exact absurd h (Nat.lt_irrefl _)
  | some i => simpa using find?_some hfind

theorem cancel_used (i : ℕ) (h : ((s.cancel m).1.timers i).used = true) :
    (s.timers i).used = true := by
  unfold cancel at h
  dsimp only at h
  split_ifs at h with hbad
  · exact h
  · exact h
  · rcases eq_or_ne i (m.word0.toNat % 2 ^ 32 - 1) with rfl | hne
    · simp [release] at h
    · exact (congrArg Entry.used (update_of_ne hne _ _)).symm.trans h

theorem tokenOf_ne_zero (slot generation : ℕ) : tokenOf slot generation ≠ 0 := by
  unfold tokenOf
  omega

theorem handle_free (hfree : (s.timers slot).used = false)
    (htoken : (s.handle slot m now).2.token = 0) :
    ((s.handle slot m now).1.timers slot).used = false := by
  unfold handle at htoken ⊢
  split_ifs at htoken ⊢ with _ hcancel
  · exact hfree
  · by_contra hused
    exact absurd (hfree.symm.trans (cancel_used slot (eq_true_of_ne_false hused)))
      Bool.false_ne_true
  · exact hfree
  · exact hfree
  · exact hfree
  · exact absurd htoken (tokenOf_ne_zero _ _)

namespace Kept

theorem handle (h : Kept exact s) (hfree : slot < tmrMaxTimers → (s.timers slot).used = false)
    (hgift : m.gotCaps = true → s.client slot = some (m.gift.getD 0))
    (hwrap : exact → m.label = tmrOpArm → slot < tmrMaxTimers → m.gotCaps = true →
      ¬ clockFails s.clock → s.clock.toNat + m.word0.toNat < 2 ^ 64) :
    Kept exact (s.handle slot m s.clock).1 := by
  unfold Service.handle
  split_ifs with _ _ harm hfull hcap
  · exact h
  · exact h.cancel m
  · exact h
  · exact h
  · exact h
  · have hcap' := eq_true_of_ne_false hcap
    exact h.arm (by omega) (hfree (by omega)) (hgift hcap')
      fun hex => hwrap hex (not_not.mp harm) (by omega) hcap'

theorem msgReply (h : Kept exact s) (a : Answer) : Kept exact (s.msgReply a) := by
  unfold Service.msgReply
  split
  · exact h
  · exact h.frame rfl rfl rfl (fun _ => UInt64.le_refl _) fun _ _ => rfl

theorem answer (h : Kept exact s) {o : Service.Outcome}
    (hfree : o.token = 0 → slot < tmrMaxTimers → (s.timers slot).used = false) :
    Kept exact (s.answer slot m o) := by
  unfold Service.answer
  split_ifs with hclear
  · refine (h.msgReply (o.words m)).frame rfl rfl rfl (fun _ => UInt64.le_refl _)
      fun i hi => ?_
    refine update_of_ne ?_ ..
    rintro rfl
    have htimers : (s.msgReply (o.words m)).timers = s.timers := by
      unfold Service.msgReply
      split <;> rfl
    rw [htimers, hfree hclear.1 hclear.2] at hi
    exact Bool.false_ne_true hi
  · exact h.msgReply _

end Kept
end

/-- An arming that the service accepts although its deadline does not fit 64 bits. -/
def Wraps (s : Service) (e : Event) : Prop :=
  ∃ c, e.body = .call c ∧ c.label = tmrOpArm ∧ (s.receive s.tmFreeSlot e.body).isSome ∧
    s.tmFreeSlot < tmrMaxTimers ∧ c.cap.isSome ∧ ¬ clockFails e.now ∧
    2 ^ 64 ≤ e.now.toNat + c.word0.toNat

theorem receive_some {s t : Service} (h : s.receive slot b = some (t, m)) :
    (slot < tmrMaxTimers → s.client slot = none) ∧ s.owed = none ∧ t.timers = s.timers ∧
      t.log = s.log ∧ t.serial = s.serial ∧ t.clock = s.clock ∧ t.replies = s.replies ∧
      (∀ i, i ≠ slot ∨ tmrMaxTimers ≤ slot → t.client i = s.client i) ∧
      (m.gotCaps = true → slot < tmrMaxTimers ∧ t.client slot = some (m.gift.getD 0)) := by
  unfold receive at h
  split_ifs at h with hrefused
  have hrefused' : (slot < tmrMaxTimers → s.client slot = none) ∧ s.owed = none := by
    simpa using hrefused
  refine ⟨hrefused'.1, hrefused'.2, ?_⟩
  cases b with
  | tick bits =>
    obtain ⟨rfl, rfl⟩ := Prod.mk.inj (some.inj h)
    exact ⟨rfl, rfl, rfl, rfl, rfl, fun _ _ => rfl, fun hgot => absurd hgot Bool.false_ne_true⟩
  | call c =>
    obtain ⟨rfl, rfl⟩ := Prod.mk.inj (some.inj h)
    refine ⟨rfl, rfl, rfl, rfl, rfl, fun i hi => ?_, fun hgot => ?_⟩
    · dsimp only
      split_ifs with hslot
      · exact update_of_ne (hi.resolve_right (by omega)) ..
      · rfl
    obtain ⟨hslot, hcap⟩ := (Bool.and_eq_true _ _).mp hgot
    have hslot' := of_decide_eq_true hslot
    obtain ⟨x, hx⟩ := isSome_iff_exists.mp hcap
    refine ⟨hslot', ?_⟩
    simp only [if_pos hslot', update_self, hx, getD_some]

theorem step_cases (s : Service) (e : Event) : s.step e = { s with clock := e.now } ∨ ∃ t m,
    ({ s with clock := e.now } : Service).receive s.tmFreeSlot e.body = some (t, m) ∧
      s.step e = t.process s.tmFreeSlot m e.now := by
  have hslot : tmFreeSlot { s with clock := e.now } = s.tmFreeSlot := rfl
  unfold step
  dsimp only
  rw [hslot]
  split
  · exact .inl rfl
  · exact .inr ⟨_, _, by assumption, rfl⟩

theorem receive_message {s t : Service} (h : s.receive slot b = some (t, m)) :
    (∃ bits, b = .tick bits ∧ m = ⟨irisMsgLabelNotification, bits, 0, 0, false, none⟩) ∨
      ∃ c, b = .call c ∧ m = ⟨c.label, c.word0, c.word1, c.badge,
        decide (slot < tmrMaxTimers) && c.cap.isSome, c.cap⟩ := by
  unfold receive at h
  split_ifs at h
  cases b with
  | tick bits => exact .inl ⟨bits, rfl, (Prod.mk.inj (some.inj h)).2.symm⟩
  | call c => exact .inr ⟨c, rfl, (Prod.mk.inj (some.inj h)).2.symm⟩

theorem Kept.step {exact : Prop} {s : Service} {e : Event} (h : Kept exact s)
    (hclock : exact → s.clock ≤ e.now) (hwrap : exact → ¬ Wraps s e) : Kept exact (s.step e) := by
  have hnow : Kept exact { s with clock := e.now } := h.frame rfl rfl rfl hclock fun _ _ => rfl
  obtain hstep | ⟨t, m, hrecv, hstep⟩ := step_cases s e
  · rw [hstep]
    exact hnow
  · obtain ⟨-, -, htimers, hlog, hserial, htclock, -, hclient, hgift⟩ := receive_some hrecv
    have hfree := tmFreeSlot_free (s := s)
    have hkept : Kept exact t := by
      refine hnow.frame htimers hlog hserial (fun _ => by rw [htclock]; exact UInt64.le_refl _) ?_
      intro i hi
      refine hclient i (or_iff_not_imp_right.mpr fun hslot heq => ?_)
      rw [heq, hfree (by omega)] at hi
      exact Bool.false_ne_true hi
    have hfree' : s.tmFreeSlot < tmrMaxTimers → (t.timers s.tmFreeSlot).used = false := by
      rw [htimers]
      exact hfree
    have hnow' : e.now = t.clock := htclock.symm
    rw [hstep]
    unfold process
    dsimp only
    split_ifs with hlabel
    · rw [hnow']
      exact hkept.tick
    have hhandled : Kept exact (t.handle s.tmFreeSlot m e.now).1 := by
      rw [hnow']
      refine hkept.handle hfree' (fun hgot => (hgift hgot).2) fun hex harm hslot' hgot hclock' => ?_
      by_contra hge
      obtain ⟨bits, -, rfl⟩ | ⟨c, hc, rfl⟩ := receive_message hrecv
      · exact absurd hgot Bool.false_ne_true
      have hccap : c.cap.isSome := ((Bool.and_eq_true _ _).mp hgot).2
      have hrecv' : (s.receive s.tmFreeSlot e.body).isSome := by
        unfold receive at hrecv ⊢
        split_ifs at hrecv ⊢
        cases e.body <;> rfl
      refine hwrap hex ⟨c, hc, harm, hrecv', hslot', hccap, ?_, ?_⟩
      · rwa [hnow']
      · rw [hnow']
        exact Nat.not_lt.mp hge
    exact hhandled.answer fun htoken hslot' => handle_free (hfree' hslot') htoken

/-! ### What a turn adds to the history -/

/-- The event that a record comes from. -/
def Record.From (e : Event) : Record → Prop
  | .armed p => p.time = e.now ∧ ∃ c, e.body = .call c ∧ c.label = tmrOpArm ∧
      c.cap = some p.notification ∧ p.bits = (if c.word1 ≠ 0 then c.word1 else 1) ∧
      p.delay = c.word0 ∧ p.badge = c.badge
  | .signalled _ _ _ now => now = e.now
  | .cancelled _ token badge => ∃ c, e.body = .call c ∧ c.label = tmrOpCancel ∧
      token = c.word0.toNat ∧ badge = c.badge

/-- A later state: the clock is the same, and every new record satisfies the condition. -/
structure Adds (P : Record → Prop) (s t : Service) : Prop where
  clock : t.clock = s.clock
  log : ∀ r ∈ t.log, r ∈ s.log ∨ P r

namespace Adds
variable {P : Record → Prop} {s t u : Service} {now : UInt64}

theorem refl (P : Record → Prop) (s : Service) : Adds P s s := ⟨rfl, fun _ => .inl⟩

theorem trans (h : Adds P s t) (h' : Adds P t u) : Adds P s u :=
  ⟨h'.clock.trans h.clock, fun r hr => (h'.log r hr).elim (h.log r) .inr⟩

theorem release (s : Service) (i : ℕ) (hr : P r) : Adds P s (s.release i r) := by
  refine ⟨rfl, fun r' hr' => ?_⟩
  rcases mem_cons.mp hr' with rfl | hmem
  · exact .inr hr
  · exact .inl hmem

theorem tick (s : Service) (hP : ∀ n target bits, P (.signalled n target bits now)) :
    Adds P s (s.tmTick now) := by
  unfold tmTick
  split_ifs
  · exact refl P s
  refine Lib.runFrom_keeps (I := Adds P s) (refl P s) (fun t i ht => ht.trans ?_) _
  unfold fireIfDue
  dsimp only
  split_ifs
  · exact refl P t
  · exact refl P t
  · exact release t i (hP _ _ _)

theorem cancel (s : Service) (m : Message)
    (hP : ∀ n, P (.cancelled n m.word0.toNat m.badge)) : Adds P s (s.cancel m).1 := by
  unfold Service.cancel
  dsimp only
  split_ifs
  · exact refl P s
  · exact refl P s
  · exact release s _ (hP _)

theorem handle (s : Service) (slot : ℕ) (m : Message) (now : UInt64)
    (hcancel : m.label = tmrOpCancel → ∀ n, P (.cancelled n m.word0.toNat m.badge))
    (harm : m.label = tmrOpArm → m.gotCaps = true → ∀ p : Promise,
      p.notification = m.gift.getD 0 → p.bits = (if m.word1 ≠ 0 then m.word1 else 1) →
      p.delay = m.word0 → p.badge = m.badge → p.time = now → P (.armed p)) :
    Adds P s (s.handle slot m now).1 := by
  unfold Service.handle
  split_ifs with _ hlabel harmed _ hcaps
  · exact refl P s
  · exact cancel s m (hcancel hlabel)
  · exact refl P s
  · exact refl P s
  · exact refl P s
  · refine ⟨rfl, fun r hr => ?_⟩
    rcases mem_cons.mp hr with rfl | hmem
    · exact .inr (harm (not_not.mp harmed) (eq_true_of_ne_false hcaps) _ rfl rfl rfl rfl rfl)
    · exact .inl hmem

theorem answer (s : Service) (slot : ℕ) (m : Message) (o : Service.Outcome) :
    Adds P s (s.answer slot m o) := by
  have hreply : Adds P s (s.msgReply (o.words m)) := by
    unfold msgReply
    split <;> exact ⟨rfl, fun _ => .inl⟩
  unfold Service.answer
  split_ifs
  · exact hreply.trans ⟨rfl, fun _ => .inl⟩
  · exact hreply

theorem step (s : Service) (e : Event) :
    Adds (Record.From e) { s with clock := e.now } (s.step e) := by
  obtain hstep | ⟨t, m, hrecv, hstep⟩ := step_cases s e
  · rw [hstep]
    exact refl _ _
  · obtain ⟨-, -, -, hlog, -, hclock, -⟩ := receive_some hrecv
    have hrecv' : Adds (Record.From e) { s with clock := e.now } t :=
      ⟨hclock, fun r hr => .inl (hlog ▸ hr)⟩
    rw [hstep]
    refine hrecv'.trans ?_
    unfold process
    dsimp only
    split_ifs with hlabel
    · exact tick t fun _ _ _ => rfl
    refine (handle t _ m e.now ?_ ?_).trans (answer _ _ m _)
    · rintro hcancel n
      obtain ⟨bits, -, rfl⟩ | ⟨c, hc, rfl⟩ := receive_message hrecv
      · exact absurd rfl hlabel
      · exact ⟨c, hc, hcancel, rfl, rfl⟩
    rintro harm hgot p hnote hbits hdelay hbadge htime
    obtain ⟨bits, -, rfl⟩ | ⟨c, hc, rfl⟩ := receive_message hrecv
    · exact absurd rfl hlabel
    · obtain ⟨x, hx⟩ := isSome_iff_exists.mp ((Bool.and_eq_true _ _).mp hgot).2
      refine ⟨htime, c, hc, harm, ?_, hbits, hdelay, hbadge⟩
      rw [hnote, hx, getD_some]

end Adds

/-! ### Whole runs -/

def afterEvents (es : List Event) : Service := runFrom Service.step .start es

/-- The clock never goes back. -/
def MonotoneClock (es : List Event) : Prop := es.Pairwise fun e e' => e.now ≤ e'.now

/-- No accepted arming of a run has a deadline beyond 64 bits. -/
def NoneWraps (es : List Event) : Prop :=
  Meets Service.step (fun s e => ¬ Wraps s e) .start es

theorem meets_clock {s : Service} (hs : ∀ e ∈ es, s.clock ≤ e.now)
    (hclock : MonotoneClock es) : Meets Service.step (fun s e => s.clock ≤ e.now) s es := by
  induction es generalizing s with
  | nil => trivial
  | cons e es ih =>
    obtain ⟨hhead, htail⟩ := pairwise_cons.mp hclock
    refine ⟨hs e mem_cons_self, ih (fun e' he' => ?_) htail⟩
    rw [(Adds.step s e).clock]
    exact hhead e' he'

theorem kept_afterEvents (hclock : MonotoneClock es) (hwrap : NoneWraps es) :
    Kept True (afterEvents es) :=
  ((meets_clock (fun _ _ => Nat.zero_le _) hclock).and hwrap).keeps (I := Kept True) .start
    fun _ _ hkept h => hkept.step (fun _ => h.1) fun _ => h.2

theorem log_afterEvents (es : List Event) : ∀ r ∈ (afterEvents es).log, ∃ e ∈ es, r.From e := by
  induction es using reverseRecOn with
  | nil => exact fun r hr => absurd hr not_mem_nil
  | append_singleton es e ih =>
    intro r hr
    rw [afterEvents, Lib.runFrom_append] at hr
    rcases (Adds.step _ e).log r hr with hold | hnew
    · obtain ⟨e', he', hfrom⟩ := ih r hold
      exact ⟨e', mem_append_left _ he', hfrom⟩
    · exact ⟨e, mem_append_right _ (mem_singleton_self e), hnew⟩

theorem tokenOf_parts (hslot : slot < tmrMaxTimers) (generation : ℕ) :
    tokenOf slot generation % 2 ^ 32 = slot + 1 ∧
      tokenOf slot generation / 2 ^ 32 = generation % 2 ^ 32 := by
  unfold tokenOf tmrMaxTimers at *
  omega

theorem cancel_stale {s : Service} {p : Promise} (hslot : p.slot < tmrMaxTimers)
    (htoken : m.word0.toNat = p.token) (hpast : p.generation < (s.timers p.slot).generation)
    (hreuse : (s.timers p.slot).generation < 2 ^ 32) : (s.cancel m).1 = s := by
  obtain ⟨hlow, hhigh⟩ := tokenOf_parts hslot p.generation
  unfold cancel
  dsimp only
  rw [htoken, Promise.token, hlow, hhigh, Nat.add_sub_cancel, Nat.mod_eq_of_lt hreuse,
    Nat.mod_eq_of_lt (hpast.trans hreuse)]
  rw [if_pos (.inr (.inr (.inr hpast.ne')))]

theorem answer_timers (s : Service) (slot : ℕ) (m : Message) (o : Service.Outcome) :
    (s.answer slot m o).timers = s.timers := by
  have hreply : (s.msgReply (o.words m)).timers = s.timers := by
    unfold msgReply
    split <;> rfl
  unfold answer
  split_ifs
  · exact hreply
  · exact hreply

theorem step_cancel_stale {s : Service} {c : Call} {p : Promise}
    (hslot : p.slot < tmrMaxTimers) (hlabel : c.label = tmrOpCancel)
    (htoken : c.word0.toNat = p.token) (hpast : p.generation < (s.timers p.slot).generation)
    (hreuse : (s.timers p.slot).generation < 2 ^ 32) :
    (s.step ⟨now, .call c⟩).timers = s.timers := by
  obtain hstep | ⟨t, m, hrecv, hstep⟩ := step_cases s ⟨now, .call c⟩
  · rw [hstep]
  · obtain ⟨-, -, htimers, -⟩ := receive_some hrecv
    obtain ⟨bits, htick, -⟩ | ⟨c', hc, rfl⟩ := receive_message hrecv
    · cases htick
    obtain rfl : c = c' := Body.call.inj hc
    have hbody : c.label ≠ irisMsgLabelNotification := by
      rw [hlabel]
      decide
    have hhandle : ∀ slot m, m.label = c.label → m.word0 = c.word0 →
        (t.handle slot m now).1.timers = s.timers := by
      intro slot m hm hword
      have huptime : m.label ≠ tmrOpUptime := by
        rw [hm, hlabel]
        decide
      rw [handle, if_neg huptime, if_pos (hm.trans hlabel)]
      rw [cancel_stale hslot (by rw [hword, htoken]) (by rw [htimers]; exact hpast)
        (by rw [htimers]; exact hreuse), htimers]
    rw [hstep]
    unfold process
    dsimp only
    rw [if_neg hbody, answer_timers]
    exact hhandle _ _ rfl rfl

/-- With a monotone clock and no deadline that wraps, each timer ends at most once, by its signal
when due or by its own cancel; while no row is reused 2³² times, a token names one timer only. -/
theorem timers_keep_their_promises (es : List Event) (hclock : MonotoneClock es)
    (hwrap : NoneWraps es)
    (hreuse : ∀ i < tmrMaxTimers, ((afterEvents es).timers i).generation < 2 ^ 32) :
    (∀ r ∈ (afterEvents es).log, ∃ e ∈ es, r.From e) ∧
      ((afterEvents es).log.filterMap Record.closes).Nodup ∧
      (∀ r ∈ (afterEvents es).log, ∀ n, r.closes = some n →
        ∃ p, .armed p ∈ (afterEvents es).log ∧ p.serial = n ∧ p.Owns r ∧ p.DueBy r) ∧
      (∀ p q, .armed p ∈ (afterEvents es).log → .armed q ∈ (afterEvents es).log →
        p.serial = q.serial ∨ p.token = q.token → p = q) ∧
      ∀ p, .armed p ∈ (afterEvents es).log →
        p.serial ∈ (afterEvents es).log.filterMap Record.closes →
        ∀ c now, c.label = tmrOpCancel → c.word0.toNat = p.token →
          ((afterEvents es).step ⟨now, .call c⟩).timers = (afterEvents es).timers := by
  have hkept := kept_afterEvents hclock hwrap
  generalize hs : afterEvents es = s at hkept hreuse
  have hbound : ∀ p, .armed p ∈ s.log → p.generation < 2 ^ 32 := by
    intro p hp
    have hslot := hreuse p.slot (hkept.known p hp).1
    by_contra hge
    have hopen := hkept.past p hp (by omega)
    rw [hopen.generation] at hslot
    exact hge hslot
  refine ⟨hs ▸ log_afterEvents es, hkept.once, ?_, ?_, ?_⟩
  · intro r hr n hn
    obtain ⟨p, hp, hserial, -, howns, hdue⟩ := hkept.closed r hr n hn
    exact ⟨p, hp, hserial, howns, hdue trivial⟩
  · rintro p q hp hq (hserial | htoken)
    · exact hkept.serial_inj p q hp hq hserial
    obtain ⟨hp₁, hp₂⟩ := tokenOf_parts (hkept.known p hp).1 p.generation
    obtain ⟨hq₁, hq₂⟩ := tokenOf_parts (hkept.known q hq).1 q.generation
    rw [Promise.token, Promise.token] at htoken
    rw [Nat.mod_eq_of_lt (hbound p hp)] at hp₂
    rw [Nat.mod_eq_of_lt (hbound q hq)] at hq₂
    exact hkept.ticket_inj p q hp hq (by omega) (by omega)
  · intro p hp hclosed c now hlabel htoken
    obtain ⟨r, hr, hcloses⟩ := mem_filterMap.mp hclosed
    obtain ⟨q, hq, hserial, hpast, -⟩ := hkept.closed r hr _ hcloses
    obtain rfl := hkept.serial_inj q p hq hp hserial
    have hslot := (hkept.known q hp).1
    exact step_cancel_stale hslot hlabel htoken hpast (hreuse _ hslot)

/-- A call of client 7, through the endpoint badged 5. -/
def clientCall (now : UInt64) (label : ℕ) (word0 word1 : UInt64) (cap : Option Cap) : Event :=
  ⟨now, .call ⟨7, label, word0, word1, 5, cap⟩⟩

/-- Two armings, a cancel of the second, and a tick at which the first is due. -/
def armCancelTick : List Event :=
  [clientCall 100 tmrOpArm 50 4 (some 11), clientCall 110 tmrOpArm 500 0 (some 12),
    clientCall 120 tmrOpCancel 2 0 none, ⟨150, .tick 1⟩]

theorem timers_keep_their_promises_armCancelTick :
    ((afterEvents armCancelTick).log.filterMap Record.closes).Nodup ∧
      .signalled 0 (some 11) 4 150 ∈ (afterEvents armCancelTick).log ∧
      .cancelled 1 2 5 ∈ (afterEvents armCancelTick).log := by
  refine ⟨(timers_keep_their_promises armCancelTick ?_ ?_ ?_).2.1, by decide +kernel,
    by decide +kernel⟩
  · unfold MonotoneClock
    decide +kernel
  · refine ⟨?_, ?_, ?_, ?_, trivial⟩
    iterate 3
      rintro ⟨c, hc, -, -, -, -, -, hwrap⟩
      obtain rfl := Body.call.inj hc
      exact absurd hwrap (by decide)
    rintro ⟨c, hc, -⟩
    cases hc
  · decide +kernel

/-- Armed at time 100 with a delay of 2⁶⁴ - 1, a timer is signalled at the next tick. -/
theorem signalled_before_due :
    ∃ p, .armed p ∈ (afterEvents [clientCall 100 tmrOpArm (2 ^ 64 - 1) 4 (some 11),
        ⟨101, .tick 1⟩]).log ∧
      .signalled p.serial (some 11) 4 101 ∈ (afterEvents
        [clientCall 100 tmrOpArm (2 ^ 64 - 1) 4 (some 11), ⟨101, .tick 1⟩]).log ∧
      (101 : UInt64).toNat < p.time.toNat + p.delay.toNat := by
  refine ⟨⟨0, 0, 0, 11, 4, 2 ^ 64 - 1, 5, 100⟩, ?_, ?_, ?_⟩
  all_goals decide +kernel

end IrisOS.Timer
