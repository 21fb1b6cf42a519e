import IrisOS.Timer.Promises

/-! The request channel of the timer service: which capabilities its client slots hold while it
waits, and which calls it has answered. -/
namespace IrisOS.Timer

open Service
open Lib (runFrom Meets)

/-- A client slot holds a capability exactly when the timer of that slot is armed. -/
def Agrees (s : Service) (i : ℕ) : Prop := (s.client i).isSome = (s.timers i).used

/-- The service as it waits: every slot agrees with its timer and no call is left to answer. -/
structure Waiting (s : Service) : Prop where
  agrees : ∀ i, Agrees s i
  owed : s.owed = none

/-- A client's call with the label under which the kernel delivers notifications. -/
def Forges (e : Event) : Prop := ∃ c, e.body = .call c ∧ c.label = irisMsgLabelNotification

/-- The callers of the calls among some events. -/
def callers : List Event → List ℕ := List.filterMap fun e =>
  match e.body with
  | .tick _ => none
  | .call c => some c.caller

section
variable {s : Service} {slot i : ℕ} {m : Message} {now : UInt64}

theorem agrees_release (r : Record) (j : ℕ) (h : Agrees s i) : Agrees (s.release j r) i := by
  unfold Agrees release cnodeDelete at *
  rcases eq_or_ne i j with rfl | hne
  · simp
  · simpa [Function.update_of_ne hne] using h

theorem tmTick_keeps (s : Service) (now : UInt64) : (s.tmTick now).owed = s.owed ∧
    (s.tmTick now).replies = s.replies ∧ ∀ i, Agrees s i → Agrees (s.tmTick now) i := by
  unfold tmTick
  split_ifs
  · exact ⟨rfl, rfl, fun _ => id⟩
  refine Lib.runFrom_keeps (I := fun t => t.owed = s.owed ∧ t.replies = s.replies ∧
    ∀ i, Agrees s i → Agrees t i) ⟨rfl, rfl, fun _ => id⟩ (fun t j ht => ?_) _
  unfold fireIfDue
  dsimp only
  split_ifs
  · exact ht
  · exact ht
  · exact ⟨ht.1, ht.2.1, fun i hi => agrees_release _ j (ht.2.2 i hi)⟩

theorem cancel_keeps (s : Service) (m : Message) : (s.cancel m).1.owed = s.owed ∧
    (s.cancel m).1.replies = s.replies ∧ ∀ i, Agrees s i → Agrees (s.cancel m).1 i := by
  unfold cancel
  dsimp only
  split_ifs
  · exact ⟨rfl, rfl, fun _ => id⟩
  · exact ⟨rfl, rfl, fun _ => id⟩
  · exact ⟨rfl, rfl, fun i hi => agrees_release _ _ hi⟩

/-- A request changes only the slots of timers it ends, and an accepted arming finds its capability.
-/
theorem handle_keeps (now : UInt64) (hgift : m.gotCaps = true → (s.client slot).isSome) :
    (s.handle slot m now).1.owed = s.owed ∧ (s.handle slot m now).1.replies = s.replies ∧
      (∀ i, i ≠ slot ∨ (s.handle slot m now).2.token = 0 → Agrees s i →
        Agrees (s.handle slot m now).1 i) ∧
      ((s.handle slot m now).2.token ≠ 0 → Agrees (s.handle slot m now).1 slot) := by
  unfold handle
  split_ifs with _ _ _ _ hcaps
  · exact ⟨rfl, rfl, fun _ _ => id, fun h => absurd rfl h⟩
  · obtain ⟨howed, hreplies, hagrees⟩ := cancel_keeps s m
    exact ⟨howed, hreplies, fun i _ => hagrees i, fun h => absurd rfl h⟩
  · exact ⟨rfl, rfl, fun _ _ => id, fun h => absurd rfl h⟩
  · exact ⟨rfl, rfl, fun _ _ => id, fun h => absurd rfl h⟩
  · exact ⟨rfl, rfl, fun _ _ => id, fun h => absurd rfl h⟩
  refine ⟨rfl, rfl, fun i hi hagrees => ?_, fun _ => ?_⟩
  · have hne : i ≠ slot := hi.resolve_right (tokenOf_ne_zero _ _)
    unfold Agrees at *
    simpa [arm, Function.update_of_ne hne] using hagrees
  · unfold Agrees
    simpa [arm] using hgift (eq_true_of_ne_false hcaps)

theorem Waiting.receive (h : Waiting s) (b : Body) : (s.receive s.tmFreeSlot b).isSome := by
  have hready : ¬ ((s.tmFreeSlot < tmrMaxTimers ∧ (s.client s.tmFreeSlot).isSome) ∨
      s.owed.isSome) := by
    rintro (⟨hslot, hclient⟩ | howed)
    · rw [h.agrees s.tmFreeSlot, tmFreeSlot_free hslot] at hclient
      exact Bool.false_ne_true hclient
    · rw [h.owed] at howed
      exact Bool.false_ne_true howed
  unfold Service.receive
  rw [if_neg hready]
  cases b <;> rfl

theorem answer_keeps {caller : ℕ} {o : Service.Outcome} (howed : s.owed = some caller) :
    (s.answer slot m o).owed = none ∧
      (s.answer slot m o).replies = (caller, o.words m) :: s.replies ∧
      (∀ i, i ≠ slot ∨ o.token ≠ 0 ∨ tmrMaxTimers ≤ slot → Agrees s i →
        Agrees (s.answer slot m o) i) ∧
      (o.token = 0 → slot < tmrMaxTimers → (s.timers slot).used = false →
        Agrees (s.answer slot m o) slot) := by
  have hreply : s.msgReply (o.words m) =
      { s with owed := none, replies := (caller, o.words m) :: s.replies } := by
    unfold msgReply
    rw [howed]
  unfold answer
  rw [hreply]
  split_ifs with hclear
  · refine ⟨rfl, rfl, fun i hi hagrees => ?_, fun _ _ hfree => ?_⟩
    · have hne : i ≠ slot := hi.resolve_right fun hor =>
        hor.elim (fun hne => hne hclear.1) fun hge => absurd hclear.2 (Nat.not_lt.mpr hge)
      unfold Agrees cnodeDelete at *
      simpa [Function.update_of_ne hne] using hagrees
    · unfold Agrees cnodeDelete
      simpa using hfree.symm
  · exact ⟨rfl, rfl, fun _ _ => id, fun htoken hslot => absurd ⟨htoken, hslot⟩ hclear⟩

theorem request_keeps {caller : ℕ} (howed : s.owed = some caller)
    (hfree : slot < tmrMaxTimers → (s.timers slot).used = false)
    (hgift : m.gotCaps = true → (s.client slot).isSome)
    (hagrees : ∀ i, i ≠ slot ∨ tmrMaxTimers ≤ slot → Agrees s i) :
    Waiting ((s.handle slot m now).1.answer slot m (s.handle slot m now).2) ∧
      ((s.handle slot m now).1.answer slot m (s.handle slot m now).2).replies.map Prod.fst =
        caller :: s.replies.map Prod.fst := by
  obtain ⟨howed1, hreplies1, hagrees1, harmed1⟩ := handle_keeps now hgift
  have hfree1 := fun hslot => @handle_free s slot m now (hfree hslot)
  generalize s.handle slot m now = r at howed1 hreplies1 hagrees1 harmed1 hfree1
  obtain ⟨howed2, hreplies2, hagrees2, hcleared2⟩ :=
    @answer_keeps r.1 slot m caller r.2 (howed1.trans howed)
  refine ⟨⟨fun i => ?_, howed2⟩, by rw [hreplies2, hreplies1]; rfl⟩
  by_cases htoken : r.2.token = 0
  · rcases Nat.lt_or_ge slot tmrMaxTimers with hslot | hslot
    · rcases eq_or_ne i slot with rfl | hne
      · exact hcleared2 htoken hslot (hfree1 hslot htoken)
      · exact hagrees2 i (.inl hne) (hagrees1 i (.inl hne) (hagrees i (.inl hne)))
    · exact hagrees2 i (.inr (.inr hslot)) (hagrees1 i (.inr htoken) (hagrees i (.inr hslot)))
  · rcases eq_or_ne i slot with rfl | hne
    · exact hagrees2 i (.inr (.inl htoken)) (harmed1 htoken)
    · exact hagrees2 i (.inl hne) (hagrees1 i (.inl hne) (hagrees i (.inl hne)))

theorem Waiting.step {e : Event} (h : Waiting s) (hforge : ¬ Forges e) : Waiting (s.step e) ∧
    (s.step e).replies.map Prod.fst = callers [e] ++ s.replies.map Prod.fst := by
  have hnow : Waiting { s with clock := e.now } := ⟨h.agrees, h.owed⟩
  obtain ⟨⟨t, m⟩, hrecv⟩ := Option.isSome_iff_exists.mp (hnow.receive e.body)
  unfold Service.step
  dsimp only
  rw [hrecv]
  dsimp only
  unfold Service.receive at hrecv
  split_ifs at hrecv
  cases hbody : e.body with
  | tick bits =>
    rw [hbody] at hrecv
    obtain ⟨rfl, rfl⟩ := Prod.mk.inj (Option.some.inj hrecv)
    obtain ⟨howed, hreplies, hagrees⟩ := tmTick_keeps { s with clock := e.now } e.now
    rw [process, if_pos rfl, hreplies]
    refine ⟨⟨fun i => hagrees i (h.agrees i), howed.trans h.owed⟩, ?_⟩
    simp [callers, hbody]
  | call c =>
    have hlabel : c.label ≠ irisMsgLabelNotification := fun hl => hforge ⟨c, hbody, hl⟩
    rw [hbody] at hrecv
    obtain ⟨rfl, rfl⟩ := Prod.mk.inj (Option.some.inj hrecv)
    rw [process, if_neg hlabel]
    have hcallers : callers [e] = [c.caller] := by simp [callers, hbody]
    rw [hcallers]
    refine request_keeps rfl tmFreeSlot_free (fun hgot => ?_) fun i hi => ?_
    · obtain ⟨hslot, hcap⟩ := (Bool.and_eq_true _ _).mp hgot
      simpa only [if_pos (of_decide_eq_true hslot), Function.update_self] using hcap
    unfold Agrees
    dsimp only
    split_ifs with hslot
    · rw [Function.update_of_ne (hi.resolve_right (Nat.not_le.mpr hslot))]
      exact h.agrees i
    · exact h.agrees i

end

theorem waiting_start : Waiting .start := ⟨fun _ => rfl, rfl⟩

theorem waiting_afterEvents {es : List Event} (h : ∀ e ∈ es, ¬ Forges e) :
    Waiting (afterEvents es) ∧
      (afterEvents es).replies.map Prod.fst = (callers es).reverse := by
  induction es using List.reverseRecOn with
  | nil => exact ⟨waiting_start, rfl⟩
  | append_singleton es e ih =>
    obtain ⟨hwait, hreplies⟩ := ih fun e' he' => h e' (List.mem_append_left _ he')
    obtain ⟨hwait', hreplies'⟩ :=
      hwait.step (h e (List.mem_append_right _ (List.mem_singleton_self e)))
    rw [afterEvents, Lib.runFrom_append]
    refine ⟨hwait', hreplies'.trans ?_⟩
    rw [hreplies, callers, List.filterMap_append, List.reverse_append]
    cases hbody : e.body <;> simp [hbody]

theorem kept_always (es : List Event) : Kept False (afterEvents es) :=
  Lib.runFrom_keeps (I := Kept False) .start
    (fun _ _ hkept => hkept.step False.elim False.elim) es

/-- Without a call under the kernel's label, calls are answered once and in turn, the waiting
service is ready with a capability for each armed timer, and a timer signals the one that came with
its arming. -/
theorem every_call_is_answered_once (es : List Event) (h : ∀ e ∈ es, ¬ Forges e) :
    ((afterEvents es).replies.map Prod.fst).reverse = callers es ∧
      (∀ i, ((afterEvents es).client i).isSome ↔ ((afterEvents es).timers i).used) ∧
      (∀ b, ((afterEvents es).receive (afterEvents es).tmFreeSlot b).isSome) ∧
      ∀ n target bits now, .signalled n target bits now ∈ (afterEvents es).log →
        ∃ p, .armed p ∈ (afterEvents es).log ∧ p.serial = n ∧ target = some p.notification ∧
          ∃ e ∈ es, Record.From e (.armed p) := by
  obtain ⟨hwait, hreplies⟩ := waiting_afterEvents h
  refine ⟨by rw [hreplies, List.reverse_reverse], fun i => Bool.eq_iff_iff.mp (hwait.agrees i),
    hwait.receive, fun n target bits now hmem => ?_⟩
  obtain ⟨p, hp, hserial, -, howns, -⟩ := (kept_always es).closed _ hmem n rfl
  exact ⟨p, hp, hserial, howns.1, log_afterEvents es _ hp⟩

theorem every_call_is_answered_once_armCancelTick :
    ((afterEvents armCancelTick).replies.map Prod.fst).reverse = [7, 7, 7] :=
  (every_call_is_answered_once armCancelTick (by
    rintro e he ⟨c, hc, hlabel⟩
    simp only [armCancelTick, clientCall, List.mem_cons, List.not_mem_nil, or_false] at he
    rcases he with rfl | rfl | rfl | rfl <;> cases hc <;> exact absurd hlabel (by decide))).1

/-- In every run, even with forged labels and a clock that goes back, a row in use belongs to an
arming that nothing has closed, and an arming is closed at most once, with its own notification and
bits or by its own badge and token. -/
theorem rows_in_use_are_open_armings (es : List Event) :
    let s := afterEvents es
    (∀ i, (s.timers i).used = true → ∃ p, .armed p ∈ s.log ∧ p.slot = i ∧
      p.serial ∉ s.log.filterMap Record.closes ∧ (s.timers i).bits = p.bits ∧
      (s.timers i).owner = p.badge ∧ s.client i = some p.notification) ∧
    (s.log.filterMap Record.closes).Nodup ∧
    ∀ r ∈ s.log, ∀ n, r.closes = some n →
      ∃ p, .armed p ∈ s.log ∧ p.serial = n ∧ p.Owns r := by
  intro s
  have hkept : Kept False s := kept_always es
  refine ⟨fun i hi => ?_, hkept.once, fun r hr n hn => ?_⟩
  · obtain ⟨p, hp, rfl, hopen⟩ := hkept.live i hi
    refine ⟨p, hp, rfl, fun hclosed => ?_, hopen.bits, hopen.owner, hopen.client⟩
    obtain ⟨r, hr, hn⟩ := List.mem_filterMap.mp hclosed
    obtain ⟨q, hq, hserial, hpast, -⟩ := hkept.closed r hr _ hn
    obtain rfl := hkept.serial_inj q p hq hp hserial
    exact hpast.ne hopen.generation.symm
  · obtain ⟨p, hp, hserial, -, howns, -⟩ := hkept.closed r hr n hn
    exact ⟨p, hp, hserial, howns⟩

/-- A call under the notification label is never answered, and the service receives nothing after
it. -/
theorem forged_label_stops_the_service :
    let s := afterEvents [clientCall 100 irisMsgLabelNotification 0 0 (some 11)]
    callers [clientCall 100 irisMsgLabelNotification 0 0 (some 11)] = [7] ∧ s.replies = [] ∧
      (s.client 0).isSome ∧ (s.timers 0).used = false ∧
      ∀ b, s.receive s.tmFreeSlot b = none := by
  refine ⟨by decide, by decide +kernel, by decide +kernel, by decide +kernel, fun b => ?_⟩
  unfold receive
  rw [if_pos (by decide +kernel)]

end IrisOS.Timer
