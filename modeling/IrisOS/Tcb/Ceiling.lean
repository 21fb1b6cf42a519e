import IrisOS.Tcb.Priority

/-! The priority ceiling of a group of threads. A priority that nobody of the group has set is the
one the thread was retyped with, which no ceiling bounds. -/
namespace IrisOS.Tcb
open Lib Cap Function

/-- A known thread has a ceiling under `c`, and one made or touched a priority under `c` if the
group set it or it can run. -/
structure Bounded (c : UInt8) (s : State) : Prop where
  ceilings : ∀ t x, s.known t = true → s.task t = some x → x.mcp ≤ c
  priorities : ∀ t x, s.task t = some x → x.ours = true →
    x.chosen = true ∨ x.runs = true → x.priority ≤ c
  ours : ∀ t x, s.task t = some x → x.chosen = true → x.ours = true

section
variable {c : UInt8} {s : State} {cap : TcbCap} {x y : Task} {caller : Task} {t : ℕ}

theorem tcbResolve_ok {required : Rights} (h : tcbResolve s cap required = .ok x) :
    s.known cap.thread = true ∧ s.task cap.thread = some x := by
  unfold tcbResolve at h
  split at h
  · rename_i hknown
    split at h
    · cases h
    rename_i y hy
    split at h
    · cases h
      exact ⟨hknown, hy⟩
    · cases h
  · cases h

theorem rights_of_tcbResolve {required : Rights} (h : tcbResolve s cap required = .ok x) :
    rightsCheck cap.rights required = true := by
  unfold tcbResolve at h
  split at h
  · split at h
    · cases h
    split at h
    · assumption
    · cases h
  · cases h

/-- The thread can be made to run: it has not ended, and is configured with a place to start. -/
def Task.startable (x : Task) : Bool := !x.terminal && x.configured && x.entry

/-- A resume starts no thread above `c` whose priority the group has left alone. -/
def StartsUnder (c : UInt8) (s : State) : Event → Prop
  | .call _ (.resume cap) => s.known cap.thread = true → rightsCheck cap.rights rightWrite = true →
    ∀ x ∈ s.task cap.thread, x.startable = true → x.ours = true → x.chosen = false → x.priority ≤ c
  | _ => True

instance (c : UInt8) (s : State) (e : Event) : Decidable (StartsUnder c s e) := by
  unfold StartsUnder
  split <;> infer_instance

theorem Bounded.setTask (h : Bounded c s) (hmcp : s.known t = true → y.mcp ≤ c)
    (hprio : y.ours = true → y.chosen = true ∨ y.runs = true → y.priority ≤ c)
    (hours : y.chosen = true → y.ours = true) : Bounded c (s.setTask t y) := by
  refine ⟨fun t' x hknown hx => ?_, fun t' x hx => ?_, fun t' x hx => ?_⟩
  all_goals
    rw [State.task_setTask] at hx
    split at hx
  · rename_i ht
    cases hx
    exact hmcp (ht ▸ hknown)
  · exact h.ceilings t' x hknown hx
  · cases hx
    exact hprio
  · exact h.priorities t' x hx
  · cases hx
    exact hours
  · exact h.ours t' x hx

variable {auth : Option TcbCap}

section

variable (h : Bounded c s) (hcaller : caller.mcp ≤ c)
include h hcaller

theorem ceiling_le {top : UInt8} (htop : ceiling s caller auth = .ok top) : top ≤ c := by
  cases auth with
  | none =>
    cases htop
    exact hcaller
  | some auth =>
    unfold ceiling at htop
    dsimp only at htop
    cases hres : tcbResolve s auth rightRead with
    | error e =>
      rw [hres] at htop
      cases htop
    | ok x =>
      rw [hres] at htop
      cases htop
      obtain ⟨hknown, hx⟩ := tcbResolve_ok hres
      exact h.ceilings _ x hknown hx

theorem underCeiling_ok {value : UInt8} (hok : underCeiling s caller cap value auth = .ok x) :
    value ≤ c ∧ s.known cap.thread = true ∧ s.task cap.thread = some x := by
  unfold underCeiling at hok
  split at hok
  · cases hok
  rename_i top htop
  split at hok
  · cases hok
  rename_i hle
  have htop' := ceiling_le h hcaller htop
  split at hok
  · cases hok
  rename_i y hy
  split at hok
  · cases hok
  cases hok
  exact ⟨UInt8.le_trans (UInt8.not_lt.mp hle) htop', tcbResolve_ok hy⟩

theorem bounded_setPriority (arg : UInt64)
    (auth : Option TcbCap) : Bounded c (sysTcbSetPriority s caller cap arg auth).1 := by
  unfold sysTcbSetPriority
  dsimp only
  split
  · exact h
  rename_i x hok
  obtain ⟨hle, hknown, hx⟩ := underCeiling_ok h hcaller hok
  exact h.setTask (fun _ => h.ceilings _ x hknown hx) (fun _ _ => hle) fun _ => rfl

theorem bounded_setMcpriority (arg : UInt64)
    (auth : Option TcbCap) : Bounded c (sysTcbSetMcpriority s caller cap arg auth).1 := by
  unfold sysTcbSetMcpriority
  dsimp only
  split
  · exact h
  rename_i x hok
  obtain ⟨hle, -⟩ := underCeiling_ok h hcaller hok
  refine h.setTask (fun _ => hle) (fun _ _ => ?_) fun _ => rfl
  split
  · exact hle
  · rename_i hlow
    exact UInt8.le_trans (UInt8.not_lt.mp hlow) hle

theorem bounded_configure (built : Built) : Bounded c (sysTcbConfigure s caller cap built).1 := by
  unfold sysTcbConfigure
  split
  · exact h
  rename_i x hres
  obtain ⟨-, hx⟩ := tcbResolve_ok hres
  unfold ktcbConfigure
  split
  · exact h
  rename_i hconf
  have hconf' : x.configured = false := by
    simp only [Bool.or_eq_true, not_or, Bool.not_eq_true] at hconf
    exact hconf.1
  have hchosen : x.chosen = true → x.priority ≤ c := fun hch =>
    h.priorities _ x hx (h.ours _ x hx hch) (.inl hch)
  split
  · exact h
  split
  · exact h
  · exact h
  · refine h.setTask (fun _ => hcaller) (fun _ hruns => ?_) fun _ => rfl
    obtain hch | hruns := hruns
    · exact hchosen hch
    · simp [Task.runs, hconf'] at hruns
  · refine h.setTask (fun _ => hcaller) (fun _ hruns => ?_) fun _ => rfl
    obtain hch | hruns := hruns
    · exact hchosen hch
    · simp [Task.runs] at hruns

end

section

variable (h : Bounded c s)
include h

theorem Bounded.same (hx : s.task t = some x)
    (hprio : y.priority = x.priority) (hmcp' : y.mcp = x.mcp) (hchosen : y.chosen = x.chosen)
    (hours : y.ours = x.ours) (hruns : y.runs = true → x.runs = true) :
    Bounded c (s.setTask t y) := by
  refine h.setTask (fun hknown => ?_) (fun ho hr => ?_) fun hch => ?_
  · rw [hmcp']
    exact h.ceilings t x hknown hx
  · rw [hprio]
    exact h.priorities t x hx (hours ▸ ho) (hr.imp (fun hch => hchosen ▸ hch) hruns)
  · rw [hours]
    exact h.ours t x hx (hchosen ▸ hch)

theorem bounded_writeRegs (inRange : Bool) : Bounded c (sysTcbWriteRegs s cap inRange).1 := by
  unfold sysTcbWriteRegs
  split
  · exact h
  rename_i x hres
  obtain ⟨-, hx⟩ := tcbResolve_ok hres
  split
  · exact h
  split
  · exact h
  split
  · exact h
  · exact h.same hx rfl rfl rfl rfl id

theorem bounded_suspend : Bounded c (sysTcbSuspend s cap).1 := by
  unfold sysTcbSuspend
  split
  · exact h
  rename_i x hres
  obtain ⟨-, hx⟩ := tcbResolve_ok hres
  split
  · exact h
  split
  · exact h
  · refine h.same hx rfl rfl rfl rfl fun hruns => ?_
    simp [Task.runs] at hruns

theorem bounded_resume {a : ℕ} (hstart : StartsUnder c s (.call a (.resume cap))) :
    Bounded c (sysTcbResume s cap).1 := by
  unfold sysTcbResume
  split
  · exact h
  rename_i x hres
  obtain ⟨hknown, hx⟩ := tcbResolve_ok hres
  split
  · exact h
  rename_i hterm
  split
  · exact h
  rename_i hconf
  split
  · exact h
  rename_i hentry
  refine h.setTask (fun _ => h.ceilings _ x hknown hx) (fun ho _ => ?_) fun hch =>
    h.ours _ x hx hch
  cases hch : x.chosen with
  | true => exact h.priorities _ x hx ho (.inl hch)
  | false =>
    have hcan : x.startable = true := by simp_all [Task.startable]
    exact hstart hknown (rights_of_tcbResolve hres) x hx hcan ho hch

theorem bounded_retype (t : ℕ) : Bounded c (ktcbAllocAt s t) := by
  have htask : ∀ t' x, (ktcbAllocAt s t).task t' = some x →
      t' = t ∧ x = { ours := true } ∨ t' ≠ t ∧ s.task t' = some x := by
    intro t' x hx
    unfold ktcbAllocAt at hx
    dsimp only at hx
    rw [update_apply] at hx
    split at hx
    · rename_i ht
      exact .inl ⟨ht, (Option.some.inj hx).symm⟩
    · rename_i ht
      exact .inr ⟨ht, hx⟩
  refine ⟨fun t' x hknown hx => ?_, fun t' x hx => ?_, fun t' x hx => ?_⟩
  · obtain ⟨-, rfl⟩ | ⟨hne, hx⟩ := htask t' x hx
    · exact UInt8.zero_le
    · refine h.ceilings t' x ?_ hx
      unfold ktcbAllocAt at hknown
      dsimp only at hknown
      rwa [update_of_ne hne] at hknown
  · obtain ⟨-, rfl⟩ | ⟨-, hx⟩ := htask t' x hx
    · rintro - (hch | hruns)
      · cases hch
      · cases hruns
    · exact h.priorities t' x hx
  · obtain ⟨-, rfl⟩ | ⟨-, hx⟩ := htask t' x hx
    · exact fun _ => rfl
    · exact h.ours t' x hx

end

end

/-! ## Runs -/

theorem bounded_act {c : UInt8} {s : State} (h : Bounded c s) {e : Event}
    (he : StartsUnder c s e) : Bounded c (act s e) := by
  unfold act
  cases e with
  | exit t =>
    dsimp only
    split
    · rename_i x hx
      refine h.same hx rfl rfl rfl rfl fun hruns => ?_
      simp [Task.runs] at hruns
    · exact h
  | call a op =>
    dsimp only
    split
    swap
    · exact h
    rename_i caller hcaller
    split
    swap
    · exact h
    rename_i hknown
    have hmcp := h.ceilings a caller hknown hcaller
    cases op with
    | retype t =>
      dsimp only [perform]
      split
      · exact h
      · exact bounded_retype h t
    | configure cap built => exact bounded_configure h hmcp built
    | writeRegs cap inRange => exact bounded_writeRegs h inRange
    | resume cap => exact bounded_resume h he
    | suspend cap => exact bounded_suspend h
    | setPriority cap arg auth => exact bounded_setPriority h hmcp arg auth
    | setMcpriority cap arg auth => exact bounded_setMcpriority h hmcp arg auth

/-- If no thread is started above `c` on a priority the group has left alone, no thread the group
has created, configured or set runs above `c`. -/
theorem ceiling_is_kept (c : UInt8) (s : State)
    (hknown : ∀ t x, s.known t = true → s.task t = some x → x.mcp ≤ c)
    (hfresh : ∀ t x, s.task t = some x → x.ours = false ∧ x.chosen = false) (es : List Event)
    (hes : Meets act (StartsUnder c) s es) (t : ℕ) (x : Task)
    (hx : (runFrom act s es).task t = some x) (hours : x.ours = true) (hruns : x.runs = true) :
    x.priority ≤ c := by
  have hstart : Bounded c s := by
    refine ⟨hknown, fun t x hx ho => ?_, fun t x hx hch => ?_⟩
    · rw [(hfresh t x hx).1] at ho
      cases ho
    · rw [(hfresh t x hx).2] at hch
      cases hch
  have hend : Bounded c (runFrom act s es) := hes.keeps hstart fun _ _ h he => bounded_act h he
  exact hend.priorities t x hx hours (.inr hruns)

/-- A single supervisor with ceiling 100. -/
def supervisor : State where
  task := update (fun _ => none) 0
    (some { priority := 100, mcp := 100, configured := true, runnable := true })
  known t := t = 0

/-- The supervisor retypes a thread, gives it a priority, and starts it. -/
def startAt (prio : UInt64) : List Event :=
  [.call 0 (.retype 1), .call 0 (.setPriority ⟨1, 3⟩ prio none), .call 0 (.configure ⟨1, 3⟩ .done),
   .call 0 (.writeRegs ⟨1, 3⟩ true), .call 0 (.resume ⟨1, 3⟩)]

theorem task_supervisor {x : Task} (hx : supervisor.task t = some x) :
    x = { priority := 100, mcp := 100, configured := true, runnable := true } := by
  unfold supervisor at hx
  dsimp only at hx
  rw [update_apply] at hx
  split at hx
  · exact (Option.some.inj hx).symm
  · cases hx

theorem started_thread_is_under_the_ceiling :
    let s := runFrom act supervisor (startAt 90)
    Meets act (StartsUnder 100) supervisor (startAt 90) ∧
      ((s.task 1).any fun x => x.ours && x.runs) = true ∧
      ∀ x, s.task 1 = some x → x.ours = true → x.runs = true → x.priority ≤ 100 := by
  refine ⟨by decide +kernel, by decide +kernel, fun x => ?_⟩
  refine ceiling_is_kept 100 supervisor (fun t x _ hx => ?_) (fun t x hx => ?_) (startAt 90)
    (by decide +kernel) 1 x
  · rw [task_supervisor hx]
    decide
  · rw [task_supervisor hx]
    exact ⟨rfl, rfl⟩

/-- A thread that the supervisor retypes, configures and resumes runs at 128, above every ceiling.
-/
theorem default_priority_escapes_the_ceiling :
    let s := runFrom act supervisor [.call 0 (.retype 1), .call 0 (.configure ⟨1, 3⟩ .done),
      .call 0 (.writeRegs ⟨1, 3⟩ true), .call 0 (.resume ⟨1, 3⟩)]
    s.task 1 = some { priority := 128, mcp := 100, configured := true, configuring := true
                      entry := true, started := true, runnable := true, ours := true } := by
  decide +kernel

end IrisOS.Tcb
