import IrisOS.Lib.Steps
import IrisOS.Svcmgr.Registry

/-! The supervision of the catalog services: their spawns, the deaths that the kernel reports on
the death notification, and the requests to restart a service (`svcmgr.c`). -/
namespace IrisOS.Supervision
open Lib Function List
open Svcmgr (badgeIsSupervisor)

/-- An index of the runtime slots. A request or a bit that names none of them is ignored. -/
abbrev ServiceId := Fin 4

/-- What the supervision reads of a catalog entry. -/
structure Manifest where
  serviceId : ServiceId
  irqNum : UInt8
  autostart : Bool
  restartOnExit : Bool
  restartLimit : UInt8

structure Catalog where
  entries : List Manifest
  nodup : (entries.map Manifest.serviceId).Nodup

def catalog : Catalog where
  entries := [⟨1, 1, true, true, 3⟩, ⟨2, 0xFF, true, true, 3⟩, ⟨3, 0xFF, true, false, 0⟩]
  nodup := by decide

def Catalog.findByServiceId (c : Catalog) (sid : ServiceId) : Option Manifest :=
  c.entries.find? fun m => m.serviceId = sid

/-- How a spawn ends. A service without an interrupt line has no routing that could fail. -/
inductive Spawn
  | success
  | loadFailure
  | irqFailure
  | watchFailure
deriving DecidableEq

/-- A runtime slot, the thread and watch bit of its last instance, and the history: generations that
were made, died and were handled, restarts, and failed spawns. -/
structure Service where
  procH : Bool := false
  restartCount : UInt8 := 0
  generation : UInt32 := 0
  degraded : Bool := false
  alive : Bool := false
  watched : Bool := false
  bit : Bool := false
  instances : List UInt32 := []
  died : List UInt32 := []
  handled : List UInt32 := []
  restarts : ℕ := 0
  failures : List Spawn := []

abbrev State := ServiceId → Service

/-! ## The calls of the service manager -/

/-- `svcmgr_track_spawn`. Where it gives up, the instance goes on without a watch. -/
def trackSpawn (m : Manifest) (o : Spawn) (svc : Service) : Service :=
  if m.irqNum ≠ 0xFF ∧ o = .irqFailure then
    { svc with procH := false, failures := o :: svc.failures }
  else if o = .watchFailure then { svc with procH := false, failures := o :: svc.failures }
  else { svc with
    procH := true
    watched := true
    generation := if svc.generation = 0 then 1 else svc.generation }

def bootService (m : Manifest) (o : Spawn) (svc : Service) : Service :=
  if o = .loadFailure then { svc with failures := o :: svc.failures }
  else
    let svc := trackSpawn m o { svc with alive := true, watched := false }
    { svc with instances := svc.generation :: svc.instances }

def shouldRestartService (m : Manifest) (svc : Service) : Bool :=
  m.autostart && m.restartOnExit && decide (svc.restartCount < m.restartLimit)

def handleServiceDeath (manifest : Option Manifest) (o : Spawn) (svc : Service) : Service :=
  if svc.procH = false then svc
  else
    let svc := { svc with procH := false, handled := svc.generation :: svc.handled }
    match manifest with
    | none => svc
    | some m =>
      if shouldRestartService m svc then
        bootService m o { svc with
          restartCount := svc.restartCount + 1
          generation := svc.generation + 1
          restarts := svc.restarts + 1 }
      else if m.restartOnExit then { svc with degraded := true }
      else svc

/-- The end of the service's thread, which the kernel reports once if it is watched. -/
def Service.exit (svc : Service) : Service :=
  if svc.alive then { svc with
    alive := false
    bit := svc.bit || svc.watched
    died := svc.generation :: svc.died }
  else svc

/-- What the main loop does about the bit of a service. -/
def takeBit (manifest : Option Manifest) (o : Spawn) (svc : Service) : Service :=
  if svc.bit then handleServiceDeath manifest o { svc with bit := false } else svc

/-! ## Runs -/

/-- An instance ends, a restart request arrives, or the death notification, whose handler spawns
services. -/
inductive Event
  | exit (sid : ServiceId)
  | restart (badge : UInt64) (sid : ServiceId)
  | deaths (o : ServiceId → Spawn)

def act (c : Catalog) (σ : State) : Event → State
  | .exit sid => update σ sid (σ sid).exit
  | .restart badge sid =>
    if badgeIsSupervisor badge ∧ (c.findByServiceId sid).isSome ∧ (σ sid).procH then
      update σ sid (σ sid).exit
    else σ
  | .deaths o => (List.finRange 4).foldl
      (fun σ sid => update σ sid (takeBit (c.findByServiceId sid) (o sid) (σ sid))) σ

def autostartServices (c : Catalog) (o : ServiceId → Spawn) : State :=
  (c.entries.filter Manifest.autostart).foldl
    (fun σ m => update σ m.serviceId (bootService m (o m.serviceId) (σ m.serviceId)))
    fun _ => {}

def run (c : Catalog) (o : ServiceId → Spawn) (es : List Event) : State :=
  runFrom (act c) (autostartServices c o) es

/-! ## Each service on its own -/

variable {m : Manifest}

theorem Catalog.findByServiceId_eq (c : Catalog) (hm : m ∈ c.entries) :
    c.findByServiceId m.serviceId = some m := by
  have hsome : (c.findByServiceId m.serviceId).isSome := find?_isSome.mpr ⟨m, hm, by simp⟩
  obtain ⟨m', hm'⟩ := Option.isSome_iff_exists.mp hsome
  have hid := find?_some hm'
  rw [hm', inj_on_of_nodup_map c.nodup (mem_of_find?_eq_some hm') hm (by simpa using hid)]

theorem autostartServices_apply (c : Catalog) (o : ServiceId → Spawn)
    (hm : m ∈ c.entries) : autostartServices c o m.serviceId =
      if m.autostart then bootService m (o m.serviceId) {} else {} := by
  have hl : ((c.entries.filter Manifest.autostart).map Manifest.serviceId).Nodup :=
    c.nodup.sublist (filter_sublist.map _)
  obtain ⟨hin, hout⟩ := foldl_update_apply (f := fun m => bootService m (o m.serviceId)) hl
    fun _ => {}
  split
  · rename_i hauto
    exact hin m (mem_filter.mpr ⟨hm, hauto⟩)
  rename_i hauto
  refine hout _ fun hmem => hauto ?_
  obtain ⟨m', hm', hid⟩ := mem_map.mp hmem
  obtain ⟨hm', hauto'⟩ := mem_filter.mp hm'
  rwa [← inj_on_of_nodup_map c.nodup hm' hm hid]

/-- An event leaves a service as it is, ends its instance, or takes its bit. -/
theorem act_apply (c : Catalog) (σ : State) (e : Event) (hm : m ∈ c.entries) :
    act c σ e m.serviceId = σ m.serviceId ∨
    act c σ e m.serviceId = (σ m.serviceId).exit ∨
    ∃ o, act c σ e m.serviceId = takeBit (some m) o (σ m.serviceId) := by
  have hexit (sid : ServiceId) :
      update σ sid (σ sid).exit m.serviceId = σ m.serviceId ∨
        update σ sid (σ sid).exit m.serviceId = (σ m.serviceId).exit := by
    by_cases hsid : m.serviceId = sid
    · subst hsid
      exact .inr (update_self ..)
    · exact .inl (update_of_ne hsid ..)
  cases e with
  | exit sid => exact (hexit sid).imp_right .inl
  | restart badge sid =>
    rw [act]
    split
    · exact (hexit sid).imp_right .inl
    · exact .inl rfl
  | deaths o =>
    refine .inr (.inr ⟨o m.serviceId, ?_⟩)
    have := (foldl_update_apply (k := id) (l := finRange 4)
      (f := fun sid => takeBit (c.findByServiceId sid) (o sid))
      (by simpa using nodup_finRange 4) σ).1 m.serviceId (mem_finRange _)
    rwa [id, c.findByServiceId_eq hm] at this

/-! ## What every run keeps -/

/-- The restarts stay within the limit, and no generation wraps or is used for two instances. -/
structure Counted (m : Manifest) (svc : Service) : Prop where
  count : svc.restarts = svc.restartCount.toNat
  limit : svc.restarts ≤ m.restartLimit.toNat
  bound : svc.generation.toNat ≤ svc.restarts + 1
  increasing : svc.instances.Pairwise (· > ·)

/-- What holds of a service before it is spawned. -/
structure Ready (m : Manifest) (svc : Service) : Prop extends Counted m svc where
  fresh : ∀ g ∈ svc.instances, g < svc.generation
  down : svc.procH = false ∧ svc.alive = false ∧ svc.bit = false
  clean : svc.degraded = false ∧ svc.failures = []
  died : svc.instances = svc.died
  handled : svc.died = svc.handled

structure Supervised (m : Manifest) (svc : Service) : Prop extends Counted m svc where
  last : ∀ g ∈ svc.instances, g ≤ svc.generation
  held : svc.procH = true →
    svc.watched = true ∧ svc.alive = !svc.bit ∧ svc.degraded = false ∧ svc.failures = []
  released : svc.procH = false → svc.bit = false ∧ (svc.alive = true → svc.watched = false)
  failed : svc.failures ≠ [] → svc.degraded = false
  up : m.autostart = true → m.restartOnExit = true → svc.failures = [] →
    svc.procH = true ∨ svc.degraded = true
  logged : (∀ o ∈ svc.failures, o = .loadFailure) →
    (svc.alive = true → svc.watched = true) ∧
    svc.instances = (if svc.alive then [svc.generation] else []) ++ svc.died ∧
    svc.died = (if svc.bit then [svc.generation] else []) ++ svc.handled

variable {svc : Service} {o : Spawn}

theorem ready_initial : Ready m {} where
  count := rfl
  limit := Nat.zero_le _
  bound := Nat.zero_le _
  increasing := .nil
  fresh := nofun
  down := ⟨rfl, rfl, rfl⟩
  clean := ⟨rfl, rfl⟩
  died := rfl
  handled := rfl

theorem Ready.unwatched (h : Ready m svc) (ho : o ≠ .loadFailure) :
    Supervised m { svc with
      alive := true
      watched := false
      procH := false
      failures := o :: svc.failures
      instances := svc.generation :: svc.instances } where
  count := h.count
  limit := h.limit
  bound := h.bound
  increasing := pairwise_cons.mpr ⟨h.fresh, h.increasing⟩
  last := forall_mem_cons.mpr ⟨UInt32.le_refl _, fun g hg => UInt32.le_of_lt (h.fresh g hg)⟩
  held := nofun
  released _ := ⟨h.down.2.2, fun _ => rfl⟩
  failed _ := h.clean.1
  up _ _ := nofun
  logged hall := absurd (hall o (mem_cons_self ..)) ho

theorem Ready.watched (h : Ready m svc) {g : UInt32} (hg : g.toNat ≤ svc.restarts + 1)
    (hle : svc.generation ≤ g) :
    Supervised m { svc with
      alive := true
      watched := true
      procH := true
      generation := g
      instances := g :: svc.instances } where
  count := h.count
  limit := h.limit
  bound := hg
  increasing := pairwise_cons.mpr
    ⟨fun x hx => UInt32.lt_of_lt_of_le (h.fresh x hx) hle, h.increasing⟩
  last := forall_mem_cons.mpr ⟨UInt32.le_refl _, fun x hx =>
    UInt32.le_of_lt (UInt32.lt_of_lt_of_le (h.fresh x hx) hle)⟩
  held _ := ⟨rfl, by simp [h.down.2.2], h.clean⟩
  released := nofun
  failed hfail := absurd h.clean.2 hfail
  up _ _ _ := .inl rfl
  logged _ := by simp [h.died, h.handled, h.down.2.2]

theorem Ready.bootService (h : Ready m svc) : Supervised m (bootService m o svc) := by
  obtain ⟨hproc, halive, hbit⟩ := h.down
  unfold Supervision.bootService trackSpawn
  dsimp only
  split_ifs with hload hirq hwatch
  · exact
      { h.toCounted with
        last := fun g hg => UInt32.le_of_lt (h.fresh g hg)
        held := by simp [hproc]
        released := by simp [hbit, halive]
        failed := fun _ => h.clean.1
        up := by simp
        logged := by simp [halive, hbit, h.died, h.handled] }
  · exact h.unwatched hload
  · exact h.unwatched hload
  · rename_i hzero
    exact h.watched (by simp) (by simp [hzero])
  · exact h.watched h.bound (UInt32.le_refl _)

theorem Supervised.exit (h : Supervised m svc) : Supervised m svc.exit := by
  unfold Service.exit
  split
  · rename_i halive
    cases hproc : svc.procH with
    | true =>
      obtain ⟨hwatched, hbit, hdeg, hfail⟩ := h.held hproc
      obtain ⟨-, hinst, hdied⟩ := h.logged (by simp [hfail])
      have hbit : svc.bit = false := by simpa [halive] using hbit
      exact
        { h.toCounted with
          last := h.last
          held := fun _ => ⟨hwatched, by simp [hwatched], hdeg, hfail⟩
          released := nofun
          failed := h.failed
          up := fun _ _ _ => .inl rfl
          logged := fun _ =>
            ⟨nofun, by simpa [halive] using hinst, by simpa [hbit, hwatched] using hdied⟩ }
    | false =>
      obtain ⟨hbit, hun⟩ := h.released hproc
      exact
        { h.toCounted with
          last := h.last
          held := nofun
          released := fun _ => ⟨by simp [hbit, hun halive], nofun⟩
          failed := h.failed
          up := hproc ▸ h.up
          logged := fun hall => absurd ((h.logged hall).1 halive) (by simp [hun halive]) }
  · exact h

theorem Supervised.takeBit (h : Supervised m svc) : Supervised m (takeBit (some m) o svc) := by
  unfold Supervision.takeBit
  split
  swap
  · exact h
  rename_i hbit
  have hproc : svc.procH = true := by
    by_contra hproc
    simp [(h.released (by simpa using hproc)).1] at hbit
  obtain ⟨hwatched, halive, hdeg, hfail⟩ := h.held hproc
  have halive : svc.alive = false := by simpa [hbit] using halive
  obtain ⟨-, hinst, hdied⟩ := h.logged (by simp [hfail])
  have hinst : svc.instances = svc.died := by simpa [halive] using hinst
  have hdied : svc.died = svc.generation :: svc.handled := by simpa [hbit] using hdied
  have hdown (d : Bool) (hd : m.restartOnExit = true → d = true) :
      Supervised m { svc with
        bit := false
        procH := false
        handled := svc.generation :: svc.handled
        degraded := d } :=
    { h.toCounted with
      last := h.last
      held := nofun
      released := fun _ => ⟨rfl, by simp [halive]⟩
      failed := fun hne => absurd hfail hne
      up := fun _ hon _ => .inr (hd hon)
      logged := fun _ => by simp [halive, hinst, hdied] }
  simp only [handleServiceDeath, hproc, Bool.true_eq_false, if_false]
  split_ifs with hrestart hon
  · obtain ⟨-, hlt⟩ := Bool.and_eq_true_iff.mp hrestart
    have hlt : svc.restartCount.toNat < m.restartLimit.toNat :=
      UInt8.lt_iff_toNat_lt.mp (of_decide_eq_true hlt)
    have hcount := h.count
    have hbound := h.bound
    have hmax := m.restartLimit.toNat_lt
    have hgen : (svc.generation + 1).toNat = svc.generation.toNat + 1 := by
      exact Nat.mod_eq_of_lt (by simp; omega)
    have hnext : (svc.restartCount + 1).toNat = svc.restartCount.toNat + 1 := by
      exact Nat.mod_eq_of_lt (by simp; omega)
    exact Ready.bootService
      { count := by rw [hcount, hnext]
        limit := by rw [hcount]; exact hlt
        bound := by dsimp only; omega
        increasing := h.increasing
        fresh := fun g hg => by
          have := UInt32.le_iff_toNat_le.mp (h.last g hg)
          rw [UInt32.lt_iff_toNat_lt, hgen]
          omega
        down := ⟨rfl, halive, rfl⟩
        clean := ⟨hdeg, hfail⟩
        died := hinst
        handled := hdied }
  · exact hdown true fun _ => rfl
  · exact hdown svc.degraded fun hon' => absurd hon' hon

theorem run_supervised (c : Catalog) (o : ServiceId → Spawn) (es : List Event)
    (hm : m ∈ c.entries) : Supervised m (run c o es m.serviceId) := by
  refine runFrom_keeps (I := fun σ : State => Supervised m (σ m.serviceId)) ?_ (fun σ e h => ?_) es
  · rw [autostartServices_apply c o hm]
    split
    · exact ready_initial.bootService
    rename_i hauto
    exact
      { ready_initial.toCounted with
        last := nofun
        held := nofun
        released := fun _ => ⟨rfl, nofun⟩
        failed := fun _ => rfl
        up := fun ha => absurd ha hauto
        logged := fun _ => ⟨nofun, rfl, rfl⟩ }
  · obtain heq | heq | ⟨o, heq⟩ := act_apply c σ e hm
    · rwa [heq]
    · rw [heq]
      exact h.exit
    · rw [heq]
      exact h.takeBit

/-! ## No service is silently down -/

/-- Restarts never pass the limit and generations grow. With every instance watched, deaths are
handled once each, and an autostarted service is up, about to be handled or degraded exactly if no
spawn of it failed. -/
theorem service_down_iff_spawn_failed (c : Catalog) (o : ServiceId → Spawn) (es : List Event)
    (m : Manifest) (hm : m ∈ c.entries) :
    let svc := run c o es m.serviceId
    svc.restarts ≤ m.restartLimit.toNat ∧
    svc.instances.Pairwise (· > ·) ∧
    ((∀ f ∈ svc.failures, f = .loadFailure) →
      svc.instances = (if svc.alive then [svc.generation] else []) ++ svc.died ∧
      svc.died = (if svc.bit then [svc.generation] else []) ++ svc.handled) ∧
    (m.autostart = true → m.restartOnExit = true →
      (svc.failures = [] ↔
        svc.alive = true ∧ svc.watched = true ∨ svc.bit = true ∨ svc.degraded = true)) := by
  have h := run_supervised c o es hm
  refine ⟨h.limit, h.increasing, fun hall => (h.logged hall).2, fun hauto hon => ?_⟩
  constructor
  · intro hfail
    rcases h.up hauto hon hfail with hproc | hdeg
    · obtain ⟨hwatched, halive, -, -⟩ := h.held hproc
      cases hbit : (run c o es m.serviceId).bit with
      | true => exact .inr (.inl rfl)
      | false => exact .inl ⟨by simp [halive, hbit], hwatched⟩
    · exact .inr (.inr hdeg)
  · intro hup
    by_contra hfail
    have hproc : (run c o es m.serviceId).procH = false := by
      by_contra hproc
      exact hfail (h.held (by simpa using hproc)).2.2.2
    obtain ⟨hbit, hun⟩ := h.released hproc
    rcases hup with ⟨halive, hwatched⟩ | hup | hup
    · simp [hun halive] at hwatched
    · simp [hbit] at hup
    · simp [h.failed hfail] at hup

/-- The file system dies four times and is spawned three more times. -/
theorem service_down_iff_spawn_failed_vfs :
    let es := (replicate 4 [Event.exit 2, .deaths fun _ => .success]).flatten
    let svc := run catalog (fun _ => .success) es 2
    (svc.restarts = 3 ∧ svc.handled = [4, 3, 2, 1] ∧ svc.failures = [] ∧ svc.bit = false) ∧
      (svc.alive = true ∧ svc.watched = true ∨ svc.bit = true ∨ svc.degraded = true) :=
  ⟨by decide +kernel, ((service_down_iff_spawn_failed catalog (fun _ => .success)
    (replicate 4 [Event.exit 2, .deaths fun _ => .success]).flatten ⟨2, 0xFF, true, true, 3⟩
    (by simp [catalog])).2.2.2 rfl rfl).mp (by decide +kernel)⟩

/-- After a failed load the file system stays down without the mark, and the death of a keyboard
whose interrupt was not routed is not handled. -/
theorem service_silently_down :
    (let svc := run catalog (fun _ => .success) [.exit 2, .deaths fun _ => .loadFailure] 2
    svc.alive = false ∧ svc.bit = false ∧ svc.degraded = false ∧ svc.restarts = 1) ∧
    let svc := run catalog (fun _ => .success)
      [.exit 1, .deaths fun _ => .irqFailure, .exit 1, .deaths fun _ => .success] 1
    svc.died = [2, 1] ∧ svc.handled = [1] ∧ svc.bit = false ∧ svc.degraded = false := by
  decide +kernel

end IrisOS.Supervision
