import IrisOS.Lib.Steps
import Mathlib.Data.UInt

/-! The timer service: a table of armed timers, a client capability per row, and a loop that takes
ticks and calls from one receive. Generations are counted without bound and truncated where the
source keeps 32 bits. -/
namespace IrisOS.Timer
open Function

/-- The object a client capability names. -/
abbrev Cap := ℕ

def tmrMaxTimers : ℕ := 64
def irisMsgLabelNotification : ℕ := 0xF0000002
def tmrOpArm : ℕ := 0x544D5201
def tmrOpCancel : ℕ := 0x544D5202
def tmrOpUptime : ℕ := 0x544D5203

inductive Error
  | none
  | full
  | noCap
  | badOp
  | notYours
  deriving DecidableEq

/-- The number an error has in a reply. -/
def Error.code : Error → ℕ
  | .none => 0
  | .full => 1
  | .noCap => 2
  | .badOp => 3
  | .notYours => 4

/-- `(slot + 1) | generation << 32`. -/
def tokenOf (slot generation : ℕ) : ℕ := slot + 1 + generation % 2 ^ 32 * 2 ^ 32

/-- A row of the table, with the serial number of the arming that filled it. -/
structure Entry where
  deadline : UInt64
  bits : UInt64
  owner : UInt64
  generation : ℕ
  used : Bool
  serial : ℕ

/-- An accepted arming: what the client asked for, when, and the table row it was given. -/
structure Promise where
  serial : ℕ
  slot : ℕ
  generation : ℕ
  notification : Cap
  bits : UInt64
  delay : UInt64
  badge : UInt64
  time : UInt64
  deriving DecidableEq

def Promise.token (p : Promise) : ℕ := tokenOf p.slot p.generation

/-- What happened to timers, by the serial number of their arming. -/
inductive Record
  | armed (p : Promise)
  | signalled (serial : ℕ) (target : Option Cap) (bits now : UInt64)
  | cancelled (serial token : ℕ) (badge : UInt64)
  deriving DecidableEq

/-- The words of a reply. -/
structure Answer where
  word0 : ℕ
  word1 : ℕ
  deriving DecidableEq

/-- The service, its client slots and its bound caller, with the history and the last clock reading.
-/
structure Service where
  timers : ℕ → Entry
  client : ℕ → Option Cap
  owed : Option ℕ
  serial : ℕ
  log : List Record
  replies : List (ℕ × Answer)
  clock : UInt64

def Service.start : Service :=
  ⟨fun _ => ⟨0, 0, 0, 0, false, 0⟩, fun _ => none, none, 0, [], [], 0⟩

/-- Any label and words, the badge it came through, and a capability where there is one to deliver.
-/
structure Call where
  caller : ℕ
  label : ℕ
  word0 : UInt64
  word1 : UInt64
  badge : UInt64
  cap : Option Cap
  deriving DecidableEq

inductive Body
  | tick (bits : UInt64)
  | call (c : Call)
  deriving DecidableEq

/-- Something for the service to receive, and the clock while it is handled. -/
structure Event where
  now : UInt64
  body : Body
  deriving DecidableEq

/-- The message as received, and the capability attached, of which the service sees only the
arrival. -/
structure Message where
  label : ℕ
  word0 : UInt64
  word1 : UInt64
  badge : UInt64
  gotCaps : Bool
  gift : Option Cap

/-- The `long` that a clock reading is returned in is negative. -/
def clockFails (now : UInt64) : Prop := 2 ^ 63 ≤ now.toNat

instance (now : UInt64) : Decidable (clockFails now) := inferInstanceAs (Decidable (_ ≤ _))

/-- A clock reading, zero where the clock fails. -/
def clockRead (now : UInt64) : UInt64 := if clockFails now then 0 else now

namespace Service

def tmFreeSlot (s : Service) : ℕ :=
  ((List.range tmrMaxTimers).find? fun i => !(s.timers i).used).getD tmrMaxTimers

def cnodeDelete (s : Service) (i : ℕ) : Service :=
  { s with client := update s.client i none }

/-- The end of a timer: its capability is deleted, its row freed under the next generation. -/
def release (s : Service) (i : ℕ) (r : Record) : Service :=
  let e := s.timers i
  { s.cnodeDelete i with
    timers := update s.timers i { e with used := false, generation := e.generation + 1 }
    log := r :: s.log }

/-- The body of the tick loop: signal and release a timer whose deadline has passed. -/
def fireIfDue (now : UInt64) (s : Service) (i : ℕ) : Service :=
  let e := s.timers i
  if e.used = false then s else
  if now < e.deadline then s else
  s.release i (.signalled e.serial (s.client i) e.bits now)

def tmTick (s : Service) (now : UInt64) : Service :=
  if clockFails now then s else (List.range tmrMaxTimers).foldl (fireIfDue now) s

/-- Refused when the declared slot is occupied or the reply object bound; otherwise the capability
lands there and a call binds the reply object. -/
def receive (s : Service) (slot : ℕ) (b : Body) : Option (Service × Message) :=
  if (slot < tmrMaxTimers ∧ (s.client slot).isSome) ∨ s.owed.isSome then none else
  match b with
  | .tick bits => some (s, ⟨irisMsgLabelNotification, bits, 0, 0, false, none⟩)
  | .call c =>
    let declared := slot < tmrMaxTimers
    some ({ s with
        owed := some c.caller
        client := if declared then update s.client slot c.cap else s.client },
      ⟨c.label, c.word0, c.word1, c.badge, decide declared && c.cap.isSome, c.cap⟩)

def cancel (s : Service) (m : Message) : Service × Error :=
  let k1 := m.word0.toNat % 2 ^ 32
  let k := k1 - 1
  let gen := m.word0.toNat / 2 ^ 32
  let e := s.timers k
  if k1 = 0 ∨ tmrMaxTimers ≤ k ∨ e.used = false ∨ e.generation % 2 ^ 32 ≠ gen then (s, .badOp)
  else if e.owner ≠ m.badge then (s, .notYours)
  else (s.release k (.cancelled e.serial m.word0.toNat m.badge), .none)

/-- Fill the chosen row; the capability is already in its slot. -/
def arm (s : Service) (slot : ℕ) (m : Message) (now : UInt64) : Service × ℕ :=
  let e := s.timers slot
  let bits := if m.word1 ≠ 0 then m.word1 else 1
  ({ s with
      timers := update s.timers slot
        ⟨clockRead now + m.word0, bits, m.badge, e.generation, true, s.serial⟩
      serial := s.serial + 1
      log := .armed ⟨s.serial, slot, e.generation, m.gift.getD 0, bits, m.word0, m.badge, now⟩ ::
        s.log },
    tokenOf slot e.generation)

/-- What the loop computes for a request: the error, the token and the uptime. -/
structure Outcome where
  error : Error
  token : ℕ
  uptime : UInt64

def handle (s : Service) (slot : ℕ) (m : Message) (now : UInt64) : Service × Outcome :=
  if m.label = tmrOpUptime then (s, ⟨.none, 0, clockRead now⟩)
  else if m.label = tmrOpCancel then
    let r := s.cancel m
    (r.1, ⟨r.2, 0, 0⟩)
  else if m.label ≠ tmrOpArm then (s, ⟨.badOp, 0, 0⟩)
  else if tmrMaxTimers ≤ slot then (s, ⟨.full, 0, 0⟩)
  else if m.gotCaps = false then (s, ⟨.noCap, 0, 0⟩)
  else
    let r := s.arm slot m now
    (r.1, ⟨.none, r.2, 0⟩)

/-- The reply reaches the caller that the reply object is bound to, and unbinds it. -/
def msgReply (s : Service) (a : Answer) : Service :=
  match s.owed with
  | none => s
  | some caller => { s with owed := none, replies := (caller, a) :: s.replies }

/-- The words of the reply to a request. -/
def Outcome.words (o : Outcome) (m : Message) : Answer :=
  ⟨if m.label = tmrOpUptime then o.uptime.toNat else o.error.code, o.token⟩

def answer (s : Service) (slot : ℕ) (m : Message) (o : Outcome) : Service :=
  let s := s.msgReply (o.words m)
  if o.token = 0 ∧ slot < tmrMaxTimers then s.cnodeDelete slot else s

/-- The loop's work on one message. -/
def process (s : Service) (slot : ℕ) (m : Message) (now : UInt64) : Service :=
  if m.label = irisMsgLabelNotification then s.tmTick now else
  let r := s.handle slot m now
  r.1.answer slot m r.2

/-- One turn of the service loop. A refused receive leaves the event where it was. -/
def step (s : Service) (e : Event) : Service :=
  let s := { s with clock := e.now }
  match s.receive s.tmFreeSlot e.body with
  | none => s
  | some r => r.1.process s.tmFreeSlot r.2 e.now

end Service
end IrisOS.Timer
