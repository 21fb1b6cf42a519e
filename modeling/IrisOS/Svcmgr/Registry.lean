import IrisOS.Cap.Basic
import IrisOS.Vfs.Protocol

/-! The registry of the service manager: names, the table of dynamic services, the pool of receive
slots, and the requests to register, to unregister and to look up a name (`svcmgr.c`). -/
namespace IrisOS.Svcmgr
open Cap
open Vfs (cString)

def serviceNameCap : ℕ := 16
def epSvcnameMax : ℕ := 128
def dynamicServiceCap : ℕ := 256
def dynamicIdBase : ℕ := 0x40
def rslotBase : ℕ := 132
def rslotLimit : ℕ := 256
def xferSlot : ℕ := 63

def ascii (s : List Char) : List UInt8 := s.map Char.toUInt8

/-! ## Names -/

/-- The name in the buffer, which the handlers end within it. Past its end it reads as NUL. -/
def requestName (payload : List UInt8) : List UInt8 := payload.take (epSvcnameMax - 1)

/-- `svcmgr_copy_name`. -/
def copyName (src : List UInt8) : List UInt8 := cString (src.take (serviceNameCap - 1))

/-- The loop of `svcmgr_name_equal`, with so many characters left to compare. -/
def nameEqualFor : ℕ → List UInt8 → List UInt8 → Bool
  | 0, _, _ => true
  | n + 1, a, b =>
    if a.headD 0 ≠ b.headD 0 then false
    else if a.headD 0 = 0 then true
    else nameEqualFor n a.tail b.tail

def nameEqual (a b : List UInt8) : Bool := nameEqualFor serviceNameCap a b

/-- The count of the loops that look for the end of a name. -/
def nameLen (name : List UInt8) : ℕ := (cString (name.take serviceNameCap)).length

def nameHasEpSuffix (name : List UInt8) : Bool :=
  if nameLen name < 4 ∨ serviceNameCap ≤ nameLen name then false
  else (name.drop (nameLen name - 3)).take 3 = ascii ['.', 'e', 'p']

/-- What the registry uses of a catalog entry. -/
structure CatalogEntry where
  imageName : List UInt8
  serviceId : ℕ
  ownServiceEp : Bool

def catalog : List CatalogEntry :=
  [⟨ascii ['k', 'b', 'd'], 1, true⟩, ⟨ascii ['v', 'f', 's'], 2, true⟩, ⟨ascii ['s', 'h'], 3, false⟩]

def catalogFindName (name : List UInt8) : Option CatalogEntry :=
  catalog.find? fun e => nameEqual e.imageName name

def nameIsCatalog (name : List UInt8) : Bool := catalog.any fun e => nameEqual e.imageName name

/-! ## State -/

/-- A capability in a slot: its object, whether that is an endpoint, and the rights. -/
structure Slot where
  obj : ℕ
  endpoint : Bool
  rights : Rights
  deriving DecidableEq

/-- `svcmgr_dynamic_service`. -/
structure Dynamic where
  active : Bool := false
  name : List UInt8 := []
  publicCptr : ℕ := 0
  clientRights : Rights := rightNone
  ownerBadge : UInt64 := 0

/-- The slots of the endpoints made at boot, 0 for one that is absent. -/
structure Masters where
  epC : ℕ := 0
  consoleEpC : ℕ := 0
  serviceEpC : ℕ → ℕ := fun _ => 0

structure State where
  masters : Masters
  dynamic : ℕ → Dynamic
  slots : ℕ → Option Slot

/-- The manager before its first request: no registration, nothing in the pool. -/
def boot (masters : Masters) (own : ℕ → Option Slot) : State :=
  ⟨masters, fun _ => {}, fun c => if c < rslotBase then own c else none⟩

def State.delete (s : State) (slot : ℕ) : State :=
  { s with slots := Function.update s.slots slot none }

def State.setDynamic (s : State) (i : ℕ) (d : Dynamic) : State :=
  { s with dynamic := Function.update s.dynamic i d }

/-- `svcmgr_discard_delivered_cap`. -/
def State.discard (s : State) (slot : ℕ) : State := if slot = 0 then s else s.delete slot

def State.dynamicFindName (s : State) (name : List UInt8) : Option ℕ :=
  if name.headD 0 = 0 then none
  else (List.range dynamicServiceCap).find? fun i =>
    (s.dynamic i).active ∧ nameEqual (s.dynamic i).name name

def State.dynamicAllocSlot (s : State) : Option ℕ :=
  (List.range dynamicServiceCap).find? fun i => (s.dynamic i).active = false

def State.Owned (s : State) (slot : ℕ) : Prop :=
  ∃ i < dynamicServiceCap, (s.dynamic i).active = true ∧ (s.dynamic i).publicCptr = slot

instance (s : State) (slot : ℕ) : Decidable (s.Owned slot) := Nat.decidableExistsLT _

/-- `svcmgr_next_recv_slot`; 0 declares none. -/
@[irreducible] def State.nextRecvSlot (s : State) : ℕ :=
  ((List.range' rslotBase (rslotLimit - rslotBase)).find? fun c => ¬ s.Owned c).getD 0

/-! ## Requests -/

inductive Answer
  | ok (word : ℕ)
  | cap (c : Slot)
  | error (e : IrisError)
  | unanswered
  deriving DecidableEq

def badgeIsSupervisor (badge : UInt64) : Bool := badge = 0 || badge = 0x111 || badge = 0x110

/-- `svcmgr_resolve_ep_name`: a slot and the rights it may be given with. -/
def resolveEpName (m : Masters) (name : List UInt8) : Option (ℕ × Rights) :=
  if nameHasEpSuffix name = false then none
  else if nameEqual name (ascii ['s', 'v', 'c', 'm', 'g', 'r', '.', 'e', 'p']) then
    if m.epC = 0 then none else some (m.epC, rightWrite ||| rightTransfer ||| rightDuplicate)
  else if nameEqual name (ascii ['c', 'o', 'n', 's', 'o', 'l', 'e', '.', 'e', 'p']) then
    if m.consoleEpC = 0 then none else some (m.consoleEpC, rightWrite ||| rightDuplicate)
  else
    match catalogFindName (name.take (nameLen name - 3)) with
    | none => none
    | some e =>
      if e.ownServiceEp = false ∨ m.serviceEpC e.serviceId = 0 then none
      else some (m.serviceEpC e.serviceId, rightWrite ||| rightDuplicate)

/-- The mint the kernel makes from a slot into an empty one. -/
def mint (src : Option Slot) (requested : Rights) : Option Slot :=
  match src with
  | none => none
  | some c =>
    if rightsCheck c.rights rightDuplicate = false ∨ rightsReduce c.rights requested = rightNone
    then none else some { c with rights := rightsReduce c.rights requested }

/-- A reply with a slot's capability, refused without the right to transfer or without rights. -/
def replyWith (c : Slot) (requested : Rights) : Answer :=
  if rightsCheck c.rights rightTransfer = false ∨ rightsReduce c.rights requested = rightNone
  then .unanswered else .cap { c with rights := rightsReduce c.rights requested }

/-- Where the capability of a name is, and the rights it may be given with. -/
def State.lookupSource (s : State) (name : List UInt8) : Option (ℕ × Rights) :=
  (resolveEpName s.masters name).or <| (s.dynamicFindName name).bind fun i =>
    if (s.dynamic i).publicCptr = 0 then none
    else some ((s.dynamic i).publicCptr, (s.dynamic i).clientRights)

/-- `IRIS_SVCMGR_EP_LOOKUP_NAME`. The transfer slot is emptied before and after. -/
def lookup (s : State) (badge : UInt64) (payload : List UInt8) : State × Answer :=
  match s.lookupSource (requestName payload) with
  | none => (s, .error .notFound)
  | some (src, granted) =>
    if granted = rightNone then (s, .error .notFound)
    else
      let rights := if badgeIsSupervisor badge then granted
        else granted &&& ~~~(rightDuplicate ||| rightTransfer)
      (s.delete xferSlot, match mint ((s.delete xferSlot).slots src) (rights ||| rightTransfer) with
        | none => .error .noMemory
        | some c => replyWith c rights)

/-- The check of a registration before an entry is sought for it. -/
def registerRefusal (s : State) (slot : ℕ) (name : List UInt8) : Option IrisError :=
  if name = [] ∨ nameHasEpSuffix name = true ∨ nameIsCatalog name = true then some .accessDenied
  else if slot = 0 ∨ (s.slots slot).any Slot.endpoint = false then some .invalidArg
  else if (s.dynamicFindName name).isSome then some .busy
  else none

/-- `IRIS_SVCMGR_EP_REGISTER`. -/
def register (s : State) (slot : ℕ) (badge : UInt64) (payload : List UInt8) : State × Answer :=
  match registerRefusal s slot (requestName payload) with
  | some e => (s.discard slot, .error e)
  | none =>
    match s.dynamicAllocSlot with
    | none => (s.discard slot, .error .noMemory)
    | some i =>
      (s.setDynamic i ⟨true, copyName (requestName payload), slot, rightWrite, badge⟩,
        .ok (dynamicIdBase + i))

/-- `svcmgr_dynamic_clear`. -/
def State.dynamicClear (s : State) (i : ℕ) : State :=
  (s.discard (s.dynamic i).publicCptr).setDynamic i
    ⟨false, [], 0, rightNone, (s.dynamic i).ownerBadge⟩

/-- `IRIS_SVCMGR_EP_UNREGISTER`. -/
def unregister (s : State) (badge : UInt64) (did : ℕ) : State × Answer :=
  let i := did - dynamicIdBase
  if did < dynamicIdBase ∨ dynamicServiceCap ≤ i ∨ (s.dynamic i).active = false then
    (s, .error .notFound)
  else if badge ≠ (s.dynamic i).ownerBadge ∧ badgeIsSupervisor badge = false then
    (s, .error .accessDenied)
  else (s.dynamicClear i, .ok 0)

inductive Request
  | register (payload : List UInt8)
  | unregister (did : ℕ)
  | lookup (payload : List UInt8)

/-- A message, with the badge the kernel stamps it with and the capability that travels with it. -/
structure Message where
  call : Bool := true
  badge : UInt64
  cap : Option Slot := none
  request : Request

/-- The kernel refuses to receive into a slot in use; the capability of the message lands there. -/
def receive (s : State) (cap : Option Slot) : Option State :=
  if s.nextRecvSlot = 0 then some s
  else if (s.slots s.nextRecvSlot).isSome then none
  else some { s with slots := Function.update s.slots s.nextRecvSlot cap }

/-- `svcmgr_handle_ep_request`: only a registration keeps the capability. -/
def handleEpRequest (s : State) (slot : ℕ) (m : Message) : State × Answer :=
  match m.request with
  | .register payload => register s slot m.badge payload
  | .unregister did => unregister (s.discard slot) m.badge did
  | .lookup payload => lookup (s.discard slot) m.badge payload

/-- One round of the loop. A message that is no call and leaves nothing is dropped. -/
def serve (s : State) (m : Message) : State × Answer :=
  match receive s m.cap with
  | none => (s, .unanswered)
  | some s' =>
    if m.call = false ∧ (s.nextRecvSlot = 0 ∨ m.cap = none) then (s', .unanswered)
    else handleEpRequest s' s.nextRecvSlot m

def step (s : State) (m : Message) : State := (serve s m).1

end IrisOS.Svcmgr
