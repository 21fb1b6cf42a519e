import IrisOS.Svcmgr.Registry
import IrisOS.Lib.Steps
import Mathlib.Data.List.TakeWhile

/-! The registry as a map of names, for names that are not empty and shorter than their field, and
capabilities that can be handed on. -/
namespace IrisOS.Svcmgr
open Cap Lib Function List State
open Vfs (cString)

def dotEp : List UInt8 := ascii ['.', 'e', 'p']

/-- A name of the catalog, or one that ends in `.ep`. -/
def Reserved (n : List UInt8) : Prop := n ∈ catalog.map CatalogEntry.imageName ∨ dotEp <:+ n

/-- A name that is stored as it is, can be found, and whose suffix is looked at. -/
def Legal (n : List UInt8) : Prop := n ≠ [] ∧ n.length < serviceNameCap ∧ n ≠ dotEp

/-- The capability can be minted, transferred and called. -/
def Usable (c : Slot) : Prop :=
  rightsSubset (rightWrite ||| rightDuplicate ||| rightTransfer) c.rights

/-- A registration passes the checks: an endpoint comes with it into a free receive slot, its name
is neither refused nor taken, and there is an entry for it. -/
structure Accepts (s : State) (m : Message) (payload : List UInt8) : Prop where
  endpoint : m.cap.any Slot.endpoint = true
  slot : s.nextRecvSlot ≠ 0 ∧ s.slots s.nextRecvSlot = none
  name : requestName payload ≠ [] ∧ nameHasEpSuffix (requestName payload) = false ∧
    nameIsCatalog (requestName payload) = false
  new : s.dynamicFindName (requestName payload) = none
  entry : ∃ i, s.dynamicAllocSlot = some i

/-- A registration that passes the checks with another name, or for another capability. -/
def Unfit (s : State) (m : Message) : Prop :=
  ∃ payload, m.request = .register payload ∧ Accepts s m payload ∧
    ¬ (Legal (cString (requestName payload)) ∧ ∀ c ∈ m.cap, Usable c)

/-! ## Names -/

section
variable {a b name : List UInt8} {n : ℕ}

theorem cString_take : cString (a.take n) = (cString a).take n := take_takeWhile.symm

theorem cString_idem : cString (cString a) = cString a := takeWhile_idem

theorem nameEqualFor_iff : nameEqualFor n a b = true ↔ cString (a.take n) = cString (b.take n) := by
  induction n generalizing a b with
  | zero => simp [nameEqualFor]
  | succ n ih =>
    have hcons : ∀ l : List UInt8, cString (l.take (n + 1))
        = if l.headD 0 = 0 then [] else l.headD 0 :: cString (l.tail.take n) := fun l => by
      cases l with
      | nil => rfl
      | cons x l => by_cases hx : x = 0 <;> simp [cString, hx]
    rw [nameEqualFor, hcons, hcons]
    generalize a.headD 0 = x
    generalize b.headD 0 = y
    by_cases hxy : x = y
    · subst hxy
      by_cases hx : x = 0 <;> simp [hx, ih]
    · by_cases hx : x = 0
      · subst hx
        simp [hxy, Ne.symm hxy]
      · by_cases hy : y = 0 <;> simp [hxy, hx, hy]

theorem nameEqual_iff : nameEqual a b = true ↔
    (cString a).take serviceNameCap = (cString b).take serviceNameCap := by
  rw [nameEqual, nameEqualFor_iff, cString_take, cString_take]

theorem nameEqual_iff_of_short (ha : cString a = a) (hla : a.length < serviceNameCap)
    (hb : (cString b).length < serviceNameCap) : nameEqual a b = true ↔ a = cString b := by
  rw [nameEqual_iff, ha, take_of_length_le hla.le, take_of_length_le hb.le]

theorem nameIsCatalog_iff (h : (cString name).length < serviceNameCap) :
    nameIsCatalog name = true ↔ cString name ∈ catalog.map CatalogEntry.imageName := by
  have hshort : ∀ e ∈ catalog, cString e.imageName = e.imageName ∧
      e.imageName.length < serviceNameCap := by decide
  simp only [nameIsCatalog, any_eq_true, mem_map]
  refine exists_congr fun e => and_congr_right fun he => ?_
  exact nameEqual_iff_of_short (hshort e he).1 (hshort e he).2 h

theorem nameHasEpSuffix_iff (h : Legal (cString name)) :
    nameHasEpSuffix name = true ↔ dotEp <:+ cString name := by
  obtain ⟨-, hlen, hne⟩ := h
  have hcount : nameLen name = (cString name).length := by
    rw [nameLen, cString_take, take_of_length_le hlen.le]
  have htake : cString name = name.take (cString name).length :=
    prefix_iff_eq_take.1 (List.takeWhile_prefix _)
  rw [nameHasEpSuffix, hcount, suffix_iff_eq_drop]
  by_cases hshort : (cString name).length < 4
  · refine ⟨fun hc => absurd hc (by simp [hshort]), fun hdrop => ?_⟩
    have hthree : (cString name).length = 3 := by
      have hl := congrArg length hdrop
      have hd : dotEp.length = 3 := rfl
      simp only [length_drop, hd] at hl
      omega
    have hd : dotEp.length = 3 := rfl
    rw [hthree, hd] at hdrop
    exact absurd hdrop.symm hne
  · have hfits : ¬ ((cString name).length < 4 ∨ serviceNameCap ≤ (cString name).length) := by omega
    have hend : (name.drop ((cString name).length - 3)).take 3
        = (cString name).drop ((cString name).length - 3) := by
      rw [take_drop, Nat.sub_add_cancel (by omega), ← htake]
    rw [if_neg hfits, hend, decide_eq_true_iff]
    exact eq_comm

theorem copyName_of_short (h : (cString name).length < serviceNameCap) :
    copyName name = cString name := by
  rw [copyName, cString_take, take_of_length_le (Nat.le_sub_one_of_lt h)]

end

/-! ## What a message does -/

section
variable {s s' : State} {m : Message} {i : ℕ}

variable {cap : Option Slot} {name : List UInt8} {d : Dynamic}

open Option

theorem discard_dynamic (x : ℕ) : (s.discard x).dynamic = s.dynamic := by
  unfold State.discard
  split_ifs <;> rfl

theorem receive_discard (h : receive s cap = some s') : s'.discard s.nextRecvSlot = s := by
  unfold receive at h
  split_ifs at h with hslot hused
  · obtain rfl := some.inj h
    exact if_pos hslot
  · obtain rfl := some.inj h
    have hnone : s.slots s.nextRecvSlot = none := by simpa using hused
    rw [State.discard, if_neg hslot, State.delete, update_idem, ← hnone,
      update_eq_self]

/-- No effect, a lookup's on the transfer slot, a registration, or the end of one. -/
inductive Outcome (s : State) (m : Message) : State × Answer → Prop
  | kept {a : Answer} (hans : ∀ w, a ≠ .ok w) : Outcome s m (s, a)
  | looked {a : Answer} (hans : ∀ w, a ≠ .ok w) : Outcome s m (s.delete xferSlot, a)
  | registered {payload : List UInt8} {i : ℕ} {c : Slot} {s' : State}
      (hreq : m.request = .register payload) (hcap : m.cap = some c)
      (hslot : s.nextRecvSlot ≠ 0) (hempty : s.slots s.nextRecvSlot = none)
      (hs' : s' = { s with slots := update s.slots s.nextRecvSlot (some c) })
      (hcheck : registerRefusal s' s.nextRecvSlot (requestName payload) = none)
      (halloc : s.dynamicAllocSlot = some i) :
      Outcome s m (s'.setDynamic i
        ⟨true, copyName (requestName payload), s.nextRecvSlot, rightWrite, m.badge⟩,
        .ok (dynamicIdBase + i))
  | cleared {i : ℕ} (hreq : m.request = .unregister (dynamicIdBase + i))
      (hactive : (s.dynamic i).active = true)
      (hbadge : m.badge = (s.dynamic i).ownerBadge ∨ badgeIsSupervisor m.badge = true) :
      Outcome s m (s.dynamicClear i, .ok 0)

theorem replyWith_ne_ok (c : Slot) (rights : Rights) (w : ℕ) : replyWith c rights ≠ .ok w := by
  unfold replyWith
  split_ifs <;> exact nofun

theorem outcome_lookup (badge : UInt64) (payload : List UInt8) :
    Outcome s m (lookup s badge payload) := by
  unfold lookup
  cases s.lookupSource (requestName payload) with
  | none => exact .kept nofun
  | some found =>
    dsimp only
    split_ifs with hnone
    · exact .kept nofun
    all_goals
      refine .looked fun w => ?_
      split
      · exact nofun
      · exact replyWith_ne_ok _ _ w

theorem outcome_unregister {did : ℕ} (hreq : m.request = .unregister did) :
    Outcome s m (unregister s m.badge did) := by
  unfold unregister
  dsimp only
  split_ifs with hthere howner
  · exact .kept nofun
  · exact .kept nofun
  simp only [not_or, not_lt, Bool.not_eq_false] at hthere
  refine .cleared (by rw [hreq, Nat.add_sub_cancel' hthere.1]) hthere.2.2 ?_
  by_contra hneither
  simp only [not_or, Bool.not_eq_true] at hneither
  exact howner hneither

theorem registerRefusal_eq_none_iff {slot : ℕ} : registerRefusal s slot name = none ↔
    (name ≠ [] ∧ nameHasEpSuffix name = false ∧ nameIsCatalog name = false) ∧
      (slot ≠ 0 ∧ (s.slots slot).any Slot.endpoint = true) ∧ s.dynamicFindName name = none := by
  unfold registerRefusal
  split_ifs with hname hland hbusy
  · refine iff_of_false nofun fun h => ?_
    simp [h.1] at hname
  · refine iff_of_false nofun fun h => ?_
    simp [h.2.1] at hland
  · refine iff_of_false nofun fun h => ?_
    simp [h.2.2] at hbusy
  · simp_all

theorem outcome_register {payload : List UInt8} (hreq : m.request = .register payload)
    (hreceive : receive s m.cap = some s') :
    Outcome s m (register s' s.nextRecvSlot m.badge payload) := by
  have hback := receive_discard hreceive
  have hdyn : s'.dynamic = s.dynamic := by rw [← hback, discard_dynamic]
  unfold register
  cases hcheck : registerRefusal s' s.nextRecvSlot (requestName payload) with
  | some e =>
    rw [hback]
    exact .kept nofun
  | none =>
    have halloc : s'.dynamicAllocSlot = s.dynamicAllocSlot := by
      rw [dynamicAllocSlot, hdyn, dynamicAllocSlot]
    rw [halloc]
    cases hfree : s.dynamicAllocSlot with
    | none =>
      rw [hback]
      exact .kept nofun
    | some i =>
      have hlanded := (registerRefusal_eq_none_iff.mp hcheck).2.1
      unfold receive at hreceive
      rw [if_neg hlanded.1] at hreceive
      split_ifs at hreceive with hused
      have hs' := (some.inj hreceive).symm
      obtain ⟨c, hc, -⟩ := Option.any_eq_true .. |>.1 hlanded.2
      have hcap : m.cap = some c := by simpa [hs'] using hc
      rw [hcap] at hs'
      exact .registered hreq hcap hlanded.1 (by simpa using hused) hs' hcheck hfree

theorem serve_outcome (s : State) (m : Message) : Outcome s m (serve s m) := by
  unfold serve
  cases hreceive : receive s m.cap with
  | none => exact .kept nofun
  | some s' =>
    have hback := receive_discard hreceive
    dsimp only
    split_ifs with hdrop
    · have hsame : s' = s := by
        rcases hdrop.2 with hslot | hcap
        · rw [← hback, hslot]
          rfl
        unfold receive at hreceive
        split_ifs at hreceive with hslot hused
        · exact (some.inj hreceive).symm
        · have hnone : s.slots s.nextRecvSlot = none := by simpa using hused
          rw [← some.inj hreceive, hcap, ← hnone, update_eq_self]
      rw [hsame]
      exact .kept nofun
    · unfold handleEpRequest
      cases hreq : m.request with
      | register payload => exact outcome_register hreq hreceive
      | unregister did =>
        rw [hback]
        exact outcome_unregister hreq
      | lookup payload =>
        rw [hback]
        exact outcome_lookup ..

/-- These are the registrations that are answered OK. -/
theorem accepts_iff {payload : List UInt8} (hreq : m.request = .register payload) :
    Accepts s m payload ↔ ∃ id, (serve s m).2 = .ok id := by
  constructor
  · intro h
    obtain ⟨c, hcap, hend⟩ := Option.any_eq_true .. |>.1 h.endpoint
    obtain ⟨i, hi⟩ := h.entry
    obtain ⟨s', hs'⟩ : ∃ s', s' = { s with slots := update s.slots s.nextRecvSlot (some c) } :=
      ⟨_, rfl⟩
    have hreceive : receive s m.cap = some s' := by
      rw [receive, if_neg h.slot.1, h.slot.2, hcap, hs']
      rfl
    have hcheck : registerRefusal s' s.nextRecvSlot (requestName payload) = none := by
      rw [registerRefusal_eq_none_iff]
      exact ⟨h.name, ⟨h.slot.1, by simpa [hs'] using hend⟩, by rw [hs']; exact h.new⟩
    have halloc : s'.dynamicAllocSlot = some i := by rw [hs']; exact hi
    refine ⟨dynamicIdBase + i, ?_⟩
    simp only [serve, hreceive, handleEpRequest, hreq, register, hcheck, halloc]
    rw [if_neg (by simp [hcap, h.slot.1])]
  · rintro ⟨id, hid⟩
    have hout := serve_outcome s m
    rcases hr : serve s m with ⟨s₁, a⟩
    rw [hr] at hout hid
    cases hout with
    | kept hans | looked hans => exact absurd hid (hans _)
    | cleared hreq' => cases hreq.symm.trans hreq'
    | registered hreq' hcap hslot hempty hs' hcheck halloc =>
      cases hreq.symm.trans hreq'
      subst hs'
      obtain ⟨hname, ⟨-, hend⟩, hnew⟩ := registerRefusal_eq_none_iff.mp hcheck
      exact ⟨by simpa [hcap] using hend, ⟨hslot, hempty⟩, hname, hnew, _, halloc⟩

def State.Active (s : State) (i : ℕ) : Prop := (s.dynamic i).active = true

/-- An entry in use: a name as it was asked for, and a capability of its own in the pool. -/
structure Sound (slots : ℕ → Option Slot) (d : Dynamic) : Prop where
  ended : cString d.name = d.name
  legal : Legal d.name
  free : ¬ Reserved d.name
  rights : d.clientRights = rightWrite
  pool : rslotBase ≤ d.publicCptr ∧ d.publicCptr < rslotLimit
  held : ∃ c, slots d.publicCptr = some c ∧ Usable c

structure Inv (s : State) : Prop where
  bound : ∀ i, s.Active i → i < dynamicServiceCap
  sound : ∀ i, s.Active i → Sound s.slots (s.dynamic i)
  names : ∀ i j, s.Active i → s.Active j → (s.dynamic i).name = (s.dynamic j).name → i = j
  apart : ∀ i j, s.Active i → s.Active j → (s.dynamic i).publicCptr = (s.dynamic j).publicCptr →
    i = j
  empty : ∀ c, rslotBase ≤ c → c < rslotLimit → ¬ s.Owned c → s.slots c = none

theorem Sound.congr {slots slots' : ℕ → Option Slot} (h : Sound slots d)
    (hslots : slots' d.publicCptr = slots d.publicCptr) : Sound slots' d :=
  { h with held := by rw [hslots]; exact h.held }

theorem inv_boot (masters : Masters) (own : ℕ → Option Slot) : Inv (boot masters own) :=
  ⟨nofun, nofun, nofun, nofun, fun _ hc _ _ => if_neg (Nat.not_lt.2 hc)⟩

theorem nextRecvSlot_spec (hslot : s.nextRecvSlot ≠ 0) :
    rslotBase ≤ s.nextRecvSlot ∧ s.nextRecvSlot < rslotLimit ∧ ¬ s.Owned s.nextRecvSlot := by
  unfold nextRecvSlot at hslot ⊢
  cases hfind : (range' rslotBase (rslotLimit - rslotBase)).find? fun c => ¬ s.Owned c with
  | none =>
    rw [hfind] at hslot
    exact absurd rfl hslot
  | some c =>
    have hmem := mem_range'_1.1 (mem_of_find?_eq_some hfind)
    have hfree := find?_some hfind
    simp only [decide_eq_true_eq] at hfree
    exact ⟨hmem.1, hmem.2, hfree⟩

theorem dynamicAllocSlot_spec (h : s.dynamicAllocSlot = some i) :
    i < dynamicServiceCap ∧ ¬ s.Active i := by
  have hfree := find?_some h
  simp only [decide_eq_true_eq] at hfree
  exact ⟨mem_range.1 (mem_of_find?_eq_some h), by simp [Active, hfree]⟩

theorem Inv.find (h : Inv s) (hname : Legal (cString name)) :
    s.dynamicFindName name = some i ↔ s.Active i ∧ (s.dynamic i).name = cString name := by
  have hhead : name.headD 0 ≠ 0 := fun hz => hname.1 (by
    cases name with
    | nil => rfl
    | cons x l => simp_all [cString])
  have hsame : ∀ j, s.Active j → (nameEqual (s.dynamic j).name name = true ↔
      (s.dynamic j).name = cString name) := fun j hj =>
    nameEqual_iff_of_short (h.sound j hj).ended (h.sound j hj).legal.2.1 hname.2.1
  rw [dynamicFindName, if_neg hhead]
  constructor
  · intro hfind
    have hi := find?_some hfind
    simp only [decide_eq_true_eq] at hi
    exact ⟨hi.1, (hsame i hi.1).1 hi.2⟩
  rintro ⟨hi, hn⟩
  cases hfind : (range dynamicServiceCap).find? fun i =>
      (s.dynamic i).active ∧ nameEqual (s.dynamic i).name name with
  | none =>
    have hnot := find?_eq_none.1 hfind i (mem_range.2 (h.bound i hi))
    exact absurd (decide_eq_true ⟨hi, (hsame i hi).2 hn⟩) hnot
  | some j =>
    have hj := find?_some hfind
    simp only [decide_eq_true_eq] at hj
    rw [h.names j i hj.1 hi (((hsame j hj.1).1 hj.2).trans hn.symm)]

theorem Inv.delete_xfer (h : Inv s) : Inv (s.delete xferSlot) := by
  have hslots : ∀ c, rslotBase ≤ c → (s.delete xferSlot).slots c = s.slots c := fun c hc =>
    update_of_ne (by simp only [rslotBase, xferSlot] at *; omega) ..
  exact ⟨h.bound, fun i hi => (h.sound i hi).congr (hslots _ (h.sound i hi).pool.1), h.names,
    h.apart, fun c hc hc' hfree => (hslots c hc).trans (h.empty c hc hc' hfree)⟩

theorem registerRefusal_spec {slot : ℕ}
    (hcheck : registerRefusal s slot name = none) (hname : Legal (cString name)) :
    ¬ Reserved (cString name) ∧ s.dynamicFindName name = none := by
  obtain ⟨⟨-, hep, hcat⟩, -, hnew⟩ := registerRefusal_eq_none_iff.mp hcheck
  refine ⟨?_, hnew⟩
  rintro (hin | hends)
  · exact Bool.false_ne_true (hcat.symm.trans ((nameIsCatalog_iff hname.2.1).2 hin))
  · exact Bool.false_ne_true (hep.symm.trans ((nameHasEpSuffix_iff hname).2 hends))

section
variable {j k : ℕ}

theorem setDynamic_self : (s.setDynamic i d).dynamic i = d := update_self ..

theorem setDynamic_other (hji : j ≠ i) : (s.setDynamic i d).dynamic j = s.dynamic j :=
  update_of_ne hji ..

theorem active_of_setDynamic (hj : (s.setDynamic i d).Active j) (hji : j ≠ i) : s.Active j := by
  rwa [Active, setDynamic_other hji] at hj

theorem setDynamic_injective {β : Type*} (f : Dynamic → β)
    (h : ∀ j k, s.Active j → s.Active k → f (s.dynamic j) = f (s.dynamic k) → j = k)
    (hnew : d.active = true → ∀ j, s.Active j → f (s.dynamic j) ≠ f d)
    (hj : (s.setDynamic i d).Active j) (hk : (s.setDynamic i d).Active k)
    (heq : f ((s.setDynamic i d).dynamic j) = f ((s.setDynamic i d).dynamic k)) : j = k := by
  by_cases hji : j = i <;> by_cases hki : k = i
  · exact hji.trans hki.symm
  · subst hji
    rw [setDynamic_self, setDynamic_other hki] at heq
    rw [Active, setDynamic_self] at hj
    exact absurd heq.symm (hnew hj k (active_of_setDynamic hk hki))
  · subst hki
    rw [setDynamic_self, setDynamic_other hji] at heq
    rw [Active, setDynamic_self] at hk
    exact absurd heq (hnew hk j (active_of_setDynamic hj hji))
  · rw [setDynamic_other hji, setDynamic_other hki] at heq
    exact h j k (active_of_setDynamic hj hji) (active_of_setDynamic hk hki) heq

end

theorem Inv.add (h : Inv s) (hi : i < dynamicServiceCap)
    (hfree : ¬ s.Active i) (hactive : d.active = true) (hempty : s.slots d.publicCptr = none)
    (hnew : ∀ j, s.Active j → (s.dynamic j).name ≠ d.name)
    (hd : Sound (update s.slots d.publicCptr cap) d) :
    Inv (State.setDynamic { s with slots := update s.slots d.publicCptr cap } i d) := by
  have hcptr : ∀ j, s.Active j → (s.dynamic j).publicCptr ≠ d.publicCptr := fun j hj heq => by
    obtain ⟨c', hc', -⟩ := (h.sound j hj).held
    rw [heq, hempty] at hc'
    cases hc'
  refine ⟨fun j hj => ?_, fun j hj => ?_, fun _ _ => setDynamic_injective Dynamic.name h.names
    fun _ => hnew, fun _ _ => setDynamic_injective Dynamic.publicCptr h.apart fun _ => hcptr,
    fun x hx hx' hfree' => ?_⟩
  · by_cases hji : j = i
    · exact hji ▸ hi
    · exact h.bound j (active_of_setDynamic hj hji)
  · by_cases hji : j = i
    · rw [hji, setDynamic_self]
      exact hd
    · rw [setDynamic_other hji]
      have hj' := active_of_setDynamic hj hji
      exact (h.sound j hj').congr (update_of_ne (hcptr j hj') ..)
  · have hne : x ≠ d.publicCptr := fun hx =>
      hfree' ⟨i, hi, by rw [setDynamic_self]; exact ⟨hactive, hx.symm⟩⟩
    refine (update_of_ne hne ..).trans (h.empty x hx hx' ?_)
    rintro ⟨j, hj, hja, hjc⟩
    have hji : j ≠ i := fun hji => hfree (hji ▸ hja)
    exact hfree' ⟨j, hj, by rw [setDynamic_other hji]; exact ⟨hja, hjc⟩⟩

theorem Inv.remove (h : Inv s) (hi : s.Active i) : Inv (s.dynamicClear i) := by
  have hpool := (h.sound i hi).pool
  have hdiscard : s.discard (s.dynamic i).publicCptr = s.delete (s.dynamic i).publicCptr :=
    if_neg (by simp only [rslotBase] at hpool; omega)
  rw [dynamicClear, hdiscard]
  have hne : ∀ j, (setDynamic (s.delete (s.dynamic i).publicCptr) i
      ⟨false, [], 0, rightNone, (s.dynamic i).ownerBadge⟩).Active j → j ≠ i := fun j hj hji => by
    rw [hji, Active, setDynamic_self] at hj
    cases hj
  refine ⟨fun j hj => ?_, fun j hj => ?_, fun _ _ => setDynamic_injective Dynamic.name h.names nofun,
    fun _ _ => setDynamic_injective Dynamic.publicCptr h.apart nofun, fun x hx hx' hfree => ?_⟩
  · exact h.bound j (active_of_setDynamic hj (hne j hj))
  · have hj' : s.Active j := active_of_setDynamic hj (hne j hj)
    rw [setDynamic_other (hne j hj)]
    refine (h.sound j hj').congr (update_of_ne (fun heq => hne j hj ?_) ..)
    exact h.apart j i hj' hi heq
  by_cases hxi : x = (s.dynamic i).publicCptr
  · rw [hxi]
    exact update_self ..
  · refine (update_of_ne hxi ..).trans (h.empty x hx hx' ?_)
    rintro ⟨j, hj, hja, hjc⟩
    have hji : j ≠ i := fun hji => hxi (by rw [← hjc, hji])
    exact hfree ⟨j, hj, by rw [setDynamic_other hji]; exact ⟨hja, hjc⟩⟩

theorem Inv.step (h : Inv s) (hfit : ¬ Unfit s m) : Inv (step s m) := by
  have hout := serve_outcome s m
  unfold Svcmgr.step
  rcases hr : serve s m with ⟨s₁, a⟩
  rw [hr] at hout
  cases hout with
  | kept => exact h
  | looked => exact h.delete_xfer
  | cleared hreq hactive => exact h.remove hactive
  | @registered payload i c _ hreq hcap hslot hempty hs' hcheck halloc =>
    obtain ⟨hlegal, husable⟩ : Legal (cString (requestName payload)) ∧ ∀ c ∈ m.cap, Usable c := by
      by_contra hbad
      exact hfit ⟨payload, hreq, (accepts_iff hreq).mpr ⟨_, by rw [hr]⟩, hbad⟩
    obtain ⟨hpool, hpool', hunowned⟩ := nextRecvSlot_spec hslot
    obtain ⟨hi, hfree⟩ := dynamicAllocSlot_spec halloc
    obtain ⟨hreserved, hnew⟩ := registerRefusal_spec hcheck hlegal
    have hstored := copyName_of_short hlegal.2.1
    have hnew' : ∀ j, s.Active j → (s.dynamic j).name ≠ cString (requestName payload) := by
      intro j hj hname
      have hfound := (h.find hlegal).2 ⟨hj, hname⟩
      have hnone : s.dynamicFindName (requestName payload) = none := by
        rw [← hnew, hs']
        rfl
      rw [hnone] at hfound
      cases hfound
    rw [hs', hstored]
    obtain ⟨slot, hs⟩ : ∃ slot, slot = s.nextRecvSlot := ⟨_, rfl⟩
    rw [← hs] at hpool hpool' hunowned ⊢
    have hd : Sound (update s.slots slot (some c))
        ⟨true, cString (requestName payload), slot, rightWrite, m.badge⟩ :=
      ⟨cString_idem, hlegal, hreserved, rfl, ⟨hpool, hpool'⟩, c, update_self ..,
        husable c hcap⟩
    exact h.add hi hfree rfl (h.empty _ hpool hpool' hunowned) hnew' hd

/-! ## Lookups -/

/-- The entry is a registration of the name for the capability. -/
structure Registered (s : State) (i : ℕ) (n : List UInt8) (c : Slot) : Prop where
  active : s.Active i
  name : (s.dynamic i).name = n
  held : s.slots (s.dynamic i).publicCptr = some c

variable {n payload : List UInt8} {c : Slot}

theorem Registered.congr (h : Registered s i n c) (hd : s'.dynamic i = s.dynamic i)
    (hs : s'.slots (s.dynamic i).publicCptr = s.slots (s.dynamic i).publicCptr) :
    Registered s' i n c :=
  ⟨by rw [Active, hd]; exact h.active, hd ▸ h.name, by rw [hd, hs]; exact h.held⟩

theorem Usable.mint (h : Usable c) :
    mint (some c) (rightWrite ||| rightTransfer)
      = some { c with rights := rightWrite ||| rightTransfer } := by
  have hsub : ∀ q, rightsSubset q (rightWrite ||| rightDuplicate ||| rightTransfer) →
      c.rights &&& q = q := fun q hq => by
    rw [UInt32.and_comm]
    exact rightsSubset_trans hq h
  have hreduce : rightsReduce c.rights (rightWrite ||| rightTransfer)
      = rightWrite ||| rightTransfer := by
    rw [rightsReduce, if_neg (by decide), hsub _ (by decide)]
  have hcheck : rightsCheck c.rights rightDuplicate = true := by
    rw [rightsCheck, if_neg (by decide), hsub _ (by decide), decide_eq_true rfl]
  rw [Svcmgr.mint, hcheck, hreduce, if_neg (by decide)]

theorem Registered.lookup (hr : Registered s i n c) (h : Inv s) (badge : UInt64)
    (hn : cString (requestName payload) = n) :
    (lookup s badge payload).2 = .cap { c with rights := rightWrite } := by
  have hsound := h.sound i hr.active
  have hname := hr.name.trans hn.symm
  have hlegal : Legal (cString (requestName payload)) := hname ▸ hsound.legal
  have hsuffix : nameHasEpSuffix (requestName payload) = false := by
    by_contra hep
    exact hsound.free (.inr (hname ▸ (nameHasEpSuffix_iff hlegal).1 (by simpa using hep)))
  have hpool := hsound.pool.1
  have hsource : s.lookupSource (requestName payload)
      = some ((s.dynamic i).publicCptr, rightWrite) := by
    rw [lookupSource, resolveEpName, if_pos hsuffix, none_or,
      (h.find hlegal).2 ⟨hr.active, hname⟩, bind_some, hsound.rights, if_neg]
    simp only [rslotBase] at hpool
    omega
  have hslot : (s.delete xferSlot).slots (s.dynamic i).publicCptr = some c :=
    (update_of_ne (by simp only [rslotBase, xferSlot] at *; omega) ..).trans hr.held
  have husable : Usable c := by
    obtain ⟨c', hc', hu⟩ := hsound.held
    rwa [hr.held.symm.trans hc' |> some.inj]
  have hrights : (if badgeIsSupervisor badge then rightWrite
      else rightWrite &&& ~~~(rightDuplicate ||| rightTransfer)) = rightWrite := by
    split_ifs <;> decide
  rw [Svcmgr.lookup, hsource]
  dsimp only
  rw [if_neg (by decide), hrights, hslot, husable.mint]
  have hreduce : rightsReduce (rightWrite ||| rightTransfer) rightWrite = rightWrite := by decide
  have hcheck : rightsCheck (rightWrite ||| rightTransfer) rightTransfer = true := by decide
  change replyWith _ rightWrite = _
  rw [replyWith, hreduce, hcheck, if_neg (by decide)]

theorem Inv.serve_lookup (h : Inv s) (hcall : m.call = true) (hreq : m.request = .lookup payload) :
    serve s m = lookup s m.badge payload := by
  obtain ⟨s', hreceive⟩ : ∃ s', receive s m.cap = some s' := by
    unfold receive
    split_ifs with hslot hused
    · exact ⟨_, rfl⟩
    · obtain ⟨hpool, hpool', hunowned⟩ := nextRecvSlot_spec hslot
      rw [h.empty _ hpool hpool' hunowned] at hused
      cases hused
    · exact ⟨_, rfl⟩
  rw [serve, hreceive]
  dsimp only
  rw [if_neg (by simp [hcall]), handleEpRequest, hreq]
  rw [receive_discard hreceive]

theorem registered_of_ok (hreq : m.request = .register payload) (hcap : m.cap = some c)
    (hfit : ¬ Unfit s m) (hok : (serve s m).2 = .ok (dynamicIdBase + i)) :
    Registered (step s m) i (cString (requestName payload)) c := by
  have hout := serve_outcome s m
  unfold Svcmgr.step
  rcases hr : serve s m with ⟨s₁, a⟩
  rw [hr] at hout hok
  cases hout with
  | kept hans | looked hans => exact absurd hok (hans _)
  | cleared hreq' => exact absurd (hreq.symm.trans hreq') nofun
  | @registered payload' j c' _ hreq' hcap' hslot hempty hs' hcheck halloc =>
    obtain rfl : payload' = payload := Request.register.inj (hreq'.symm.trans hreq)
    obtain rfl : c' = c := some.inj (hcap'.symm.trans hcap)
    obtain rfl : j = i := Nat.add_left_cancel (Answer.ok.inj hok)
    have hlegal : Legal (cString (requestName payload')) := by
      by_contra hbad
      exact hfit ⟨payload', hreq, (accepts_iff hreq).mpr ⟨_, by rw [hr]⟩, fun hboth => hbad hboth.1⟩
    refine ⟨?_, ?_, ?_⟩
    · rw [Active, setDynamic_self]
    · rw [setDynamic_self]
      exact copyName_of_short hlegal.2.1
    · rw [setDynamic_self, hs']
      exact update_self ..

theorem Registered.step (hr : Registered s i n c) (h : Inv s)
    (hstays : ¬ (m.request = .unregister (dynamicIdBase + i) ∧ (serve s m).2 = .ok 0)) :
    Registered (step s m) i n c := by
  have hpool := (h.sound i hr.active).pool
  have hout := serve_outcome s m
  unfold Svcmgr.step
  rcases hserve : serve s m with ⟨s₁, a⟩
  rw [hserve] at hout hstays
  cases hout with
  | kept => exact hr
  | looked =>
    have hxfer : xferSlot < rslotBase := by decide
    have hne : (s.dynamic i).publicCptr ≠ xferSlot := by omega
    exact hr.congr rfl (update_of_ne hne ..)
  | @cleared j hreq hactive =>
    have hji : i ≠ j := fun hij => hstays ⟨hij ▸ hreq, rfl⟩
    have hcptr : (s.dynamic i).publicCptr ≠ (s.dynamic j).publicCptr := fun heq =>
      hji (h.apart i j hr.active hactive heq)
    refine hr.congr ((setDynamic_other hji).trans (congrFun (discard_dynamic _) i)) ?_
    unfold dynamicClear setDynamic State.discard
    split_ifs
    · rfl
    · exact update_of_ne hcptr ..
  | @registered payload' j c' _ hreq' hcap' hslot hempty hs' hcheck halloc =>
    have hji : i ≠ j := fun hij => (dynamicAllocSlot_spec halloc).2 (hij ▸ hr.active)
    obtain ⟨-, -, hunowned⟩ := nextRecvSlot_spec hslot
    have hcptr : (s.dynamic i).publicCptr ≠ s.nextRecvSlot := fun heq =>
      hunowned ⟨i, h.bound i hr.active, hr.active, heq⟩
    rw [hs']
    exact hr.congr (setDynamic_other hji) (update_of_ne hcptr ..)

theorem active_step (hactive : s.Active i) (hends : ¬ (step s m).Active i) :
    m.request = .unregister (dynamicIdBase + i) ∧
      (m.badge = (s.dynamic i).ownerBadge ∨ badgeIsSupervisor m.badge = true) := by
  have hout := serve_outcome s m
  unfold Svcmgr.step at hends
  rcases hserve : serve s m with ⟨s₁, a⟩
  rw [hserve] at hout hends
  cases hout with
  | kept | looked => exact absurd hactive hends
  | @cleared j hreq _ hbadge =>
    by_cases hij : i = j
    · exact hij ▸ ⟨hreq, hbadge⟩
    · refine absurd ?_ hends
      rw [Active, dynamicClear, setDynamic_other hij, discard_dynamic]
      exact hactive
  | @registered _ j _ _ _ _ _ _ hs' _ halloc =>
    have hij : i ≠ j := fun hij => (dynamicAllocSlot_spec halloc).2 (hij ▸ hactive)
    refine absurd ?_ hends
    rw [Active, setDynamic_other hij, hs']
    exact hactive

end

/-- Without unfit registrations no name and no receive slot has two registrations, a lookup gives
the registered endpoint until its owner or a supervisor unregisters it, and reserved names have
none. -/
theorem registry_is_a_name_map (masters : Masters) (own : ℕ → Option Slot) (ms : List Message)
    (hfit : Meets step (fun s m => ¬ Unfit s m) (boot masters own) ms) :
    let s := runFrom step (boot masters own) ms
    (∀ i j, s.Active i → s.Active j → (s.dynamic i).name = (s.dynamic j).name → i = j) ∧
    (∀ i, s.Active i → ¬ Reserved (s.dynamic i).name) ∧
    (∀ i j, s.Active i → s.Active j →
      (s.dynamic i).publicCptr = (s.dynamic j).publicCptr → i = j) ∧
    (∀ pre m post payload i c, ms = pre ++ m :: post → m.request = .register payload →
      m.cap = some c → (serve (runFrom step (boot masters own) pre) m).2 = .ok (dynamicIdBase + i) →
      Meets step (fun s m => ¬ (m.request = .unregister (dynamicIdBase + i) ∧ (serve s m).2 = .ok 0))
        (runFrom step (boot masters own) (pre ++ [m])) post →
      ∀ reader payload', reader.call = true → reader.request = .lookup payload' →
        cString (requestName payload') = cString (requestName payload) →
        (serve s reader).2 = .cap { c with rights := rightWrite }) ∧
    ∀ m i, s.Active i → ¬ (step s m).Active i →
      m.request = .unregister (dynamicIdBase + i) ∧
        (m.badge = (s.dynamic i).ownerBadge ∨ badgeIsSupervisor m.badge = true) := by
  have hinv := hfit.keeps (I := Inv) (inv_boot masters own) fun s m h hm => h.step hm
  refine ⟨hinv.names, fun i hi => (hinv.sound i hi).free, hinv.apart, ?_,
    fun m i => active_step⟩
  intro pre m post payload i c hms hreq hcap hok hstays reader payload' hcall hlookup hname
  rw [hms, append_cons, meets_append, meets_append] at hfit
  obtain ⟨⟨hpre, hm⟩, hpost⟩ := hfit
  have h₀ := hpre.keeps (I := Inv) (inv_boot masters own) fun s m h hm => h.step hm
  have hnew := registered_of_ok hreq hcap hm.1 hok
  rw [runFrom_append] at hstays hpost
  have hrun := (hpost.and hstays).keeps
    (I := fun s => Inv s ∧ Registered s i (cString (requestName payload)) c)
    ⟨h₀.step hm.1, hnew⟩ fun s m h hm => ⟨h.1.step hm.1, h.2.step h.1 hm.2⟩
  rw [hinv.serve_lookup hcall hlookup]
  rw [hms, append_cons, runFrom_append, runFrom_append] at hinv ⊢
  exact hrun.2.lookup hinv _ hname

/-- A client with badge 7 registers an endpoint under a name. -/
def registerMsg (payload : List UInt8) (rights : Rights) : Message :=
  ⟨true, 7, some ⟨9, true, rights⟩, .register payload⟩

def lookupMsg (payload : List UInt8) : Message := ⟨true, 8, none, .lookup payload⟩

theorem registry_is_a_name_map_oneService :
    (serve (runFrom step (boot {} fun _ => none) [registerMsg [97, 98] 0xE])
      (lookupMsg [97, 98])).2 = .cap ⟨9, true, rightWrite⟩ := by
  have hfit : ¬ Unfit (boot {} fun _ => none) (registerMsg [97, 98] 0xE) := by
    rintro ⟨payload, hreq, -, hbad⟩
    obtain rfl : [97, 98] = payload := Request.register.inj hreq
    refine hbad ⟨⟨by decide, by decide, by decide⟩, fun c hc => ?_⟩
    obtain rfl := Option.some.inj hc
    change rightsSubset (rightWrite ||| rightDuplicate ||| rightTransfer) 0xE
    decide
  exact (registry_is_a_name_map {} (fun _ => none) [registerMsg [97, 98] 0xE] ⟨hfit, trivial⟩).2.2.2.1
    [] _ [] [97, 98] 0 ⟨9, true, 0xE⟩ rfl rfl rfl (by decide +kernel) trivial
    (lookupMsg [97, 98]) [97, 98] rfl rfl rfl

/-- A name of sixteen characters is registered twice and never found, nor are one that begins with
NUL and one whose capability cannot be copied; `.ep` passes for a free name. -/
theorem unfit_registrations_are_accepted :
    let s₀ := boot {} fun _ => none
    let long := replicate 12 97 ++ dotEp ++ [97]
    let s₁ := runFrom step s₀ [registerMsg long 0xE, registerMsg long 0xE]
    let s₂ := step s₀ (registerMsg dotEp 0xE)
    (s₁.Active 0 ∧ s₁.Active 1 ∧ (s₁.dynamic 0).name = (s₁.dynamic 1).name ∧
      dotEp <:+ (s₁.dynamic 0).name ∧ (serve s₁ (lookupMsg long)).2 = .error .notFound) ∧
    (s₂.Active 0 ∧ (s₂.dynamic 0).name = dotEp) ∧
    ((serve s₀ (registerMsg [0] 0xE)).2 = .ok 0x40 ∧
      (serve (step s₀ (registerMsg [0] 0xE)) (lookupMsg [0])).2 = .error .notFound) ∧
    (serve s₀ (registerMsg [97] 0xA)).2 = .ok 0x40 ∧
      (serve (step s₀ (registerMsg [97] 0xA)) (lookupMsg [97])).2 = .error .noMemory := by
  unfold Active
  decide +kernel

end IrisOS.Svcmgr
