import IrisOS.Net.E1000

/-! The transmit queue of the virtio driver (`virtio.c`). A send posts the one chain there is and
polls the used index until it differs from the driver's own count of completions, or until its time
is up; the device finishes with the posts in any order and at any time. -/
namespace IrisOS.Net
open Lib List

/-- The driver's counters and the indices in the rings. The posts are numbered, and `consumed` has
those that the device has put on the used ring. -/
structure TxQueue where
  txAvail : UInt16 := 0
  txUsed : UInt16 := 0
  availIdx : UInt16 := 0
  usedIdx : UInt16 := 0
  posted : ℕ := 0
  consumed : List ℕ := []
deriving DecidableEq

namespace TxQueue
variable (q : TxQueue)

/-- A conforming device finishes with a post once. -/
def complete (i : ℕ) : TxQueue :=
  if i < q.posted ∧ i ∉ q.consumed then
    { q with usedIdx := q.usedIdx + 1, consumed := i :: q.consumed }
  else q

def publish : TxQueue :=
  { q with txAvail := q.txAvail + 1, availIdx := q.txAvail + 1, posted := q.posted + 1 }

/-- The polls until the time is up, each with what the device has finished with before it. -/
def poll (q : TxQueue) : List (List ℕ) → TxQueue × Bool
  | [] => (q, false)
  | done :: polls =>
    let q := done.foldl complete q
    if q.usedIdx ≠ q.txUsed then ({ q with txUsed := q.txUsed + 1 }, true) else poll q polls

def sendable (len : UInt32) : Bool := len ≠ 0 ∧ len.toNat ≤ netFrameBytes

def virtioSend (len : UInt32) (polls : List (List ℕ)) : TxQueue × UInt32 :=
  if sendable len then ((q.publish.poll polls).1, if (q.publish.poll polls).2 then len else 0)
  else (q, 0)

end TxQueue

inductive TxEvent
  | send (len : UInt32) (polls : List (List ℕ))
  | device (post : ℕ)

namespace TxQueue
variable {q : TxQueue}

def step (q : TxQueue) : TxEvent → TxQueue
  | .send len polls => (q.virtioSend len polls).1
  | .device i => q.complete i

/-- The device does not finish with the frame that a send posts before the time is up. -/
def GivesUp (q : TxQueue) : TxEvent → Prop
  | .send len polls => sendable len ∧ q.posted ∉ polls.flatten
  | .device _ => False

instance (q : TxQueue) : (e : TxEvent) → Decidable (q.GivesUp e)
  | .send .. => inferInstanceAs (Decidable (_ ∧ _))
  | .device _ => inferInstanceAs (Decidable False)

def NoneGivesUp : TxQueue → List TxEvent → Prop := Meets step fun q e => ¬ q.GivesUp e

/-- The device has finished with every post, and the driver has counted them all. -/
structure Settled (q : TxQueue) : Prop where
  consumed : ∀ i, i ∈ q.consumed ↔ i < q.posted
  used : q.usedIdx = q.txUsed

/-- The last post is the only one that may be outstanding, and the index shows whether it is. -/
structure Waiting (q : TxQueue) (k : ℕ) : Prop where
  posted : q.posted = k + 1
  earlier : ∀ i, i ≠ k → (i ∈ q.consumed ↔ i < k)
  used : q.usedIdx = if k ∈ q.consumed then q.txUsed + 1 else q.txUsed

theorem Settled.complete (h : Settled q) (i : ℕ) : q.complete i = q :=
  if_neg fun hi => hi.2 ((h.consumed i).mpr hi.1)

theorem Waiting.complete {k : ℕ} (h : Waiting q k) (i : ℕ) : Waiting (q.complete i) k := by
  unfold TxQueue.complete
  split_ifs with hi
  · obtain rfl : i = k := by
      have hlt := h.posted ▸ hi.1
      by_contra hne
      exact hi.2 ((h.earlier i hne).mpr (by omega))
    refine ⟨h.posted, fun j hj => ?_, ?_⟩
    · rw [mem_cons, or_iff_right hj, h.earlier j hj]
    · rw [if_pos mem_cons_self, h.used, if_neg hi.2]
  · exact h

theorem mem_consumed_complete {i k : ℕ} (hk : k < q.posted) :
    k ∈ (q.complete i).consumed ↔ k = i ∨ k ∈ q.consumed := by
  unfold TxQueue.complete
  split_ifs with hi
  · exact mem_cons
  · refine ⟨.inr, ?_⟩
    rintro (rfl | hmem)
    · exact not_not.mp fun hno => hi ⟨hk, hno⟩
    · exact hmem

theorem Waiting.foldl {k : ℕ} (h : Waiting q k) (done : List ℕ) :
    Waiting (done.foldl TxQueue.complete q) k ∧
      (k ∈ (done.foldl TxQueue.complete q).consumed ↔ k ∈ done ∨ k ∈ q.consumed) := by
  induction done generalizing q with
  | nil => exact ⟨h, by simp⟩
  | cons i done ih =>
    obtain ⟨hwait, hmem⟩ := ih (h.complete i)
    refine ⟨hwait, hmem.trans ?_⟩
    rw [mem_consumed_complete (h.posted ▸ k.lt_succ_self), mem_cons]
    tauto

/-- The polls end with success exactly if the device finishes with the post during them. -/
theorem Waiting.poll {k : ℕ} (h : Waiting q k) (hout : k ∉ q.consumed) (polls : List (List ℕ)) :
    ((q.poll polls).2 = true ↔ k ∈ polls.flatten) ∧
      ((q.poll polls).2 = true → Settled (q.poll polls).1 ∧ k ∈ (q.poll polls).1.consumed) := by
  induction polls generalizing q with
  | nil => simp [TxQueue.poll]
  | cons done polls ih =>
    obtain ⟨h', hmem⟩ := h.foldl done
    unfold TxQueue.poll
    generalize done.foldl TxQueue.complete q = q' at h' hmem
    have hused := h'.used
    by_cases hk : k ∈ q'.consumed
    · rw [if_pos hk] at hused
      have hdone : k ∈ done := (hmem.mp hk).resolve_right hout
      dsimp only
      rw [if_pos (by simp [hused])]
      refine ⟨iff_of_true rfl (mem_flatten_of_mem mem_cons_self hdone), fun _ =>
        ⟨⟨fun i => ?_, hused⟩, hk⟩⟩
      rw [h'.posted]
      by_cases hi : i = k
      · exact iff_of_true (hi ▸ hk) (by omega)
      · rw [h'.earlier i hi]
        omega
    · rw [if_neg hk] at hused
      have hdone : k ∉ done := fun hin => hk (hmem.mpr (.inl hin))
      dsimp only
      rw [if_neg (not_not.mpr hused), flatten_cons, mem_append, or_iff_right hdone]
      exact ih h' hk

theorem Settled.send (h : Settled q) {len : UInt32} (hsend : sendable len = true)
    (polls : List (List ℕ)) :
    ((q.virtioSend len polls).2 ≠ 0 ↔ q.posted ∈ polls.flatten) ∧
      ((q.virtioSend len polls).2 ≠ 0 → Settled (q.virtioSend len polls).1 ∧
        q.posted ∈ (q.virtioSend len polls).1.consumed) := by
  have hnew : q.posted ∉ q.consumed := fun hmem => lt_irrefl _ ((h.consumed _).mp hmem)
  have hwait : Waiting q.publish q.posted :=
    ⟨rfl, fun i _ => h.consumed i, h.used.trans (if_neg hnew).symm⟩
  have hlen : len ≠ 0 := (of_decide_eq_true hsend).1
  have hreturns : (q.virtioSend len polls).2 ≠ 0 ↔ (q.publish.poll polls).2 = true := by
    simp [virtioSend, hsend, hlen]
  rw [hreturns]
  simpa [virtioSend, hsend] using hwait.poll hnew polls

theorem Settled.step (h : Settled q) {e : TxEvent} (he : ¬ q.GivesUp e) : Settled (q.step e) := by
  cases e with
  | send len polls =>
    by_cases hsend : sendable len = true
    · have hdone := (h.send hsend polls).1.mpr (not_not.mp fun hno => he ⟨hsend, hno⟩)
      exact ((h.send hsend polls).2 hdone).1
    · simpa [TxQueue.step, virtioSend, hsend] using h
  | device i =>
    change Settled (q.complete i)
    rwa [h.complete i]

/-- If the device has finished in time with the frame of every send before it, a send that returns a
length has posted a frame that the device has consumed. -/
theorem send_reports_its_own_frame {es : List TxEvent} (hes : NoneGivesUp {} es) (len : UInt32)
    (polls : List (List ℕ)) (hlen : ((runFrom step {} es).virtioSend len polls).2 ≠ 0) :
    (runFrom step {} es).posted ∈ ((runFrom step {} es).virtioSend len polls).1.consumed := by
  have hstart : Settled {} := ⟨fun i => by simp, rfl⟩
  have hrun : Settled (runFrom step {} es) := Meets.keeps hes hstart fun _ _ hq he => hq.step he
  have hsend : sendable len = true := by
    by_contra hno
    exact hlen (congrArg Prod.snd (if_neg hno))
  exact ((hrun.send hsend polls).2 hlen).2

/-- The third frame, after one that is polled for twice, a request that is too long to be sent and a
frame that is completed at once. -/
theorem send_reports_its_own_frame_third :
    let es := [.send 60 [[], [0]], .send 1025 [], .send 1024 [[1]], .device 1]
    NoneGivesUp {} es ∧ 2 ∈ ((runFrom step {} es).virtioSend 60 [[], [], [2]]).1.consumed := by
  intro es
  have hes : NoneGivesUp {} es := by
    unfold NoneGivesUp
    decide +kernel
  have hposted : (runFrom step {} es).posted = 2 := by decide +kernel
  exact ⟨hes, hposted ▸ send_reports_its_own_frame hes 60 [[], [], [2]] (by decide +kernel)⟩

/-- A send gives up, its completion comes late, and the next send takes it for its own. -/
theorem late_completion_reports_the_next_frame :
    let q := runFrom step {} [.send 60 [[]], .device 0]
    (q.virtioSend 60 [[]]).2 = 60 ∧ q.posted = 1 ∧ 1 ∉ (q.virtioSend 60 [[]]).1.consumed := by
  decide +kernel

end TxQueue
end IrisOS.Net
