import Mathlib.Data.UInt
import Mathlib.Data.Fin.VecNotation

/-! The endpoint protocol of the VFS service (`vfs_ep_proto.h`, `endpoint_proto.h`, `iris_msg.h`),
and the C strings that exports are named with. -/
namespace IrisOS.Vfs

def vfsEpPathMax : ℕ := 64
def vfsEpDataMax : ℕ := 256
abbrev vfsGrantSessions : ℕ := 8
abbrev vfsGrantsPerSession : ℕ := 8
abbrev irisVfsFiles : ℕ := 32

/-- A session of the grant table. -/
abbrev Session := Fin vfsGrantSessions

instance neZero_sessions : NeZero vfsGrantSessions := ⟨by decide⟩

/-- A column of the grant table: the index a session names one of its grants by. -/
abbrev GrantIdx := Fin vfsGrantsPerSession

/-- An entry of the open-file table. -/
abbrev FileId := Fin irisVfsFiles

/-! ## Errors and opcodes -/

/-- The codes of `iris_error_t` that the service answers with. -/
inductive IrisError
  | invalidArg | noMemory | notFound | accessDenied | tableFull | notSupported | closed
  deriving DecidableEq

/-- An error code in a message word: `(uint64_t)(uint32_t)err`. -/
def IrisError.word : IrisError → UInt64
  | .invalidArg => 0xFFFFFFFF
  | .noMemory => 0xFFFFFFFE
  | .notFound => 0xFFFFFFFD
  | .accessDenied => 0xFFFFFFFB
  | .tableFull => 0xFFFFFFFA
  | .notSupported => 0xFFFFFFF5
  | .closed => 0xFFFFFFF4

/-- The operations of the protocol; `unknown` is every label that names none. -/
inductive Opcode
  | list | stat | readAt | status
  | grantOpen | grantStat | grantReadAt | grantQueryIdentity | grantDerive | grantRevoke
  | grantSessionReset
  | fileOpen | fileRead | fileSeek | fileStat | fileClose
  | ping | unknown
  deriving DecidableEq

/-- The label of each operation, `VFS_EP_OP_*` and `IRIS_EP_OP_PING`. -/
def opcodes : List (UInt64 × Opcode) :=
  [(0x0101, .list), (0x0102, .stat), (0x0103, .readAt), (0x0104, .status),
   (0x0110, .grantOpen), (0x0111, .grantStat), (0x0112, .grantReadAt),
   (0x0113, .grantQueryIdentity), (0x0114, .grantDerive), (0x0115, .grantRevoke),
   (0x0116, .grantSessionReset),
   (0x0120, .fileOpen), (0x0121, .fileRead), (0x0122, .fileSeek), (0x0123, .fileStat),
   (0x0124, .fileClose), (0xFF01, .ping)]

/-- The operations that name an export by path or place, or sum over all of them. -/
def Opcode.byName : Opcode → Bool
  | .list | .stat | .readAt | .status | .fileOpen => true
  | _ => false

/-! ## Badges -/

def irisBadgeFilegrantAdmin : UInt64 := 0x0F00
def irisBadgeFilegrantBase : UInt64 := 0x0F10
def irisBadgeVfsFileBase : UInt64 := 0x2000

/-- The place of a badge in a range of `n` badges. -/
def badgeIndex (base : UInt64) (n : ℕ) (badge : UInt64) : Option (Fin n) :=
  if h : base.toNat ≤ badge.toNat ∧ badge.toNat < base.toNat + n then
    some ⟨badge.toNat - base.toNat, by omega⟩
  else none

theorem badgeIndex_eq_some {base badge : UInt64} {n : ℕ} {i : Fin n} :
    badgeIndex base n badge = some i ↔ badge.toNat = base.toNat + i := by
  unfold badgeIndex
  split_ifs with h
  · rw [Option.some_inj, Fin.ext_iff]
    dsimp only
    omega
  · simp only [false_iff]
    omega

/-- The session a badge stands for, if it is a session badge. -/
def irisBadgeFilegrantSession : UInt64 → Option Session :=
  badgeIndex irisBadgeFilegrantBase vfsGrantSessions

/-- The open file a badge names, if it is the badge of a file capability. -/
def irisBadgeVfsFile : UInt64 → Option FileId := badgeIndex irisBadgeVfsFileBase irisVfsFiles

def irisBadgeVfsFileOf (i : FileId) : UInt64 := irisBadgeVfsFileBase + i.val.toUInt64

variable {badge : UInt64} {s : Session} {f : FileId}

theorem session_of_file (h : irisBadgeVfsFile badge = some f) :
    irisBadgeFilegrantSession badge = none := by
  have hf := badgeIndex_eq_some.mp h
  refine Option.eq_none_iff_forall_ne_some.mpr fun s hs => ?_
  have hs' := badgeIndex_eq_some.mp hs
  have := s.isLt
  simp only [irisBadgeVfsFileBase, irisBadgeFilegrantBase, UInt64.reduceToNat,
    vfsGrantSessions] at hf hs' this
  omega

theorem file_of_session
    (h : irisBadgeFilegrantSession badge = some s) : irisBadgeVfsFile badge = none := by
  cases hf : irisBadgeVfsFile badge with
  | none => rfl
  | some f => rw [session_of_file hf] at h; cases h

theorem ne_admin_of_session
    (h : irisBadgeFilegrantSession badge = some s) : badge ≠ irisBadgeFilegrantAdmin := by
  rintro rfl
  cases h

theorem ne_admin_of_file
    (h : irisBadgeVfsFile badge = some f) : badge ≠ irisBadgeFilegrantAdmin := by
  rintro rfl
  cases h

/-! ## Rights -/

abbrev Rights := UInt32

def vfsFileRightStat : Rights := 1
def vfsFileRightRead : Rights := 2
def vfsFileRightDuplicate : Rights := 4
def vfsFileRightRevoke : Rights := 8
def vfsFileRightAll : Rights := 0xF

def hasRight (rights right : Rights) : Bool := rights &&& right ≠ 0

/-- Every right of `r` is one of `base`. -/
def Within (r base : Rights) : Prop := r &&& base = r

instance (r base : Rights) : Decidable (Within r base) := inferInstanceAs (Decidable (_ = _))

theorem within_refl (r : Rights) : Within r r := UInt32.and_self

theorem within_trans {a b c : Rights} (h1 : Within a b) (h2 : Within b c) : Within a c := by
  unfold Within at *
  rw [← h1, UInt32.and_assoc, h2]

theorem within_of_no_excess {w : UInt64} {base : Rights} (h : w &&& ~~~base.toUInt64 = 0) :
    Within w.toUInt32 base := by
  have hw : w &&& base.toUInt64 = w := by
    apply UInt64.toBitVec_inj.mp
    ext i hi
    have hbit := congrArg (fun v => v.toBitVec.getLsbD i) h
    simp only [UInt64.toBitVec_and, UInt64.toBitVec_not, BitVec.getLsbD_and,
      BitVec.getLsbD_not, hi, decide_true, Bool.true_and] at hbit ⊢
    simp only [← BitVec.getLsbD_eq_getElem, BitVec.getLsbD_and]
    revert hbit
    cases w.toBitVec.getLsbD i <;> cases base.toUInt64.toBitVec.getLsbD i <;> simp
  have hlow := congrArg UInt64.toUInt32 hw
  rwa [UInt64.toUInt32_and, UInt32.toUInt32_toUInt64] at hlow

/-! ## Messages -/

instance neZero_words : NeZero 4 := ⟨by decide⟩

/-- A received message. -/
structure Request where
  label : UInt64
  words : Fin 4 → UInt64 := ![0, 0, 0, 0]
  wordCount : ℕ := 0
  bufLen : ℕ := 0
  senderBadge : UInt64
  deriving DecidableEq

def Request.op (req : Request) : Opcode := (opcodes.lookup req.label).getD .unknown

inductive ReplyLabel
  | ok | err
  deriving DecidableEq

/-- A reply with the first `buf_len` bytes of the buffer; `cap` is the badge of its capability. -/
structure Reply where
  label : ReplyLabel
  words : Fin 4 → UInt64
  wordCount : ℕ
  payload : List UInt8 := []
  cap : Option UInt64 := none
  deriving DecidableEq

def replyErr (e : IrisError) : Reply := ⟨.err, ![e.word, 0, 0, 0], 1, [], none⟩

def replyOk (words : Fin 4 → UInt64) (wordCount : ℕ) (payload : List UInt8 := []) : Reply :=
  ⟨.ok, words, wordCount, payload, none⟩

@[simp] theorem replyErr_label (e : IrisError) : (replyErr e).label = .err := rfl

/-! ## C strings -/

/-- The bytes before the first NUL; past its end an array reads as NUL. -/
def cString (a : List UInt8) : List UInt8 := a.takeWhile (· ≠ 0)

/-- The comparison loop of `vfs_ep_name_equal`. -/
def nameEqual : List UInt8 → List UInt8 → Bool
  | a :: as, b :: bs =>
    if a ≠ 0 ∧ b ≠ 0 then if a ≠ b then false else nameEqual as bs else a = b
  | a :: _, [] => a = 0
  | [], b :: _ => 0 = b
  | [], [] => true

/-- The comparison loop of `vfs_name_eq`. -/
def vfsNameEq : List UInt8 → List UInt8 → Bool
  | a :: as, b :: bs => if a ≠ 0 ∧ a = b then vfsNameEq as bs else a = b
  | a :: _, [] => a = 0
  | [], b :: _ => 0 = b
  | [], [] => true

theorem vfsNameEq_iff (a b : List UInt8) : vfsNameEq a b = true ↔ cString a = cString b := by
  fun_induction vfsNameEq a b with
  | case1 a as b bs h ih =>
    obtain ⟨ha, rfl⟩ := h
    simpa [cString, ha] using ih
  | case2 a as b bs h =>
    rcases eq_or_ne a 0 with rfl | ha <;> rcases eq_or_ne b 0 with rfl | hb <;>
      simp_all [cString, Ne.symm]
  | case3 a as => by_cases ha : a = 0 <;> simp [cString, ha]
  | case4 b bs => rcases eq_or_ne b 0 with rfl | hb <;> simp_all [cString, Ne.symm]
  | case5 => simp

theorem cString_terminated (a : List UInt8) : cString (cString a ++ [0]) = cString a := by
  induction a with
  | nil => rfl
  | cons b bs ih =>
    by_cases hb : b = 0
    · simp [cString, hb]
    · simpa [cString, hb] using ih

end IrisOS.Vfs
