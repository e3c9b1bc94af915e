import Talon.Handler.Program
import Mathlib.Algebra.Order.Ring.Nat

/-! The `user_data` words of async_io_handler.hpp and `AsyncTask::Cancel`: a task's
address in the lower 61 bits, with one event bit above it. Cancelling a word that is
already tagged sets a second bit. -/
namespace Talon.Ring.UserData
open Talon.Handler

abbrev Word := BitVec 64

def kTimeoutBit : Nat := 63

def kErrorBit : Nat := 62

def kCancelBit : Nat := 61

def kTimeoutFlag : Word := 1#64 <<< kTimeoutBit

def kErrorFlag : Word := 1#64 <<< kErrorBit

def kCancelFlag : Word := 1#64 <<< kCancelBit

def kEventMaskFlags : Word := kTimeoutFlag ||| kErrorFlag ||| kCancelFlag

/-- The values of the enumeration. -/
def EventFlag.word : EventFlag → Word
  | .kNone => 0#64
  | .kTimeout => kTimeoutFlag
  | .kError => kErrorFlag
  | .kCancel => kCancelFlag
  | .kMask => kEventMaskFlags

/-- The `switch` of `DispatchCqe`: everything but the four single values is left to
the default branch. -/
def eventFlag (bits : Word) : EventFlag :=
  if bits = EventFlag.word .kNone then .kNone
  else if bits = EventFlag.word .kTimeout then .kTimeout
  else if bits = EventFlag.word .kError then .kError
  else if bits = EventFlag.word .kCancel then .kCancel
  else .kMask

/-- `RunEventLoop`: the task and the branch that a word leads to. The shutdown sentinel
and the null pointer are dropped. -/
def decode (ud : Word) : Option (Word × EventFlag) :=
  if ud = 0#64 then none
  else
    let et := eventFlag (ud &&& kEventMaskFlags)
    let tp := ud &&& ~~~kEventMaskFlags
    if tp = 0#64 then none else some (tp, et)

/-- `SubmitTask` -/
def operationUserData (task : Word) : Word := task

def timeoutUserData (task : Word) : Word := task ||| kTimeoutFlag

/-- `QueueFailedTask` -/
def errorUserData (task : Word) : Word := task ||| kErrorFlag

/-- `Cancel(uring, special_user_data)` of a task with the given `user_data_`. -/
def cancelUserData (userData special : Word) : Word := (if special = 0#64 then userData else special) ||| kCancelFlag

/-- A word that the library puts on an SQE of the task: of its operation, of its link
timeout, of its failure, or of a request to cancel one of these. -/
inductive Puts (task : Word) : Word → Prop where
  | operation : Puts task (operationUserData task)
  | timeout : Puts task (timeoutUserData task)
  | error : Puts task (errorUserData task)
  | cancel (userData special : Word) (target : Puts task (if special = 0#64 then userData else special)) :
      Puts task (cancelUserData userData special)

/-- Addresses below bit 61. -/
def Address (task : Word) : Prop := 0 < task.toNat ∧ task.toNat < 2 ^ 61

instance (task : Word) : Decidable (Address task) := inferInstanceAs (Decidable (_ ∧ _))

/-! ### Words and their bits -/

variable {task : Word}

theorem address_ne_zero (address : Address task) : task ≠ 0#64 := by
  rintro rfl
  exact absurd address.1 (by decide)

theorem tagged_ne_zero {bits : Word} (address : Address task) : task ||| bits ≠ 0#64 := by
  intro zero
  obtain ⟨absent, -⟩ := BitVec.or_eq_zero_iff.mp zero
  exact address_ne_zero address absent

theorem address_and_mask (address : Address task) : task &&& kEventMaskFlags = 0#64 := by
  have masked : ∀ i < 61, kEventMaskFlags.getLsbD i = false := by decide
  refine BitVec.eq_of_getLsbD_eq fun i _ => ?_
  rw [BitVec.getLsbD_and, BitVec.getLsbD_zero]
  by_cases low : i < 61
  · rw [masked i low, Bool.and_false]
  · have high : 2 ^ 61 ≤ 2 ^ i := Nat.pow_le_pow_right (by decide) (Nat.not_lt.mp low)
    have clear : task.getLsbD i = false := Nat.testBit_lt_two_pow (Nat.lt_of_lt_of_le address.2 high)
    rw [clear, Bool.false_and]

theorem address_and_not_mask (address : Address task) : task &&& ~~~kEventMaskFlags = task := by
  have split : task &&& kEventMaskFlags ||| task &&& ~~~kEventMaskFlags = task := by
    rw [← BitVec.and_or_distrib_left, BitVec.or_not_self, BitVec.and_allOnes]
  rw [address_and_mask address, BitVec.zero_or] at split
  exact split

/-- Event bits leave the address as it is, and come back as they are. -/
theorem decode_or {bits : Word} (address : Address task) (inside : bits &&& kEventMaskFlags = bits) :
    decode (task ||| bits) = some (task, eventFlag bits) := by
  have pointer : (task ||| bits) &&& ~~~kEventMaskFlags = task := by
    rw [BitVec.and_or_distrib_right, address_and_not_mask address, ← inside, BitVec.and_assoc, BitVec.and_not_self]
    simp only [BitVec.ofNat_eq_ofNat, BitVec.and_zero, BitVec.or_zero]
  have event : (task ||| bits) &&& kEventMaskFlags = bits := by
    rw [BitVec.and_or_distrib_right, address_and_mask address, inside, BitVec.zero_or]
  simp only [decode, tagged_ne_zero address, if_false, pointer, event, address_ne_zero address]

/-- Every value of the enumeration names its own branch. -/
theorem eventFlag_word (flag : EventFlag) :
    EventFlag.word flag &&& kEventMaskFlags = EventFlag.word flag ∧ eventFlag (EventFlag.word flag) = flag := by
  cases flag <;> decide

theorem decode_tagged (address : Address task) (flag : EventFlag) :
    decode (task ||| EventFlag.word flag) = some (task, flag) := by
  obtain ⟨inside, branch⟩ := eventFlag_word flag
  rw [decode_or address inside, branch]

/-- The event bits that words of the library can have. -/
def tags : List Word :=
  [0#64, kTimeoutFlag, kErrorFlag, kCancelFlag, kTimeoutFlag ||| kCancelFlag, kErrorFlag ||| kCancelFlag]

/-- With the cancel bit set they are such bits again, and single if no other was set. -/
theorem tags_cancel {bits : Word} (listed : bits ∈ tags) : bits ||| kCancelFlag ∈ tags ∧
    (bits ||| kCancelFlag) &&& kEventMaskFlags = bits ||| kCancelFlag ∧
    (eventFlag (bits ||| kCancelFlag) = .kCancel ↔ bits &&& (kTimeoutFlag ||| kErrorFlag) = 0#64) := by
  simp only [tags, List.mem_cons, List.not_mem_nil, or_false] at listed
  rcases listed with rfl | rfl | rfl | rfl | rfl | rfl
  all_goals
    refine ⟨?_, ?_, ?_⟩
    · decide
    · decide
    · decide

theorem Puts.bits {ud : Word} (puts : Puts task ud) : ∃ bits ∈ tags, ud = task ||| bits := by
  induction puts with
  | operation => exact ⟨0#64, by decide, BitVec.or_zero.symm⟩
  | timeout => exact ⟨kTimeoutFlag, by decide, rfl⟩
  | error => exact ⟨kErrorFlag, by decide, rfl⟩
  | cancel userData special target ih =>
    obtain ⟨bits, listed, same⟩ := ih
    exact ⟨bits ||| kCancelFlag, (tags_cancel listed).1, by rw [cancelUserData, same, BitVec.or_assoc]⟩

/-! ### What the library relies on -/

/-- The words of a task are told from each other, from those of other tasks and from
the shutdown sentinel, and lead back to the task and to their branch. -/
structure Recovers (task : Word) : Prop where
  decoded : ∀ tag, tag ≠ .kMask → decode (task ||| EventFlag.word tag) = some (task, tag)
  distinct : ∀ tag task' tag', tag ≠ .kMask → tag' ≠ .kMask → Address task' →
    task ||| EventFlag.word tag = task' ||| EventFlag.word tag' → task = task' ∧ tag = tag'
  nonzero : ∀ tag, tag ≠ .kMask → task ||| EventFlag.word tag ≠ 0#64

theorem recovers (address : Address task) : Recovers task := by
  refine ⟨fun tag _ => decode_tagged address tag, fun tag task' tag' _ _ address' same => ?_,
    fun tag _ => tagged_ne_zero address⟩
  have decoded := decode_tagged address tag
  rw [same, decode_tagged address' tag'] at decoded
  simpa only [Option.some.injEq, Prod.mk.injEq, eq_comm] using decoded

/-- The completion of a request to cancel `special` is a cancel event of the task. -/
def CancelEvent (task userData special : Word) : Prop :=
  decode (cancelUserData userData special) = some (task, .kCancel)

/-- A request to cancel a word that the library has put on an SQE of the task comes back
as a cancel event exactly if the word is not that of a link timeout or of a failure. -/
theorem cancel_event_iff {userData special : Word} (address : Address task) (puts : Puts task special) :
    Recovers task ∧ CancelEvent task userData special ↔ special &&& (kTimeoutFlag ||| kErrorFlag) = 0#64 := by
  obtain ⟨bits, listed, rfl⟩ := puts.bits
  have clear : task &&& (kTimeoutFlag ||| kErrorFlag) = 0#64 := by
    have inside : kTimeoutFlag ||| kErrorFlag = kEventMaskFlags &&& (kTimeoutFlag ||| kErrorFlag) := by decide
    rw [inside, ← BitVec.and_assoc, address_and_mask address, BitVec.zero_and]
  obtain ⟨-, inside, single⟩ := tags_cancel listed
  have decoded : decode (cancelUserData userData (task ||| bits)) = some (task, eventFlag (bits ||| kCancelFlag)) := by
    rw [cancelUserData, if_neg (tagged_ne_zero address), BitVec.or_assoc, decode_or address inside]
  rw [CancelEvent, decoded, BitVec.and_or_distrib_right, clear, BitVec.zero_or, ← single]
  simp only [recovers address, true_and, Option.some.injEq, Prod.mk.injEq]

theorem operation_cancel_event : Address 4096#64 ∧ Puts 4096#64 4096#64 ∧ Recovers 4096#64 ∧
    CancelEvent 4096#64 4096#64 4096#64 := by
  have address : Address 4096#64 := by decide
  exact ⟨address, .operation, (cancel_event_iff address .operation).mpr (by decide)⟩

/-- Cancelling the link timeout of a task. -/
theorem timeout_cancel_misread : ¬ ∀ task userData special : Word, Address task → Puts task special →
    Recovers task ∧ CancelEvent task userData special := by
  intro always
  obtain ⟨-, event⟩ := always 4096#64 4096#64 (timeoutUserData 4096#64) (by decide) .timeout
  have read : decode (cancelUserData 4096#64 (timeoutUserData 4096#64)) = some (4096#64, .kMask) := by decide
  rw [CancelEvent, read] at event
  contradiction

/-! ### The handler's model -/

/-- `Handler.cancelEntry` is what the event loop reads from the word. -/
theorem cancelEntry_decoded {s : State} {a target : Addr} {flag : EventFlag} {userData : Word} (address : Address task)
    (same : task.toNat = target) : ∃ e, cancelEntry s a (some (target, flag)) = some e ∧
      decode (cancelUserData userData (task ||| EventFlag.word flag)) = some (task, e.flag) ∧ e.task = task.toNat := by
  have masked : (EventFlag.word flag ||| kCancelFlag) &&& kEventMaskFlags = EventFlag.word flag ||| kCancelFlag ∧
      eventFlag (EventFlag.word flag ||| kCancelFlag) = if flag = .kNone ∨ flag = .kCancel then .kCancel else .kMask := by
    cases flag <;> decide
  refine ⟨_, rfl, ?_, same.symm⟩
  rw [cancelUserData, if_neg (tagged_ne_zero address), BitVec.or_assoc, decode_or address masked.1, masked.2]

end Talon.Ring.UserData
