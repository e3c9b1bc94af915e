import Talon.Interleaving.Program

/-! The completion ring between the kernel and `IOHandler::RunEventLoop`. The loop
gives a slot back with `io_uring_cqe_seen` before it reads the entry in it, so
what it reads is the entry only while the kernel leaves that slot alone. Head and
tail are counters; entry `k` lies in slot `k % size`. -/
namespace Talon.Ring.Completion
open Interleaving

structure Cqe where
  userData : BitVec 64
  res : Int
  deriving DecidableEq

/-- `kEventMaskFlags` -/
def eventMaskFlags : BitVec 64 := 0xE000000000000000#64

/-- The task pointer in a `user_data` word. -/
def taskPointer (userData : BitVec 64) : BitVec 64 := userData &&& ~~~eventMaskFlags

/-- The two tests after which the loop goes on to the next entry: the shutdown
sentinel, and a word without a pointer. -/
def skips (userData : BitVec 64) : Bool := userData = 0 || taskPointer userData = 0

/-- How far the loop is with an entry: it has a pointer to the one at the head, or
it has given entry `k` back and is still reading it. -/
inductive Stage where
  | idle
  | found
  | reading (k : Nat)
  deriving DecidableEq

/-- Shared memory. The last three fields are history: the kernel's completions in
order, the pairs handed to `DispatchCqe`, and the loop's stage. -/
structure Shared where
  slots : Nat → Cqe
  head : Nat
  tail : Nat
  /-- Completions that wait for room in the ring. -/
  backlog : List Cqe
  shutdownRequested : Bool
  posted : List Cqe
  acted : List Cqe
  stage : Stage

inductive Thread where
  | kernel
  | loop
  deriving DecidableEq

/-- What the rest of the world does next. -/
inductive Action where
  | complete (cqe : Cqe)
  | write
  | requestShutdown

/-- How `io_uring_peek_cqe` and `io_uring_wait_cqe` return. -/
inductive Outcome where
  | entry
  | interrupted
  | error
  | null
  deriving DecidableEq

structure Choice where
  action : Action
  outcome : Outcome

inductive Procedure where
  | kernel
  | runEventLoop

abbrev Code := Prog Shared Choice Procedure Unit

/-- The kernel writes a slot only when the head says that it is free. -/
def Shared.perform (size : Nat) (s : Shared) : Action → Shared
  | .complete cqe => { s with backlog := s.backlog ++ [cqe], posted := s.posted ++ [cqe] }
  | .write =>
      match s.backlog with
      | [] => s
      | cqe :: rest =>
          if s.tail < s.head + size then
            { s with
              slots := Function.update s.slots (s.tail % size) cqe
              tail := s.tail + 1
              backlog := rest }
          else s
  | .requestShutdown => { s with shutdownRequested := true }

/-- What the loop gets: an entry, `-EAGAIN`, `-EINTR`, another error, or success
with a null entry. -/
inductive Found where
  | entry (k : Nat)
  | again
  | interrupted
  | error
  | null

def lookup (c : Choice) (s : Shared) : Found :=
  match c.outcome with
  | .entry => if s.head < s.tail then .entry s.head else .again
  | .interrupted => .interrupted
  | .error => .error
  | .null => .null

def Shared.find (c : Choice) (s : Shared) : Shared :=
  match lookup c s with
  | .entry _ => { s with stage := .found }
  | _ => s

def peekCqe : Code Found := .atomic (fun c s => some (s.find c)) lookup

/-- Waits until there is an entry, unless it fails. -/
def waitCqe : Code Found :=
  .atomic (fun c s => if c.outcome = .entry ∧ s.tail ≤ s.head then none else some (s.find c)) lookup

/-- `io_uring_cqe_seen` -/
def Shared.seen (s : Shared) : Shared := { s with head := s.head + 1, stage := .reading s.head }

/-- `cqe->user_data`. Where the loop skips the entry, it has read all it will. -/
def readUserData (size k : Nat) : Code (BitVec 64) :=
  .exchange (fun s => (s.slots (k % size)).userData) fun s =>
    { s with stage := if skips (s.slots (k % size)).userData then .idle else s.stage }

/-- `DispatchCqe(tp, et, cqe->res)` -/
def Shared.dispatch (size k : Nat) (userData : BitVec 64) (s : Shared) : Shared :=
  { s with
    acted := s.acted ++ [⟨userData, (s.slots (k % size)).res⟩]
    stage := .idle }

/-- The body of the loop once it has the entry. -/
def consume (size k : Nat) : Code Unit := do
  .store Shared.seen
  let userData ← readUserData size k
  if skips userData then
    pure ()
  else
    .store (·.dispatch size k userData)

/-- One iteration: what follows `peek` and `wait`. -/
def handle (size : Nat) : Found → Code Unit
  | .entry k => do
      consume size k
      .enter .runEventLoop
  | .interrupted | .null => .enter .runEventLoop
  | .again | .error => do
      if ← .load (·.shutdownRequested) then
        pure ()
      else
        .enter .runEventLoop

def code (size : Nat) (_ : Thread) : Procedure → Code Unit
  | .kernel => do
      .atomic (fun c s => some (s.perform size c.action)) fun _ _ => ()
      .enter .kernel
  | .runEventLoop => do
      if ← .load (·.shutdownRequested) then
        pure ()
      else
        match ← peekCqe with
        | .again => do
            let waited ← waitCqe
            handle size waited
        | peeked => handle size peeked

def initial (slots : Nat → Cqe) : Shared := ⟨slots, 0, 0, [], false, [], [], .idle⟩

abbrev Threads := Pool Thread Shared Choice Procedure Unit

def start (slots : Nat → Cqe) : Threads :=
  ⟨initial slots, fun
    | .kernel => .enter .kernel
    | .loop => .enter .runEventLoop⟩

/-- The kernel does not write the slot of an entry that the loop is reading. -/
def Unclobbered (size : Nat) (s t : Shared) : Prop :=
  t.tail = s.tail + 1 → ∀ k, s.stage = .reading k → s.tail % size ≠ k % size

/-- The completions that are to be dispatched. -/
def dispatched (cqes : List Cqe) : List Cqe := cqes.filter fun cqe => !skips cqe.userData

end Talon.Ring.Completion
