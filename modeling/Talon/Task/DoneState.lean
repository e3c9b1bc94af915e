import Talon.Interleaving.Logic

/-! `DoneState` of async_io_result.hpp at the grain of single atomic, mutex and
condition-variable steps. The condition variable follows the standard: waiting
releases the mutex and blocks in one step, a blocked waiter leaves by a
notification, spuriously or by its timeout, and `notify_one` frees one waiter. -/
namespace Talon.Task.DoneState
open Interleaving

/-- The values of `state_`. -/
inductive Flag where
  | kIdle
  | kWaiting
  | kSignaled
  deriving DecidableEq

/-- `state_`, `mtx_` and the waiters blocked in `cv_`, then history: waiters that
found `state_` unsignaled and are about to store to it (`checked`), waiters
whose predicate failed and who are about to block (`parking`), the numbers of
exchanges, notifications and returns of `Signal`, and the results of the calls
`IsReady` and `Wait`, each with whether a `Signal` preceded the call. -/
structure Shared (ι : Type) where
  state : Flag := .kIdle
  mutex : Option ι := none
  blocked : List ι := []
  checked : List ι := []
  parking : List ι := []
  exchanges : Nat := 0
  notifies : Nat := 0
  returned : Nat := 0
  results : List (Bool × Bool) := []

inductive Call where
  | wait (timeoutMs : Int)
  | signal
  | isReady

inductive Wake where
  | notified
  | spurious
  | timeout
  deriving DecidableEq

/-- The caller's next call, how a blocked waiter leaves, whom a notification frees. -/
structure Choice where
  call : Call
  wake : Wake
  target : Nat

inductive Procedure where
  | signal
  | wait (timeoutMs : Int)
  | isReady
  | cvWait
  | cvWaitFor
  | client

variable {ι : Type} [DecidableEq ι]

abbrev Code (ι : Type) := Prog (Shared ι) Choice Procedure Bool

def loadState : Code ι Flag := .load (·.state)

/-- The load that decides on a store, at line 56 and at the end of `wait_for`. -/
def checkState (self : ι) : Code ι Flag :=
  .exchange (·.state) fun s =>
    if s.state = .kSignaled then s else { s with checked := self :: s.checked }

/-- The predicate of `cv_.wait`: a waiter for which it fails goes on to block. -/
def predicate (self : ι) : Code ι Flag :=
  .exchange (·.state) fun s =>
    if s.state = .kSignaled then s else { s with parking := self :: s.parking }

/-- The plain stores of `Wait`. -/
def storeState (self : ι) (flag : Flag) : Code ι Unit :=
  .store fun s => { s with state := flag, checked := s.checked.erase self }

def lock (self : ι) : Code ι Unit :=
  .await (fun s => s.mutex.isNone) fun s => { s with mutex := some self }

def unlock : Code ι Unit := .store fun s => { s with mutex := none }

/-- Release the mutex and block, in one step. -/
def block (self : ι) : Code ι Unit :=
  .store fun s => { s with
    mutex := none, blocked := self :: s.blocked, parking := s.parking.erase self }

/-- Leave `cv_`: after a notification, or spuriously, or by the timeout. -/
def wake (self : ι) : Code ι Bool :=
  .atomic (fun c s =>
      if c.wake = .notified ∧ self ∈ s.blocked then none
      else some { s with blocked := s.blocked.erase self })
    fun c _ => decide (c.wake = .timeout)

/-- A wait without deadline has no timeout to leave by. -/
def wakeUntimed (self : ι) : Code ι Unit :=
  .atomic (fun c s =>
      if c.wake = .notified ∧ self ∈ s.blocked ∨ c.wake = .timeout then none
      else some { s with blocked := s.blocked.erase self })
    fun _ _ => ()

/-- `state_.exchange(kSignaled)` -/
def exchangeSignaled : Code ι Flag :=
  .exchange (·.state) fun s => { s with state := .kSignaled, exchanges := s.exchanges + 1 }

def notifyOne : Code ι Unit :=
  .atomic (fun c s => some { s with
      blocked := s.blocked.eraseIdx (c.target % s.blocked.length), notifies := s.notifies + 1 })
    fun _ _ => ()

def nextCall : Code ι (Call × Bool) :=
  .atomic (fun _ s => some s) fun c s => (c.call, decide (0 < s.exchanges))

def code (self : ι) : Procedure → Code ι Bool
  | .signal => do
      let prev ← exchangeSignaled
      if prev = .kWaiting then
        lock self
        unlock
        notifyOne
      return true
  | .wait timeoutMs => do
      if (← loadState) = .kSignaled then return true
      if timeoutMs = 0 then return (← loadState) = .kSignaled
      lock self
      if (← checkState self) = .kSignaled then
        unlock
        return true
      storeState self .kWaiting
      if timeoutMs < 0 then
        let _ ← .enter .cvWait
        unlock
        return true
      let ready ← .enter .cvWaitFor
      if !ready then storeState self .kIdle
      unlock
      return ready
  | .isReady => return (← loadState) = .kSignaled
  | .cvWait => do
      if (← predicate self) = .kSignaled then return true
      block self
      wakeUntimed self
      lock self
      .enter .cvWait
  | .cvWaitFor => do
      if (← predicate self) = .kSignaled then return true
      block self
      let timedOut ← wake self
      lock self
      if timedOut then return (← checkState self) = .kSignaled
      .enter .cvWaitFor
  | .client => do
      -- The most general caller: any sequence of calls.
      let (call, late) ← nextCall
      match call with
      | .wait timeoutMs =>
          let result ← .enter (.wait timeoutMs)
          .store fun s => { s with results := (late, result) :: s.results }
      | .signal =>
          let _ ← .enter .signal
          .store fun s => { s with returned := s.returned + 1 }
      | .isReady =>
          let result ← .enter .isReady
          .store fun s => { s with results := (late, result) :: s.results }
      .enter .client

def start : Pool ι (Shared ι) Choice Procedure Bool :=
  ⟨{}, fun _ => do let _ ← .enter .client⟩

/-- Once a `Signal` has executed its exchange the flag stays signaled, and every
call made after that returns true; once a `Signal` has returned nobody is left
blocked in `cv_` without a notification. -/
structure Delivered (s : Shared ι) : Prop where
  signaled : 0 < s.exchanges → s.state = .kSignaled
  ready : ∀ call ∈ s.results, call.1 = true → call.2 = true
  freed : 0 < s.returned → s.blocked = []

end Talon.Task.DoneState
