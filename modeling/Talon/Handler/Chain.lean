import Talon.Handler.Resubmission

/-! Chains of one-shot tasks that `SetNextTask` has built, and the runs that lead
from `AddTask` of the first task through the completions of the links. -/
namespace Talon.Handler
open Interleaving

/-- What can be seen of the tasks of a chain. -/
inductive Observation where
  | submitted (task : Addr)
  | completed (task : Addr) (res : Int)
  | called (task : Addr)
  | returned (task : Addr)
  | destroyed (task : Addr)
  deriving DecidableEq

def Event.observed (chain : List Addr) : Event → Option Observation
  | .queued a _ _ => if a ∈ chain then some (.submitted a) else none
  | .handled a _ _ => if a ∈ chain then some (.called a) else none
  | .destroyed a _ _ _ => if a ∈ chain then some (.destroyed a) else none
  | _ => none

/-- What has been recorded about the chain, latest first. -/
def State.story (s : State) (chain : List Addr) : List Observation :=
  s.log.filterMap (Event.observed chain)

/-- What is recorded between two states, in order. -/
def Emits (chain : List Addr) (s t : State) (trace : List Observation) : Prop :=
  t.story chain = trace.reverse ++ s.story chain

/-- The completions of the chain's tasks that are still to come. -/
def State.entries (s : State) (chain : List Addr) : List Entry :=
  s.outstanding.filter fun e => decide (e.task ∈ chain)

/-- What does not touch the chain's tasks: nothing is written to them, submitted
for them, cancelled or deleted. Everything else may happen. -/
structure Spares (chain : List Addr) (s t : State) : Prop where
  task : ∀ a ∈ chain, t.task a = s.task a
  entries : t.entries chain = s.entries chain
  story : t.story chain = s.story chain
  limit : t.maxInflightOps = s.maxInflightOps

/-- A one-shot task that waits for its turn. -/
structure Waits (task : Task) : Prop where
  idle : task.taskState ≠ .kSubmitted
  supported : task.supported
  once : task.repeatForever = false
  untimed : task.timeoutMs ≤ 0
  tries : 0 ≤ task.tryCount

/-- Each task owns the next one. -/
def Chained (s : State) : List Addr → Prop
  | [] => True
  | a :: rest => (s.task a).next = rest.head? ∧ Chained s rest

/-- A chain before `AddTask`, and no limit on the operations in flight. -/
structure Built (chain : List Addr) (s : State) : Prop where
  distinct : chain.Nodup
  chained : Chained s chain
  waits : ∀ a ∈ chain, Waits (s.task a)
  clear : s.entries chain = []
  unlimited : s.maxInflightOps = 0

/-- The completion has been delivered to the task. -/
def State.delivered (s : State) (a : Addr) (k : Nat) (res : Int) : State :=
  ((s.take ⟨a, .kNone, k⟩).find ⟨a, .kNone, k⟩).deliver a res

/-- The event loop dispatches the failed operation of a submitted task that is not
tried again, whose handler returns in state `m`. -/
structure GivesUp (a : Addr) (k : Nat) (res : Int) (s m t : State) : Prop where
  failure : res < 0
  uncanceled : res ≠ -ECANCELED
  last : (s.task a).maxRetryCount ≤ (s.task a).tryCount + 1
  handled : Runs (code .loop) (executeCompletionHandler a) ((s.delivered a k res).retried a) () m
  finished : ∃ text last, Runs (code .loop) (deleteTask a (some k))
      ((m.setTask a fun task => { task with debugStr := text, tryCount := 0 }).close .loop a .kFailed (some k))
      () last ∧
    t = last.release k ((s.take ⟨a, .kNone, k⟩).liveSubmission a)

/-- The dispatch of a completion calls the handler in state `before`, and the
handler returns in state `m`. -/
inductive Returns (a : Addr) (k : Nat) (res : Int) (s : State) : State → State → State → Prop where
  | succeeds (run : Succeeds a k res s m t) : Returns a k res s (s.delivered a k res) m t
  | fails (run : GivesUp a k res s m t) : Returns a k res s ((s.delivered a k res).retried a) m t

/-- The handler is called. -/
def State.handled (s : State) (a : Addr) : State :=
  s.record (.handled a (s.current a) (s.task a).buffer.bytesTransferred)

/-- The dispatch of a completion of a chain's task. Its handler, where it is
called, does not touch the chain. -/
inductive Answers (chain : List Addr) (e : Entry) (res : Int) (s : State) :
    List Observation → State → Prop where
  | calls (dispatches : Dispatches e res s t) (returns : Returns e.task e.submission res s before m t)
      (handler : Spares chain (before.handled e.task) m) (first : Emits chain s m started)
      (second : Emits chain m t finished) :
      Answers chain e res s (.completed e.task res :: started ++ .returned e.task :: finished) t
  | passes (dispatches : Dispatches e res s t)
      (silent : ∀ before m, ¬ Returns e.task e.submission res s before m t)
      (emits : Emits chain s t trace) : Answers chain e res s (.completed e.task res :: trace) t

/-- `AddTask` of the first task, then completions of the chain's tasks, in any
order and with any results, and whatever else happens in between. -/
inductive ChainRun (chain : List Addr) (s : State) : List Observation → State → Prop where
  | adds (head : chain.head? = some a) (run : Runs (code i) (addTask i a) s r t)
      (sqes : t.refused = s.refused) (emits : Emits chain s t trace) : ChainRun chain s trace t
  | elsewhere (run : ChainRun chain s trace m) (apart : Spares chain m t) : ChainRun chain s trace t
  | completes (run : ChainRun chain s trace m) (member : e.task ∈ chain) (result : res ≠ -EAGAIN)
      (answers : Answers chain e res m more t) (sqes : t.refused = m.refused) :
      ChainRun chain s (trace ++ more) t

/-- The handlers that have been called, in order. -/
def callees (trace : List Observation) : List Addr :=
  trace.filterMap fun
    | .called a => some a
    | _ => none

def Precedes (chain : List Addr) (a b : Addr) : Prop :=
  ∃ before after, chain = before ++ a :: b :: after

/-- A link is submitted only after the handler of its predecessor has returned. -/
def After (chain : List Addr) (trace : List Observation) : Prop :=
  ∀ before b later a, trace = before ++ .submitted b :: later → Precedes chain a b →
    .returned a ∈ before

/-- The attempt succeeds, or it fails and the task is tried again. -/
def Passes (s : State) (a : Addr) (res : Int) : Prop :=
  0 ≤ res ∨ res ≠ -ECANCELED ∧ 1 < (s.task a).maxRetryCount

/-- What a chain built in state `s` has made of its completions in state `t`. -/
structure InOrder (chain : List Addr) (s t : State) (trace : List Observation) : Prop where
  order : callees trace <+: chain
  after : After chain trace
  complete : (∀ a res, .completed a res ∈ trace → Passes s a res) → t.entries chain = [] →
    callees trace = chain
  broken : ∀ before a rest res, chain = before ++ a :: rest → .completed a res ∈ trace → res < 0 →
    (s.task a).maxRetryCount ≤ 1 →
    (∀ b, .submitted b ∈ trace ↔ b ∈ before ++ [a]) ∧ ∀ b ∈ rest, .destroyed b ∈ trace

end Talon.Handler
