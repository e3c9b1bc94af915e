import Talon.Interleaving.Ledger
import Talon.Interleaving.Logic
import Mathlib.Algebra.Order.Ring.Nat
import Mathlib.Data.List.Chain

/-! The free-list stacks of async_io_pool.hpp: `LockFreeStack` at the grain of
single atomic operations on `head_` and `next`, and the sequential `MutexStack`
it stands in for. Pointers are `Option N` over an arbitrary type of nodes, with
`none` for `nullptr`; memory is sequentially consistent. -/
namespace Talon.Memory
open Interleaving

/-- The 128-bit word in `head_`. The tag wraps at 2^64. -/
structure TaggedPointer (N : Type) where
  ptr : Option N
  tag : BitVec 64
  deriving DecidableEq

/-- What a successful compare-exchange on `head_` did. -/
inductive Operation (N : Type) where
  | push (node : N)
  | pop (node : N)
  | pushChain (nodes : List N)

/-- The sequential LIFO list that `operation` acts on. -/
def Operation.apply (stack : List N) : Operation N → List N
  | .push node => node :: stack
  | .pop _ => stack.tail
  | .pushChain nodes => nodes ++ stack

def replay (history : List (Operation N)) : List N := history.foldl Operation.apply []

namespace LockFreeStack
variable {ι N : Type} [DecidableEq ι] [DecidableEq N]

/-- A compare-exchange on `head_` that succeeded, with the thread it belongs to. -/
abbrev Update (ι N : Type) := Entry ι (Operation N)

/-- What the owner of nodes may do between two calls. -/
inductive Action (N : Type) where
  | push (node : N)
  | pop
  | pushChain (nodes : List N)
  | scribble (node : N) (value : Option N)

/-- The operations that a call is which returned `value`. -/
def Action.operations (value : Option N) : Action N → List (Operation N)
  | .push node => [.push node]
  | .pop => value.toList.map .pop
  | .pushChain nodes => [.pushChain nodes]
  | .scribble _ _ => []

/-- A call as its caller knows it: what it returned, and how many updates of `head_` there
were when it began and when the caller had its result. -/
structure Returned (N : Type) where
  action : Action N
  value : Option N
  called : Nat
  returned : Nat

def Returned.operations (call : Returned N) : List (Operation N) := call.action.operations call.value

/-- Shared memory. `head` and `next` are the program's; the rest is history:
which thread a node belongs to (`none` while it is on the stack), the successful
updates of `head_` in order, how many there were when a thread last read it and
when its latest call began, and the calls that have returned to a thread. -/
structure Shared (ι N : Type) where
  head : TaggedPointer N
  next : N → Option N
  owner : N → Option ι
  updates : List (Update ι N)
  readAt : ι → Nat
  calledAt : ι → Nat
  returned : ι → List (Returned N)

def Shared.history (s : Shared ι N) : List (Operation N) := s.updates.map Entry.event

structure Choice (N : Type) where
  spurious : Bool
  action : Action N

inductive Procedure (N : Type) where
  | push (node : N)
  | pushLoop (node : N) (oldHead : TaggedPointer N)
  | pop
  | popLoop (oldHead : TaggedPointer N)
  | pushChain (nodes : List N) (chainHead chainTail : N)
  | pushChainLoop (nodes : List N) (chainHead chainTail : N) (oldHead : TaggedPointer N)
  | client (last : Option (Action N × Option N))

abbrev Code (ι N : Type) := Prog (Shared ι N) (Choice N) (Procedure N) (Option N)

def Shared.read (self : ι) (s : Shared ι N) : Shared ι N :=
  { s with readAt := Function.update s.readAt self s.updates.length }

/-- Who holds which node once `self` has published `operation`. -/
def transfer (self : ι) (owner : N → Option ι) : Operation N → N → Option ι
  | .push node => Function.update owner node none
  | .pop node => Function.update owner node (some self)
  | .pushChain nodes => fun n => if n ∈ nodes then none else owner n

def Shared.commit (self : ι) (newHead : TaggedPointer N) (operation : Operation N)
    (s : Shared ι N) : Shared ι N :=
  { s with
    head := newHead
    owner := transfer self s.owner operation
    updates := s.updates ++ [⟨self, operation⟩] }

/-- `head_.load` -/
def loadHead (self : ι) : Code ι N (TaggedPointer N) := .exchange (·.head) (·.read self)

def loadNext (node : N) : Code ι N (Option N) := .load (·.next node)

def storeNext (node : N) (value : Option N) : Code ι N Unit :=
  .store fun s => { s with next := Function.update s.next node value }

/-- `head_.compare_exchange_weak(old_head, new_head)`: `none` on success, else
the head it found instead. It may fail although the values agree. -/
def compareExchangeWeak (self : ι) (oldHead newHead : TaggedPointer N)
    (operation : Operation N) : Code ι N (Option (TaggedPointer N)) :=
  .atomic
    (fun c s => some (if s.head = oldHead ∧ c.spurious = false
      then s.commit self newHead operation else s.read self))
    (fun c s => if s.head = oldHead ∧ c.spurious = false then none else some s.head)

/-- A thread acts on nodes it owns. A chain it pushes is a duplicate-free
`next`-path of such nodes. -/
def Permitted (self : ι) (s : Shared ι N) : Action N → Prop
  | .push node => s.owner node = some self
  | .pop => True
  | .pushChain nodes => nodes ≠ [] ∧ nodes.Nodup ∧
      List.IsChain (fun a b => s.next a = some b) nodes ∧ ∀ n ∈ nodes, s.owner n = some self
  | .scribble node _ => s.owner node = some self

instance (self : ι) (s : Shared ι N) : (action : Action N) → Decidable (Permitted self s action)
  | .push node => inferInstanceAs (Decidable (s.owner node = some self))
  | .pop => inferInstanceAs (Decidable True)
  | .pushChain nodes => inferInstanceAs (Decidable (nodes ≠ [] ∧ nodes.Nodup ∧
      List.IsChain (fun a b => s.next a = some b) nodes ∧ ∀ n ∈ nodes, s.owner n = some self))
  | .scribble node _ => inferInstanceAs (Decidable (s.owner node = some self))

def Shared.perform (s : Shared ι N) : Action N → Shared ι N
  | .scribble node value => { s with next := Function.update s.next node value }
  | _ => s

/-- The caller has its last call, with the value it returned, and goes on to the next. -/
def Shared.receive (self : ι) (last : Option (Action N × Option N)) (s : Shared ι N) : Shared ι N :=
  let call := last.map fun (action, value) => ⟨action, value, s.calledAt self, s.updates.length⟩
  { s with
    calledAt := Function.update s.calledAt self s.updates.length
    returned := Function.update s.returned self (s.returned self ++ call.toList) }

/-- The caller's own step: take note of what the last call returned, and pick the next one
or overwrite a node it owns. -/
def nextAction (self : ι) (last : Option (Action N × Option N)) : Code ι N (Action N) :=
  .atomic
    (fun c s => if Permitted self s c.action then some ((s.receive self last).perform c.action) else none)
    fun c _ => c.action

def code (self : ι) : Procedure N → Code ι N (Option N)
  | .push node => do
      let oldHead ← loadHead self
      .enter (.pushLoop node oldHead)
  | .pushLoop node oldHead => do
      storeNext node oldHead.ptr
      let newHead : TaggedPointer N := ⟨some node, oldHead.tag + 1⟩
      match ← compareExchangeWeak self oldHead newHead (.push node) with
      | none => return none
      | some found => .enter (.pushLoop node found)
  | .pop => do
      let oldHead ← loadHead self
      .enter (.popLoop oldHead)
  | .popLoop oldHead =>
      match oldHead.ptr with
      | none => return none
      | some node => do
          let next ← loadNext node
          let newHead : TaggedPointer N := ⟨next, oldHead.tag + 1⟩
          match ← compareExchangeWeak self oldHead newHead (.pop node) with
          | none => return some node
          | some found => .enter (.popLoop found)
  | .pushChain nodes chainHead chainTail => do
      let oldHead ← loadHead self
      .enter (.pushChainLoop nodes chainHead chainTail oldHead)
  | .pushChainLoop nodes chainHead chainTail oldHead => do
      storeNext chainTail oldHead.ptr
      let newHead : TaggedPointer N := ⟨some chainHead, oldHead.tag + 1⟩
      match ← compareExchangeWeak self oldHead newHead (.pushChain nodes) with
      | none => return none
      | some found => .enter (.pushChainLoop nodes chainHead chainTail found)
  | .client last => do
      -- The most general caller: any sequence of permitted calls.
      let action ← nextAction self last
      let value ← match action with
        | .push node => .enter (.push node)
        | .pop => .enter .pop
        | .pushChain nodes =>
            match nodes.head?, nodes.getLast? with
            | some chainHead, some chainTail => .enter (.pushChain nodes chainHead chainTail)
            | _, _ => pure none
        | .scribble _ _ => pure none
      .enter (.client (some (action, value)))

/-- An empty stack; every node belongs to some thread. -/
def initial (next : N → Option N) (owner : N → ι) : Shared ι N :=
  ⟨⟨none, 0⟩, next, fun n => some (owner n), [], fun _ => 0, fun _ => 0, fun _ => []⟩

def start (next : N → Option N) (owner : N → ι) :
    Pool ι (Shared ι N) (Choice N) (Procedure N) (Option N) :=
  ⟨initial next owner, fun _ => do let _ ← .enter (.client none)⟩

/-- Fewer than 2^64 updates of `head_` lie between a thread's read and the
compare-exchange that it wins. -/
def TagsFresh (s t : Shared ι N) : Prop :=
  ∀ i operation, t.updates = s.updates ++ [⟨i, operation⟩] →
    s.updates.length < s.readAt i + 2 ^ 64

end LockFreeStack

/-- The lock serialises every operation, so one call is one step. -/
structure MutexStack (N : Type) where
  head : Option N
  next : N → Option N

namespace MutexStack
variable {N : Type} [DecidableEq N]

def push (node : N) (m : MutexStack N) : MutexStack N :=
  ⟨some node, Function.update m.next node m.head⟩

def pop (m : MutexStack N) : Option N × MutexStack N :=
  match m.head with
  | none => (none, m)
  | some node => (some node, { m with head := m.next node })

def pushChain (chainHead chainTail : N) (m : MutexStack N) : MutexStack N :=
  ⟨some chainHead, Function.update m.next chainTail m.head⟩

/-- The caller links its nodes before it pushes them as a chain. -/
def link : List N → MutexStack N → MutexStack N
  | a :: b :: rest, m => link (b :: rest) { m with next := Function.update m.next a (some b) }
  | _, m => m

/-- One operation of a history. A pop must return the recorded node. -/
def execute (m : MutexStack N) : Operation N → Option (MutexStack N)
  | .push node => some (m.push node)
  | .pop node => if m.pop.1 = some node then some m.pop.2 else none
  | .pushChain nodes =>
      match nodes.head?, nodes.getLast? with
      | some chainHead, some chainTail => some ((m.link nodes).pushChain chainHead chainTail)
      | _, _ => some m

end MutexStack
end Talon.Memory
