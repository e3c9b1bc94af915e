import Talon.Interleaving.Program
import Talon.Memory.StackHistory

/-! What `ObjectPool` and `BufferPool` of async_io_pool.hpp have in common: free
lists whose links overlay the slots, per-thread caches in front of them, and
blocks of memory that are carved into slots. Free lists are indexed by `Q` (the
pool, or the size class), a thread's caches by `X`. An access to a shared free
list is one atomic stack operation; every other access to a link is a step of
its own. -/
namespace Talon.Memory
open Interleaving

/-- `ThreadCache` and `ClassCache`: the cells below `count` are live, the others
keep what they last held. -/
structure ThreadCache (N : Type) where
  nodes : Nat → Option N
  count : Nat

namespace ThreadCache
variable {N : Type}

def empty : ThreadCache N := ⟨fun _ => none, 0⟩

def reset (c : ThreadCache N) : ThreadCache N := { c with count := 0 }

def pop (c : ThreadCache N) : Option N × ThreadCache N :=
  if c.count = 0 then (none, c) else (c.nodes (c.count - 1), { c with count := c.count - 1 })

def push (size : Nat) (node : N) (c : ThreadCache N) : Bool × ThreadCache N :=
  if size ≤ c.count then (false, c)
  else (true, ⟨Function.update c.nodes c.count (some node), c.count + 1⟩)

/-- `n = count / 2; count -= n` -/
def halve (c : ThreadCache N) : ThreadCache N := { c with count := c.count - c.count / 2 }

def live (c : ThreadCache N) : List N := (List.range c.count).filterMap c.nodes

/-- What is live now and no longer after `halve`. -/
def upper (c : ThreadCache N) : List N :=
  (List.range' (c.count - c.count / 2) (c.count / 2)).filterMap c.nodes

end ThreadCache

/-- A pointer to a slot: its address and, as provenance, the allocation it
points into and the pool that made the allocation. Code only compares and
follows pointers; provenance tells a slot from one that a later allocation has
at the same address. -/
structure Slot (Q : Type) where
  pool : Q
  block : Nat
  address : Nat
  deriving DecidableEq

/-- One successful `aligned_alloc(64, bytes)`, meant for `count` slots. It is
`stored` when its address went to `storage_blocks_` or `slabs_`, and `live` until
it is freed. -/
structure Allocation (Q : Type) where
  pool : Q
  start : Nat
  bytes : Nat
  count : Nat
  stored : Bool
  live : Bool

/-- Two byte ranges, each a start and a length, do not meet. -/
def Apart (start length start' length' : Nat) : Prop :=
  start + length ≤ start' ∨ start' + length' ≤ start

instance (start length start' length' : Nat) : Decidable (Apart start length start' length') :=
  inferInstanceAs (Decidable (_ ∨ _))

/-- How a pool class lays out its slots. The last three fields are for the
proofs: the number of slots it asks for in one allocation, and what its own
members say of a pool that has slots, or has lost some. -/
structure Layout (X Q L E : Type) where
  /-- The cache that serves a free list. -/
  bin : Q → X
  cacheSize : Nat
  slotBytes : Q → Nat
  /-- The free list that a request goes to. -/
  target : L → Option Q
  counts : Allocation Q → Prop
  born : E → Q → Prop
  gone : E → Q → Prop

/-- Shared memory. The first five fields are the program's; the others are
history: the nodes of each free list, the slots in callers' hands with the
request they answer, the slot and the chain that a thread's operation in
progress carries, the free list it works for, the slots that no one can reach
any more, all slots ever made, and whether a null pointer was dereferenced. -/
structure Arena (ι X Q L E : Type) where
  head : Q → Option (Slot Q)
  next : Slot Q → Option (Slot Q)
  cache : ι → X → ThreadCache (Slot Q)
  heap : List (Allocation Q)
  own : E
  freed : Q → List (Slot Q)
  held : List (L × Slot Q)
  hand : ι → Option (Slot Q)
  chain : ι → List (Slot Q)
  serving : ι → Option Q
  lost : List (Slot Q)
  carved : List (Slot Q)
  faulted : Bool

/-- The scheduler's choice: the next action of a caller, what `aligned_alloc`
returns, and what a held object leaves in the word that overlays `next`. -/
structure Choice (A Q : Type) where
  action : A
  address : Option Nat
  word : Option (Slot Q)

/-- The tail walk of `ReleaseMemory` and `Deallocate`, and the caller's loop. -/
inductive Procedure (Q : Type) where
  | walk (tail : Slot Q)
  | client

abbrev Code (ι X Q L E A : Type) :=
  Prog (Arena ι X Q L E) (Choice A Q) (Procedure Q) (Option (Slot Q))

section Code
variable {ι X Q L E A : Type} [DecidableEq ι] [DecidableEq X] [DecidableEq Q]

/-- `aligned_alloc` returns a multiple of the alignment, and memory that no live
allocation has. -/
def Fits (heap : List (Allocation Q)) (address bytes : Nat) : Prop :=
  64 ∣ address ∧ 0 < address ∧
    ∀ a ∈ heap, a.live = true → Apart a.start a.bytes address bytes

instance (heap : List (Allocation Q)) (address bytes : Nat) : Decidable (Fits heap address bytes) :=
  inferInstanceAs (Decidable (64 ∣ address ∧ 0 < address ∧
    ∀ a ∈ heap, a.live = true → Apart a.start a.bytes address bytes))

namespace Arena

def empty (own : E) : Arena ι X Q L E where
  head _ := none
  next _ := none
  cache _ _ := .empty
  heap := []
  own := own
  freed _ := []
  held := []
  hand _ := none
  chain _ := []
  serving _ := none
  lost := []
  carved := []
  faulted := false

def setCache (i : ι) (x : X) (c : ThreadCache (Slot Q)) (s : Arena ι X Q L E) : Arena ι X Q L E :=
  { s with cache := Function.update s.cache i (Function.update (s.cache i) x c) }

def setHand (i : ι) (slot : Option (Slot Q)) (s : Arena ι X Q L E) : Arena ι X Q L E :=
  { s with hand := Function.update s.hand i slot }

def setNext (node : Slot Q) (value : Option (Slot Q)) (s : Arena ι X Q L E) : Arena ι X Q L E :=
  { s with next := Function.update s.next node value }

/-- The free list that thread `i` works for. -/
def serve (i : ι) (q : Option Q) (s : Arena ι X Q L E) : Arena ι X Q L E :=
  { s with serving := Function.update s.serving i q }

/-- The caller of thread `i`'s operation gets its result. -/
def receive (i : ι) (request : L) (result : Option (Slot Q)) (s : Arena ι X Q L E) :
    Arena ι X Q L E :=
  { s with
    held := result.toList.map (Prod.mk request) ++ s.held
    hand := Function.update s.hand i none }

/-- A release takes the slot from its holder. -/
def takeBack [DecidableEq L] (i : ι) (request : L) (slot : Slot Q) (s : Arena ι X Q L E) :
    Arena ι X Q L E :=
  { s with
    held := s.held.erase (request, slot)
    hand := Function.update s.hand i (some slot) }

/-- The pool's stack loses its top, which thread `i` now has in hand. -/
def popFree (i : ι) (q : Q) (s : Arena ι X Q L E) : Arena ι X Q L E :=
  match s.head q with
  | none => s
  | some node =>
      { s with
        head := Function.update s.head q (s.next node)
        freed := Function.update s.freed q (s.freed q).tail
        hand := Function.update s.hand i (some node) }

/-- `chain_tail->next = head_; head_ = chain_head` -/
def pushChain (i : ι) (q : Q) (chainHead chainTail : Slot Q) (s : Arena ι X Q L E) :
    Arena ι X Q L E :=
  { s with
    head := Function.update s.head q (some chainHead)
    next := Function.update s.next chainTail (s.head q)
    freed := Function.update s.freed q (s.chain i ++ s.freed q)
    chain := Function.update s.chain i [] }

end Arena

/-- `static_cast<char*>(block) + i * size` -/
def slotAt (lay : Layout X Q L E) (block : Slot Q) (i : Nat) : Slot Q :=
  { block with address := block.address + i * lay.slotBytes block.pool }

def slots (lay : Layout X Q L E) (block : Slot Q) (count : Nat) : List (Slot Q) :=
  (List.range count).map (slotAt lay block)

/-- `size_t` multiplication. -/
def byteCount (size count : Nat) : Nat := size * count % 2 ^ 64

def fault : Code ι X Q L E A Unit := .store fun s => { s with faulted := true }

/-- `node->next.store(value)`, for a pointer that may be null. -/
def storeNext (node value : Option (Slot Q)) : Code ι X Q L E A Unit :=
  match node with
  | none => fault
  | some node => .store (·.setNext node value)

def popCache (self : ι) (x : X) : Code ι X Q L E A (Option (Slot Q)) :=
  .exchange (fun s => (s.cache self x).pop.1) fun s =>
    (s.setCache self x (s.cache self x).pop.2).setHand self (s.cache self x).pop.1

def pushCache (lay : Layout X Q L E) (self : ι) (x : X) (node : Slot Q) : Code ι X Q L E A Bool :=
  .exchange (fun s => ((s.cache self x).push lay.cacheSize node).1) fun s =>
    let pushed := (s.cache self x).push lay.cacheSize node
    (s.setCache self x pushed.2).setHand self (if pushed.1 then none else s.hand self)

/-- `free_list_.Pop()` -/
def popFree (self : ι) (q : Q) : Code ι X Q L E A (Option (Slot Q)) :=
  .exchange (·.head q) (·.popFree self q)

/-- `free_list_.PushChain(chain_head, chain_tail)` -/
def pushChain (self : ι) (q : Q) (chainHead chainTail : Slot Q) : Code ι X Q L E A Unit :=
  .store (·.pushChain self q chainHead chainTail)

/-- `aligned_alloc(64, bytes)`: null, or the address that the environment picks. -/
def alignedAlloc (q : Q) (bytes : Nat)
    (allocated : Slot Q → Arena ι X Q L E → Arena ι X Q L E) : Code ι X Q L E A (Option (Slot Q)) :=
  .atomic
    (fun c s =>
      match c.address with
      | none => some s
      | some address =>
          if Fits s.heap address bytes then some (allocated ⟨q, s.heap.length, address⟩ s) else none)
    (fun c s => c.address.map fun address => ⟨q, s.heap.length, address⟩)

/-- Memory for `count` slots, remembered in the pool. This is one step with the allocation, but
`GrowPool` calls `storage_blocks_.push_back` without a lock: that two threads which grow one pool
do not race there is assumed. -/
def Arena.addBlock (lay : Layout X Q L E) (i : ι) (count bytes : Nat) (block : Slot Q)
    (s : Arena ι X Q L E) : Arena ι X Q L E :=
  { s with
    heap := s.heap ++ [⟨block.pool, block.address, bytes, count, true, true⟩]
    carved := s.carved ++ slots lay block count
    chain := Function.update s.chain i (slots lay block count) }

/-- Memory for one slot, which the caller gets. -/
def Arena.addSlot (i : ι) (bytes : Nat) (block : Slot Q) (s : Arena ι X Q L E) : Arena ι X Q L E :=
  { s with
    heap := s.heap ++ [⟨block.pool, block.address, bytes, 1, false, true⟩]
    carved := s.carved ++ [block]
    hand := Function.update s.hand i (some block) }

/-- The loop that links the slots of a new block. It returns `chain_head` and
`chain_tail`. -/
def carveLoop (lay : Layout X Q L E) (block : Slot Q) : (remaining i : Nat) →
    Option (Slot Q × Slot Q) → Code ι X Q L E A (Option (Slot Q × Slot Q))
  | 0, _, chain => pure chain
  | remaining + 1, i, chain => do
      let node := slotAt lay block i
      storeNext (some node) none
      match chain with
      | none => carveLoop lay block remaining (i + 1) (some (node, node))
      | some (chainHead, chainTail) => do
          storeNext (some chainTail) (some node)
          carveLoop lay block remaining (i + 1) (some (chainHead, node))

/-- `GrowPool(count)`, and the second half of `EnsureClassPopulated`. -/
def growPool (lay : Layout X Q L E) (self : ι) (q : Q) (count : Nat) : Code ι X Q L E A Unit := do
  let bytes := byteCount (lay.slotBytes q) count
  match ← alignedAlloc q bytes (Arena.addBlock lay self count bytes) with
  | none => pure ()
  | some block =>
      match ← carveLoop lay block count 0 none with
      | none => pure ()
      | some (chainHead, chainTail) => do
          storeNext (some chainTail) none
          pushChain self q chainHead chainTail

/-- A slot of its own when the free list stays empty. -/
def allocateSlot (lay : Layout X Q L E) (self : ι) (q : Q) : Code ι X Q L E A (Option (Slot Q)) :=
  alignedAlloc q (lay.slotBytes q) (Arena.addSlot self (lay.slotBytes q))

/-- `Acquire`, and `Allocate` after it has found the class: the thread's cache,
the free list, and again the free list after `populate`. -/
def acquire (lay : Layout X Q L E) (self : ι) (q : Q) (populate : Code ι X Q L E A Unit) :
    Code ι X Q L E A (Option (Slot Q)) := do
  match ← popCache self (lay.bin q) with
  | some node => return some node
  | none =>
      match ← popFree self q with
      | some node => return some node
      | none => do
          populate
          match ← popFree self q with
          | some node => return some node
          | none => allocateSlot lay self q

/-- The call returns, and its caller receives the result. -/
def receive (self : ι) (request : L) (result : Option (Slot Q)) : Code ι X Q L E A Unit :=
  .store fun s => (s.receive self request result).serve self none

def finish (self : ι) : Code ι X Q L E A Unit := .store (·.serve self none)

def loadCell (self : ι) (x : X) (i : Nat) : Code ι X Q L E A (Option (Slot Q)) :=
  .load fun s => (s.cache self x).nodes i

/-- `for (i = count + 1; i < count + n; i++)` of `FlushHalf`. It returns `tail`. -/
def linkLoop (self : ι) (x : X) : (remaining i : Nat) → Option (Slot Q) →
    Code ι X Q L E A (Option (Slot Q))
  | 0, _, tail => pure tail
  | remaining + 1, i, tail => do
      let cell ← loadCell self x i
      storeNext tail cell
      linkLoop self x remaining (i + 1) cell

/-- The cells above the new count leave the cache as the chain to be pushed. -/
def Arena.takeHalf (i : ι) (x : X) (s : Arena ι X Q L E) : Arena ι X Q L E :=
  { s.setCache i x (s.cache i x).halve with
    chain := Function.update s.chain i (s.cache i x).upper }

def flushHalf (lay : Layout X Q L E) (self : ι) (x : X) : Code ι X Q L E A (Option (Slot Q)) := do
  let count ← .load fun s => (s.cache self x).count
  if count ≤ lay.cacheSize / 4 then
    return none
  else do
    let n := count / 2
    .store (·.takeHalf self x)
    let head ← loadCell self x (count - n)
    let tail ← linkLoop self x (n - 1) (count - n + 1) head
    storeNext tail none
    return head

/-- `while (tail->next != nullptr) tail = tail->next` -/
def walk (tail : Slot Q) : Code ι X Q L E A (Option (Slot Q)) := do
  match ← .load (·.next tail) with
  | none => return some tail
  | some _ =>
      match ← .load (·.next tail) with
      | none => do
          fault
          return none
      | some node => .enter (.walk node)

/-- A full cache gives its upper half to the free list. -/
def flush (lay : Layout X Q L E) (self : ι) (q : Q) : Code ι X Q L E A Unit := do
  match ← flushHalf lay self (lay.bin q) with
  | none => pure ()
  | some batch =>
      match ← .enter (.walk batch) with
      | none => fault
      | some tail => pushChain self q batch tail

/-- `ReleaseMemory(node)`, and `Deallocate` after it has found the class. -/
def releaseMemory (lay : Layout X Q L E) (self : ι) (q : Q) (node : Slot Q) :
    Code ι X Q L E A Unit := do
  if ← pushCache lay self (lay.bin q) node then
    pure ()
  else do
    flush lay self q
    let _ ← pushCache lay self (lay.bin q) node
    pure ()

end Code
end Talon.Memory
