import Talon.Memory.Arena

/-! `ObjectPool<T>` of async_io_pool.hpp: any number of instances for one `T`,
named by `Q`, and threads that construct, use and destroy them. The thread cache
is one `thread_local` per `T`, so all instances share it. -/
namespace Talon.Memory.ObjectPool
open Interleaving

def kObjectPoolTlsCacheSize : Nat := 32

/-- `sizeof(PoolNode)`, which is also the alignment of a slot. -/
def sizeofPoolNode : Nat := 64

/-- `obj_size`: room for a `T` or a `PoolNode`, rounded up to the alignment. -/
def objSize (sizeofT : Nat) : Nat := (max sizeofT sizeofPoolNode + 63) / 64 * 64

/-- The constructor's arguments, for every instance. -/
structure Config (Q : Type) where
  sizeofT : Nat
  capacity : Q → Nat
  growBatch : Q → Nat

/-- A pool counts as alive from the first statement of its constructor on, which
lets callers do more than they can. -/
inductive Lifetime where
  | unborn
  | alive
  | destroyed
  deriving DecidableEq

/-- What a thread may do next. A null `obj` is a null pointer argument;
`overwrite` is a write through a held object. -/
inductive Action (Q : Type) where
  | construct (p : Q)
  | destroy (p : Q)
  | acquire (p : Q)
  | release (p : Q) (obj : Option (Slot Q))
  | releaseMemory (p : Q) (obj : Option (Slot Q))
  | overwrite (slot : Slot Q)

/-- History: which instances there are, and the calls in order. -/
structure Own (ι Q : Type) where
  status : Q → Lifetime
  calls : List (ι × Action Q)

/-- Shared memory of all instances. A held slot is paired with the instance it
was acquired from. -/
abbrev Shared (ι Q : Type) := Arena ι Unit Q Q (Own ι Q)

abbrev Program (ι Q : Type) := Code ι Unit Q Q (Own ι Q) (Action Q)

variable {ι Q : Type} [DecidableEq ι] [DecidableEq Q]

def layout (config : Config Q) : Layout Unit Q Q (Own ι Q) where
  bin _ := ()
  cacheSize := kObjectPoolTlsCacheSize
  slotBytes _ := objSize config.sizeofT
  target p := some p
  counts a := if a.stored
    then a.bytes = byteCount (objSize config.sizeofT) a.count ∧
      (a.count = config.capacity a.pool ∨ a.count = config.growBatch a.pool)
    else a.bytes = objSize config.sizeofT ∧ a.count = 1
  born own p := own.status p ≠ .unborn
  gone own p := own.status p = .destroyed

/-- An object is released once, to the pool it was acquired from and before that
pool is destroyed. -/
def Permitted (s : Shared ι Q) : Action Q → Prop
  | .construct p => s.own.status p = .unborn
  | .destroy p => s.own.status p = .alive ∧ ∀ h ∈ s.held, h.1 ≠ p
  | .acquire p => s.own.status p = .alive
  | .release p obj | .releaseMemory p obj =>
      s.own.status p = .alive ∧ ∀ slot, obj = some slot → (p, slot) ∈ s.held
  | .overwrite slot => slot ∈ s.held.map Prod.snd

instance (s : Shared ι Q) : (action : Action Q) → Decidable (Permitted s action)
  | .construct p => inferInstanceAs (Decidable (s.own.status p = .unborn))
  | .destroy p => inferInstanceAs (Decidable (s.own.status p = .alive ∧ ∀ h ∈ s.held, h.1 ≠ p))
  | .acquire p => inferInstanceAs (Decidable (s.own.status p = .alive))
  | .release p none | .releaseMemory p none =>
      decidable_of_iff (s.own.status p = .alive) (by simp only [Permitted, reduceCtorEq,
        false_implies, implies_true, and_true])
  | .release p (some slot) | .releaseMemory p (some slot) =>
      decidable_of_iff (s.own.status p = .alive ∧ (p, slot) ∈ s.held) (by
        simp only [Permitted, Option.some.injEq, forall_eq'])
  | .overwrite slot => inferInstanceAs (Decidable (slot ∈ s.held.map Prod.snd))

def setStatus (p : Q) (status : Lifetime) (s : Shared ι Q) : Shared ι Q :=
  { s with own := { s.own with status := Function.update s.own.status p status } }

/-- The memory that `~ObjectPool` gives back: the storage blocks, but no slot
that was allocated on its own. -/
def freeBlocks (p : Q) (heap : List (Allocation Q)) : List (Allocation Q) :=
  heap.map fun a => if a.pool = p ∧ a.stored = true then { a with live := false } else a

/-- `tls_cache_.Reset()`: what the cache held is out of reach. -/
def reset (self : ι) (s : Shared ι Q) : Shared ι Q :=
  { s.setCache self () (s.cache self ()).reset with lost := s.lost ++ (s.cache self ()).live }

/-- What happens at the call itself. The constructor resets the caller's cache
first, which no other thread sees. -/
def begin (self : ι) (word : Option (Slot Q)) (s : Shared ι Q) : Action Q → Shared ι Q
  | .construct p => (setStatus p .alive (reset self s)).serve self (some p)
  | .destroy p => { setStatus p .destroyed s with heap := freeBlocks p s.heap }
  | .acquire p | .release p none | .releaseMemory p none => s.serve self (some p)
  | .release p (some slot) | .releaseMemory p (some slot) =>
      (s.takeBack self p slot).serve self (some p)
  | .overwrite slot => s.setNext slot word

def record (self : ι) (action : Action Q) (s : Shared ι Q) : Shared ι Q :=
  { s with own := { s.own with calls := s.own.calls ++ [(self, action)] } }

def nextAction (self : ι) : Program ι Q (Action Q) :=
  .atomic
    (fun c s =>
      if Permitted s c.action then some (record self c.action (begin self c.word s c.action)) else none)
    (fun c _ => c.action)

/-- The constructor after the reset. -/
def construct (config : Config Q) (self : ι) (p : Q) : Program ι Q Unit :=
  growPool (layout config) self p (config.capacity p)

def acquire (config : Config Q) (self : ι) (p : Q) : Program ι Q (Option (Slot Q)) :=
  Memory.acquire (layout config) self p (growPool (layout config) self p (config.growBatch p))

/-- `obj->~T()`: the last write through the object. -/
def destroyObject (slot : Slot Q) : Program ι Q Unit :=
  .atomic (fun c s => some (s.setNext slot c.word)) fun _ _ => ()

def releaseMemory (config : Config Q) (self : ι) (p : Q) (obj : Option (Slot Q)) :
    Program ι Q Unit :=
  match obj with
  | none => pure ()
  | some node => Memory.releaseMemory (layout config) self p node

def release (config : Config Q) (self : ι) (p : Q) (obj : Option (Slot Q)) : Program ι Q Unit :=
  match obj with
  | none => pure ()
  | some slot => do
      destroyObject slot
      releaseMemory config self p (some slot)

/-- The rest of a call. -/
def perform (config : Config Q) (self : ι) : Action Q → Program ι Q Unit
  | .construct p => do
      construct config self p
      finish self
  | .acquire p => do
      let result ← acquire config self p
      receive self p result
  | .release p obj => do
      release config self p obj
      finish self
  | .releaseMemory p obj => do
      releaseMemory config self p obj
      finish self
  | .destroy _ | .overwrite _ => pure ()

/-- The most general caller makes any sequence of permitted calls. -/
def code (config : Config Q) (self : ι) : Procedure Q → Program ι Q (Option (Slot Q))
  | .walk tail => walk tail
  | .client => do
      let action ← nextAction self
      perform config self action
      .enter .client

def initial : Shared ι Q := .empty ⟨fun _ => .unborn, []⟩

def start : Pool ι (Shared ι Q) (Choice (Action Q) Q) (Procedure Q) (Option (Slot Q)) :=
  ⟨initial, fun _ => do let _ ← .enter .client⟩

end Talon.Memory.ObjectPool
