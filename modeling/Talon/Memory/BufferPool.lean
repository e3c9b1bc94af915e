import Talon.Memory.Arena

/-! `BufferPool` of async_io_pool.hpp: one free list and, in every thread, one
cache for each of the size classes. A block lies in front of room for a
`PoolNode`, and its first bytes are the link while it is free. -/
namespace Talon.Memory.BufferPool
open Interleaving

def kBufferPoolClassSizes : List Nat :=
  [64, 128, 256, 512, 1024, 2048, 4096, 8192, 16384, 32768, 65536]

def kNumClasses : Nat := 11

def kMaxPooledSize : Nat := 65536

def kBufferPoolTlsCacheSize : Nat := 16

/-- `sizeof(PoolNode)` -/
def sizeofPoolNode : Nat := 64

/-- The first class that is large enough, or `kNumClasses`. -/
def classForSize (bytes : Nat) : Nat := kBufferPoolClassSizes.findIdx fun size => decide (bytes ≤ size)

abbrev Class := Fin kNumClasses

def blockSize (idx : Class) : Nat := kBufferPoolClassSizes.get idx

def allocSize (idx : Class) : Nat := blockSize idx + sizeofPoolNode

def slabTotal (idx : Class) : Nat :=
  if 4096 ≤ blockSize idx then 4 * 1024 * 1024 else 1 * 1024 * 1024

def numBlocks (idx : Class) : Nat := slabTotal idx / allocSize idx

/-- The class of a request that is not too large. -/
def classOf (bytes : Nat) : Option Class :=
  if small : classForSize bytes < kNumClasses then some ⟨classForSize bytes, small⟩ else none

/-- What a thread may do next. `request` is the size that the block was allocated
for; `overwrite` is a write to a held block. -/
inductive Action where
  | allocate (bytes : Nat)
  | deallocate (ptr : Option (Slot Class)) (bytes request : Nat)
  | overwrite (slot : Slot Class)

/-- `class_initialized_` -/
structure Own where
  initialized : Class → Bool

/-- Shared memory. A held block is paired with the size that was asked for. -/
abbrev Shared (ι : Type) := Arena ι Class Class Nat Own

abbrev Program (ι : Type) := Code ι Class Class Nat Own Action

variable {ι : Type} [DecidableEq ι]

def layout : Layout Class Class Nat Own where
  bin idx := idx
  cacheSize := kBufferPoolTlsCacheSize
  slotBytes := allocSize
  target := classOf
  counts a := if a.stored
    then a.bytes = byteCount (allocSize a.pool) a.count ∧ a.count = numBlocks a.pool
    else a.bytes = allocSize a.pool ∧ a.count = 1
  born _ _ := True
  gone _ _ := False

/-- Only a block that `Allocate` returned is deallocated, once and with a size of
the class it was allocated for. -/
def Permitted (s : Shared ι) : Action → Prop
  | .allocate _ => True
  | .deallocate ptr bytes request => ∀ slot ∈ ptr,
      (request, slot) ∈ s.held ∧ classForSize bytes = classForSize request
  | .overwrite slot => slot ∈ s.held.map Prod.snd

instance (s : Shared ι) : (action : Action) → Decidable (Permitted s action)
  | .allocate _ => inferInstanceAs (Decidable True)
  | .deallocate ptr bytes request => inferInstanceAs (Decidable (∀ slot ∈ ptr,
      (request, slot) ∈ s.held ∧ classForSize bytes = classForSize request))
  | .overwrite slot => inferInstanceAs (Decidable (slot ∈ s.held.map Prod.snd))

/-- What happens at the call itself. -/
def begin (self : ι) (word : Option (Slot Class)) (s : Shared ι) : Action → Shared ι
  | .allocate bytes => s.serve self (classOf bytes)
  | .deallocate none _ _ => s
  | .deallocate (some slot) _ request => s.takeBack self request slot
  | .overwrite slot => s.setNext slot word

def nextAction (self : ι) : Program ι Action :=
  .atomic
    (fun c s => if Permitted s c.action then some (begin self c.word s c.action) else none)
    (fun c _ => c.action)

/-- One thread per class gets past the compare-exchange, and carves the slab. -/
def ensureClassPopulated (self : ι) (idx : Class) : Program ι Unit := do
  let populated ← .exchange (·.own.initialized idx) fun s =>
    { s with own := ⟨Function.update s.own.initialized idx true⟩ }
  if populated then
    pure ()
  else
    growPool layout self idx (numBlocks idx)

def allocate (self : ι) (bytes : Nat) : Program ι (Option (Slot Class)) :=
  match classOf bytes with
  | none => return none
  | some idx => acquire layout self idx (ensureClassPopulated self idx)

/-- `std::free(ptr)` -/
def systemFree (self : ι) : Program ι Unit :=
  .store fun s =>
    { s with
      lost := s.lost ++ (s.hand self).toList
      hand := Function.update s.hand self none }

def deallocate (self : ι) (ptr : Option (Slot Class)) (bytes : Nat) : Program ι Unit :=
  match ptr with
  | none => pure ()
  | some node =>
      match classOf bytes with
      | none => systemFree self
      | some idx => releaseMemory layout self idx node

/-- The rest of a call. -/
def perform (self : ι) : Action → Program ι Unit
  | .allocate bytes => do
      let result ← allocate self bytes
      receive self bytes result
  | .deallocate ptr bytes _ => deallocate self ptr bytes
  | .overwrite _ => pure ()

/-- The most general caller makes any sequence of permitted calls. -/
def code (self : ι) : Procedure Class → Program ι (Option (Slot Class))
  | .walk tail => walk tail
  | .client => do
      let action ← nextAction self
      perform self action
      .enter .client

def initial : Shared ι := .empty ⟨fun _ => false⟩

abbrev Threads (ι : Type) := Pool ι (Shared ι) (Choice Action Class) (Procedure Class) (Option (Slot Class))

def start : Threads ι := ⟨initial, fun _ => do let _ ← .enter .client⟩

end Talon.Memory.BufferPool
