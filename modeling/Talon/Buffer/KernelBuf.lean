import Talon.Interleaving.Custody
import Talon.Memory.BufferPool

/-! `KernelBuf` of async_io_kernelbuf.hpp. Up to 256 bytes lie in the object
itself, more in a block of `BufferPool`, and what the pool has no block for in a
vector. The pool is known by its answers: a block of the right class that nobody
has, or null. Neither `Allocate` nor `Deallocate` writes to the block it is
about. -/
namespace Talon.Buffer
open Talon.Memory Talon.Memory.BufferPool

def kKernelBufSboSize : Nat := 256

/-- The address of a `KernelBuf`. -/
abbrev Object := Nat

inductive StorageTag where
  | kNone
  | kSbo
  | kPool
  | kHeap
  deriving DecidableEq

/-- A block that `BufferPool::Allocate(request)` returned. The number tells it
from the same block in a later answer. -/
structure Grant where
  slot : Slot Class
  request : Nat
  number : Nat
  deriving DecidableEq

/-- The elements of a vector, in memory of their own. -/
structure Region where
  length : Nat
  number : Nat
  deriving DecidableEq

/-- Storage that has to be given back. -/
inductive Piece where
  | block (grant : Grant)
  | array (region : Region)
  deriving DecidableEq

def Piece.number : Piece → Nat
  | .block grant => grant.number
  | .array region => region.number

def Piece.slot? : Piece → Option (Slot Class)
  | .block grant => some grant.slot
  | .array _ => none

/-- `std::vector<char>`. After its destructor there is no vector, only memory. -/
structure CharVector where
  elements : Option Region := none
  alive : Bool := true
  deriving DecidableEq

def CharVector.length (v : CharVector) : Nat := (v.elements.map Region.length).getD 0

structure PoolStorage where
  data : Option Grant := none
  allocSize : Nat := 0
  deriving DecidableEq

structure IORet where
  value : Int := 0
  retFd : Int := 0
  deriving DecidableEq

/-- The members, with `sbo_data_` kept in the memory of `State`. -/
structure KernelBuf where
  size : Nat := 0
  offset : Int := 0
  storageTag : StorageTag := .kNone
  pool : PoolStorage := {}
  heapVec : CharVector := {}
  ioRet : IORet := {}
  alive : Bool := true

/-- What `Data()` can point to. A block keeps its bytes from one holder to the
next. -/
inductive Place where
  | sbo (this : Object)
  | block (slot : Slot Class)
  | array (region : Region)
  deriving DecidableEq

/-- `Deallocate(data, bytes)`, or the end of a vector's elements. -/
inductive Return where
  | deallocate (grant : Grant) (bytes : Nat)
  | free (region : Region)
  deriving DecidableEq

def Return.piece : Return → Piece
  | .deallocate grant _ => .block grant
  | .free region => .array region

/-- The objects and the memory behind them, then history: all storage obtained so
far, all of it that was given back, and whether a destructor ran on a vector that
was not there or `memcpy` met a null pointer. -/
structure State where
  buffer : Object → KernelBuf := fun _ => { heapVec := { alive := false }, alive := false }
  bytes : Place → Nat → UInt8 := fun _ _ => 0
  obtained : List Piece := []
  returns : List Return := []
  faulted : Bool := false

/-- The environment's part in one operation: what the pool answers, whether the
constructor of a vector throws, and what is found in memory that a vector gave
back. -/
structure Environment where
  block : Option (Slot Class) := none
  throws : Bool := false
  junk : Nat → UInt8 := fun _ => 0

namespace State

def set (s : State) (this : Object) (f : KernelBuf → KernelBuf) : State :=
  { s with buffer := Function.update s.buffer this (f (s.buffer this)) }

def fill (s : State) (place : Place) (content : Nat → UInt8) : State :=
  { s with bytes := Function.update s.bytes place content }

/-- `Data()` -/
def data (s : State) (this : Object) : Option Place :=
  match (s.buffer this).storageTag with
  | .kSbo => some (.sbo this)
  | .kPool => (s.buffer this).pool.data.map fun grant => .block grant.slot
  | .kHeap => (s.buffer this).heapVec.elements.map .array
  | .kNone => none

/-- The storage given back so far. -/
def given (s : State) : List Piece := s.returns.map Return.piece

/-- Nobody has the block. -/
def Spare (s : State) (slot : Slot Class) : Prop :=
  ∀ piece ∈ s.obtained, piece.slot? = some slot → piece ∈ s.given

instance (s : State) (slot : Slot Class) : Decidable (s.Spare slot) :=
  inferInstanceAs (Decidable (∀ piece ∈ s.obtained, piece.slot? = some slot → piece ∈ s.given))

/-- `BufferPool::Allocate(bytes)` -/
def allocate (s : State) (env : Environment) (bytes : Nat) : Option Grant × State :=
  match env.block with
  | none => (none, s)
  | some slot =>
      if classOf bytes = some slot.pool ∧ s.Spare slot then
        let grant := ⟨slot, bytes, s.obtained.length⟩
        (some grant, { s with obtained := s.obtained ++ [.block grant] })
      else (none, s)

/-- `BufferPool::Deallocate(data, bytes)` -/
def deallocate (s : State) (grant : Grant) (bytes : Nat) : State :=
  { s with returns := s.returns ++ [.deallocate grant bytes] }

/-- `heap_vec_.~vector()` -/
def destroyVector (s : State) (env : Environment) (this : Object) : State :=
  let gone := s.set this fun buf => { buf with heapVec := { alive := false } }
  if (s.buffer this).heapVec.alive then
    match (s.buffer this).heapVec.elements with
    | none => gone
    | some region =>
        { gone.fill (.array region) env.junk with returns := s.returns ++ [.free region] }
  else { s with faulted := true }

/-- `new (&heap_vec_) std::vector<char>(size)` -/
def constructVector (s : State) (env : Environment) (this : Object) (size : Nat) : Except State State :=
  if env.throws then .error s
  else
    let region := ⟨size, s.obtained.length⟩
    let made := s.set this fun buf => { buf with heapVec := { elements := some region } }
    .ok { made.fill (.array region) fun _ => 0 with obtained := s.obtained ++ [.array region] }

/-- `std::memcpy`, of one place to another or to itself. -/
def memcpy (s : State) (target source : Option Place) (count : Nat) : State :=
  match target, source with
  | some target, some source =>
      s.fill target fun i => if i < count then s.bytes source i else s.bytes target i
  | _, _ => { s with faulted := true }

/-- The last two branches of `AllocateStorage` -/
def allocateHeap (s : State) (env : Environment) (this : Object) (size : Nat) : Except State State :=
  let tagged := s.set this fun buf => { buf with storageTag := .kHeap }
  (tagged.destroyVector env this).constructVector env this size

/-- `this->size = size` -/
def setSize (s : State) (this : Object) (size : Nat) : State := s.set this fun buf => { buf with size := size }

def allocateStorage (s : State) (env : Environment) (this : Object) (size : Nat) : Except State State :=
  if size ≤ kKernelBufSboSize then
    let tagged := s.set this fun buf => { buf with storageTag := .kSbo }
    .ok ((tagged.fill (.sbo this) fun _ => 0).setSize this size)
  else if size ≤ kMaxPooledSize then
    match s.allocate env size with
    | (some grant, s) =>
        .ok ((s.set this fun buf => { buf with storageTag := .kPool, pool := ⟨some grant, size⟩ }).setSize this size)
    | (none, s) => (s.allocateHeap env this size).map (·.setSize this size)
  else (s.allocateHeap env this size).map (·.setSize this size)

def destroyStorage (s : State) (env : Environment) (this : Object) : State :=
  let given := match (s.buffer this).storageTag with
    | .kSbo => s
    | .kPool =>
        match (s.buffer this).pool.data with
        | some grant =>
            (s.deallocate grant (s.buffer this).pool.allocSize).set this fun buf => { buf with pool := {} }
        | none => s
    | .kHeap =>
        -- The vector is revived as an empty one.
        (s.destroyVector env this).set this fun buf => { buf with heapVec := {} }
    | .kNone => s
  given.set this fun buf => { buf with storageTag := .kNone }

def moveStorageFrom (s : State) (this other : Object) : State :=
  let source := s.buffer other
  let tagged := s.set this fun buf => { buf with storageTag := source.storageTag }
  let moved := match source.storageTag with
    | .kSbo => tagged.memcpy (some (.sbo this)) (some (.sbo other)) kKernelBufSboSize
    | .kPool => (tagged.set this fun buf => { buf with pool := source.pool }).set other fun buf =>
        { buf with pool := {} }
    | .kHeap =>
        -- A placement new: what `this` had is not destroyed.
        (tagged.set this fun buf => { buf with heapVec := { elements := source.heapVec.elements } }).set other
          fun buf => { buf with heapVec := { elements := none, alive := source.heapVec.alive } }
    | .kNone => tagged
  moved.set other fun buf => { buf with storageTag := .kNone }

/-- A new object with its default members. -/
def create (s : State) (this : Object) (buf : KernelBuf) : State :=
  (s.set this fun _ => buf).fill (.sbo this) fun _ => 0

/-- The members' destructors, of which only the vector's does anything. -/
def discard (s : State) (env : Environment) (this : Object) : State :=
  (s.destroyVector env this).set this fun buf => { buf with alive := false }

/-- `KernelBuf(sz)`. When the body throws, the members are destroyed. -/
def construct (s : State) (env : Environment) (this : Object) (sz : Nat) : Except State State :=
  ((s.create this { size := sz }).allocateStorage env this sz).mapError (·.discard env this)

/-- `other.size = 0; other.offset = 0` -/
def clear (s : State) (other : Object) : State := s.set other fun buf => { buf with size := 0, offset := 0 }

def moveConstruct (s : State) (this other : Object) : State :=
  let source := s.buffer other
  let made := s.create this { size := source.size, offset := source.offset, ioRet := source.ioRet }
  (made.moveStorageFrom this other).clear other

def moveAssign (s : State) (env : Environment) (this other : Object) : State :=
  if this = other then s
  else
    let source := s.buffer other
    let assigned := (s.destroyStorage env this).set this fun buf =>
      { buf with size := source.size, offset := source.offset, ioRet := source.ioRet }
    (assigned.moveStorageFrom this other).clear other

def resize (s : State) (env : Environment) (this : Object) (newSize : Nat) : Except State State :=
  let buf := s.buffer this
  if newSize = buf.size ∧ buf.storageTag ≠ .kNone then .ok s
  else do
    let copySize := min newSize buf.size
    -- Taken before the storage is given up, and read afterwards.
    let oldData := s.data this
    let t ← (s.destroyStorage env this).allocateStorage env this newSize
    let copied := if oldData ≠ none ∧ 0 < copySize then t.memcpy (t.data this) oldData copySize else t
    return copied.setSize this newSize

/-- `~KernelBuf()` -/
def destruct (s : State) (env : Environment) (this : Object) : State :=
  (s.destroyStorage env this).discard env this

end State

/-- What a client may do. `write` is a byte stored through `Data()`. -/
inductive Operation where
  | construct (this : Object) (sz : Nat)
  | moveConstruct (this other : Object)
  | moveAssign (this other : Object)
  | resize (this : Object) (newSize : Nat)
  | destruct (this : Object)
  | write (this : Object) (index : Nat) (byte : UInt8)

/-- Objects are constructed where there is none, and used while they exist. -/
def Permitted (s : State) : Operation → Prop
  | .construct this _ => (s.buffer this).alive = false
  | .moveConstruct this other => (s.buffer this).alive = false ∧ (s.buffer other).alive = true
  | .moveAssign this other => (s.buffer this).alive = true ∧ (s.buffer other).alive = true
  | .resize this _ => (s.buffer this).alive = true
  | .destruct this => (s.buffer this).alive = true
  | .write this index _ => (s.buffer this).alive = true ∧ index < (s.buffer this).size

instance (s : State) : (op : Operation) → Decidable (Permitted s op)
  | .construct _ _ | .resize _ _ | .destruct _ => inferInstanceAs (Decidable (_ = _))
  | .moveConstruct _ _ | .moveAssign _ _ | .write _ _ _ => inferInstanceAs (Decidable (_ ∧ _))

/-- An error is the state that an exception leaves behind. -/
def perform (env : Environment) (s : State) : Operation → Except State State
  | .construct this sz => s.construct env this sz
  | .moveConstruct this other => .ok (s.moveConstruct this other)
  | .moveAssign this other => .ok (s.moveAssign env this other)
  | .resize this newSize => s.resize env this newSize
  | .destruct this => .ok (s.destruct env this)
  | .write this index byte =>
      match s.data this with
      | some place => .ok (s.fill place (Function.update (s.bytes place) index byte))
      | none => .ok { s with faulted := true }

/-- Runs of clients in which no vector's constructor throws. -/
inductive Reaches : State → Prop where
  | start : Reaches {}
  | step (op : Operation) (env : Environment) (earlier : Reaches s) (permitted : Permitted s op)
      (performed : perform env s op = .ok t) : Reaches t

end Talon.Buffer
