import Mathlib.Logic.Function.Basic

/-! `InlineFunction` of async_io_task.hpp: a callable of any type, kept in
`storage_` when it fits there and in a block of its own otherwise. The callables
are values of an arbitrary type `V`; a move makes a new callable object with the
value of the old one, which is destroyed. -/
namespace Talon.Task.Inline

/-- `alignof(std::max_align_t)` -/
def kStorageAlign : Nat := 16

/-- The address of an `InlineFunction`. -/
abbrev Object := Nat

/-- `Decayed`, which also names the static `VTable` of that type. -/
structure CallableType where
  name : Nat
  size : Nat
  align : Nat
  deriving DecidableEq

/-- A callable object. The number tells it from all others ever constructed. -/
structure Callable (V : Type) where
  type : CallableType
  value : V
  number : Nat
  deriving DecidableEq

/-- What is in `storage_`. -/
inductive Storage (V : Type) where
  | bytes
  | pointer (block : Nat)
  | object (callable : Callable V)
  deriving DecidableEq

/-- The members. -/
structure InlineFunction (V : Type) where
  storage : Storage V := .bytes
  vtable : Option CallableType := none
  isHeap : Bool := false
  alive : Bool := true

/-- Where a callable object can be. -/
inductive Pointer where
  | storage (this : Object)
  | block (number : Nat)
  deriving DecidableEq

/-- The functions and the heap blocks, then history: all callable objects
constructed and destroyed, all blocks allocated and freed, and whether anything was
done to an object that was not there. -/
structure State (V : Type) where
  function : Object → InlineFunction V := fun _ => { alive := false }
  heap : Nat → Option (Callable V) := fun _ => none
  made : List (Callable V) := []
  destroyed : List (Callable V) := []
  allocated : List Nat := []
  freed : List Nat := []
  faulted : Bool := false

namespace State
variable {V : Type}

def set (s : State V) (this : Object) (f : InlineFunction V → InlineFunction V) : State V :=
  { s with function := Function.update s.function this (f (s.function this)) }

def fault (s : State V) : State V := { s with faulted := true }

/-- `ObjPtr()` -/
def objPtr (s : State V) (this : Object) : Option Pointer :=
  if (s.function this).isHeap then
    match (s.function this).storage with
    | .pointer block => some (.block block)
    | .bytes | .object _ => none
  else some (.storage this)

/-- The callable object at an address. -/
def find (s : State V) : Pointer → Option (Callable V)
  | .storage this =>
      match (s.function this).storage with
      | .object callable => some callable
      | .bytes | .pointer _ => none
  | .block number => s.heap number

/-- Only memory is left at the address. -/
def vacate (s : State V) : Pointer → State V
  | .storage this => s.set this fun f => { f with storage := .bytes }
  | .block number => { s with heap := Function.update s.heap number none }

/-- `static_cast<Decayed*>(p)`: the object there, if it has the type of the table. -/
def cast (s : State V) (vtable : CallableType) (p : Option Pointer) : Option (Pointer × Callable V) :=
  p.bind fun p => (s.find p).bind fun callable => if callable.type = vtable then some (p, callable) else none

/-- `vtable_->destroy(p)` -/
def destroyCallable (s : State V) (vtable : CallableType) (p : Option Pointer) : State V :=
  match s.cast vtable p with
  | some (p, callable) => { s.vacate p with destroyed := s.destroyed ++ [callable] }
  | none => s.fault

/-- `::operator delete(p)`. A callable aligned beyond 16 bytes has its block from the aligned
`operator new`; that this call frees it all the same is assumed. -/
def operatorDelete (s : State V) : Option Pointer → State V
  | some (.block number) => { s with freed := s.freed ++ [number] }
  | some (.storage _) | none => s.fault

/-- `new (storage_) Decayed(..)` in the object at `this`. -/
def constructInline (s : State V) (this : Object) (type : CallableType) (value : V) : State V :=
  let callable := ⟨type, value, s.made.length⟩
  { s.set this fun f => { f with storage := .object callable } with made := s.made ++ [callable] }

/-- `vtable_->move_construct(src, dst)` with the storage of two functions. -/
def moveCallable (s : State V) (vtable : CallableType) (source target : Object) : State V :=
  match s.cast vtable (some (.storage source)) with
  | some (p, callable) => (s.constructInline target callable.type callable.value).destroyCallable vtable (some p)
  | none => s.fault

/-- `std::memcpy(storage_, other.storage_, sizeof(void*))` -/
def copyPointer (s : State V) (this other : Object) : State V :=
  match (s.function other).storage with
  | .pointer block => s.set this fun f => { f with storage := .pointer block }
  | .bytes | .object _ => s.set this fun f => { f with storage := .bytes }

/-- `Construct(func)`. An inline callable has to fit in size and in alignment. -/
def construct (s : State V) (inlineSize : Nat) (this : Object) (type : CallableType) (value : V) : State V :=
  let filled :=
    if type.size ≤ inlineSize ∧ type.align ≤ kStorageAlign then
      (s.constructInline this type value).set this fun f => { f with isHeap := false }
    else
      let callable := ⟨type, value, s.made.length⟩
      let block := s.allocated.length
      { s.set this fun f => { f with storage := .pointer block, isHeap := true } with
        heap := Function.update s.heap block (some callable)
        made := s.made ++ [callable]
        allocated := s.allocated ++ [block] }
  filled.set this fun f => { f with vtable := some type }

/-- `Destroy()` -/
def destroy (s : State V) (this : Object) : State V :=
  match (s.function this).vtable with
  | none => s
  | some vtable =>
      let destroyed := s.destroyCallable vtable (s.objPtr this)
      let freed := if (destroyed.function this).isHeap then destroyed.operatorDelete (destroyed.objPtr this) else destroyed
      freed.set this fun f => { f with vtable := none, isHeap := false }

/-- What the move constructor and the move assignment have in common. -/
def take (s : State V) (this other : Object) : State V :=
  let source := s.function other
  let tagged := s.set this fun f => { f with vtable := source.vtable, isHeap := source.isHeap }
  let moved := match source.vtable with
    | none => tagged
    | some vtable => if source.isHeap then tagged.copyPointer this other else tagged.moveCallable vtable other this
  moved.set other fun f => { f with vtable := none, isHeap := false }

/-- An object in its initial state. -/
def create (s : State V) (this : Object) : State V := s.set this fun _ => {}

def moveAssign (s : State V) (this other : Object) : State V :=
  if this = other then s else (s.destroy this).take this other

/-- `~InlineFunction()` -/
def destruct (s : State V) (this : Object) : State V :=
  (s.destroy this).set this fun f => { f with alive := false }

/-- `operator()`: the callable that is called. -/
def invoke (s : State V) (this : Object) : Option V :=
  (s.function this).vtable.bind fun vtable => (s.cast vtable (s.objPtr this)).map fun found => found.2.value

end State

inductive Operation (V : Type) where
  | create (this : Object)
  | construct (this : Object) (type : CallableType) (value : V)
  | moveConstruct (this other : Object)
  | moveAssign (this other : Object)
  | destruct (this : Object)

section
variable {V : Type}

/-- Objects are constructed where there is none, and used while they exist. -/
def Permitted (s : State V) : Operation V → Prop
  | .create this | .construct this _ _ => (s.function this).alive = false
  | .moveConstruct this other => (s.function this).alive = false ∧ (s.function other).alive = true
  | .moveAssign this other => (s.function this).alive = true ∧ (s.function other).alive = true
  | .destruct this => (s.function this).alive = true

instance (s : State V) : (op : Operation V) → Decidable (Permitted s op)
  | .create _ | .construct _ _ _ | .destruct _ => inferInstanceAs (Decidable (_ = _))
  | .moveConstruct _ _ | .moveAssign _ _ => inferInstanceAs (Decidable (_ ∧ _))

def perform (inlineSize : Nat) (s : State V) : Operation V → State V
  | .create this => s.create this
  | .construct this type value => (s.create this).construct inlineSize this type value
  | .moveConstruct this other => (s.create this).take this other
  | .moveAssign this other => s.moveAssign this other
  | .destruct this => s.destruct this

/-- The states after a sequence of operations. -/
inductive Reaches (inlineSize : Nat) : List (Operation V) → State V → Prop where
  | start : Reaches inlineSize [] {}
  | step (op : Operation V) (earlier : Reaches inlineSize ops s) (permitted : Permitted s op) :
      Reaches inlineSize (ops ++ [op]) (perform inlineSize s op)

/-! ### What a function is for -/

/-- Which callable each function has. -/
abbrev Contents (V : Type) := Object → Option V

def Contents.move (c : Contents V) (this other : Object) : Contents V :=
  Function.update (Function.update c this (c other)) other none

def Contents.after (c : Contents V) : Operation V → Contents V
  | .create this | .destruct this => Function.update c this none
  | .construct this _ value => Function.update c this (some value)
  | .moveConstruct this other => c.move this other
  | .moveAssign this other => if this = other then c else c.move this other

/-- Which callable the sequence of operations has carried into each function. -/
def carried (ops : List (Operation V)) : Contents V := ops.foldl Contents.after fun _ => none

end
end Talon.Task.Inline
