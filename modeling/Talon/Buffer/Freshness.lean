import Talon.Buffer.Resize

/-! What can be read from new storage before anything was written to it: zeros in the
object and in a vector, and in a block of the pool whatever is there. -/
namespace Talon.Buffer
open Talon.Memory Talon.Memory.BufferPool

/-- Any use of buffers and of the pool, from a memory of which nothing is known. The pool
links the blocks that nobody has, and others who get one write to it. -/
inductive History : State → Prop where
  | start (bytes : Place → Nat → UInt8) : History { bytes := bytes }
  | step (op : Operation) (env : Environment) (earlier : History s) (permitted : Permitted s op)
      (performed : perform env s op = .ok t ∨ perform env s op = .error t) : History t
  | elsewhere (earlier : History s) (spare : s.Spare slot) (content : Nat → UInt8) :
      History (s.fill (.block slot) content)

/-- Storage is obtained for a new buffer, or for one that grows. -/
inductive Growth where
  | construct (this : Object)
  | resize (this : Object)

namespace Growth

def object : Growth → Object
  | .construct this | .resize this => this

def operation (n : Nat) : Growth → Operation
  | .construct this => .construct this n
  | .resize this => .resize this n

/-- The bytes from here on are new. -/
def oldSize (s : State) : Growth → Nat
  | .construct _ => 0
  | .resize this => (s.buffer this).size

/-- The state in which `AllocateStorage` is called, as far as the pool is concerned. -/
def released (s : State) (env : Environment) : Growth → State
  | .construct _ => s
  | .resize this => s.destroyStorage env this

end Growth

/-- The block that `AllocateStorage` gets from the pool, if it asks for one. -/
def pooled (s : State) (env : Environment) (n : Nat) : Option (Slot Class) :=
  if n ≤ kKernelBufSboSize ∨ kMaxPooledSize < n then none else (s.allocate env n).1.map Grant.slot

/-- A history, and then `KernelBuf(n)` or a `Resize(n)` that grows the buffer. -/
structure Run (n : Nat) where
  before : State
  env : Environment
  growth : Growth
  after : State
  history : History before
  permitted : Permitted before (growth.operation n)
  grows : growth.oldSize before ≤ n
  performed : perform env before (growth.operation n) = .ok after

namespace Run
variable {n : Nat}

def byte (r : Run n) (i : Nat) : UInt8 := r.after.content r.growth.object i

/-- The byte has not been there before. -/
def New (r : Run n) (i : Nat) : Prop := r.growth.oldSize r.before ≤ i ∧ i < n

def Zeroed (r : Run n) : Prop := ∀ i, r.New i → r.byte i = 0

/-- A block that the pool gives out holds zeros where it will be read. -/
def Clean (r : Run n) : Prop :=
  ∀ slot, pooled (r.growth.released r.before r.env) r.env n = some slot → ∀ i, r.New i →
    r.before.bytes (.block slot) i = 0

end Run

/-- Nothing can be learned of either history: the new bytes are the same, and zero. -/
def Oblivious {n : Nat} (r r' : Run n) : Prop :=
  (∀ i, r.New i → r'.New i → r.byte i = r'.byte i) ∧ r.Zeroed ∧ r'.Zeroed

variable {s t : State} {env : Environment} {this : Object} {n : Nat}

theorem Reaches.history (run : Reaches s) : History s := by
  induction run with
  | start => exact .start fun _ _ => 0
  | step op env earlier permitted performed ih => exact .step op env ih permitted (Or.inl performed)

theorem destroyVector_tag :
    ((s.destroyVector env this).buffer this).storageTag = (s.buffer this).storageTag := by
  unfold State.destroyVector
  simp only
  split
  · split <;> simp
  · rfl

/-- A vector's elements are zero. -/
theorem allocateHeap_content (made : s.allocateHeap env this n = .ok t) (i : Nat) : t.content this i = 0 := by
  unfold State.allocateHeap State.constructVector at made
  simp only at made
  split at made
  · contradiction
  · rw [← Except.ok.inj made]
    have tag : (((s.set this fun buf => { buf with storageTag := .kHeap }).destroyVector env this).buffer
        this).storageTag = .kHeap := by rw [destroyVector_tag, set_buffer_self]
    simp [State.content, State.data, tag, State.fill]

/-- Only a block of the pool is not written to. -/
theorem allocateStorage_content (made : s.allocateStorage env this n = .ok t) (i : Nat) :
    t.content this i = match pooled s env n with
      | some slot => s.bytes (.block slot) i
      | none => 0 := by
  have vector : ∀ u : State, (u.allocateHeap env this n).map (·.setSize this n) = .ok t → t.content this i = 0 := by
    intro u made
    cases allocated : u.allocateHeap env this n with
    | error thrown => rw [allocated] at made; contradiction
    | ok v =>
      rw [allocated] at made
      rw [← Except.ok.inj made, setSize_content]
      exact allocateHeap_content allocated i
  unfold State.allocateStorage at made
  split at made
  · next small =>
    rw [pooled, if_pos (Or.inl small), ← Except.ok.inj made, setSize_content]
    simp [State.content, State.data, State.fill]
  · next large =>
    split at made
    · next within =>
      rw [pooled, if_neg (not_or.mpr ⟨large, Nat.not_lt.mpr within⟩)]
      split at made
      · next grant u answered =>
        have fst : (s.allocate env n).1 = some grant := congrArg Prod.fst answered
        obtain ⟨-, -, -, -, snd⟩ := allocate_some fst
        rw [answered] at snd
        rw [fst, ← Except.ok.inj made, setSize_content]
        simp only at snd
        simp [State.content, State.data, snd]
      · next u answered =>
        rw [congrArg Prod.fst answered]
        exact vector u made
    · next beyond =>
      rw [pooled, if_pos (Or.inr (Nat.lt_of_not_le beyond))]
      exact vector s made

theorem construct_content (made : s.construct env this n = .ok t) (i : Nat) :
    t.content this i = match pooled s env n with
      | some slot => s.bytes (.block slot) i
      | none => 0 := by
  have allocated : (s.create this { size := n }).allocateStorage env this n = .ok t := by
    unfold State.construct at made
    cases outcome : (s.create this { size := n }).allocateStorage env this n with
    | error u => rw [outcome] at made; contradiction
    | ok u => rw [outcome] at made; exact made
  have same : pooled (s.create this { size := n }) env n = pooled s env n := by
    rw [pooled, pooled, create_allocate]
  rw [allocateStorage_content allocated, same]
  rfl

theorem destroyVector_block (slot : Slot Class) :
    (s.destroyVector env this).bytes (.block slot) = s.bytes (.block slot) := by
  unfold State.destroyVector
  simp only
  split
  · split
    · rfl
    · next region _ =>
      have different : Place.block slot ≠ .array region := nofun
      exact Function.update_of_ne different env.junk s.bytes
  · rfl

theorem destroyStorage_block (slot : Slot Class) :
    (s.destroyStorage env this).bytes (.block slot) = s.bytes (.block slot) := by
  unfold State.destroyStorage
  simp only [set_bytes]
  split
  · rfl
  · split <;> rfl
  · exact destroyVector_block slot
  · rfl

theorem memcpy_beyond {source : Option Place} {count i : Nat} (beyond : count ≤ i) :
    (s.memcpy (s.data this) source count).content this i = s.content this i := by
  rw [State.content, memcpy_data, State.content]
  cases here : s.data this with
  | none => rfl
  | some place =>
    cases source with
    | none => rfl
    | some other => simp [State.memcpy, State.fill, Nat.not_lt.mpr beyond]

/-- What `Resize` copies does not go beyond the old size. -/
theorem resize_content (grows : (s.buffer this).size < n) (resized : s.resize env this n = .ok t) {i : Nat}
    (new : (s.buffer this).size ≤ i) :
    t.content this i = match pooled (s.destroyStorage env this) env n with
      | some slot => s.bytes (.block slot) i
      | none => 0 := by
  have changes : ¬ (n = (s.buffer this).size ∧ (s.buffer this).storageTag ≠ .kNone) :=
    fun same => Nat.ne_of_gt grows same.1
  simp only [State.resize, changes, if_false] at resized
  cases outcome : (s.destroyStorage env this).allocateStorage env this n with
  | error u => rw [outcome] at resized; contradiction
  | ok u =>
    rw [outcome] at resized
    have content : t.content this i = u.content this i := by
      rw [← Except.ok.inj resized, setSize_content]
      split
      · exact memcpy_beyond (Nat.le_trans (Nat.min_le_right _ _) new)
      · rfl
    rw [content, allocateStorage_content outcome]
    split
    · rw [destroyStorage_block]
    · rfl

/-- The new bytes are those of the block, or zero. -/
theorem Run.byte_eq (r : Run n) {i : Nat} (new : r.New i) :
    r.byte i = match pooled (r.growth.released r.before r.env) r.env n with
      | some slot => r.before.bytes (.block slot) i
      | none => 0 := by
  obtain ⟨before, env, growth, after, history, permitted, grows, performed⟩ := r
  cases growth with
  | construct this => exact construct_content performed i
  | resize this => exact resize_content (Nat.lt_of_le_of_lt new.1 new.2) performed new.1

theorem Run.zeroed_iff (r : Run n) : r.Zeroed ↔ r.Clean := by
  constructor
  · intro zeroed slot answered i new
    have byte := r.byte_eq new
    rw [answered, zeroed i new] at byte
    exact byte.symm
  · intro clean i new
    rw [r.byte_eq new]
    split
    · next slot answered => exact clean slot answered i new
    · rfl

/-- Two runs give away nothing exactly if neither gets a block with something in it. -/
theorem oblivious_iff (r r' : Run n) : Oblivious r r' ↔ r.Clean ∧ r'.Clean := by
  rw [← r.zeroed_iff, ← r'.zeroed_iff]
  constructor
  · exact fun oblivious => oblivious.2
  · intro zeroed
    refine ⟨fun i new new' => ?_, zeroed⟩
    rw [zeroed.1 i new, zeroed.2 i new']

/-- A block as a new slab leaves it: the link to the next one, which lies 576 bytes on, and zeros. -/
def linkBytes (i : Nat) : UInt8 := UInt8.ofNat ((mediumBlock.address + allocSize mediumBlock.pool) / 256 ^ i)

def carved : State := ({} : State).fill (.block mediumBlock) linkBytes

theorem carved_history : History carved := .elsewhere Reaches.start.history (by decide) linkBytes

/-- The first buffer of a process. -/
def firstRun : Run 300 where
  before := carved
  env := { block := some mediumBlock }
  growth := .construct 1
  after := _
  history := carved_history
  permitted := rfl
  grows := Nat.zero_le _
  performed := rfl

/-- A later buffer reads what was written to the first one, behind the link. -/
theorem destroyed_bytes_read : ¬ ∀ (n : Nat) (r r' : Run n), Oblivious r r' := by
  intro claimed
  have made : History _ := .step (.construct 1 300) { block := some mediumBlock } carved_history rfl (Or.inl rfl)
  have written : History _ := .step (.write 1 8 7) {} made (by decide) (Or.inl rfl)
  have destroyed : History _ := .step (.destruct 1) {} written rfl (Or.inl rfl)
  let second : Run 300 :=
    { before := _, env := { block := some mediumBlock }, growth := .construct 2, after := _, history := destroyed
      permitted := rfl, grows := Nat.zero_le _, performed := rfl }
  have same := (claimed 300 firstRun second).1 8 ⟨Nat.zero_le _, by decide⟩ ⟨Nat.zero_le _, by decide⟩
  have zero : firstRun.byte 8 = 0 := by decide
  have seven : second.byte 8 = 7 := rfl
  rw [zero, seven] at same
  contradiction

end Talon.Buffer
