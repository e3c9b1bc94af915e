import Talon.Buffer.Resize

/-! `KernelBuf` objects as values. Whatever their storage is, in the object, a block that
the pool has lent before or a vector, each object is a value of its own: an operation
changes the objects it names and no other, and a move carries the value over. -/
namespace Talon.Buffer
open Interleaving Talon.Memory Talon.Memory.BufferPool

/-- What a client can read from an object. Beyond the size there is nothing. -/
@[ext] structure Value where
  size : Nat
  offset : Int := 0
  ioRet : IORet := {}
  byte : Nat → UInt8

/-- A move leaves the size and the offset at zero, and the result as it was. -/
def Value.movedFrom (v : Value) : Value := ⟨0, 0, v.ioRet, fun _ => 0⟩

abbrev Values := Object → Option Value

/-- What an operation does to the values. Which bytes a new or resized object has is left
open, unless the size stays. -/
def Effect (values : Values) : Operation → Values → Prop
  | .construct this n, after => ∃ byte, after = Function.update values this (some { size := n, byte := byte })
  | .moveConstruct this other, after => ∃ v, values other = some v ∧
      after = Function.update (Function.update values this (some v)) other (some v.movedFrom)
  | .moveAssign this other, after => if this = other then after = values else ∃ v, values other = some v ∧
      after = Function.update (Function.update values this (some v)) other (some v.movedFrom)
  | .resize this n, after => ∃ v byte, values this = some v ∧ (n = v.size → byte = v.byte) ∧
      after = Function.update values this (some { v with size := n, byte := byte })
  | .destruct this, after => after = Function.update values this none
  | .write this index byte, after => ∃ v, values this = some v ∧
      after = Function.update values this (some { v with byte := Function.update v.byte index byte })

/-- The objects that an operation names. -/
def Operation.objects : Operation → List Object
  | .construct this _ | .resize this _ | .destruct this | .write this _ _ => [this]
  | .moveConstruct this other | .moveAssign this other => [this, other]

def State.value (s : State) : Values := fun b =>
  if (s.buffer b).alive then
    some {
      size := (s.buffer b).size
      offset := (s.buffer b).offset
      ioRet := (s.buffer b).ioRet
      byte := fun i => if i < (s.buffer b).size then s.content b i else 0 }
  else none

/-- A run of permitted operations that do not throw, from any memory. Between them the
blocks that nobody has may be written to. -/
inductive Steps : State → List Operation → State → Prop where
  | refl : Steps s [] s
  | next (op : Operation) (env : Environment) (permitted : Permitted s op) (performed : perform env s op = .ok t)
      (later : Steps t ops u) : Steps s (op :: ops) u
  | elsewhere (spare : s.Spare slot) (content : Nat → UInt8) (later : Steps (s.fill (.block slot) content) ops u) :
      Steps s ops u

/-- The same on values. -/
inductive Follows : Values → List Operation → Values → Prop where
  | refl : Follows values [] values
  | next (effect : Effect values op middle) (later : Follows middle ops after) : Follows values (op :: ops) after

variable {s t u : State} {env : Environment} {this other b : Object} {n i : Nat} {values after : Values}
  {ops : List Operation} {place : Place}

/-- Only the named objects change. -/
theorem Effect.frame {op : Operation} (effect : Effect values op after) (apart : b ∉ op.objects) :
    after b = values b := by
  cases op with
  | construct this n =>
    obtain ⟨byte, rfl⟩ := effect
    exact Function.update_of_ne (List.ne_of_not_mem_cons apart) _ _
  | moveConstruct this other =>
    obtain ⟨v, -, rfl⟩ := effect
    obtain ⟨first, second⟩ := List.ne_and_not_mem_of_not_mem_cons apart
    rw [Function.update_of_ne (List.ne_of_not_mem_cons second), Function.update_of_ne first]
  | moveAssign this other =>
    simp only [Effect] at effect
    split at effect
    · rw [effect]
    · obtain ⟨v, -, rfl⟩ := effect
      obtain ⟨first, second⟩ := List.ne_and_not_mem_of_not_mem_cons apart
      rw [Function.update_of_ne (List.ne_of_not_mem_cons second), Function.update_of_ne first]
  | resize this n =>
    obtain ⟨v, byte, -, -, rfl⟩ := effect
    exact Function.update_of_ne (List.ne_of_not_mem_cons apart) _ _
  | destruct this =>
    obtain rfl := effect
    exact Function.update_of_ne (List.ne_of_not_mem_cons apart) _ _
  | write this index byte =>
    obtain ⟨v, -, rfl⟩ := effect
    exact Function.update_of_ne (List.ne_of_not_mem_cons apart) _ _

theorem Follows.frame (follows : Follows values ops after) (apart : ∀ op ∈ ops, b ∉ op.objects) :
    after b = values b := by
  induction follows with
  | refl => rfl
  | next effect later ih =>
    obtain ⟨first, rest⟩ := List.forall_mem_cons.mp apart
    rw [ih rest, effect.frame first]

/-! ### Storage of different objects -/

/-- What an object's `Data()` points to when it is not in the object. -/
theorem data_cases (valid : Valid s) (alive : (s.buffer b).alive = true) (here : s.data b = some place) :
    place = .sbo b ∨ (∃ grant, place = .block grant.slot ∧ .block grant ∈ (s.buffer b).pieces) ∨
      ∃ region, place = .array region ∧ .array region ∈ (s.buffer b).pieces := by
  have stored := (valid.placed b).stored alive
  unfold Stored at stored
  unfold State.data at here
  split at stored
  case h_1 tag => simp [tag] at here
  case h_2 tag =>
    rw [tag] at here
    exact Or.inl (Option.some.inj here).symm
  case h_3 tag =>
    obtain ⟨⟨grant, pool⟩, -⟩ := stored
    rw [tag, pool] at here
    exact Or.inr (Or.inl ⟨grant, (Option.some.inj here).symm, mem_pieces_block.mpr (by rw [pool])⟩)
  case h_4 tag =>
    obtain ⟨-, region, vec⟩ := stored
    rw [tag, vec] at here
    exact Or.inr (Or.inr ⟨region, (Option.some.inj here).symm, mem_pieces_array.mpr (by rw [vec])⟩)

/-- Two objects never have their bytes in one place. -/
theorem Valid.places_apart {b' : Object} {place' : Place} (valid : Valid s) (alive : (s.buffer b).alive = true)
    (alive' : (s.buffer b').alive = true) (different : b ≠ b') (here : s.data b = some place)
    (there : s.data b' = some place') : place ≠ place' := by
  have apart := valid.ledger.custody.apart (.buffer b) (.buffer b')
  rintro rfl
  obtain rfl | ⟨grant, rfl, mine⟩ | ⟨region, rfl, mine⟩ := data_cases valid alive here
  · obtain same | ⟨grant, same, -⟩ | ⟨region, same, -⟩ := data_cases valid alive' there
    · exact different (Place.sbo.inj same)
    · contradiction
    · contradiction
  · obtain same | ⟨grant', same, yours⟩ | ⟨region, same, -⟩ := data_cases valid alive' there
    · contradiction
    · have first := valid.ledger.out mine
      have second := valid.ledger.out yours
      have one := valid.ledger.single grant grant' first.1 second.1 first.2 second.2 (Place.block.inj same)
      exact different (Keeper.buffer.inj (apart _ mine (one ▸ yours)))
    · contradiction
  · obtain same | ⟨grant', same, -⟩ | ⟨region', same, yours⟩ := data_cases valid alive' there
    · contradiction
    · contradiction
    · exact different (Keeper.buffer.inj (apart _ mine (Place.array.inj same ▸ yours)))

/-- Where another object has its bytes is neither in `this`, nor in its vector, nor new. -/
theorem Valid.elsewhere (valid : Valid s) (alive : (s.buffer b).alive = true) (different : b ≠ this)
    (here : s.data b = some place) :
    place ≠ .sbo this ∧ (∀ region, place = .array region → region.number < s.obtained.length) ∧
      ∀ region, (s.buffer this).heapVec.elements = some region → place ≠ .array region := by
  obtain rfl | ⟨grant, rfl, mine⟩ | ⟨region, rfl, mine⟩ := data_cases valid alive here
  · exact ⟨fun same => different (Place.sbo.inj same), nofun, fun _ _ => nofun⟩
  · exact ⟨nofun, nofun, fun _ _ => nofun⟩
  · refine ⟨nofun, ?_, ?_⟩
    · rintro _ ⟨⟩
      exact valid.ledger.numbered _ (valid.ledger.out mine).1
    · rintro _ yours ⟨⟩
      exact different (Keeper.buffer.inj (valid.ledger.custody.apart _ _ _ mine (mem_pieces_array.mpr yours)))

theorem data_congr (buffer : t.buffer b = s.buffer b) : t.data b = s.data b := by
  unfold State.data
  rw [buffer]

theorem content_of_data (here : s.data b = some place) : s.content b i = s.bytes place i := by
  rw [State.content, here]

/-- An object with the same members and the same bytes has the same value. -/
theorem value_congr (buffer : t.buffer b = s.buffer b)
    (bytes : (s.buffer b).alive = true → ∀ place, s.data b = some place → t.bytes place = s.bytes place) :
    t.value b = s.value b := by
  unfold State.value
  rw [buffer]
  split
  · next alive =>
    have same : t.content b = s.content b := by
      funext i
      unfold State.content
      rw [data_congr buffer]
      cases here : s.data b with
      | none => rfl
      | some place => simp only [bytes alive place here]
    rw [same]
  · rfl

theorem value_some (alive : (t.buffer b).alive = true) : ∃ v, t.value b = some v ∧ v.size = (t.buffer b).size ∧
    v.offset = (t.buffer b).offset ∧ v.ioRet = (t.buffer b).ioRet ∧
    v.byte = fun i => if i < (t.buffer b).size then t.content b i else 0 :=
  ⟨_, if_pos alive, rfl, rfl, rfl, rfl⟩

theorem allocateHeap_members (made : s.allocateHeap env this n = .ok t) :
    (t.buffer this).offset = (s.buffer this).offset ∧ (t.buffer this).ioRet = (s.buffer this).ioRet := by
  unfold State.allocateHeap State.constructVector at made
  split at made
  · contradiction
  · obtain rfl := Except.ok.inj made
    unfold State.destroyVector
    split
    · split <;> simp
    · simp

/-- `AllocateStorage` leaves the offset and the result alone. -/
theorem allocateStorage_members (made : s.allocateStorage env this n = .ok t) :
    (t.buffer this).offset = (s.buffer this).offset ∧ (t.buffer this).ioRet = (s.buffer this).ioRet := by
  have heap : ∀ s : State, (s.allocateHeap env this n).map (·.setSize this n) = .ok t →
      (t.buffer this).offset = (s.buffer this).offset ∧ (t.buffer this).ioRet = (s.buffer this).ioRet := by
    intro s made
    cases outcome : s.allocateHeap env this n with
    | error u =>
      rw [outcome] at made
      contradiction
    | ok u =>
      rw [outcome] at made
      obtain rfl := Except.ok.inj made
      simpa [State.setSize] using allocateHeap_members outcome
  unfold State.allocateStorage at made
  split at made
  · obtain rfl := Except.ok.inj made
    simp [State.setSize]
  · split at made
    · split at made
      · next grant u answered =>
        obtain ⟨-, -, -, -, same⟩ := allocate_some (congrArg Prod.fst answered)
        rw [answered] at same
        obtain rfl := same
        obtain rfl := Except.ok.inj made
        simp [State.setSize]
      · next u answered =>
        have same := allocate_none (congrArg Prod.fst answered)
        rw [answered] at same
        obtain rfl := same
        exact heap _ made
    · exact heap s made

/-! ### The operations -/

theorem construct_ok (made : s.construct env this n = .ok t) :
    (s.create this { size := n }).allocateStorage env this n = .ok t := by
  unfold State.construct at made
  cases outcome : (s.create this { size := n }).allocateStorage env this n with
  | error u =>
    rw [outcome] at made
    contradiction
  | ok u =>
    rw [outcome] at made
    exact made

theorem construct_effect (valid : Valid s) (dead : (s.buffer this).alive = false)
    (made : s.construct env this n = .ok t) : Effect s.value (.construct this n) t.value := by
  have allocated := construct_ok made
  have ledger : Ledger (s.create this { size := n }) := valid.ledger.create ((valid.placed this).bare dead) rfl
  have supplied := allocateStorage_supplied ledger (by rw [create_buffer_self]; exact ⟨rfl, rfl⟩) allocated
  have members := allocateStorage_members allocated
  rw [create_buffer_self] at members
  refine ⟨fun i => if i < n then t.content this i else 0, funext fun b => ?_⟩
  by_cases here : b = this
  · subst here
    have alive : (t.buffer b).alive = true := by rw [supplied.alive, create_buffer_self]
    rw [Function.update_self, State.value, if_pos alive, supplied.size, members.1, members.2]
  · rw [Function.update_of_ne here]
    apply value_congr (by rw [supplied.others b here, create_buffer_of_ne here])
    intro alive place data
    obtain ⟨outside, old, -⟩ := valid.elsewhere alive here data
    rw [supplied.bytes place (fun same => absurd same outside) old]
    exact Function.update_of_ne outside _ _

theorem moveStorageFrom_bytes (s : State) (outside : place ≠ .sbo this) :
    (s.moveStorageFrom this other).bytes place = s.bytes place := by
  cases tag : (s.buffer other).storageTag with
  | kSbo => simp [State.moveStorageFrom, tag, State.memcpy, State.fill, outside]
  | kNone => simp [State.moveStorageFrom, tag]
  | kPool => simp [State.moveStorageFrom, tag]
  | kHeap => simp [State.moveStorageFrom, tag]

theorem moveStorageFrom_sbo (tag : (s.buffer other).storageTag = .kSbo) (small : i < kKernelBufSboSize) :
    (s.moveStorageFrom this other).bytes (.sbo this) i = s.bytes (.sbo other) i := by
  simp [State.moveStorageFrom, tag, State.memcpy, State.fill, small]

/-- The bytes of the object that was moved from are those of the new one. -/
theorem take_content {middle : State} (valid : Valid s) (alive : (s.buffer other).alive = true)
    (different : this ≠ other) (same : middle.buffer other = s.buffer other)
    (kept : ∀ place, s.data other = some place → middle.bytes place = s.bytes place)
    (buffer : ((middle.moveStorageFrom this other).clear other).buffer this = s.buffer other)
    (inside : i < (s.buffer other).size) :
    ((middle.moveStorageFrom this other).clear other).content this i = s.content other i := by
  obtain ⟨place, here⟩ := data_some ((valid.placed other).stored alive) (valid.tagged alive (by omega))
  by_cases tag : (s.buffer other).storageTag = .kSbo
  · have sized := (valid.placed other).sized alive
    rw [Sized, tag] at sized
    have there : s.data other = some (.sbo other) := by rw [State.data, tag]
    have mine : ((middle.moveStorageFrom this other).clear other).data this = some (.sbo this) := by
      rw [State.data, buffer, tag]
    rw [content_of_data mine, content_of_data there, ← kept _ there]
    exact moveStorageFrom_sbo (by rw [same]; exact tag) (Nat.lt_of_lt_of_le inside sized)
  · have there : ((middle.moveStorageFrom this other).clear other).data this = s.data other := by
      unfold State.data
      rw [buffer]
      split <;> first | rfl | contradiction
    obtain ⟨outside, -⟩ := valid.elsewhere alive different.symm here
    rw [content_of_data (there.trans here), content_of_data here, ← kept place here]
    exact congrFun (moveStorageFrom_bytes middle outside) i

/-- The last lines of both moves, from an object that has nothing. -/
theorem take_effect {middle : State} (valid : Valid s) (different : this ≠ other)
    (alive : (s.buffer other).alive = true) (ledger : Ledger middle)
    (others : ∀ b, b ≠ this → middle.buffer b = s.buffer b)
    (kept : ∀ b, b ≠ this → (s.buffer b).alive = true → ∀ place, s.data b = some place →
      middle.bytes place = s.bytes place)
    (mine : middle.buffer this = { s.buffer other with storageTag := .kNone, pool := {}, heapVec := {} }) :
    ∃ v, s.value other = some v ∧ ((middle.moveStorageFrom this other).clear other).value =
      Function.update (Function.update s.value this (some v)) other (some v.movedFrom) := by
  have same := others other different.symm
  have stored := (valid.placed other).stored alive
  have sized := (valid.placed other).sized alive
  have moved := moveStorageFrom_moved ledger different (by rw [mine]; exact ⟨rfl, rfl⟩) (same ▸ stored)
  obtain ⟨v, value, size, offset, ioRet, byte⟩ := value_some alive
  refine ⟨v, value, funext fun b => ?_⟩
  by_cases source : b = other
  · subst source
    rw [Function.update_self]
    have gone : ((middle.moveStorageFrom this b).clear b).buffer b =
        { s.buffer b with storageTag := .kNone, pool := {}, heapVec := {}, size := 0, offset := 0 } := by
      rw [State.clear, set_buffer_self, moved.source, same]
    rw [State.value, gone, if_pos alive]
    simp only [Value.movedFrom, ioRet, Nat.not_lt_zero, if_false]
  rw [Function.update_of_ne source]
  by_cases target : b = this
  · subst target
    rw [Function.update_self, ← value]
    have buffer : ((middle.moveStorageFrom b other).clear other).buffer b = s.buffer other := by
      rw [State.clear, set_buffer_of_ne source, moved.target, mine, same]
    rw [State.value, State.value, buffer, if_pos alive, if_pos alive]
    refine congrArg some (Value.ext rfl rfl rfl (funext fun i => ?_))
    simp only
    split
    · next inside => exact take_content valid alive different same (kept other different.symm alive) buffer inside
    · rfl
  · rw [Function.update_of_ne target]
    have buffer : ((middle.moveStorageFrom this other).clear other).buffer b = s.buffer b := by
      rw [State.clear, set_buffer_of_ne source, moved.others b target source, others b target]
    apply value_congr buffer
    intro alive place data
    obtain ⟨outside, -⟩ := valid.elsewhere alive target data
    exact (moveStorageFrom_bytes middle outside).trans (kept b target alive place data)

theorem moveConstruct_effect (valid : Valid s) (dead : (s.buffer this).alive = false)
    (alive : (s.buffer other).alive = true) :
    Effect s.value (.moveConstruct this other) (s.moveConstruct this other).value := by
  have different : this ≠ other := by
    rintro rfl
    exact absurd (dead.symm.trans alive) nofun
  refine take_effect valid different alive (valid.ledger.create ((valid.placed this).bare dead) rfl)
    (fun b => create_buffer_of_ne) (fun b here alive place data => ?_) ?_
  · exact Function.update_of_ne (valid.elsewhere alive here data).1 _ _
  · rw [create_buffer_self, ← alive]

theorem moveAssign_effect (valid : Valid s) (existing : (s.buffer this).alive = true)
    (alive : (s.buffer other).alive = true) :
    Effect s.value (.moveAssign this other) (s.moveAssign env this other).value := by
  by_cases same : this = other
  · simp only [Effect, if_pos same, State.moveAssign]
  · simp only [Effect, if_neg same, State.moveAssign]
    have emptied := destroyStorage_emptied env valid.ledger ((valid.placed this).stored existing)
    refine take_effect valid same alive (emptied.ledger.set rfl) (fun b here => ?_)
      (fun b here alive place data => ?_) ?_
    · rw [set_buffer_of_ne here]
      exact emptied.others here
    · exact emptied.bytes place (valid.elsewhere alive here data).2.2
    · rw [set_buffer_self, emptied.buffer, Function.update_self]
      simp only [existing, alive]

theorem destruct_effect (valid : Valid s) (existing : (s.buffer this).alive = true) :
    Effect s.value (.destruct this) (s.destruct env this).value := by
  have emptied := destroyStorage_emptied env valid.ledger ((valid.placed this).stored existing)
  have destroyed : (s.destroyStorage env this).destroyVector env this =
      (s.destroyStorage env this).set this fun buf => { buf with heapVec := { alive := false } } := by
    simp only [State.destroyVector, emptied.bare.2, if_true]
  funext b
  rw [State.destruct, State.discard, destroyed]
  by_cases here : b = this
  · subst here
    simp [State.value]
  · rw [Function.update_of_ne here]
    refine value_congr ?_ fun alive place data => ?_
    · rw [set_buffer_of_ne here, set_buffer_of_ne here, emptied.others here]
    · exact emptied.bytes place (valid.elsewhere alive here data).2.2

theorem write_effect {index : Nat} {byte : UInt8} (valid : Valid s) (existing : (s.buffer this).alive = true)
    (inside : index < (s.buffer this).size) (written : perform env s (.write this index byte) = .ok t) :
    Effect s.value (.write this index byte) t.value := by
  obtain ⟨place, here⟩ := data_some ((valid.placed this).stored existing) (valid.tagged existing (by omega))
  simp only [perform, here, Except.ok.injEq] at written
  subst written
  obtain ⟨v, value, size, offset, ioRet, bytes⟩ := value_some existing
  refine ⟨v, value, funext fun b => ?_⟩
  by_cases same : b = this
  · subst same
    rw [Function.update_self, State.value, fill_buffer, if_pos existing]
    refine congrArg some (Value.ext size.symm offset.symm ioRet.symm (funext fun i => ?_))
    have data : (s.fill place (Function.update (s.bytes place) index byte)).data b = some place := here
    have content : (s.fill place (Function.update (s.bytes place) index byte)).content b i =
        Function.update (s.bytes place) index byte i := by
      rw [content_of_data data]
      simp only [State.fill, Function.update_self]
    simp only [content, bytes, content_of_data here]
    by_cases at_ : i = index
    · subst at_
      simp [inside]
    · simp [at_]
  · rw [Function.update_of_ne same]
    refine value_congr rfl fun alive place' data => ?_
    exact Function.update_of_ne (valid.places_apart alive existing same data here) _ _

theorem resize_members (valid : Valid s) (existing : (s.buffer this).alive = true)
    (resized : s.resize env this n = .ok t) : (t.buffer this).alive = true ∧
      (t.buffer this).offset = (s.buffer this).offset ∧ (t.buffer this).ioRet = (s.buffer this).ioRet := by
  by_cases same : n = (s.buffer this).size ∧ (s.buffer this).storageTag ≠ .kNone
  · rw [resize_same same.1 same.2] at resized
    obtain rfl := Except.ok.inj resized
    exact ⟨existing, rfl, rfl⟩
  · simp only [State.resize, same, if_false] at resized
    have emptied := destroyStorage_emptied env valid.ledger ((valid.placed this).stored existing)
    cases outcome : (s.destroyStorage env this).allocateStorage env this n with
    | error u =>
      rw [outcome] at resized
      contradiction
    | ok u =>
      rw [outcome] at resized
      obtain rfl := Except.ok.inj resized
      have supplied := allocateStorage_supplied emptied.ledger emptied.bare outcome
      have members := allocateStorage_members outcome
      have alive := supplied.alive
      rw [emptied.buffer, Function.update_self] at members alive
      have copied : ∀ target source count, (u.memcpy target source count).buffer = u.buffer := by
        intro target source count
        unfold State.memcpy
        split <;> rfl
      simp only [State.setSize, set_buffer_self]
      split
      · simp only [copied]
        exact ⟨alive.trans existing, members⟩
      · exact ⟨alive.trans existing, members⟩

/-- `Resize` leaves the other objects alone. -/
theorem resize_frame (valid : Valid s) (existing : (s.buffer this).alive = true)
    (resized : s.resize env this n = .ok t) (different : b ≠ this) : t.value b = s.value b := by
  by_cases same : n = (s.buffer this).size ∧ (s.buffer this).storageTag ≠ .kNone
  · rw [resize_same same.1 same.2] at resized
    rw [← Except.ok.inj resized]
  have stored := (valid.placed this).stored existing
  have emptied := destroyStorage_emptied env valid.ledger stored
  have later := valid.resize existing resized
  have alive' := (resize_members valid existing resized).1
  obtain ⟨u, place, supplied, here, rfl⟩ := resize_ok valid.ledger stored same resized
  have buffer : u.buffer b = s.buffer b := by rw [supplied.others b different, emptied.others different]
  have kept : (s.buffer b).alive = true → ∀ source, s.data b = some source → u.bytes source = s.bytes source := by
    intro alive source data
    obtain ⟨outside, old, apart⟩ := valid.elsewhere alive different data
    rw [supplied.bytes source (fun same => absurd same outside) (emptied.obtained ▸ old)]
    exact emptied.bytes source apart
  by_cases old : s.data this ≠ none ∧ 0 < min n (s.buffer this).size
  · obtain ⟨source, there⟩ := Option.ne_none_iff_exists'.mp old.1
    rw [if_pos old, there] at later alive' ⊢
    have members : ((u.memcpy (some place) (some source) (min n (s.buffer this).size)).setSize this n).buffer b =
        s.buffer b := by
      rw [State.setSize, set_buffer_of_ne different]
      exact buffer
    apply value_congr members
    intro alive spot data
    have apart : spot ≠ place :=
      later.places_apart (members ▸ alive) alive' different ((data_congr members).trans data)
        (setSize_data.trans ((memcpy_data _ _ _).trans here))
    exact (Function.update_of_ne apart _ _).trans (kept alive spot data)
  · rw [if_neg old]
    have members : (u.setSize this n).buffer b = s.buffer b := by
      rw [State.setSize, set_buffer_of_ne different]
      exact buffer
    exact value_congr members kept

theorem resize_effect (valid : Valid s) (existing : (s.buffer this).alive = true)
    (resized : s.resize env this n = .ok t) : Effect s.value (.resize this n) t.value := by
  obtain ⟨alive, sameOffset, sameRet⟩ := resize_members valid existing resized
  have newSize := resize_size valid existing resized
  obtain ⟨v, value, size, offset, ioRet, bytes⟩ := value_some existing
  refine ⟨v, fun i => if i < n then t.content this i else 0, value, fun same => ?_, funext fun b => ?_⟩
  · rw [size] at same
    by_cases tagged : (s.buffer this).storageTag = .kNone
    · have sized := (valid.placed this).sized existing
      rw [Sized, tagged] at sized
      simp [bytes, same, sized]
    · rw [resize_same same tagged] at resized
      rw [← Except.ok.inj resized, bytes, same]
  · by_cases here : b = this
    · subst here
      rw [Function.update_self, State.value, if_pos alive]
      refine congrArg some (Value.ext newSize (sameOffset.trans offset.symm) (sameRet.trans ioRet.symm) ?_)
      simp only [newSize]
    · rw [Function.update_of_ne here]
      exact resize_frame valid existing resized here

/-! ### Whole runs -/

/-- A block with an object is not spare. -/
theorem elsewhere_value {slot : Slot Class} (valid : Valid s) (spare : s.Spare slot) (content : Nat → UInt8) :
    (s.fill (.block slot) content).value = s.value := by
  funext b
  refine value_congr rfl fun alive place data => Function.update_of_ne ?_ _ _
  obtain rfl | ⟨grant, rfl, mine⟩ | ⟨region, rfl, -⟩ := data_cases valid alive data
  · nofun
  · intro same
    have out := valid.ledger.out mine
    exact out.2 (spare _ out.1 (congrArg some (Place.block.inj same)))
  · nofun

theorem Valid.perform {op : Operation} (valid : Valid s) (permitted : Permitted s op)
    (performed : perform env s op = .ok t) : Valid t := by
  cases op with
  | construct this sz => exact valid.construct permitted performed
  | moveConstruct this other =>
    rw [← Except.ok.inj performed]
    exact valid.moveConstruct permitted.1 permitted.2
  | moveAssign this other =>
    rw [← Except.ok.inj performed]
    exact valid.moveAssign permitted.1 permitted.2
  | resize this newSize => exact valid.resize permitted performed
  | destruct this =>
    rw [← Except.ok.inj performed]
    exact valid.destruct permitted
  | write this index byte => exact valid.write permitted.1 permitted.2 performed

theorem perform_effect {op : Operation} (valid : Valid s) (permitted : Permitted s op)
    (performed : perform env s op = .ok t) : Effect s.value op t.value := by
  cases op with
  | construct this sz => exact construct_effect valid permitted performed
  | moveConstruct this other =>
    rw [← Except.ok.inj performed]
    exact moveConstruct_effect valid permitted.1 permitted.2
  | moveAssign this other =>
    rw [← Except.ok.inj performed]
    exact moveAssign_effect valid permitted.1 permitted.2
  | resize this newSize => exact resize_effect valid permitted performed
  | destruct this =>
    rw [← Except.ok.inj performed]
    exact destruct_effect valid permitted
  | write this index byte => exact write_effect valid permitted.1 permitted.2 performed

theorem Valid.elsewhere_fill {slot : Slot Class} (valid : Valid s) (content : Nat → UInt8) :
    Valid (s.fill (.block slot) content) :=
  ⟨valid.ledger.fill _ _, valid.placed⟩

theorem Steps.valid (steps : Steps s ops t) (valid : Valid s) : Valid t := by
  induction steps with
  | refl => exact valid
  | next op env permitted performed later ih => exact ih (valid.perform permitted performed)
  | elsewhere spare content later ih => exact ih (valid.elsewhere_fill content)

theorem Steps.follows (steps : Steps s ops t) (valid : Valid s) : Follows s.value ops t.value := by
  induction steps with
  | refl => exact .refl
  | next op env permitted performed later ih =>
    exact .next (perform_effect valid permitted performed) (ih (valid.perform permitted performed))
  | elsewhere spare content later ih =>
    rw [← elsewhere_value valid spare content]
    exact ih (valid.elsewhere_fill content)

theorem valid_initially (bytes : Place → Nat → UInt8) : Valid { bytes := bytes } :=
  have ledger := valid_start.ledger
  ⟨⟨ledger.custody, ledger.fits, ledger.single, ledger.numbered, ledger.classed, ledger.sound⟩, valid_start.placed⟩

/-- From any state that a run has reached, what happens to the objects is what happens to
the values, and an object that no operation names keeps its value. -/
theorem values_refine {bytes : Place → Nat → UInt8} {before : List Operation}
    (first : Steps { bytes := bytes } before s) (later : Steps s ops t) :
    Follows s.value ops t.value ∧ ∀ b, (∀ op ∈ ops, b ∉ op.objects) → t.value b = s.value b := by
  have follows := later.follows (first.valid (valid_initially bytes))
  exact ⟨follows, fun b apart => follows.frame apart⟩

/-- A byte goes with its buffer, and the address that it leaves is used again. -/
theorem moved_value : ∃ s t : State,
    Steps {} [.construct 3 10, .construct 1 300, .write 1 7 42] s ∧
    Steps s [.moveConstruct 2 1, .destruct 1, .construct 1 300] t ∧
    Follows s.value [.moveConstruct 2 1, .destruct 1, .construct 1 300] t.value ∧ t.value 3 = s.value 3 ∧
    (t.value 2).map (·.byte 7) = some 42 ∧ (t.value 1).map (·.byte 7) = some 0 := by
  obtain ⟨s, first, t, later, moved⟩ : ∃ s, Steps {} [.construct 3 10, .construct 1 300, .write 1 7 42] s ∧
      ∃ t, Steps s [.moveConstruct 2 1, .destruct 1, .construct 1 300] t ∧
        (t.value 2).map (·.byte 7) = some 42 ∧ (t.value 1).map (·.byte 7) = some 0 :=
    ⟨_, .next _ {} rfl rfl (.next _ { block := some mediumBlock } rfl rfl (.next _ {} (by decide) rfl .refl)),
      _, .next _ {} (by decide) rfl (.next _ {} (by decide) rfl (.next _ {} (by decide) rfl .refl)), by decide⟩
  obtain ⟨follows, frame⟩ := values_refine first later
  exact ⟨s, t, first, later, follows, frame 3 (by decide), moved⟩

/-! ### A copy for a task -/

/-- What a `unique_ptr` had goes when it is assigned to. -/
def State.release (s : State) (env : Environment) : Option Object → State
  | some old => s.destruct env old
  | none => s

/-- `DeepCopyBufferFrom(src)` of a task whose `buffer_` is `old`. The assignment destroys
the old buffer before `src` is read. There is no result when the constructor throws, the
function being `noexcept`, and none when `src` is then gone. Left out: `operator new` may
throw for the `KernelBuf` itself, which ends the program likewise. -/
def State.deepCopyBufferFrom (s : State) (env env' : Environment) (old : Option Object) (new src : Object) :
    Option State := do
  let made ← (s.construct env new (s.buffer src).size).toOption
  let assigned := made.release env' old
  if (assigned.buffer src).alive then
    some (if 0 < (assigned.buffer src).size
      then assigned.memcpy (assigned.data new) (assigned.data src) (assigned.buffer src).size else assigned)
  else none

/-- The values without the old buffer. -/
def Values.without (values : Values) : Option Object → Values
  | some old => Function.update values old none
  | none => values

theorem release_value {old : Option Object} (env : Environment) (valid : Valid s) (owned : ∀ o ∈ old, (s.buffer o).alive = true) :
    Valid (s.release env old) ∧ (s.release env old).value = Values.without s.value old := by
  cases old with
  | none => exact ⟨valid, rfl⟩
  | some old => exact ⟨valid.destruct (owned old rfl), destruct_effect valid (owned old rfl)⟩

theorem without_of_ne {old : Option Object} (apart : old ≠ some b) : Values.without values old b = values b := by
  cases old with
  | none => rfl
  | some old => exact Function.update_of_ne (fun same => apart (congrArg some same.symm)) _ _

theorem without_update {old : Option Object} {new : Object} (v : Option Value) (apart : old ≠ some new) :
    Values.without (Function.update values new v) old = Function.update (Values.without values old) new v := by
  cases old with
  | none => rfl
  | some old => exact Function.update_comm (fun same => apart (congrArg some same.symm)) _ _ _

theorem value_none : s.value b = none ↔ (s.buffer b).alive = false := by
  unfold State.value
  split <;> simp_all

theorem value_alive {v : Value} (value : s.value b = some v) : (s.buffer b).alive = true ∧ (s.buffer b).size = v.size ∧
    ∀ i, v.byte i = if i < v.size then s.content b i else 0 := by
  unfold State.value at value
  split at value
  · next alive =>
    obtain rfl := Option.some.inj value
    exact ⟨alive, rfl, fun _ => rfl⟩
  · contradiction

/-- All the bytes of one object into another of that size. -/
theorem memcpy_value {v w : Value} (valid : Valid s) (different : this ≠ other) (target : s.value this = some v)
    (source : s.value other = some w) (same : v.size = w.size) (some_ : 0 < w.size) :
    (s.memcpy (s.data this) (s.data other) w.size).value =
      Function.update s.value this (some { v with byte := w.byte }) := by
  obtain ⟨alive, size, -⟩ := value_alive target
  obtain ⟨alive', size', bytes⟩ := value_alive source
  obtain ⟨place, here⟩ := data_some ((valid.placed this).stored alive) (valid.tagged alive (by omega))
  obtain ⟨place', there⟩ := data_some ((valid.placed other).stored alive') (valid.tagged alive' (by omega))
  rw [here, there]
  funext b
  by_cases at_ : b = this
  · subst at_
    obtain ⟨v', value', sized, offset, ioRet, -⟩ := value_some alive
    obtain rfl := Option.some.inj (target.symm.trans value')
    have data : (s.memcpy (some place) (some place') w.size).data b = some place := here
    rw [Function.update_self, State.value]
    refine (if_pos alive).trans (congrArg some (Value.ext sized.symm offset.symm ioRet.symm (funext fun i => ?_)))
    change (if i < (s.buffer b).size then _ else _) = w.byte i
    rw [size, same, bytes, content_of_data data, content_of_data there]
    simp only [State.memcpy, State.fill, Function.update_self]
    split <;> rfl
  · rw [Function.update_of_ne at_]
    refine value_congr rfl fun alive'' spot data => ?_
    exact Function.update_of_ne (valid.places_apart alive'' alive at_ data here) _ _

/-- The copy has the size and the bytes of `src`, which stays as it is, with all others but
the old buffer. Short of an exception this fails only on the task's own buffer. -/
theorem deepCopyBufferFrom_copies {bytes : Place → Nat → UInt8} {before : List Operation} {old : Option Object}
    {new src : Object} (env env' : Environment) (first : Steps { bytes := bytes } before s)
    (dead : (s.buffer new).alive = false) (existing : (s.buffer src).alive = true)
    (owned : ∀ o ∈ old, (s.buffer o).alive = true) :
    (s.deepCopyBufferFrom env env' old new src = none ↔
      old = some src ∨ ∃ u, s.construct env new (s.buffer src).size = .error u) ∧
    ∀ t, s.deepCopyBufferFrom env env' old new src = some t → ∃ v, s.value src = some v ∧
      t.value = Function.update (Values.without s.value old) new (some { size := v.size, byte := v.byte }) := by
  have valid := first.valid (valid_initially bytes)
  obtain ⟨v, value, size, -⟩ := value_some existing
  have different : new ≠ src := by
    rintro rfl
    exact absurd (dead.symm.trans existing) nofun
  have kept : old ≠ some new := by
    rintro rfl
    exact absurd (dead.symm.trans (owned new rfl)) nofun
  cases outcome : s.construct env new (s.buffer src).size with
  | error u => simp [State.deepCopyBufferFrom, outcome, Except.toOption]
  | ok made =>
    obtain ⟨byte, effect⟩ := construct_effect valid dead outcome
    have there : ∀ o ∈ old, (made.buffer o).alive = true := by
      intro o member
      obtain ⟨w, had, -⟩ := value_some (owned o member)
      have apart : o ≠ new := fun same => kept (same ▸ Option.mem_def.mp member)
      have still : made.value o = some w := by rw [effect, Function.update_of_ne apart, had]
      exact (value_alive still).1
    obtain ⟨ready, assigned⟩ := release_value env' (valid.construct dead outcome) there
    rw [effect, without_update _ kept] at assigned
    have copied : s.deepCopyBufferFrom env env' old new src =
        if ((made.release env' old).buffer src).alive then
          some (if 0 < ((made.release env' old).buffer src).size
            then (made.release env' old).memcpy ((made.release env' old).data new) ((made.release env' old).data src)
              ((made.release env' old).buffer src).size
            else made.release env' old)
        else none := by
      simp only [State.deepCopyBufferFrom, outcome]
      rfl
    by_cases own : old = some src
    · have gone : ((made.release env' old).buffer src).alive = false := by
        rw [← value_none, assigned, Function.update_of_ne different.symm, own]
        exact Function.update_self _ _ _
      have nothing : s.deepCopyBufferFrom env env' old new src = none := by
        rw [copied, gone]
        rfl
      exact ⟨iff_of_true nothing (Or.inl own), fun t same => absurd (nothing.symm.trans same) nofun⟩
    · have source : (made.release env' old).value src = some v := by
        rw [assigned, Function.update_of_ne different.symm, without_of_ne own, value]
      have target : (made.release env' old).value new = some { size := v.size, byte := byte } := by
        rw [assigned, Function.update_self, size]
      obtain ⟨alive, sized, -⟩ := value_alive source
      rw [copied, if_pos alive, sized]
      refine ⟨by simp [own], fun t same => ⟨v, value, ?_⟩⟩
      obtain rfl := Option.some.inj same
      split
      · next some_ => rw [memcpy_value ready different target source rfl some_, assigned, Function.update_idem]
      · next none_ =>
        -- Both are empty.
        have zero : byte = v.byte := by
          funext i
          have empty : ¬ i < v.size := by omega
          exact ((value_alive target).2.2 i).trans ((if_neg empty).trans
            (((value_alive source).2.2 i).trans (if_neg empty)).symm)
        rw [assigned, ← size, zero]

/-- A task copies another's buffer, but cannot copy its own. -/
theorem own_buffer_not_copied : ∃ s t : State,
    Steps {} [.construct 2 10, .construct 1 300, .write 1 7 42] s ∧
    s.deepCopyBufferFrom {} {} (some 2) 3 1 = some t ∧ (t.value 3).map (·.byte 7) = some 42 ∧ t.value 2 = none ∧
    s.deepCopyBufferFrom {} {} (some 1) 3 1 = none := by
  obtain ⟨s, first, written, dead, alive, old, u, made⟩ : ∃ s,
      Steps {} [.construct 2 10, .construct 1 300, .write 1 7 42] s ∧ (s.value 1).map (·.byte 7) = some 42 ∧
      (s.buffer 3).alive = false ∧ (s.buffer 1).alive = true ∧ (s.buffer 2).alive = true ∧
      ∃ u, s.construct {} 3 (s.buffer 1).size = .ok u :=
    ⟨_, .next _ {} rfl rfl (.next _ { block := some mediumBlock } rfl rfl (.next _ {} (by decide) rfl .refl)),
      by decide, rfl, rfl, rfl, _, rfl⟩
  have owned : ∀ o ∈ some 2, (s.buffer o).alive = true := by rintro _ ⟨⟩; exact old
  have own : ∀ o ∈ some 1, (s.buffer o).alive = true := by rintro _ ⟨⟩; exact alive
  obtain ⟨fails, copies⟩ := deepCopyBufferFrom_copies {} {} first dead alive owned
  have succeeds : s.deepCopyBufferFrom {} {} (some 2) 3 1 ≠ none := by
    rw [ne_eq, fails, made]
    rintro (same | ⟨u, thrown⟩) <;> contradiction
  obtain ⟨t, copied⟩ := Option.ne_none_iff_exists'.mp succeeds
  obtain ⟨v, value, same⟩ := copies t copied
  refine ⟨s, t, first, copied, ?_, by rw [same]; rfl, ?_⟩
  · rw [value] at written
    rw [same, Function.update_self]
    exact written
  · exact (deepCopyBufferFrom_copies {} {} first dead alive own).1.mpr (Or.inl rfl)

end Talon.Buffer
