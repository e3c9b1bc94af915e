import Talon.Buffer.KernelBufProofs

/-! `Resize` gives the old storage up before it has the new one: which bytes come
through, and what is left when the new storage cannot be had. -/
namespace Talon.Buffer
open Talon.Memory Talon.Memory.BufferPool

variable {s t : State} {env : Environment} {this : Object} {n : Nat}

/-- The bytes behind `Data()`. -/
def State.content (s : State) (this : Object) (i : Nat) : UInt8 :=
  match s.data this with
  | some place => s.bytes place i
  | none => 0

/-! ### Which bytes come through -/

/-- However the pool answers and whatever is found in memory that was given back,
the bytes that both sizes have room for are as before. -/
def Preserves (s : State) (this : Object) (n : Nat) : Prop :=
  ∀ env t, s.resize env this n = .ok t →
    (t.buffer this).size = n ∧ ∀ i < min (s.buffer this).size n, t.content this i = s.content this i

/-- There is nothing to copy, or the bytes lie in a block of the pool, or they lie
in the object and the new ones do not; or else they are all zero. -/
def Survives (s : State) (this : Object) (n : Nat) : Prop :=
  n = (s.buffer this).size ∨ min (s.buffer this).size n = 0 ∨ (s.buffer this).storageTag = .kPool ∨
    (s.buffer this).storageTag = .kSbo ∧
      (kKernelBufSboSize < n ∨ ∀ i < min (s.buffer this).size n, s.content this i = 0)

theorem resize_same (same : n = (s.buffer this).size) (tagged : (s.buffer this).storageTag ≠ .kNone) :
    s.resize env this n = .ok s := by
  simp only [State.resize, same, tagged, ne_eq, not_false_eq_true, and_self, if_true]

theorem setSize_content (i : Nat) : (s.setSize this n).content this i = s.content this i := by
  simp [State.content, State.data, State.setSize]

theorem memcpy_data (target source : Option Place) (count : Nat) :
    (s.memcpy target source count).data this = s.data this := by
  unfold State.memcpy
  split <;> rfl

theorem setSize_data : (s.setSize this n).data this = s.data this := by
  simp [State.data, State.setSize]

/-- What is copied is what the old place holds once the new storage is there. -/
theorem resize_copies {source : Place} (valid : Valid s) (existing : (s.buffer this).alive = true)
    (changes : n ≠ (s.buffer this).size) (some_ : 0 < min (s.buffer this).size n)
    (there : s.data this = some source) (resized : s.resize env this n = .ok t) :
    ∃ u, Supplied this n (s.destroyStorage env this) u ∧
      ∀ i < min (s.buffer this).size n, t.content this i = u.bytes source i := by
  obtain ⟨u, place, supplied, here, rfl⟩ := resize_ok valid.ledger ((valid.placed this).stored existing)
    (fun same => changes same.1) resized
  refine ⟨u, supplied, fun i inside => ?_⟩
  rw [Nat.min_comm] at some_ inside
  rw [setSize_content, if_pos ⟨by rw [there]; nofun, some_⟩, there]
  have still : (u.memcpy (some place) (some source) (min n (s.buffer this).size)).data this = some place := here
  rw [State.content, still]
  simp only [State.memcpy, State.fill, Function.update_self, inside, if_true]

theorem resize_size (valid : Valid s) (existing : (s.buffer this).alive = true)
    (resized : s.resize env this n = .ok t) : (t.buffer this).size = n := by
  by_cases same : n = (s.buffer this).size ∧ (s.buffer this).storageTag ≠ .kNone
  · rw [resize_same same.1 same.2] at resized
    rw [← Except.ok.inj resized]
    exact same.1.symm
  · obtain ⟨u, place, supplied, here, rfl⟩ := resize_ok valid.ledger ((valid.placed this).stored existing) same resized
    simp [State.setSize]

/-- With bytes in it the buffer has storage. -/
theorem Valid.tagged (valid : Valid s) (existing : (s.buffer this).alive = true)
    (some_ : 0 < (s.buffer this).size) : (s.buffer this).storageTag ≠ .kNone := by
  intro none_
  have sized := (valid.placed this).sized existing
  rw [Sized, none_] at sized
  omega

theorem Supplied.lasting {u : State} (emptied : Emptied env this s t) (supplied : Supplied this n t u) (place : Place)
    (lasts : ∀ region, place ≠ .array region) (outgrown : place = .sbo this → kKernelBufSboSize < n) :
    u.bytes place = s.bytes place := by
  rw [supplied.bytes place outgrown fun region same => absurd same (lasts region)]
  exact emptied.bytes place fun region _ => lasts region

/-- Neither a block nor the object loses its bytes when the storage is given up. -/
theorem survives_preserves (valid : Valid s) (existing : (s.buffer this).alive = true)
    (survives : Survives s this n) : Preserves s this n := by
  intro env t resized
  refine ⟨resize_size valid existing resized, fun i inside => ?_⟩
  have some_ : 0 < min (s.buffer this).size n := Nat.lt_of_le_of_lt (Nat.zero_le i) inside
  have tagged := valid.tagged existing (Nat.lt_of_lt_of_le some_ (Nat.min_le_left _ _))
  by_cases changes : n = (s.buffer this).size
  · rw [resize_same changes tagged] at resized
    rw [← Except.ok.inj resized]
  have stored := (valid.placed this).stored existing
  obtain ⟨source, there⟩ := data_some stored tagged
  obtain ⟨u, supplied, copied⟩ := resize_copies valid existing changes some_ there resized
  have emptied := destroyStorage_emptied env valid.ledger stored
  have here : s.content this i = s.bytes source i := by rw [State.content, there]
  rw [copied i inside]
  unfold Stored at stored
  rcases survives with same | none_ | pool | ⟨sbo, outgrown | zero⟩
  · exact absurd same changes
  · omega
  · rw [pool] at stored
    obtain ⟨⟨grant, data⟩, bare⟩ := stored
    simp only [State.data, pool, data, Option.map_some, Option.some.injEq] at there
    subst there
    rw [here, supplied.lasting emptied (.block grant.slot) (by simp) (by simp)]
  · simp only [State.data, sbo, Option.some.injEq] at there
    subst there
    rw [here, supplied.lasting emptied (.sbo this) (by simp) fun _ => outgrown]
  · simp only [State.data, sbo, Option.some.injEq] at there
    subst there
    by_cases outgrown : kKernelBufSboSize < n
    · rw [here, supplied.lasting emptied (.sbo this) (by simp) fun _ => outgrown]
    · rw [zero i inside]
      exact (supplied.zeroed (Nat.not_lt.mp outgrown)).2 i

/-- Zeroing the object's own bytes comes first. -/
theorem sbo_zeroed (valid : Valid s) (existing : (s.buffer this).alive = true)
    (sbo : (s.buffer this).storageTag = .kSbo) (changes : n ≠ (s.buffer this).size)
    (some_ : 0 < min (s.buffer this).size n) (small : n ≤ kKernelBufSboSize)
    (resized : s.resize env this n = .ok t) : ∀ i < min (s.buffer this).size n, t.content this i = 0 := by
  have there : s.data this = some (.sbo this) := by rw [State.data, sbo]
  obtain ⟨u, supplied, copied⟩ := resize_copies valid existing changes some_ there resized
  intro i inside
  rw [copied i inside]
  exact (supplied.zeroed small).2 i

/-- A vector's elements are read after they were given back. -/
theorem heap_lost (valid : Valid s) (existing : (s.buffer this).alive = true)
    (heap : (s.buffer this).storageTag = .kHeap) (changes : n ≠ (s.buffer this).size)
    (some_ : 0 < min (s.buffer this).size n) (resized : s.resize env this n = .ok t) :
    ∀ i < min (s.buffer this).size n, t.content this i = env.junk i := by
  have stored := (valid.placed this).stored existing
  have emptied := destroyStorage_emptied env valid.ledger stored
  rw [Stored, heap] at stored
  obtain ⟨-, region, vec⟩ := stored
  have elements : (s.buffer this).heapVec.elements = some region := by rw [vec]
  have there : s.data this = some (.array region) := by rw [State.data, heap, vec]; rfl
  obtain ⟨u, supplied, copied⟩ := resize_copies valid existing changes some_ there resized
  have known := (valid.ledger.out (mem_pieces_array.mpr elements)).1
  have older : region.number < (s.destroyStorage env this).obtained.length := by
    rw [emptied.obtained]
    exact valid.ledger.numbered _ known
  intro i inside
  rw [copied i inside, supplied.bytes (.array region) (by simp) (by rintro _ ⟨⟩; exact older), emptied.lost region elements]

/-- Some environment lets the call return. -/
theorem resize_returns (s : State) (this : Object) (n : Nat) (junk : Nat → UInt8) :
    ∃ t, s.resize { junk := junk } this n = .ok t := by
  have vector : ∀ u : State, ∃ t, u.allocateHeap { junk := junk } this n = .ok t := fun u => ⟨_, rfl⟩
  have storage : ∀ u : State, ∃ t, u.allocateStorage { junk := junk } this n = .ok t := by
    intro u
    obtain ⟨t, made⟩ := vector u
    unfold State.allocateStorage
    split
    · exact ⟨_, rfl⟩
    split
    · exact ⟨t.setSize this n, by simp [State.allocate, made, Except.map]⟩
    · exact ⟨t.setSize this n, by simp [made, Except.map]⟩
  by_cases same : n = (s.buffer this).size ∧ (s.buffer this).storageTag ≠ .kNone
  · exact ⟨s, resize_same same.1 same.2⟩
  · obtain ⟨t, made⟩ := storage (s.destroyStorage { junk := junk } this)
    simp only [State.resize, same, if_false, made]
    exact ⟨_, rfl⟩

/-- The bytes survive every outcome of `Resize` exactly if they did not lie in a
vector, and were not zeroed. -/
theorem resize_preserves_iff (run : Reaches s) (existing : (s.buffer this).alive = true) :
    Preserves s this n ↔ Survives s this n := by
  have valid := run.valid
  refine ⟨fun preserves => ?_, survives_preserves valid existing⟩
  by_contra perishes
  simp only [Survives, not_or, not_and] at perishes
  obtain ⟨changes, nonempty, unpooled, sbo⟩ := perishes
  have some_ : 0 < min (s.buffer this).size n := Nat.pos_of_ne_zero nonempty
  have tagged := valid.tagged existing (Nat.lt_of_lt_of_le some_ (Nat.min_le_left _ _))
  cases tag : (s.buffer this).storageTag with
  | kNone => exact tagged tag
  | kPool => exact unpooled tag
  | kSbo =>
    obtain ⟨large, nonzero⟩ := sbo tag
    obtain ⟨t, resized⟩ := resize_returns s this n fun _ => 0
    apply nonzero
    intro i inside
    rw [← (preserves _ t resized).2 i inside]
    exact sbo_zeroed valid existing tag changes some_ (Nat.not_lt.mp large) resized i inside
  | kHeap =>
    -- Whatever the first byte was, the memory may hold another by then.
    obtain ⟨t, resized⟩ := resize_returns s this n fun i => s.content this i + 1
    have kept := (preserves _ t resized).2 0 some_
    rw [heap_lost valid existing tag changes some_ resized 0 some_] at kept
    exact absurd kept (by simp)

theorem pooled_preserved : ∃ s : State,
    ({} : State).construct { block := some mediumBlock } 1 300 = .ok s ∧ Preserves s 1 70000 := by
  have made : Reaches _ := .step (.construct 1 300) { block := some mediumBlock } .start rfl rfl
  exact ⟨_, rfl, (resize_preserves_iff made rfl).mpr (Or.inr (Or.inr (Or.inl rfl)))⟩

/-- A byte is written into a buffer of ten bytes, which is then resized to
twenty. -/
theorem grown_zeroed :
    ¬ ∀ (s : State) (this : Object) (n : Nat), Reaches s → (s.buffer this).alive = true → Preserves s this n := by
  intro claimed
  have made : Reaches _ := .step (.construct 1 10) {} .start rfl rfl
  have written : Reaches _ := .step (.write 1 0 7) {} made (by decide) rfl
  obtain ⟨-, kept⟩ := claimed _ 1 20 written rfl {} _ rfl
  exact absurd (kept 0 (by decide)) (by decide)

/-! ### When the new storage cannot be had -/

/-- The buffer is as it was, and its destructor gives back what it had, each piece
once, without destroying a vector that is not there. -/
structure Unharmed (this : Object) (s t : State) : Prop where
  size : (t.buffer this).size = (s.buffer this).size
  data : t.data this = s.data this
  content : ∀ i < (s.buffer this).size, t.content this i = s.content this i
  destructs : ∀ env, (t.destruct env this).faulted = false ∧
    ∀ piece ∈ (s.buffer this).pieces, (t.destruct env this).given.count piece = 1

/-- The vector has been destroyed and its successor was never constructed. -/
structure Torn (this : Object) (t : State) : Prop where
  tag : (t.buffer this).storageTag = .kHeap
  vector : (t.buffer this).heapVec = { alive := false }

theorem allocateHeap_torn (bare : (s.buffer this).heapVec = {}) (failed : s.allocateHeap env this n = .error t) :
    Torn this t := by
  unfold State.allocateHeap State.constructVector at failed
  simp only at failed
  split at failed
  · rw [← Except.error.inj failed]
    constructor <;> simp [State.destroyVector, bare]
  · contradiction

theorem allocateStorage_torn (bare : (s.buffer this).heapVec = {})
    (failed : s.allocateStorage env this n = .error t) : Torn this t := by
  have vector : ∀ u : State, (u.buffer this).heapVec = {} →
      (u.allocateHeap env this n).map (·.setSize this n) = .error t → Torn this t := by
    intro u bare failed
    cases outcome : u.allocateHeap env this n with
    | ok v => rw [outcome] at failed; contradiction
    | error v =>
      rw [outcome] at failed
      rw [← Except.error.inj failed]
      exact allocateHeap_torn bare outcome
  unfold State.allocateStorage at failed
  split at failed
  · contradiction
  split at failed
  · split at failed
    · contradiction
    · next u answered =>
      have same := allocate_none (congrArg Prod.fst answered)
      rw [answered] at same
      rw [show u = s from same] at failed
      exact vector s bare failed
  · exact vector s bare failed

/-- Whatever tier the buffer was in. -/
theorem resize_torn (valid : Valid s) (existing : (s.buffer this).alive = true)
    (failed : s.resize env this n = .error t) : Torn this t := by
  have emptied := destroyStorage_emptied env valid.ledger ((valid.placed this).stored existing)
  by_cases same : n = (s.buffer this).size ∧ (s.buffer this).storageTag ≠ .kNone
  · rw [resize_same same.1 same.2] at failed
    contradiction
  simp only [State.resize, same, if_false] at failed
  cases outcome : (s.destroyStorage env this).allocateStorage env this n with
  | ok u => rw [outcome] at failed; contradiction
  | error u =>
    rw [outcome] at failed
    rw [← Except.error.inj failed]
    exact allocateStorage_torn emptied.bare.2 outcome

theorem faulted_destroyVector (faulted : s.faulted = true) : (s.destroyVector env this).faulted = true := by
  unfold State.destroyVector
  simp only
  split
  · split <;> exact faulted
  · rfl

/-- The destructor destroys the vector a second time. -/
theorem Torn.faults (torn : Torn this t) (env : Environment) : (t.destruct env this).faulted = true := by
  have twice : (t.destroyVector env this).faulted = true := by
    simp [State.destroyVector, torn.vector]
  have storage : (t.destroyStorage env this).faulted = true := by
    unfold State.destroyStorage
    rw [torn.tag]
    exact twice
  exact faulted_destroyVector storage

/-- No buffer comes out unharmed when the vector's constructor throws. -/
theorem failed_resize_harms (run : Reaches s) (existing : (s.buffer this).alive = true)
    (failed : s.resize env this n = .error t) : ¬ Unharmed this s t := by
  intro unharmed
  have torn := resize_torn run.valid existing failed
  exact absurd ((unharmed.destructs {}).1.symm.trans (torn.faults {})) nofun

theorem failed_growth_harms : ∃ s t : State, ({} : State).construct {} 1 10 = .ok s ∧
    s.resize { throws := true } 1 70000 = .error t ∧ ¬ Unharmed 1 s t := by
  have made : Reaches _ := .step (.construct 1 10) {} .start rfl rfl
  exact ⟨_, _, rfl, rfl, failed_resize_harms made rfl (rfl : State.resize _ { throws := true } 1 70000 = _)⟩

/-- Ten bytes are there before the call, and a null pointer afterwards. -/
theorem bytes_gone :
    ¬ ∀ (s t : State) (env : Environment) (this : Object) (n : Nat), Reaches s → (s.buffer this).alive = true →
      s.resize env this n = .error t → Unharmed this s t := by
  intro claimed
  have made : Reaches _ := .step (.construct 1 10) {} .start rfl rfl
  have unharmed := claimed _ _ { throws := true } 1 70000 made rfl rfl
  exact absurd unharmed.data (by decide)

end Talon.Buffer
