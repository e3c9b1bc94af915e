import Talon.Buffer.KernelBuf
import Talon.Memory.BufferPoolProofs

/-! In every run each piece of storage is with one object or has been given back
once, and the tag and the size of an object agree with what it has. -/
namespace Talon.Buffer
open Interleaving Talon.Memory Talon.Memory.BufferPool

variable {s t : State} {env : Environment} {this other b : Object} {f : KernelBuf → KernelBuf} {n : Nat}

@[simp] theorem set_buffer_self : (s.set this f).buffer this = f (s.buffer this) :=
  Function.update_self _ _ _

theorem set_buffer_of_ne (different : b ≠ this) : (s.set this f).buffer b = s.buffer b :=
  Function.update_of_ne different _ _

@[simp] theorem set_bytes : (s.set this f).bytes = s.bytes := rfl

@[simp] theorem fill_buffer {place : Place} {content : Nat → UInt8} : (s.fill place content).buffer = s.buffer := rfl

/-- What has to be given back for the object. -/
def KernelBuf.pieces (buf : KernelBuf) : List Piece :=
  buf.pool.data.toList.map .block ++ buf.heapVec.elements.toList.map .array

/-- Who has a piece of storage. -/
inductive Keeper where
  | buffer (this : Object)
  | given

def State.keeps (s : State) : Keeper → List Piece
  | .buffer this => (s.buffer this).pieces
  | .given => s.given

/-- `Deallocate` is told a size of the class that the block was allocated from. -/
def Return.Classed : Return → Prop
  | .deallocate grant bytes => classForSize bytes = classForSize grant.request
  | .free _ => True

structure Ledger (s : State) : Prop where
  custody : Custody s.keeps s.obtained
  fits : ∀ grant, .block grant ∈ s.obtained → classOf grant.request = some grant.slot.pool
  /-- A block is with one holder at a time. -/
  single : ∀ grant grant', .block grant ∈ s.obtained → .block grant' ∈ s.obtained →
    .block grant ∉ s.given → .block grant' ∉ s.given → grant.slot = grant'.slot → grant = grant'
  numbered : ∀ piece ∈ s.obtained, piece.number < s.obtained.length
  classed : ∀ ret ∈ s.returns, ret.Classed
  sound : s.faulted = false

/-- The tag says what the object has. -/
def Stored (buf : KernelBuf) : Prop :=
  match buf.storageTag with
  | .kNone | .kSbo => buf.pool = {} ∧ buf.heapVec = {}
  | .kPool => (∃ grant, buf.pool = ⟨some grant, grant.request⟩) ∧ buf.heapVec = {}
  | .kHeap => buf.pool = {} ∧ ∃ region, buf.heapVec = { elements := some region }

/-- The tag and the size agree. -/
def Sized (buf : KernelBuf) : Prop :=
  match buf.storageTag with
  | .kNone => buf.size = 0
  | .kSbo => buf.size ≤ kKernelBufSboSize
  | .kPool => buf.pool.allocSize = buf.size
  | .kHeap => buf.heapVec.length = buf.size

/-- An object that exists has what its tag says, another nothing. -/
structure Placed (buf : KernelBuf) : Prop where
  stored : buf.alive = true → Stored buf
  sized : buf.alive = true → Sized buf
  bare : buf.alive = false → buf.pieces = []

structure Valid (s : State) : Prop where
  ledger : Ledger s
  placed : ∀ b, Placed (s.buffer b)

/-! ### The ledger -/

theorem Ledger.fill (ledger : Ledger s) (place : Place) (content : Nat → UInt8) : Ledger (s.fill place content) :=
  ⟨ledger.custody, ledger.fits, ledger.single, ledger.numbered, ledger.classed, ledger.sound⟩

theorem keeps_set_of_ne {k : Keeper} (different : k ≠ .buffer this) : (s.set this f).keeps k = s.keeps k := by
  cases k with
  | given => rfl
  | buffer b =>
    have other : b ≠ this := fun same => different (congrArg Keeper.buffer same)
    exact congrArg KernelBuf.pieces (set_buffer_of_ne other)

/-- Members that hold no storage. -/
theorem Ledger.set (ledger : Ledger s) (same : (f (s.buffer this)).pieces = (s.buffer this).pieces) :
    Ledger (s.set this f) := by
  refine ⟨ledger.custody.congr fun k => ?_, ledger.fits, ledger.single, ledger.numbered, ledger.classed, ledger.sound⟩
  by_cases here : k = .buffer this
  · subst here
    change ((s.set this f).buffer this).pieces = _
    rw [set_buffer_self]
    exact same
  · exact keeps_set_of_ne here

/-- The object gives back the one piece it has. -/
theorem Ledger.give (ledger : Ledger s) {ret : Return} (had : (s.buffer this).pieces = [ret.piece])
    (left : (f (s.buffer this)).pieces = []) (classed : ret.Classed) :
    Ledger { s.set this f with returns := s.returns ++ [ret] } := by
  have more : (s.returns ++ [ret]).map Return.piece = s.given ++ [ret.piece] := by
    rw [List.map_append]
    rfl
  refine ⟨?_, ledger.fits, fun grant grant' known known' out out' => ?_, ledger.numbered, ?_, ledger.sound⟩
  · refine ledger.custody.move (.buffer this) .given [ret.piece] nofun ?_ ?_ fun k here there => ?_
    · change ([ret.piece] ++ ((s.set this f).buffer this).pieces).Perm (s.buffer this).pieces
      rw [set_buffer_self, left, had]
      exact .refl _
    · change ((s.returns ++ [ret]).map Return.piece).Perm ([ret.piece] ++ s.given)
      rw [more]
      exact List.perm_append_comm
    · cases k with
      | given => exact absurd rfl there
      | buffer b => exact keeps_set_of_ne here
  · have inside : ∀ piece, piece ∈ s.given → piece ∈ (s.returns ++ [ret]).map Return.piece := by
      intro piece member
      rw [more]
      exact List.mem_append_left _ member
    exact ledger.single grant grant' known known' (out ∘ inside _) (out' ∘ inside _)
  · intro r member
    rcases List.mem_append.mp member with member | member
    · exact ledger.classed r member
    · rw [List.mem_singleton.mp member]
      exact classed

/-- The object gets a new piece. -/
theorem Ledger.obtain (ledger : Ledger s) (piece : Piece) (new : piece.number = s.obtained.length)
    (had : (s.buffer this).pieces = []) (has : (f (s.buffer this)).pieces = [piece])
    (fits : ∀ grant, piece = .block grant → classOf grant.request = some grant.slot.pool ∧ s.Spare grant.slot) :
    Ledger { s.set this f with obtained := s.obtained ++ [piece] } := by
  have fresh : piece ∉ s.obtained := fun member => by
    have below := ledger.numbered piece member
    omega
  have split : ∀ p, p ∈ s.obtained ++ [piece] → p ∈ s.obtained ∨ p = piece := by
    intro p member
    exact (List.mem_append.mp member).imp_right List.mem_singleton.mp
  -- A block that was handed out before has been given back.
  have spare : ∀ grant grant', .block grant ∈ s.obtained → piece = .block grant' → .block grant ∉ s.given →
      grant.slot ≠ grant'.slot := by
    intro grant grant' known same out equal
    refine out ((fits grant' same).2 _ known ?_)
    rw [Piece.slot?, equal]
  refine ⟨?_, fun grant member => ?_, fun grant grant' member member' out out' equal => ?_, fun p member => ?_,
    ledger.classed, ledger.sound⟩
  · refine ledger.custody.add (.buffer this) (List.nodup_singleton piece) ?_ ?_ fun k different => ?_
    · rintro p member
      rw [List.mem_singleton.mp member]
      exact fresh
    · change ((s.set this f).buffer this).pieces.Perm ([piece] ++ (s.buffer this).pieces)
      rw [set_buffer_self, has, had]
      exact .refl _
    · cases k with
      | given => rfl
      | buffer b => exact keeps_set_of_ne different
  · rcases split _ member with member | same
    · exact ledger.fits grant member
    · exact (fits grant same.symm).1
  · rcases split _ member with member | same <;> rcases split _ member' with member' | same'
    · exact ledger.single grant grant' member member' out out' equal
    · exact absurd equal (spare grant grant' member same'.symm out)
    · exact absurd equal.symm (spare grant' grant member' same.symm out')
    · exact Piece.block.inj (same.trans same'.symm)
  · rw [List.length_append, List.length_singleton]
    rcases split _ member with member | same
    · exact Nat.lt_succ_of_lt (ledger.numbered p member)
    · rw [same, new]
      exact Nat.lt_succ_self _

/-- One object takes over all that another has. -/
theorem Ledger.hand {g : KernelBuf → KernelBuf} (ledger : Ledger s) (different : this ≠ other)
    (had : (s.buffer this).pieces = []) (has : (f (s.buffer this)).pieces = (s.buffer other).pieces)
    (left : (g (s.buffer other)).pieces = []) : Ledger ((s.set this f).set other g) := by
  refine ⟨?_, ledger.fits, ledger.single, ledger.numbered, ledger.classed, ledger.sound⟩
  refine ledger.custody.move (.buffer other) (.buffer this) (s.buffer other).pieces ?_ ?_ ?_ fun k here there => ?_
  · exact fun same => different (Keeper.buffer.inj same).symm
  · change (_ ++ (((s.set this f).set other g).buffer other).pieces).Perm (s.buffer other).pieces
    rw [set_buffer_self, set_buffer_of_ne different.symm, left, List.append_nil]
  · change (((s.set this f).set other g).buffer this).pieces.Perm (_ ++ (s.buffer this).pieces)
    rw [set_buffer_of_ne different, set_buffer_self, has, had, List.append_nil]
  · rw [keeps_set_of_ne here, keeps_set_of_ne there]

/-! ### What the parts do -/

/-- The object has no storage any more, and its tag says so. -/
structure Emptied (env : Environment) (this : Object) (s t : State) : Prop where
  ledger : Ledger t
  obtained : t.obtained = s.obtained
  buffer : t.buffer = Function.update s.buffer this
    { s.buffer this with storageTag := .kNone, pool := {}, heapVec := {} }
  /-- Only the elements of a vector lose their content. -/
  bytes : ∀ place, (∀ region, (s.buffer this).heapVec.elements = some region → place ≠ .array region) →
    t.bytes place = s.bytes place
  lost : ∀ region, (s.buffer this).heapVec.elements = some region → t.bytes (.array region) = env.junk

theorem emptied_bare (ledger : Ledger s) (bare : (s.buffer this).pool = {} ∧ (s.buffer this).heapVec = {}) :
    Emptied env this s (s.set this fun buf => { buf with storageTag := .kNone }) := by
  refine ⟨ledger.set rfl, rfl, ?_, fun _ _ => rfl, fun region vec => ?_⟩
  · rw [← bare.1, ← bare.2]
    rfl
  · rw [bare.2] at vec
    contradiction

theorem emptied_pool {grant : Grant} (ledger : Ledger s)
    (pool : (s.buffer this).pool = ⟨some grant, grant.request⟩) (bare : (s.buffer this).heapVec = {}) :
    Emptied env this s (((s.deallocate grant grant.request).set this fun buf => { buf with pool := {} }).set this
      fun buf => { buf with storageTag := .kNone }) := by
  have had : (s.buffer this).pieces = [(Return.deallocate grant grant.request).piece] := by
    rw [KernelBuf.pieces, pool, bare]
    rfl
  have left : KernelBuf.pieces { s.buffer this with pool := {} } = [] := by
    rw [KernelBuf.pieces, bare]
    rfl
  have given : Ledger ((s.deallocate grant grant.request).set this fun buf => { buf with pool := {} }) :=
    ledger.give (f := fun buf => { buf with pool := {} }) had left rfl
  refine ⟨given.set rfl, rfl, ?_, fun _ _ => rfl, fun region vec => ?_⟩
  · simp only [State.set, State.deallocate, Function.update_idem, Function.update_self, bare]
  · rw [bare] at vec
    contradiction

theorem emptied_heap {region : Region} (ledger : Ledger s) (bare : (s.buffer this).pool = {})
    (vec : (s.buffer this).heapVec = { elements := some region }) :
    Emptied env this s (((s.destroyVector env this).set this fun buf => { buf with heapVec := {} }).set this
      fun buf => { buf with storageTag := .kNone }) := by
  have destroyed : s.destroyVector env this =
      { (s.set this fun buf => { buf with heapVec := { alive := false } }).fill (.array region) env.junk with
        returns := s.returns ++ [.free region] } := by
    simp only [State.destroyVector, vec, if_true]
  have had : (s.buffer this).pieces = [(Return.free region).piece] := by
    rw [KernelBuf.pieces, bare, vec]
    rfl
  have left : KernelBuf.pieces { s.buffer this with heapVec := { alive := false } } = [] := by
    rw [KernelBuf.pieces, bare]
    rfl
  have given : Ledger (s.destroyVector env this) := by
    rw [destroyed]
    exact (ledger.give had left trivial).fill (.array region) env.junk
  have empty : ((s.destroyVector env this).buffer this).heapVec.elements = none := by
    rw [destroyed]
    simp
  have revived : Ledger ((s.destroyVector env this).set this fun buf => { buf with heapVec := {} }) := by
    refine given.set ?_
    simp only [KernelBuf.pieces, empty]
  refine ⟨revived.set rfl, ?_, ?_, fun place other => ?_, fun region' same => ?_⟩
  · rw [destroyed]
    rfl
  · simp only [destroyed, State.set, State.fill, Function.update_idem, Function.update_self, bare]
  · rw [set_bytes, set_bytes, destroyed]
    exact Function.update_of_ne (other region (by rw [vec])) _ _
  · rw [vec] at same
    cases Option.some.inj same
    rw [set_bytes, set_bytes, destroyed]
    exact Function.update_self _ _ _

theorem destroyStorage_emptied (env : Environment) (ledger : Ledger s) (stored : Stored (s.buffer this)) :
    Emptied env this s (s.destroyStorage env this) := by
  unfold State.destroyStorage
  unfold Stored at stored
  split at stored
  case h_1 tag => simpa only [tag] using emptied_bare ledger stored
  case h_2 tag => simpa only [tag] using emptied_bare ledger stored
  case h_3 tag =>
    obtain ⟨⟨grant, pool⟩, bare⟩ := stored
    simpa only [tag, pool] using emptied_pool ledger pool bare
  case h_4 tag =>
    obtain ⟨bare, region, vec⟩ := stored
    simpa only [tag] using emptied_heap ledger bare vec

/-- The object has room for `n` bytes. -/
structure Supplied (this : Object) (n : Nat) (s t : State) : Prop where
  ledger : Ledger t
  others : ∀ b, b ≠ this → t.buffer b = s.buffer b
  alive : (t.buffer this).alive = (s.buffer this).alive
  size : (t.buffer this).size = n
  stored : Stored (t.buffer this)
  sized : Sized (t.buffer this)
  data : ∃ place, t.data this = some place
  zeroed : n ≤ kKernelBufSboSize → t.data this = some (.sbo this) ∧ ∀ i, t.bytes (.sbo this) i = 0
  bytes : ∀ place, (place = .sbo this → kKernelBufSboSize < n) →
    (∀ region, place = .array region → region.number < s.obtained.length) → t.bytes place = s.bytes place

theorem supplied_sbo (ledger : Ledger s) (bare : (s.buffer this).pool = {} ∧ (s.buffer this).heapVec = {})
    (small : n ≤ kKernelBufSboSize) :
    Supplied this n s (((s.set this fun buf => { buf with storageTag := .kSbo }).fill (.sbo this)
      fun _ => 0).setSize this n) := by
  have tagged : Ledger (s.set this fun buf => { buf with storageTag := .kSbo }) := ledger.set rfl
  have own : (((s.set this fun buf => { buf with storageTag := .kSbo }).fill (.sbo this)
      fun _ => 0).setSize this n).buffer this = { s.buffer this with storageTag := .kSbo, size := n } := by
    simp [State.setSize]
  have here : (((s.set this fun buf => { buf with storageTag := .kSbo }).fill (.sbo this)
      fun _ => 0).setSize this n).data this = some (.sbo this) := by
    simp only [State.data, own]
  refine ⟨(tagged.fill _ _).set rfl, fun b different => ?_, ?_, ?_, ?_, ?_, ⟨_, here⟩, fun _ => ⟨here, fun i => ?_⟩,
    fun place large _ => ?_⟩
  · rw [State.setSize, set_buffer_of_ne different, fill_buffer, set_buffer_of_ne different]
  · rw [own]
  · rw [own]
  · rw [own]
    exact bare
  · rw [own]
    exact small
  · simp [State.setSize, State.fill]
  · refine Function.update_of_ne ?_ _ _
    intro same
    exact Nat.not_lt.mpr small (large same)

/-- A block that the pool answers with. -/
theorem allocate_some {grant : Grant} (answered : (s.allocate env n).1 = some grant) :
    grant.request = n ∧ grant.number = s.obtained.length ∧ classOf n = some grant.slot.pool ∧
      s.Spare grant.slot ∧ (s.allocate env n).2 = { s with obtained := s.obtained ++ [.block grant] } := by
  unfold State.allocate at answered ⊢
  split at answered
  · contradiction
  · split at answered
    · next permitted =>
      cases Option.some.inj answered
      refine ⟨rfl, rfl, permitted.1, permitted.2, ?_⟩
      simp only [permitted, and_self, if_true]
    · contradiction

theorem allocate_none (answered : (s.allocate env n).1 = none) : (s.allocate env n).2 = s := by
  unfold State.allocate at answered ⊢
  split at answered
  · rfl
  · split at answered
    · contradiction
    · next refused => simp only [refused, if_false]

theorem supplied_pool (env : Environment) {grant : Grant} (ledger : Ledger s)
    (bare : (s.buffer this).pool = {} ∧ (s.buffer this).heapVec = {}) (large : kKernelBufSboSize < n)
    (answered : (s.allocate env n).1 = some grant) :
    Supplied this n s (((s.allocate env n).2.set this
      fun buf => { buf with storageTag := .kPool, pool := ⟨some grant, n⟩ }).setSize this n) := by
  obtain ⟨request, number, class_, spare, state⟩ := allocate_some answered
  have had : (s.buffer this).pieces = [] := by
    rw [KernelBuf.pieces, bare.1, bare.2]
    rfl
  have has : KernelBuf.pieces { s.buffer this with storageTag := .kPool, pool := ⟨some grant, n⟩ } =
      [.block grant] := by
    rw [KernelBuf.pieces, bare.2]
    rfl
  have granted := ledger.obtain (f := fun buf => { buf with storageTag := .kPool, pool := ⟨some grant, n⟩ })
    (.block grant) number had has (by rintro _ ⟨⟩; exact ⟨request ▸ class_, spare⟩)
  rw [state]
  have own : ((({ s with obtained := s.obtained ++ [.block grant] } : State).set this
      fun buf => { buf with storageTag := .kPool, pool := ⟨some grant, n⟩ }).setSize this n).buffer this =
      { s.buffer this with storageTag := .kPool, pool := ⟨some grant, n⟩, size := n } := by
    simp [State.setSize]
  refine ⟨granted.set rfl, fun b different => ?_, ?_, ?_, ?_, ?_, ⟨.block grant.slot, ?_⟩,
    fun small => absurd large (Nat.not_lt.mpr small), fun _ _ _ => rfl⟩
  · rw [State.setSize, set_buffer_of_ne different, set_buffer_of_ne different]
  · rw [own]
  · rw [own]
  · rw [own]
    exact ⟨⟨grant, by rw [request]⟩, bare.2⟩
  · rw [own]
    rfl
  · rw [State.data, own]
    rfl

/-- Without an exception the object has a vector of its own. -/
theorem allocateHeap_ok (bare : (s.buffer this).heapVec = {}) (made : s.allocateHeap env this n = .ok t) :
    env.throws = false ∧ t =
      { (s.set this fun buf =>
          { buf with storageTag := .kHeap, heapVec := { elements := some ⟨n, s.obtained.length⟩ } }).fill
            (.array ⟨n, s.obtained.length⟩) fun _ => 0 with
        obtained := s.obtained ++ [.array ⟨n, s.obtained.length⟩] } := by
  unfold State.allocateHeap State.constructVector at made
  simp only at made
  split at made
  · contradiction
  · next calm =>
    refine ⟨by simpa using calm, ?_⟩
    rw [← Except.ok.inj made]
    simp [State.destroyVector, State.set, State.fill, bare]

theorem supplied_heap (ledger : Ledger s) (bare : (s.buffer this).pool = {} ∧ (s.buffer this).heapVec = {})
    (large : kKernelBufSboSize < n) (made : s.allocateHeap env this n = .ok t) :
    Supplied this n s (t.setSize this n) := by
  obtain ⟨-, rfl⟩ := allocateHeap_ok bare.2 made
  have had : (s.buffer this).pieces = [] := by
    rw [KernelBuf.pieces, bare.1, bare.2]
    rfl
  have has : KernelBuf.pieces { s.buffer this with
      storageTag := .kHeap, heapVec := { elements := some ⟨n, s.obtained.length⟩ } } =
      [.array ⟨n, s.obtained.length⟩] := by
    rw [KernelBuf.pieces, bare.1]
    rfl
  have granted := ledger.obtain (f := fun buf =>
    { buf with storageTag := .kHeap, heapVec := { elements := some ⟨n, s.obtained.length⟩ } })
    (.array ⟨n, s.obtained.length⟩) rfl had has (by rintro _ ⟨⟩)
  refine ⟨(granted.fill _ _).set rfl, fun b different => ?_, ?_, ?_, ?_, ?_,
    ⟨.array ⟨n, s.obtained.length⟩, ?_⟩, fun small => absurd large (Nat.not_lt.mpr small), fun place _ older => ?_⟩
  · rw [State.setSize, set_buffer_of_ne different]
    exact Function.update_of_ne different _ _
  · simp [State.setSize]
  · simp [State.setSize]
  · simp [State.setSize, Stored, bare.1]
  · simp [State.setSize, Sized, CharVector.length]
  · simp [State.setSize, State.data]
  · refine Function.update_of_ne ?_ _ _
    intro same
    exact absurd (older _ same) (Nat.lt_irrefl _)

theorem allocateStorage_supplied (ledger : Ledger s)
    (bare : (s.buffer this).pool = {} ∧ (s.buffer this).heapVec = {})
    (made : s.allocateStorage env this n = .ok t) : Supplied this n s t := by
  unfold State.allocateStorage at made
  split at made
  · next small =>
    rw [← Except.ok.inj made]
    exact supplied_sbo ledger bare small
  · next large =>
    have large := Nat.lt_of_not_le large
    have vector : (s.allocateHeap env this n).map (·.setSize this n) = .ok t → Supplied this n s t := by
      intro made
      cases allocated : s.allocateHeap env this n with
      | error u => rw [allocated] at made; contradiction
      | ok u =>
        rw [allocated] at made
        rw [← Except.ok.inj made]
        exact supplied_heap ledger bare large allocated
    split at made
    · split at made
      · next grant u answered =>
        rw [← Except.ok.inj made]
        have granted := supplied_pool env ledger bare large (congrArg Prod.fst answered)
        rw [answered] at granted
        exact granted
      · next u answered =>
        have same := allocate_none (congrArg Prod.fst answered)
        rw [answered] at same
        rw [show u = s from same] at made
        exact vector made
    · exact vector made

/-- One object has what the other had, which is left without. -/
structure Moved (this other : Object) (s t : State) : Prop where
  ledger : Ledger t
  target : t.buffer this = { s.buffer this with
    storageTag := (s.buffer other).storageTag, pool := (s.buffer other).pool, heapVec := (s.buffer other).heapVec }
  source : t.buffer other = { s.buffer other with storageTag := .kNone, pool := {}, heapVec := {} }
  others : ∀ b, b ≠ this → b ≠ other → t.buffer b = s.buffer b

theorem moveStorageFrom_moved (ledger : Ledger s) (different : this ≠ other)
    (bare : (s.buffer this).pool = {} ∧ (s.buffer this).heapVec = {}) (stored : Stored (s.buffer other)) :
    Moved this other s (s.moveStorageFrom this other) := by
  have had : (s.buffer this).pieces = [] := by
    rw [KernelBuf.pieces, bare.1, bare.2]
    rfl
  have tagged : Ledger (s.set this fun buf => { buf with storageTag := (s.buffer other).storageTag }) :=
    ledger.set rfl
  unfold State.moveStorageFrom
  unfold Stored at stored
  split at stored
  case h_1 tag =>
    simp only [tag] at tagged ⊢
    refine ⟨tagged.set rfl, ?_, ?_, fun b here there => ?_⟩
    · rw [set_buffer_of_ne different, set_buffer_self, tag, stored.1, stored.2, ← bare.1, ← bare.2]
    · rw [set_buffer_self, set_buffer_of_ne different.symm, ← stored.1, ← stored.2]
    · rw [set_buffer_of_ne there, set_buffer_of_ne here]
  case h_2 tag =>
    simp only [tag] at tagged ⊢
    refine ⟨(tagged.fill _ _).set rfl, ?_, ?_, fun b here there => ?_⟩
    · rw [set_buffer_of_ne different, State.memcpy, fill_buffer, set_buffer_self, tag, stored.1, stored.2, ← bare.1,
        ← bare.2]
    · rw [set_buffer_self, State.memcpy, fill_buffer, set_buffer_of_ne different.symm, ← stored.1, ← stored.2]
    · rw [set_buffer_of_ne there, State.memcpy, fill_buffer, set_buffer_of_ne here]
  case h_3 tag =>
    obtain ⟨⟨grant, pool⟩, empty⟩ := stored
    simp only [tag] at tagged ⊢
    refine ⟨(tagged.hand different ?_ ?_ ?_).set rfl, ?_, ?_, fun b here there => ?_⟩
    · rw [set_buffer_self]
      exact had
    · rw [set_buffer_self, set_buffer_of_ne different.symm, KernelBuf.pieces, KernelBuf.pieces, bare.2, empty]
    · rw [set_buffer_of_ne different.symm, KernelBuf.pieces, empty]
      rfl
    · rw [set_buffer_of_ne different, set_buffer_of_ne different, set_buffer_self, set_buffer_self, tag, empty, ← bare.2]
    · rw [set_buffer_self, set_buffer_self, set_buffer_of_ne different.symm, set_buffer_of_ne different.symm, ← empty]
    · rw [set_buffer_of_ne there, set_buffer_of_ne there, set_buffer_of_ne here, set_buffer_of_ne here]
  case h_4 tag =>
    obtain ⟨empty, region, vec⟩ := stored
    simp only [tag, vec] at tagged ⊢
    refine ⟨(tagged.hand different ?_ ?_ ?_).set rfl, ?_, ?_, fun b here there => ?_⟩
    · rw [set_buffer_self]
      exact had
    · rw [set_buffer_self, set_buffer_of_ne different.symm, KernelBuf.pieces, KernelBuf.pieces, bare.1, empty, vec]
    · rw [set_buffer_of_ne different.symm, KernelBuf.pieces, empty]
      rfl
    · rw [set_buffer_of_ne different, set_buffer_of_ne different, set_buffer_self, set_buffer_self, tag, vec, empty,
        ← bare.1]
    · rw [set_buffer_self, set_buffer_self, set_buffer_of_ne different.symm, set_buffer_of_ne different.symm, ← empty]
    · rw [set_buffer_of_ne there, set_buffer_of_ne there, set_buffer_of_ne here, set_buffer_of_ne here]

/-! ### The operations -/

theorem Emptied.bare (emptied : Emptied env this s t) :
    (t.buffer this).pool = {} ∧ (t.buffer this).heapVec = {} := by
  rw [emptied.buffer, Function.update_self]
  exact ⟨rfl, rfl⟩

theorem Emptied.others (emptied : Emptied env this s t) (different : b ≠ this) : t.buffer b = s.buffer b := by
  rw [emptied.buffer, Function.update_of_ne different]

/-- A new object with nothing yet. -/
theorem Ledger.create {buf : KernelBuf} (ledger : Ledger s) (had : (s.buffer this).pieces = [])
    (bare : buf.pieces = []) : Ledger (s.create this buf) :=
  (ledger.set (bare.trans had.symm)).fill _ _

theorem create_buffer_self {buf : KernelBuf} : (s.create this buf).buffer this = buf :=
  Function.update_self _ _ _

theorem create_buffer_of_ne {buf : KernelBuf} (different : b ≠ this) :
    (s.create this buf).buffer b = s.buffer b :=
  Function.update_of_ne different _ _

theorem create_allocate (s : State) (env : Environment) (this : Object) (n : Nat) (buf : KernelBuf) :
    ((s.create this buf).allocate env n).1 = (s.allocate env n).1 := by
  unfold State.allocate
  cases env.block with
  | none => rfl
  | some slot =>
    have spare : (s.create this buf).Spare slot ↔ s.Spare slot := Iff.rfl
    simp only [spare]
    split <;> rfl

theorem Placed.cleared {buf : KernelBuf} (tag : buf.storageTag = .kNone) (size : buf.size = 0)
    (bare : buf.pool = {} ∧ buf.heapVec = {}) : Placed buf := by
  refine ⟨fun _ => ?_, fun _ => ?_, fun _ => ?_⟩
  · rw [Stored, tag]
    exact bare
  · rw [Sized, tag]
    exact size
  · rw [KernelBuf.pieces, bare.1, bare.2]
    rfl

/-- Everything but the parts that hold storage may differ. -/
theorem Placed.congr {buf buf' : KernelBuf} (stored : Stored buf) (sized : Sized buf) (alive : buf'.alive = true)
    (tag : buf'.storageTag = buf.storageTag) (pool : buf'.pool = buf.pool) (vec : buf'.heapVec = buf.heapVec)
    (size : buf'.size = buf.size) : Placed buf' := by
  refine ⟨fun _ => ?_, fun _ => ?_, fun dead => absurd (dead.symm.trans alive) nofun⟩
  · rw [Stored, tag, pool, vec]
    exact stored
  · rw [Sized, tag, pool, vec, size]
    exact sized

theorem Valid.construct (valid : Valid s) (dead : (s.buffer this).alive = false)
    (made : s.construct env this n = .ok t) : Valid t := by
  have had := (valid.placed this).bare dead
  have ledger : Ledger (s.create this { size := n }) := valid.ledger.create had rfl
  have allocated : (s.create this { size := n }).allocateStorage env this n = .ok t := by
    unfold State.construct at made
    cases outcome : (s.create this { size := n }).allocateStorage env this n with
    | error u => rw [outcome] at made; contradiction
    | ok u => rw [outcome] at made; exact made
  have supplied := allocateStorage_supplied ledger (by rw [create_buffer_self]; exact ⟨rfl, rfl⟩) allocated
  refine ⟨supplied.ledger, fun b => ?_⟩
  by_cases here : b = this
  · subst here
    refine .congr supplied.stored supplied.sized ?_ rfl rfl rfl rfl
    rw [supplied.alive, create_buffer_self]
  · rw [supplied.others b here, create_buffer_of_ne here]
    exact valid.placed b

/-- The last lines of both moves, from an object that has nothing. -/
theorem Valid.take {middle : State} (valid : Valid s) (different : this ≠ other)
    (alive : (s.buffer other).alive = true) (ledger : Ledger middle)
    (others : ∀ b, b ≠ this → middle.buffer b = s.buffer b)
    (bare : (middle.buffer this).pool = {} ∧ (middle.buffer this).heapVec = {})
    (existing : (middle.buffer this).alive = true)
    (size : (middle.buffer this).size = (s.buffer other).size) :
    Valid ((middle.moveStorageFrom this other).clear other) := by
  have same := others other different.symm
  have stored := (valid.placed other).stored alive
  have sized := (valid.placed other).sized alive
  have moved := moveStorageFrom_moved ledger different bare (same ▸ stored)
  refine ⟨moved.ledger.set rfl, fun b => ?_⟩
  by_cases source : b = other
  · subst source
    rw [State.clear, set_buffer_self, moved.source]
    exact .cleared rfl rfl ⟨rfl, rfl⟩
  rw [State.clear, set_buffer_of_ne source]
  by_cases target : b = this
  · subst target
    rw [moved.target, same]
    exact .congr stored sized existing rfl rfl rfl size
  · rw [moved.others b target source, others b target]
    exact valid.placed b

theorem Valid.moveConstruct (valid : Valid s) (dead : (s.buffer this).alive = false)
    (alive : (s.buffer other).alive = true) : Valid (s.moveConstruct this other) := by
  have different : this ≠ other := by
    rintro rfl
    exact absurd (dead.symm.trans alive) nofun
  refine valid.take different alive (valid.ledger.create ((valid.placed this).bare dead) rfl)
    (fun b => create_buffer_of_ne) ?_ ?_ ?_ <;> rw [create_buffer_self]
  exact ⟨rfl, rfl⟩

theorem Valid.moveAssign (valid : Valid s) (existing : (s.buffer this).alive = true)
    (alive : (s.buffer other).alive = true) : Valid (s.moveAssign env this other) := by
  unfold State.moveAssign
  split
  · exact valid
  · next different =>
    have emptied := destroyStorage_emptied env valid.ledger ((valid.placed this).stored existing)
    have bare := emptied.bare
    refine valid.take different alive (emptied.ledger.set rfl) (fun b here => ?_) ?_ ?_ ?_
    · rw [set_buffer_of_ne here]
      exact emptied.others here
    · rw [set_buffer_self]
      exact bare
    · rw [set_buffer_self, emptied.buffer, Function.update_self]
      exact existing
    · rw [set_buffer_self]

/-- With a tag there is something that `Data()` points to. -/
theorem data_some (stored : Stored (s.buffer b)) (tagged : (s.buffer b).storageTag ≠ .kNone) :
    ∃ place, s.data b = some place := by
  unfold Stored at stored
  unfold State.data
  split at stored
  case h_1 tag => exact absurd tag tagged
  case h_2 tag => exact ⟨.sbo b, by rw [tag]⟩
  case h_3 tag =>
    obtain ⟨⟨grant, pool⟩, -⟩ := stored
    exact ⟨.block grant.slot, by rw [tag, pool]; rfl⟩
  case h_4 tag =>
    obtain ⟨-, region, vec⟩ := stored
    exact ⟨.array region, by rw [tag, vec]; rfl⟩

/-- `Resize` that changes the size: the old storage is gone before the new one is
filled from it. -/
theorem resize_ok (ledger : Ledger s) (stored : Stored (s.buffer this))
    (changes : ¬ (n = (s.buffer this).size ∧ (s.buffer this).storageTag ≠ .kNone))
    (resized : s.resize env this n = .ok t) :
    ∃ u place, Supplied this n (s.destroyStorage env this) u ∧ u.data this = some place ∧
      t = State.setSize (if s.data this ≠ none ∧ 0 < min n (s.buffer this).size
        then u.memcpy (some place) (s.data this) (min n (s.buffer this).size) else u) this n := by
  have emptied := destroyStorage_emptied env ledger stored
  simp only [State.resize, changes, if_false] at resized
  cases outcome : (s.destroyStorage env this).allocateStorage env this n with
  | error u => rw [outcome] at resized; contradiction
  | ok u =>
    rw [outcome] at resized
    have supplied := allocateStorage_supplied emptied.ledger (emptied.bare) outcome
    obtain ⟨place, here⟩ := supplied.data
    refine ⟨u, place, supplied, here, ?_⟩
    rw [← here]
    exact (Except.ok.inj resized).symm

theorem Ledger.memcpy (ledger : Ledger s) (target source : Place) (count : Nat) :
    Ledger (s.memcpy (some target) (some source) count) := ledger.fill _ _

theorem Valid.resize (valid : Valid s) (existing : (s.buffer this).alive = true)
    (resized : s.resize env this n = .ok t) : Valid t := by
  by_cases same : n = (s.buffer this).size ∧ (s.buffer this).storageTag ≠ .kNone
  · simp only [State.resize, same, and_self, if_true, not_false_eq_true, ne_eq] at resized
    rw [← Except.ok.inj resized]
    exact valid
  have stored := (valid.placed this).stored existing
  have emptied := destroyStorage_emptied env valid.ledger stored
  obtain ⟨u, place, supplied, -, rfl⟩ := resize_ok valid.ledger stored same resized
  have copied : ∀ c : State, c.buffer = u.buffer → Ledger c → Valid (c.setSize this n) := by
    intro c buffer ledger
    refine ⟨ledger.set rfl, fun b => ?_⟩
    by_cases here : b = this
    · subst here
      rw [State.setSize, set_buffer_self, buffer]
      refine .congr supplied.stored supplied.sized ?_ rfl rfl rfl supplied.size.symm
      exact supplied.alive.trans (by rw [emptied.buffer, Function.update_self]; exact existing)
    · rw [State.setSize, set_buffer_of_ne here, buffer, supplied.others b here, emptied.others here]
      exact valid.placed b
  split
  · next old =>
    obtain ⟨source, there⟩ := Option.ne_none_iff_exists'.mp old.1
    rw [there]
    exact copied _ rfl (supplied.ledger.memcpy place source _)
  · exact copied u rfl supplied.ledger

theorem Valid.destruct (valid : Valid s) (existing : (s.buffer this).alive = true) :
    Valid (s.destruct env this) := by
  have emptied := destroyStorage_emptied env valid.ledger ((valid.placed this).stored existing)
  have bare := emptied.bare
  have destroyed : (s.destroyStorage env this).destroyVector env this =
      (s.destroyStorage env this).set this fun buf => { buf with heapVec := { alive := false } } := by
    simp only [State.destroyVector, bare.2, if_true]
  have gone : (KernelBuf.pieces { (s.destroyStorage env this).buffer this with heapVec := { alive := false } }) =
      [] := by
    rw [KernelBuf.pieces, bare.1]
    rfl
  have ledger : Ledger ((s.destroyStorage env this).set this fun buf =>
      { buf with heapVec := { alive := false } }) := by
    refine emptied.ledger.set ?_
    rw [gone, KernelBuf.pieces, bare.1, bare.2]
    rfl
  rw [State.destruct, State.discard, destroyed]
  refine ⟨ledger.set rfl, fun b => ?_⟩
  by_cases here : b = this
  · subst here
    rw [set_buffer_self, set_buffer_self]
    exact ⟨nofun, nofun, fun _ => gone⟩
  · rw [set_buffer_of_ne here, set_buffer_of_ne here, emptied.others here]
    exact valid.placed b

theorem Valid.write {index : Nat} {byte : UInt8} (valid : Valid s) (existing : (s.buffer this).alive = true)
    (inside : index < (s.buffer this).size) (written : perform env s (.write this index byte) = .ok t) : Valid t := by
  have tagged : (s.buffer this).storageTag ≠ .kNone := by
    intro none_
    have sized := (valid.placed this).sized existing
    rw [Sized, none_] at sized
    omega
  obtain ⟨place, there⟩ := data_some ((valid.placed this).stored existing) tagged
  simp only [perform, there, Except.ok.injEq] at written
  subst written
  exact ⟨valid.ledger.fill _ _, valid.placed⟩

theorem valid_start : Valid {} := by
  refine ⟨⟨⟨fun k => ?_, fun k k' piece here => ?_, fun piece => ⟨nofun, ?_⟩⟩, nofun, nofun, nofun, nofun, rfl⟩,
    fun b => ⟨nofun, nofun, fun _ => rfl⟩⟩
  · cases k <;> exact List.nodup_nil
  · cases k <;> contradiction
  · rintro ⟨k, member⟩
    cases k <;> contradiction

theorem Reaches.valid (run : Reaches s) : Valid s := by
  induction run with
  | start => exact valid_start
  | step op env earlier permitted performed ih =>
    cases op with
    | construct this sz => exact ih.construct permitted performed
    | moveConstruct this other =>
      rw [← Except.ok.inj performed]
      exact ih.moveConstruct permitted.1 permitted.2
    | moveAssign this other =>
      rw [← Except.ok.inj performed]
      exact ih.moveAssign permitted.1 permitted.2
    | resize this newSize => exact ih.resize permitted performed
    | destruct this =>
      rw [← Except.ok.inj performed]
      exact ih.destruct permitted
    | write this index byte => exact ih.write permitted.1 permitted.2 performed

/-! ### The pool behind the buffers -/

section
variable {ι : Type} {behind : Shared ι} {grant : Grant}

/-- The callers of the pool hold the blocks that the buffers have, among others. -/
def Backing (behind : Shared ι) (s : State) : Prop :=
  ∀ grant, .block grant ∈ s.obtained → .block grant ∉ s.given → (grant.request, grant.slot) ∈ behind.held

/-- What an object has is known and not given back. -/
theorem Ledger.out {piece : Piece} (ledger : Ledger s) (has : piece ∈ (s.buffer b).pieces) :
    piece ∈ s.obtained ∧ piece ∉ s.given := by
  refine ⟨ledger.custody.known (a := .buffer b) has, fun given => ?_⟩
  exact absurd (ledger.custody.apart (.buffer b) .given piece has given) nofun

theorem mem_pieces_block {buf : KernelBuf} : .block grant ∈ buf.pieces ↔ buf.pool.data = some grant := by
  simp [KernelBuf.pieces]

/-- `DestroyStorage` calls the pool as it has to be called. -/
theorem Valid.deallocate_permitted [DecidableEq ι] (valid : Valid s) (backing : Backing behind s)
    (existing : (s.buffer this).alive = true) (has : (s.buffer this).pool.data = some grant) :
    BufferPool.Permitted behind (.deallocate (some grant.slot) (s.buffer this).pool.allocSize grant.request) := by
  obtain ⟨known, out⟩ := valid.ledger.out (mem_pieces_block.mpr has)
  have stored := (valid.placed this).stored existing
  have size : (s.buffer this).pool.allocSize = grant.request := by
    unfold Stored at stored
    split at stored
    case h_3 tag =>
      obtain ⟨⟨held, pool⟩, -⟩ := stored
      rw [pool] at has ⊢
      rw [Option.some.inj has]
    all_goals
      rw [stored.1] at has
      contradiction
  rintro slot ⟨⟩
  exact ⟨backing grant known out, by rw [size]⟩

/-- And the pool answers as `State.allocate` has it. -/
theorem answer_spare [DecidableEq ι] {pool : Threads ι} {bytes : Nat} {slot : Slot Class}
    (path : Pool.Reaches code (fun _ _ => True) start pool) (backing : Backing behind s)
    (answered : pool.shared.held = (bytes, slot) :: behind.held) : classOf bytes = some slot.pool ∧ s.Spare slot := by
  have valid := reaches_valid path
  have distinct : (pool.shared.held.map Prod.snd).Nodup := valid.custody.once .held
  rw [answered, List.map_cons, List.nodup_cons] at distinct
  refine ⟨valid.answered (bytes, slot) (by rw [answered]; exact List.mem_cons_self), fun piece known same => ?_⟩
  cases piece with
  | array region => contradiction
  | block grant =>
    by_contra out
    cases Option.some.inj same
    exact distinct.1 (List.mem_map.mpr ⟨_, backing grant known out, rfl⟩)

end

/-! ### What clients rely on -/

/-- The object has the block. -/
def Holds (s : State) (b : Object) (grant : Grant) : Prop :=
  (s.buffer b).alive = true ∧ (s.buffer b).storageTag = .kPool ∧ (s.buffer b).pool.data = some grant

/-- There are that many bytes at the place, for as long as its owner has it. -/
def State.Backs (s : State) (count : Nat) : Place → Prop
  | .sbo this => (s.buffer this).alive = true ∧ count ≤ kKernelBufSboSize
  | .block slot => ∃ grant, .block grant ∈ s.obtained ∧ .block grant ∉ s.given ∧ grant.slot = slot ∧
      count ≤ blockSize slot.pool
  | .array region => .array region ∈ s.obtained ∧ .array region ∉ s.given ∧ count ≤ region.length

structure Consistent (s : State) : Prop where
  sized : ∀ b, (s.buffer b).alive = true → Sized (s.buffer b)
  /-- `Data()` is null only for an empty buffer. -/
  backed : ∀ b, (s.buffer b).alive = true →
    (s.data b = none → (s.buffer b).size = 0) ∧ ∀ place ∈ s.data b, s.Backs (s.buffer b).size place
  exclusive : ∀ b b' grant grant', Holds s b grant → Holds s b' grant' → grant.slot = grant'.slot → b = b'
  /-- A block of the pool is with an object, or has been given back, -/
  settled : ∀ grant, .block grant ∈ s.obtained → (.block grant ∈ s.given ↔ ¬ ∃ b, Holds s b grant)
  /-- once and with a size of its class. -/
  once : s.given.Nodup
  classed : ∀ grant bytes, .deallocate grant bytes ∈ s.returns →
    .block grant ∈ s.obtained ∧ classOf bytes = some grant.slot.pool

theorem mem_pieces_array {buf : KernelBuf} {region : Region} :
    .array region ∈ buf.pieces ↔ buf.heapVec.elements = some region := by
  simp [KernelBuf.pieces]

/-- Only an object with the tag has a block. -/
theorem Placed.holds {grant : Grant} (placed : Placed (s.buffer b)) (has : (s.buffer b).pool.data = some grant) :
    Holds s b grant := by
  by_cases alive : (s.buffer b).alive = true
  · refine ⟨alive, ?_, has⟩
    have stored := placed.stored alive
    unfold Stored at stored
    split at stored
    case h_3 tag => exact tag
    all_goals
      rw [stored.1] at has
      contradiction
  · have bare := placed.bare (by simpa using alive)
    have member := mem_pieces_block.mpr has
    rw [bare] at member
    contradiction

theorem Valid.backed (valid : Valid s) (alive : (s.buffer b).alive = true) :
    (s.data b = none → (s.buffer b).size = 0) ∧ ∀ place ∈ s.data b, s.Backs (s.buffer b).size place := by
  have stored := (valid.placed b).stored alive
  have sized := (valid.placed b).sized alive
  constructor
  · intro null
    by_contra positive
    have tagged : (s.buffer b).storageTag ≠ .kNone := by
      intro none_
      rw [Sized, none_] at sized
      exact positive sized
    obtain ⟨place, there⟩ := data_some stored tagged
    exact absurd (null.symm.trans there) nofun
  intro place there
  unfold State.data at there
  unfold Stored at stored
  unfold Sized at sized
  split at stored
  case h_1 tag => simp [tag] at there
  case h_2 tag =>
    simp only [tag, Option.mem_some_iff] at there sized
    subst there
    exact ⟨alive, sized⟩
  case h_3 tag =>
    obtain ⟨⟨grant, pool⟩, -⟩ := stored
    simp only [tag, pool, Option.map_some, Option.mem_some_iff] at there sized
    subst there
    obtain ⟨known, out⟩ := valid.ledger.out (b := b) (mem_pieces_block.mpr (by rw [pool]))
    refine ⟨grant, known, out, rfl, ?_⟩
    rw [← sized]
    exact (classOf_smallest (valid.ledger.fits grant known)).1
  case h_4 tag =>
    obtain ⟨-, region, vec⟩ := stored
    simp only [tag, vec, Option.map_some, Option.mem_some_iff] at there sized
    subst there
    obtain ⟨known, out⟩ := valid.ledger.out (b := b) (mem_pieces_array.mpr (by rw [vec]))
    refine ⟨known, out, Nat.le_of_eq sized.symm⟩

theorem Valid.settled {grant : Grant} (valid : Valid s) (known : .block grant ∈ s.obtained) :
    .block grant ∈ s.given ↔ ¬ ∃ b, Holds s b grant := by
  constructor
  · rintro given ⟨b, -, -, has⟩
    exact (valid.ledger.out (b := b) (mem_pieces_block.mpr has)).2 given
  · intro unheld
    obtain ⟨k, kept⟩ := (valid.ledger.custody.total _).mp known
    cases k with
    | given => exact kept
    | buffer b => exact absurd ⟨b, (valid.placed b).holds (mem_pieces_block.mp kept)⟩ unheld

theorem Valid.exclusive {b' : Object} {grant grant' : Grant} (valid : Valid s) (first : Holds s b grant)
    (second : Holds s b' grant') (same : grant.slot = grant'.slot) : b = b' := by
  have here := mem_pieces_block.mpr first.2.2
  have there := mem_pieces_block.mpr second.2.2
  obtain ⟨known, out⟩ := valid.ledger.out here
  obtain ⟨known', out'⟩ := valid.ledger.out there
  have equal := valid.ledger.single grant grant' known known' out out' same
  subst equal
  exact Keeper.buffer.inj (valid.ledger.custody.apart (.buffer b) (.buffer b') (.block grant) here there)

/-- In every run of clients, whatever the pool answers, the buffers are
consistent. -/
theorem reaches_consistent (run : Reaches s) : Consistent s := by
  have valid := run.valid
  refine ⟨fun b => (valid.placed b).sized, fun b => valid.backed, fun b b' grant grant' => valid.exclusive,
    fun grant => valid.settled, valid.ledger.custody.once .given, fun grant bytes returned => ?_⟩
  have given : Piece.block grant ∈ s.given := List.mem_map.mpr ⟨_, returned, rfl⟩
  have known := valid.ledger.custody.known (a := .given) given
  have same : classForSize bytes = classForSize grant.request := valid.ledger.classed _ returned
  exact ⟨known, (classOf_eq same).trans (valid.ledger.fits grant known)⟩

/-- A block of 512 bytes. -/
def mediumBlock : Slot Class := ⟨⟨3, by decide⟩, 0, 4096⟩

/-- A buffer moves to another object, and the first one is resized. -/
theorem moved_from_consistent : ∃ s t : State,
    ({} : State).construct { block := some mediumBlock } 1 300 = .ok s ∧
    (s.moveConstruct 2 1).resize {} 1 10 = .ok t ∧ t.data 2 = some (.block mediumBlock) ∧
    t.data 1 = some (.sbo 1) ∧ Consistent t := by
  have first : Reaches _ := .step (.construct 1 300) { block := some mediumBlock } .start rfl rfl
  have second : Reaches _ := .step (.moveConstruct 2 1) {} first (by decide) rfl
  have third : Reaches _ := .step (.resize 1 10) {} second (by decide) rfl
  exact ⟨_, _, rfl, rfl, by decide, by decide, reaches_consistent third⟩

end Talon.Buffer
