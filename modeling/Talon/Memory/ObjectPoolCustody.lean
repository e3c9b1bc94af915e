import Talon.Memory.ObjectPoolProofs

/-! What the invariant says of `ObjectPool<T>`: with one instance every slot is in
one place; with several, a pool keeps to its own slots as long as its callers
meet clean caches, and not beyond. -/
namespace Talon.Memory.ObjectPool
open Interleaving

abbrev Threads (ι Q : Type) :=
  Pool ι (Shared ι Q) (Choice (Action Q) Q) (Procedure Q) (Option (Slot Q))

variable {ι Q : Type}

/-- A single instance meets only its own slots. -/
theorem unmixed_unit (s t : Shared ι Unit) : Unmixed s t := by
  intro i action _
  cases action with
  | construct p => exact fun slot _ other => absurd rfl other
  | acquire p => exact fun slot _ => rfl
  | release p obj | releaseMemory p obj => exact fun _ _ slot _ => rfl
  | destroy | overwrite => trivial

/-- A byte count that does not wrap is the room for its slots. -/
theorem counts_filled {config : Config Q} {a : Allocation Q} (counts : (layout (ι := ι) config).counts a)
    (capacity : objSize config.sizeofT * config.capacity a.pool < 2 ^ 64)
    (growBatch : objSize config.sizeofT * config.growBatch a.pool < 2 ^ 64) :
    (layout (ι := ι) config).slotBytes a.pool * a.count = a.bytes := by
  simp only [layout] at counts ⊢
  split at counts
  · obtain ⟨bytes, count | count⟩ := counts
    · rw [bytes, byteCount, count, Nat.mod_eq_of_lt capacity]
    · rw [bytes, byteCount, count, Nat.mod_eq_of_lt growBatch]
  · rw [counts.1, counts.2, Nat.mul_one]

variable [DecidableEq ι]

/-- The walk from a linked slot is one run to the last of them. -/
theorem runs_walk [DecidableEq Q] {config : Config Q} {i : ι} {s : Shared ι Q} {tail last : Slot Q}
    {rest : List (Slot Q)} (linked : Linked s.next (some tail) rest) (ends : rest.getLast? = some last) :
    Runs (code config i) (walk tail) s (some last) s := by
  induction rest generalizing tail with
  | nil => exact absurd linked nofun
  | cons node rest ih =>
    obtain ⟨same, linked⟩ := linked
    cases Option.some.inj same
    let _ : Inhabited (Choice (Action Q) Q) := ⟨⟨.overwrite node, none, none⟩⟩
    cases rest with
    | nil =>
      have null : s.next node = none := linked
      have only : last = node := Option.some.inj ends.symm
      simp only [walk, runs_load_bind, null, runs_pure, only, and_self]
    | cons next rest =>
      have points : s.next node = some next := linked.1
      rw [List.getLast?_cons_cons] at ends
      simp only [walk, runs_load_bind, points, runs_enter]
      exact ih (points ▸ linked) ends

/-- One instance of `ObjectPool<T>` at work. -/
structure Intact (config : Config Unit) (pool : Threads ι Unit) : Prop where
  /-- The links of the free list spell out its slots, null terminated. -/
  linked : Linked pool.shared.next (pool.shared.head ()) (pool.shared.freed ())
  /-- Every slot ever made is in one place: the free list, one thread's cache, a
  caller's hands or one operation's, -/
  place : ∀ slot ∈ pool.shared.carved, ∃! place, place ≠ .lost ∧ slot ∈ pool.shared.contents place
  /-- it is there once, and nothing else is. -/
  once : ∀ place, (pool.shared.contents place).Nodup ∧
    ∀ slot ∈ pool.shared.contents place, slot ∈ pool.shared.carved
  /-- No two slots share a byte. -/
  apart : ∀ slot ∈ pool.shared.carved, ∀ other ∈ pool.shared.carved, slot ≠ other →
    Apart slot.address (objSize config.sizeofT) other.address (objSize config.sizeofT)
  /-- At the tail walk, the flushed slots are linked in order and null terminated,
  and the walk ends at the last one. -/
  walks : ∀ i tail next, pool.thread i = .call (.walk tail) next →
    Linked pool.shared.next (pool.shared.chain i).head? (pool.shared.chain i) ∧
    ∃ last, (pool.shared.chain i).getLast? = some last ∧
      Runs (code config i) (walk tail) pool.shared (some last) pool.shared
  /-- An operation that has returned has put every slot away. -/
  returned : ∀ i next, pool.thread i = .call .client next →
    pool.shared.hand i = none ∧ pool.shared.chain i = []
  sound : pool.shared.faulted = false

theorem single_instance_intact {config : Config Unit} {pool : Threads ι Unit}
    (capacity : objSize config.sizeofT * config.capacity () < 2 ^ 64)
    (growBatch : objSize config.sizeofT * config.growBatch () < 2 ^ 64)
    (path : Pool.Reaches (code config) (fun _ _ => True) start pool)
    (alive : pool.shared.own.status () = .alive) : Intact config pool := by
  obtain ⟨valid, entered⟩ := reaches_valid (path.mono fun s t _ => unmixed_unit s t)
  have living : ∀ p, ¬ (layout (ι := ι) config).gone pool.shared.own p := by
    intro p gone
    have dead := alive.symm.trans gone
    contradiction
  have live : ∀ a ∈ pool.shared.heap, a.live = true := fun a member =>
    (valid.backed a member).resolve_right (living _)
  have filled : ∀ a ∈ pool.shared.heap, (layout (ι := ι) config).slotBytes a.pool * a.count = a.bytes :=
    fun a member => counts_filled (valid.counted a member).1 capacity growBatch
  refine ⟨valid.linked (), fun slot member => ?_, fun place => ?_, fun slot member other member' => ?_,
    fun i tail next calls => ?_, fun i next calls => entered i _ next calls, valid.sound⟩
  · obtain ⟨place, kept, only⟩ := valid.custody.unique member
    refine ⟨place, ⟨?_, kept⟩, fun other there => only other there.2⟩
    rintro rfl
    exact living _ (valid.forgotten slot kept)
  · exact ⟨valid.custody.once place, fun slot => valid.custody.known⟩
  · exact valid.slots_apart live filled member member'
  · obtain ⟨whole, front, rest, chain, linked⟩ := entered i _ next calls
    have owned : ∀ n ∈ pool.shared.chain i, pool.shared.next n = (pool.shared.view i).links n := by
      intro n member
      simp only [Arena.view, member, if_true]
    have inChain : ∀ n ∈ rest, n ∈ pool.shared.chain i := by
      intro n member
      have joined : pool.shared.chain i = front ++ rest := chain
      rw [joined]
      exact List.mem_append_right _ member
    have walked := linked.congr fun n member => owned n (inChain n member)
    obtain ⟨last, ends⟩ : ∃ last, rest.getLast? = some last := by
      cases rest with
      | nil => contradiction
      | cons first others => exact ⟨_, List.getLast?_cons⟩
    refine ⟨whole.congr owned, last, ?_, runs_walk walked ends⟩
    have joined : pool.shared.chain i = front ++ rest := chain
    rw [joined, List.getLast?_append, ends]
    rfl

/-- A pool of one slot that cannot grow: further slots are allocated on their own. -/
def onePool : Config Unit := ⟨64, fun _ => 1, fun _ => 0⟩

/-- The pool's slot, and the n-th that is allocated on its own. -/
def singleSlot (n : Nat) : Slot Unit := ⟨(), 2 * n, 64 * (n + 1)⟩

def calls {ι Q : Type} (i : ι) (n : Nat) (action : Action Q) (address : Option Nat) :
    List (ι × Choice (Action Q) Q) :=
  List.replicate n (i, ⟨action, address, none⟩)

/-- One thread has the pool's slot. Another acquires 33 and releases them, one more than its
cache takes. -/
def sharedSlotSchedule : List (Bool × Choice (Action Unit) Unit) :=
  let acquires (n : Nat) := calls true 8 (.acquire ()) (some (singleSlot n).address)
  let releases (n steps : Nat) := calls true steps (.release () (some (singleSlot n))) none
  calls false 7 (.construct ()) (some 64) ++ calls false 5 (.acquire ()) none ++
    (List.range' 1 33).flatMap acquires ++ (List.range' 1 32).flatMap (fun n => releases n 5) ++ releases 33 89

theorem onePool_intact : ∃ pool : Threads Bool Unit,
    Pool.Reaches (code onePool) (fun _ _ => True) start pool ∧ pool.shared.held = [((), singleSlot 0)] ∧
    (pool.shared.freed ()).length = 16 ∧ (pool.shared.cache true ()).count = 17 ∧ Intact onePool pool := by
  have executed : (Pool.run (code onePool) (fun _ _ => true) sharedSlotSchedule start).map
      (fun p => (p.shared.own.status (), p.shared.held, (p.shared.freed ()).length,
        (p.shared.cache true ()).count)) = some (.alive, [((), singleSlot 0)], 16, 17) := by
    decide +kernel
  obtain ⟨pool, run, outcome⟩ := Option.map_eq_some_iff.mp executed
  simp only [Prod.mk.injEq] at outcome
  obtain ⟨alive, held, freed, cached⟩ := outcome
  have path := Pool.reaches_of_run (fun _ _ _ => trivial) run
  exact ⟨pool, path, held, freed, cached, single_instance_intact (by decide) (by decide) path alive⟩

/-- Several instances side by side. -/
structure Separate (config : Config Q) (s : Shared ι Q) : Prop where
  /-- What was acquired from a pool lies in a block that this pool allocated, for
  its storage or for the one slot. -/
  own : ∀ h ∈ s.held, ∃ a, s.heap[h.2.block]? = some a ∧ a.pool = h.1 ∧
    ∃ k < a.count, h.2.address = a.start + k * objSize config.sizeofT
  /-- Every slot of a living pool is in circulation, in one place. -/
  circulates : ∀ slot ∈ s.carved, s.own.status slot.pool = .alive →
    ∃! place, place ≠ .lost ∧ slot ∈ s.contents place
  /-- A free list holds its own pool's slots only. -/
  free : ∀ p, Linked s.next (s.head p) (s.freed p) ∧ ∀ slot ∈ s.freed p, slot.pool = p

/-- Runs in which every call meets a clean cache. -/
theorem unmixed_separate [DecidableEq Q] {config : Config Q} {pool : Threads ι Q}
    (path : Pool.Reaches (code config) Unmixed start pool) : Separate config pool.shared := by
  obtain ⟨valid, _⟩ := reaches_valid path
  refine ⟨fun h member => ?_, fun slot member alive => ?_, fun p => ⟨valid.linked p, valid.sorted p⟩⟩
  · have known := valid.custody.known (a := .held) (List.mem_map_of_mem member)
    obtain ⟨a, found, owner, placed⟩ := valid.mapped h.2 known
    have answered := Option.some.inj (valid.answered h member)
    exact ⟨a, found, owner.trans answered.symm, placed⟩
  · obtain ⟨place, kept, only⟩ := valid.custody.unique member
    refine ⟨place, ⟨?_, kept⟩, fun other there => only other there.2⟩
    rintro rfl
    exact absurd (alive.symm.trans (valid.forgotten slot kept)) nofun

/-- Two pools of one slot each. -/
def twoPools : Config Bool := ⟨64, fun _ => 1, fun _ => 1⟩

def constructBoth : List (Unit × Choice (Action Bool) Bool) :=
  calls () 7 (.construct false) (some 64) ++ calls () 7 (.construct true) (some 128)

/-- The slot at 64 is the first one of pool `false`. -/
def firstSlot : Slot Bool := ⟨false, 0, 64⟩

def recycle : List (Unit × Choice (Action Bool) Bool) :=
  calls () 5 (.acquire false) none ++ calls () 5 (.release false (some firstSlot)) none

theorem twoPools_separate : ∃ pool : Threads Unit Bool,
    Pool.Reaches (code twoPools) Unmixed start pool ∧ pool.shared.held = [(false, firstSlot)] ∧
    Separate twoPools pool.shared := by
  have executed : (Pool.run (code twoPools) unmixed
      (constructBoth ++ recycle ++ calls () 4 (.acquire false) none) start).map
      (fun p => p.shared.held) = some [(false, firstSlot)] := by
    decide +kernel
  obtain ⟨pool, run, held⟩ := Option.map_eq_some_iff.mp executed
  have path := Pool.reaches_of_run unmixed_sound run
  exact ⟨pool, path, held, unmixed_separate path⟩

/-- A slot released to one pool is the next one that the same thread acquires
from another, and the constructor of another pool forgets it. -/
theorem shared_cache_mixes_pools :
    (¬ ∀ pool : Threads Unit Bool, Pool.Reaches (code twoPools) (fun _ _ => True) start pool →
      Separate twoPools pool.shared) ∧
    ¬ ∀ pool : Threads Unit Bool, Pool.Reaches (code twoPools) (fun _ _ => True) start pool →
      ∀ slot ∈ pool.shared.carved, pool.shared.own.status slot.pool = .alive → slot ∉ pool.shared.lost := by
  constructor
  · intro claimed
    have executed : (Pool.run (code twoPools) (fun _ _ => true)
        (constructBoth ++ recycle ++ calls () 4 (.acquire true) none) start).map
        (fun p => (p.shared.held, p.shared.heap[0]?.map Allocation.pool)) =
          some ([(true, firstSlot)], some false) := by
      decide +kernel
    obtain ⟨pool, run, outcome⟩ := Option.map_eq_some_iff.mp executed
    have separate := claimed pool (Pool.reaches_of_run (fun _ _ _ => trivial) run)
    simp only [Prod.mk.injEq] at outcome
    obtain ⟨held, block⟩ := outcome
    obtain ⟨a, found, owner, _⟩ := separate.own (true, firstSlot) (held ▸ List.mem_singleton.mpr rfl)
    have first : pool.shared.heap[0]? = some a := found
    rw [first, Option.map_some, Option.some.injEq] at block
    exact absurd (owner.symm.trans block) nofun
  · intro claimed
    have executed : (Pool.run (code twoPools) (fun _ _ => true)
        (calls () 7 (.construct false) (some 64) ++ recycle ++ calls () 2 (.construct true) none) start).map
        (fun p => (p.shared.carved, p.shared.lost, p.shared.own.status false)) =
          some ([firstSlot], [firstSlot], .alive) := by
      decide +kernel
    obtain ⟨pool, run, outcome⟩ := Option.map_eq_some_iff.mp executed
    simp only [Prod.mk.injEq] at outcome
    obtain ⟨carved, lost, alive⟩ := outcome
    refine claimed pool (Pool.reaches_of_run (fun _ _ _ => trivial) run) firstSlot ?_ alive ?_
    · exact carved ▸ List.mem_singleton.mpr rfl
    · exact lost ▸ List.mem_singleton.mpr rfl

end Talon.Memory.ObjectPool
