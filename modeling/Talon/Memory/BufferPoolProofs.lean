import Talon.Memory.ArenaProofs
import Talon.Memory.BufferPool

/-! `BufferPool` keeps the invariant of the pools in every run: a class's blocks
stay within the class, so each request is served from blocks that are large
enough, and no two blocks overlap. -/
namespace Talon.Memory.BufferPool
open Interleaving Ownership

/-- `ClassForSize` finds the smallest class that is large enough. -/
theorem classOf_smallest {bytes : Nat} {idx : Class} (found : classOf bytes = some idx) :
    bytes ≤ blockSize idx ∧ ∀ smaller : Class, smaller < idx → blockSize smaller < bytes := by
  unfold classOf at found
  split at found
  · rename_i small
    cases Option.some.inj found
    refine ⟨?_, fun smaller below => ?_⟩
    · have holds := List.findIdx_getElem (w := small)
      exact of_decide_eq_true holds
    · have fails := List.not_of_lt_findIdx below
      exact Nat.not_le.mp (of_decide_eq_false fails)
  · contradiction

theorem classOf_large {bytes : Nat} (large : kMaxPooledSize < bytes) : classOf bytes = none := by
  have above : ∀ idx : Class, blockSize idx ≤ kMaxPooledSize := by decide
  cases found : classOf bytes with
  | none => rfl
  | some idx =>
    have fits := (classOf_smallest found).1
    have bound := above idx
    omega

theorem classOf_eq {bytes request : Nat} (same : classForSize bytes = classForSize request) :
    classOf bytes = classOf request := by
  simp only [classOf, same]

theorem allocSize_pos (idx : Class) : 0 < allocSize idx := Nat.add_pos_right _ (by decide)

theorem allocSize_aligned : ∀ idx : Class, 64 ∣ allocSize idx := by decide

/-- The slab is a whole number of blocks, far from wrapping. -/
theorem slab_bytes : ∀ idx : Class,
    byteCount (allocSize idx) (numBlocks idx) = allocSize idx * numBlocks idx := by decide

variable {ι : Type} {s : Shared ι} {i : ι} {v : View Class Class}

variable [DecidableEq ι] {word : Option (Slot Class)} {action : Action}

/-- What the calling thread sees once the call has begun. -/
def Begun (v : View Class Class) : Action → Prop
  | .allocate bytes => v.hand = none ∧ v.serving = classOf bytes
  | .deallocate ptr bytes _ => v.hand = ptr ∧ ∀ slot ∈ ptr, classOf bytes = some slot.pool
  | .overwrite _ => v.hand = none

theorem ensures_nextAction (idle : v.hand = none) (empty : v.chain = []) :
    (ownership layout fun _ _ => True).Ensures spec i v (nextAction i)
      fun action v' => v'.chain = [] ∧ Begun v' action := by
  apply Ensures.atomic
  intro c s t holds stepped _
  obtain ⟨valid, rfl⟩ := holds
  simp only [Option.ite_none_right_eq_some, Option.some.injEq] at stepped
  obtain ⟨permitted, rfl⟩ := stepped
  match c.action, permitted with
  | .allocate bytes, _ =>
    refine ⟨_, ?_, valid.serve fun _ _ => trivial, fun j other => ?_, rfl⟩
    · exact ⟨empty, idle, Function.update_self _ _ _⟩
    · exact Arena.view_congr rfl rfl rfl (Function.update_of_ne other _ _) fun _ _ => rfl
  | .deallocate none bytes request, _ =>
    exact ⟨_, ⟨empty, idle, nofun⟩, valid, fun _ _ => rfl, rfl⟩
  | .deallocate (some slot) bytes request, permitted =>
    obtain ⟨held, same⟩ := permitted slot rfl
    refine ⟨_, ?_, valid.takeBack idle held, fun j other => ?_, rfl⟩
    · refine ⟨empty, Function.update_self _ _ _, ?_⟩
      rintro _ ⟨⟩
      rw [classOf_eq same]
      exact valid.answered (request, slot) held
    · exact Arena.view_congr rfl (Function.update_of_ne other _ _) rfl rfl fun _ _ => rfl
  | .overwrite slot, permitted =>
    have kept : ∀ j, (s.setNext slot c.word).view j = s.view j := by
      intro j
      refine Arena.view_congr rfl rfl rfl rfl fun n theirs => Function.update_of_ne ?_ _ _
      rintro rfl
      exact absurd (valid.custody.apart .held (.chain j) n permitted theirs) nofun
    refine ⟨_, ?_, valid.setNext .held nofun permitted, fun j _ => kept j, kept i⟩
    exact ⟨empty, idle⟩

theorem ensures_ensureClassPopulated {idx : Class} (empty : v.chain = []) (serves : v.serving = some idx) :
    (ownership layout fun _ _ => True).Ensures spec i v (ensureClassPopulated i idx)
      fun _ v' => v.Kept v' := by
  refine Ensures.bind (M := fun _ w => w = v) ?_ ?_
  · apply Ensures.exchange
    intro s holds _
    obtain ⟨valid, rfl⟩ := holds
    refine ⟨_, rfl, ?_, fun _ _ => rfl, rfl⟩
    exact { valid with custody := valid.custody.congr fun place => by cases place <;> rfl }
  rintro (_ | _) v rfl
  · apply ensures_growPool serves (allocSize_pos idx) empty
    intro address
    simp only [layout, if_true, and_self]
  · exact Ensures.pure ⟨rfl, rfl, rfl, rfl⟩

theorem counts_slot {idx : Class} (address : Nat) :
    layout.counts ⟨idx, address, allocSize idx, 1, false, true⟩ := by
  simp only [layout, Bool.false_eq_true, if_false, and_self]

theorem ensures_allocate {bytes : Nat} (empty : v.chain = []) (begun : Begun v (.allocate bytes)) :
    (ownership layout fun _ _ => True).Ensures spec i v (allocate i bytes)
      fun result v' => v'.hand = result ∧ v'.chain = [] ∧
        ∀ node, result = some node → classOf bytes = some node.pool := by
  obtain ⟨idle, serves⟩ := begun
  unfold allocate
  split
  · exact Ensures.pure ⟨idle, empty, nofun⟩
  · rename_i idx found
    rw [found] at serves
    refine Ensures.known (P := (v.cache idx).Filled ∧ ∀ slot ∈ (v.cache idx).live, slot.pool = idx) ?_ ?_
    · rintro s ⟨valid, rfl⟩
      exact ⟨(valid.stocked i idx).filled, (valid.stocked i idx).binned⟩
    rintro ⟨filled, binned⟩
    have own : ∀ slot ∈ (v.cache idx).pop.1, slot.pool = idx := by
      intro slot top
      by_cases none_ : (v.cache idx).count = 0
      · rw [ThreadCache.pop_empty none_] at top
        contradiction
      · obtain ⟨node, popped, live⟩ := ThreadCache.pop_some filled none_
        rw [popped] at top
        have same : node = slot := Option.some.inj top
        subst same
        exact binned node (live ▸ List.mem_append_right _ (List.mem_singleton.mpr rfl))
    refine Ensures.mono (ensures_acquire idle empty serves own counts_slot
      fun w => ensures_ensureClassPopulated) ?_
    rintro result w ⟨hand, chain, pool⟩
    exact ⟨hand, chain, fun node returned => found.trans (congrArg some (pool node returned).symm)⟩

theorem ensures_deallocate {ptr : Option (Slot Class)} {bytes request : Nat} (empty : v.chain = [])
    (begun : Begun v (.deallocate ptr bytes request)) :
    (ownership layout fun _ _ => True).Ensures spec i v (deallocate i ptr bytes)
      fun _ v' => v'.hand = none ∧ v'.chain = [] := by
  obtain ⟨mine, pooled⟩ := begun
  cases ptr with
  | none => exact Ensures.pure ⟨mine, empty⟩
  | some node =>
    have found := pooled node rfl
    simp only [deallocate, found]
    have wide : 4 ≤ kBufferPoolTlsCacheSize := by decide
    refine Ensures.known (P := ∀ slot ∈ (v.cache node.pool).live, slot.pool = node.pool) ?_ fun binned => ?_
    · rintro s ⟨valid, rfl⟩
      exact (valid.stocked i node.pool).binned
    have own : ∀ slot ∈ (v.cache node.pool).upper, slot.pool = node.pool := by
      intro slot member
      apply binned slot
      rw [ThreadCache.live_halve]
      exact List.mem_append_right _ member
    refine Ensures.mono (ensures_releaseMemory wide empty mine rfl fun _ => own) ?_
    exact fun _ _ ⟨hand, chain, _⟩ => ⟨hand, chain⟩

theorem meets (i : ι) (f : Procedure Class) (v : View Class Class) (pre : spec.pre f v) :
    (ownership layout fun _ _ => True).Ensures spec i v (code i f) (spec.post f v) := by
  cases f with
  | walk tail => exact ensures_walk pre
  | client =>
    apply Ensures.bind (ensures_nextAction pre.1 pre.2)
    rintro action w ⟨empty, begun⟩
    refine Ensures.bind (M := fun _ (u : View Class Class) => u.hand = none ∧ u.chain = []) ?_
      fun _ u idle => Ensures.enter idle fun _ _ _ => trivial
    cases action with
    | allocate bytes =>
      apply Ensures.bind (ensures_allocate empty begun)
      rintro result u ⟨mine, chain, answers⟩
      exact Ensures.mono (ensures_receive mine answers) fun _ _ ⟨hand, same⟩ => ⟨hand, same.trans chain⟩
    | deallocate ptr bytes request => exact ensures_deallocate empty begun
    | overwrite slot => exact Ensures.pure ⟨begun, empty⟩

theorem reaches_meets {pool : Threads ι} (path : Pool.Reaches code (fun _ _ => True) start pool) :
    Proved (ownership layout fun _ _ => True).discipline
      (fun i => (ownership layout fun _ _ => True).contract spec i) pool ∧ pool.shared.Valid layout := by
  refine reaches_proved (O := ownership layout fun _ _ => True) (K := fun _ => spec) meets ?_ (fun i => ?_) path
  · exact Arena.valid_empty _
  · refine Ensures.bind (M := fun _ _ => True) ?_ fun _ _ _ => Ensures.pure trivial
    exact Ensures.enter ⟨rfl, rfl⟩ fun _ _ _ => trivial

theorem reaches_valid {pool : Threads ι} (path : Pool.Reaches code (fun _ _ => True) start pool) :
    pool.shared.Valid layout := (reaches_meets path).2

/-- What callers of `BufferPool` rely on. -/
structure Serves (pool : Threads ι) : Prop where
  /-- A request beyond the largest class gets a null pointer. -/
  null : ∀ (i : ι) (bytes : Nat), kMaxPooledSize < bytes → allocate i bytes = pure none
  /-- A held block is of the smallest class with room for its request, and aligned. -/
  fits : ∀ h ∈ pool.shared.held, h.1 ≤ kMaxPooledSize ∧ h.1 ≤ blockSize h.2.pool ∧
    (∀ smaller < h.2.pool, blockSize smaller < h.1) ∧ 64 ∣ h.2.address ∧ 0 < h.2.address
  /-- A block circulates in its class. -/
  sorted : ∀ idx, Linked pool.shared.next (pool.shared.head idx) (pool.shared.freed idx) ∧
    (∀ slot ∈ pool.shared.freed idx, slot.pool = idx) ∧
    ∀ i, ∀ slot ∈ (pool.shared.cache i idx).live, slot.pool = idx
  /-- Every block is in one place, once. -/
  place : ∀ slot ∈ pool.shared.carved, ∃! place, place ≠ .lost ∧ slot ∈ pool.shared.contents place
  once : ∀ place, (pool.shared.contents place).Nodup ∧
    ∀ slot ∈ pool.shared.contents place, slot ∈ pool.shared.carved
  /-- No two blocks share a byte, -/
  apart : ∀ slot ∈ pool.shared.carved, ∀ other ∈ pool.shared.carved, slot ≠ other →
    Apart slot.address (allocSize slot.pool) other.address (allocSize other.pool)
  /-- and each lies in the slab, or the allocation of its own, that its class made. -/
  within : ∀ slot ∈ pool.shared.carved, ∃ a, pool.shared.heap[slot.block]? = some a ∧
    a.pool = slot.pool ∧ a.start ≤ slot.address ∧
    slot.address + allocSize slot.pool ≤ a.start + a.bytes

theorem bufferPool_serves {pool : Threads ι} (path : Pool.Reaches code (fun _ _ => True) start pool) :
    Serves pool := by
  have valid := reaches_valid path
  have live : ∀ a ∈ pool.shared.heap, a.live = true := fun a member =>
    (valid.backed a member).resolve_right id
  have filled : ∀ a ∈ pool.shared.heap, layout.slotBytes a.pool * a.count = a.bytes := by
    intro a member
    have counts := (valid.counted a member).1
    simp only [layout] at counts ⊢
    split at counts
    · rw [counts.1, counts.2, slab_bytes]
    · rw [counts.1, counts.2, Nat.mul_one]
  refine ⟨fun i bytes large => ?_, fun h member => ?_,
    fun idx => ⟨valid.linked idx, valid.sorted idx, fun i => (valid.stocked i idx).binned⟩,
    fun slot member => ?_, fun place => ⟨valid.custody.once place, fun slot => valid.custody.known⟩,
    fun slot member other member' => valid.slots_apart live filled member member',
    fun slot member => valid.slot_within filled member⟩
  · rw [allocate, classOf_large large]
  · have class_ := valid.answered h member
    obtain ⟨room, smallest⟩ := classOf_smallest class_
    have known := valid.custody.known (a := .held) (List.mem_map_of_mem member)
    obtain ⟨a, found, owner, k, _, address⟩ := valid.mapped h.2 known
    obtain ⟨_, aligned, positive⟩ := valid.counted a (List.mem_of_getElem? found)
    refine ⟨?_, room, smallest, ?_, ?_⟩
    · exact Nat.not_lt.mp fun large => nomatch (classOf_large large).symm.trans class_
    · rw [address]
      exact Nat.dvd_add aligned (Nat.dvd_mul_left_of_dvd (allocSize_aligned a.pool) k)
    · rw [address]
      exact Nat.add_pos_left positive _
  · obtain ⟨place, kept, only⟩ := valid.custody.unique member
    refine ⟨place, ⟨?_, kept⟩, fun other there => only other there.2⟩
    rintro rfl
    exact valid.forgotten slot kept

/-- The n-th block that is allocated on its own for the class of 128 bytes. -/
def smallBlock (n : Nat) : Slot Class := ⟨⟨1, by decide⟩, n, 4096 + 192 * n⟩

/-- There is no memory for a slab, but there is for single blocks. A thread allocates 18 of them
and gives 17 back, one more than its cache takes. -/
def lowMemorySchedule : List (Unit × Choice Action Class) :=
  let allocates (n : Nat) := List.replicate 8 ((), ⟨.allocate 100, some (smallBlock n).address, none⟩)
  let deallocates (n steps : Nat) := List.replicate steps ((), ⟨.deallocate (some (smallBlock n)) 100 100, none, none⟩)
  List.replicate 6 ((), ⟨.allocate 100, none, none⟩) ++
    List.replicate 3 ((), ⟨.allocate 100, some 4096, none⟩) ++ (List.range' 1 17).flatMap allocates ++
    (List.range' 1 16).flatMap (fun n => deallocates n 3) ++ deallocates 17 47

theorem lowMemory_serves : ∃ pool : Threads Unit,
    Pool.Reaches code (fun _ _ => True) start pool ∧ pool.shared.held = [(100, smallBlock 0)] ∧
    (pool.shared.freed (smallBlock 0).pool).length = 8 ∧
    (pool.shared.cache () (smallBlock 0).pool).count = 9 ∧ Serves pool := by
  have executed : (Pool.run code (fun _ _ => true) lowMemorySchedule start).map
      (fun p => (p.shared.held, (p.shared.freed (smallBlock 0).pool).length,
        (p.shared.cache () (smallBlock 0).pool).count)) = some ([(100, smallBlock 0)], 8, 9) := by
    decide +kernel
  obtain ⟨pool, run, outcome⟩ := Option.map_eq_some_iff.mp executed
  simp only [Prod.mk.injEq] at outcome
  obtain ⟨held, freed, cached⟩ := outcome
  have path := Pool.reaches_of_run (fun _ _ _ => trivial) run
  exact ⟨pool, path, held, freed, cached, bufferPool_serves path⟩

end Talon.Memory.BufferPool
