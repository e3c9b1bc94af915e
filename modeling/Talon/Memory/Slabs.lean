import Talon.Interleaving.Permit
import Talon.Memory.BufferPoolProofs
import Mathlib.Algebra.BigOperators.Fin
import Mathlib.Algebra.Order.BigOperators.Group.Finset

/-! The slabs of `BufferPool`. `EnsureClassPopulated` lets one thread per class past its
compare-exchange, so a class gets one slab at most and `slabs_` is never written by two threads;
together the slabs stay below 26 MiB, however many threads allocate. -/
namespace Talon.Memory
open Interleaving

section Arena
variable {ι X Q L E A : Type} [DecidableEq ι] [DecidableEq X] [DecidableEq Q] {lay : Layout X Q L E} {i : ι} {q : Q}
  {x : X}

/-- What was allocated to be carved, and the members of the pool class. -/
def stock (s : Arena ι X Q L E) : List (Allocation Q) × E := (s.heap.filter (·.stored), s.own)

/-- No step of the program allocates a block to be carved. -/
abbrev Settled {α : Type} (p : Code ι X Q L E A α) : Prop := Constant stock (fun _ => True) p

omit [DecidableEq ι] [DecidableEq X] [DecidableEq Q] in
theorem settled_fault : Settled (fault : Code ι X Q L E A Unit) := Constant.store fun _ => rfl

omit [DecidableEq ι] [DecidableEq X] in
theorem settled_storeNext {node value : Option (Slot Q)} : Settled (storeNext node value : Code ι X Q L E A Unit) := by
  cases node with
  | none => exact settled_fault
  | some node => exact Constant.store fun _ => rfl

omit [DecidableEq Q] in
theorem settled_popCache : Settled (popCache i x : Code ι X Q L E A _) := Constant.exchange fun _ => rfl

omit [DecidableEq Q] in
theorem settled_pushCache {node : Slot Q} : Settled (pushCache lay i x node : Code ι X Q L E A Bool) :=
  Constant.exchange fun _ => rfl

omit [DecidableEq X] in
theorem settled_popFree : Settled (popFree i q : Code ι X Q L E A _) := by
  refine Constant.exchange fun s => ?_
  unfold Arena.popFree
  split <;> rfl

omit [DecidableEq X] in
theorem settled_pushChain {first last : Slot Q} : Settled (pushChain i q first last : Code ι X Q L E A Unit) :=
  Constant.store fun _ => rfl

omit [DecidableEq ι] [DecidableEq X] in
theorem settled_carveLoop {block : Slot Q} {remaining k : Nat} {chain : Option (Slot Q × Slot Q)} :
    Settled (carveLoop lay block remaining k chain : Code ι X Q L E A _) := by
  induction remaining generalizing k chain with
  | zero => exact Constant.pure _
  | succ remaining ih =>
    refine Constant.bind settled_storeNext fun _ => ?_
    cases chain with
    | none => exact ih
    | some ends => exact Constant.bind settled_storeNext fun _ => ih

omit [DecidableEq ι] [DecidableEq X] in
theorem settled_linkLoop {remaining k : Nat} {tail : Option (Slot Q)} :
    Settled (linkLoop i x remaining k tail : Code ι X Q L E A _) := by
  induction remaining generalizing k tail with
  | zero => exact Constant.pure _
  | succ remaining ih => exact Constant.bind Constant.load fun _ => Constant.bind settled_storeNext fun _ => ih

omit [DecidableEq ι] [DecidableEq X] [DecidableEq Q] in
theorem settled_walk {tail : Slot Q} : Settled (walk tail : Code ι X Q L E A _) := by
  refine Constant.bind Constant.load fun first => ?_
  cases first with
  | none => exact Constant.pure _
  | some node =>
    refine Constant.bind Constant.load fun second => ?_
    cases second with
    | none => exact Constant.bind settled_fault fun _ => Constant.pure _
    | some node => exact Constant.enter trivial

theorem settled_flush : Settled (flush lay i q : Code ι X Q L E A Unit) := by
  have half : Settled (flushHalf lay i (lay.bin q) : Code ι X Q L E A _) := by
    refine Constant.bind Constant.load fun count => ?_
    split
    · exact Constant.pure _
    · refine Constant.bind (Constant.store fun _ => rfl) fun _ => Constant.bind Constant.load fun head => ?_
      exact Constant.bind settled_linkLoop fun tail => Constant.bind settled_storeNext fun _ => Constant.pure _
  refine Constant.bind half fun batch => ?_
  cases batch with
  | none => exact Constant.pure _
  | some batch =>
    refine Constant.bind (Constant.enter trivial) fun tail => ?_
    cases tail with
    | none => exact settled_fault
    | some tail => exact settled_pushChain

theorem settled_releaseMemory {node : Slot Q} : Settled (releaseMemory lay i q node : Code ι X Q L E A Unit) := by
  refine Constant.bind settled_pushCache fun pushed => ?_
  cases pushed with
  | true => exact Constant.pure _
  | false => exact Constant.bind settled_flush fun _ => Constant.bind settled_pushCache fun _ => Constant.pure _

omit [DecidableEq X] [DecidableEq Q] in
theorem settled_allocateSlot : Settled (allocateSlot lay i q : Code ι X Q L E A _) := by
  refine Constant.atomic fun c s t stepped => ?_
  split at stepped
  · cases Option.some.inj stepped
    rfl
  · obtain ⟨-, same⟩ := Option.ite_none_right_eq_some.mp stepped
    cases Option.some.inj same
    simp [stock, Arena.addSlot]

end Arena

namespace BufferPool
variable {ι α : Type} [DecidableEq ι] {i : ι} {idx p : Class} {has : Bool} {pool : Threads ι}

/-- `slabs_[idx].size()` -/
def slabs (idx : Class) (s : Shared ι) : Nat := (s.heap.filter (·.stored)).countP fun a => decide (a.pool = idx)

def slabPermit (ι : Type) (idx : Class) : Permit (Shared ι) := ⟨fun s => s.own.initialized idx, slabs idx⟩

omit [DecidableEq ι] in
theorem careful_settled {code : Program ι α} (settled : Settled code) : (slabPermit ι idx).Careful code has := by
  refine Permit.Careful.of_constant (fun s t same => ?_) (fun s t same => ?_) settled
  · exact congrArg (fun kept => kept.2.initialized idx) same
  · exact congrArg (fun kept => kept.1.countP fun a => decide (a.pool = idx)) same

theorem slabs_addBlock {count bytes : Nat} {block : Slot Class} {s : Shared ι} :
    slabs idx (Arena.addBlock layout i count bytes block s) = slabs idx s + (decide (block.pool = idx)).toNat := by
  by_cases here : block.pool = idx <;> simp [slabs, Arena.addBlock, here]

/-- Carving a slab takes the permit of its class. -/
theorem careful_growPool {count : Nat} (permitted : p = idx → has = true) :
    (slabPermit ι idx).Careful (growPool layout i p count : Program ι Unit) has := by
  refine Permit.Careful.atomic_bind fun c s t stepped => ⟨false, ?_, ?_⟩
  · cases c.address with
    | none => exact .pure
    | some address =>
      refine careful_settled (Constant.bind settled_carveLoop fun ends => ?_)
      cases ends with
      | none => exact Constant.pure _
      | some ends => exact Constant.bind settled_storeNext fun _ => settled_pushChain
  · split at stepped
    · cases Option.some.inj stepped
      simp only [Bool.toNat_false]
      omega
    · obtain ⟨-, same⟩ := Option.ite_none_right_eq_some.mp stepped
      cases Option.some.inj same
      change slabs idx (Arena.addBlock layout i count _ _ s) + 0 + _ ≤ slabs idx s + has.toNat + _
      rw [slabs_addBlock]
      by_cases here : p = idx
      · simp [here, permitted here, slabPermit, Arena.addBlock]
      · simp [here, slabPermit, Arena.addBlock]

theorem careful_ensureClassPopulated : (slabPermit ι idx).Careful (ensureClassPopulated i p) false := by
  refine Permit.Careful.atomic_bind fun c s t stepped => ?_
  cases Option.some.inj stepped
  change ∃ keeps, (slabPermit ι idx).Careful (if s.own.initialized p = true then pure () else _) keeps ∧
    slabs idx s + keeps.toNat + (s.own.initialized idx).toNat ≤
      slabs idx s + false.toNat + (Function.update s.own.initialized p true idx).toNat
  by_cases here : idx = p
  · subst here
    rw [Function.update_self]
    cases populated : s.own.initialized idx with
    | true => exact ⟨false, .pure, Nat.le_refl _⟩
    | false => exact ⟨true, careful_growPool fun _ => rfl, Nat.le_refl _⟩
  · rw [Function.update_of_ne here]
    refine ⟨false, ?_, Nat.le_refl _⟩
    split
    · exact .pure
    · exact careful_growPool fun same => absurd same.symm here

theorem careful_allocate {bytes : Nat} : (slabPermit ι idx).Careful (allocate i bytes) false := by
  unfold allocate
  split
  · exact .pure
  · refine .bind (careful_settled settled_popCache) fun cached => ?_
    cases cached with
    | some node => exact .pure
    | none =>
      refine .bind (careful_settled settled_popFree) fun free => ?_
      cases free with
      | some node => exact .pure
      | none =>
        refine .bind careful_ensureClassPopulated fun _ => .bind (careful_settled settled_popFree) fun free => ?_
        cases free with
        | some node => exact .pure
        | none => exact careful_settled settled_allocateSlot

theorem settled_deallocate {ptr : Option (Slot Class)} {bytes : Nat} : Settled (deallocate i ptr bytes) := by
  unfold deallocate
  split
  · exact Constant.pure _
  · split
    · exact Constant.store fun _ => rfl
    · exact settled_releaseMemory

theorem settled_nextAction : Settled (nextAction i : Program ι Action) := by
  refine Constant.atomic fun c s t stepped => ?_
  obtain ⟨-, same⟩ := Option.ite_none_right_eq_some.mp stepped
  cases Option.some.inj same
  cases c.action with
  | allocate bytes => rfl
  | deallocate ptr bytes request => cases ptr <;> rfl
  | overwrite slot => rfl

theorem careful_code (f : Procedure Class) : (slabPermit ι idx).Careful (code i f) false := by
  cases f with
  | walk tail => exact careful_settled settled_walk
  | client =>
    refine .bind (careful_settled settled_nextAction) fun action => ?_
    refine .bind ?_ fun _ => .enter
    cases action with
    | allocate bytes => exact .bind careful_allocate fun _ => careful_settled (Constant.store fun _ => rfl)
    | deallocate ptr bytes request => exact careful_settled settled_deallocate
    | overwrite slot => exact .pure

/-- A class gets no second slab. -/
theorem slabs_le (path : Pool.Reaches code (fun _ _ => True) start pool) (idx : Class) :
    slabs idx pool.shared ≤ (pool.shared.own.initialized idx).toNat := by
  refine (slabPermit ι idx).once (fun _ f => careful_code f) (fun i => ?_) rfl path
  exact fun _ => trivial

omit [DecidableEq ι] in
theorem count_pool (idx : Class) (s : Shared ι) :
    ((s.heap.filter (·.stored)).map Allocation.pool).count idx = slabs idx s := by
  rw [List.count, List.countP_map, slabs]
  refine List.countP_congr fun a _ => ?_
  simp

/-- The classes below 4096 bytes have slabs of 1 MiB, the other five of 4 MiB. -/
theorem slabTotal_sum : ∑ idx : Class, slabTotal idx = 26 * 2 ^ 20 := by decide

theorem slab_fits : ∀ idx : Class, allocSize idx * numBlocks idx ≤ slabTotal idx := by decide

theorem slab_le {a : Allocation Class} (counts : layout.counts a) (stored : a.stored = true) :
    a.bytes ≤ slabTotal a.pool := by
  simp only [layout, stored, if_true] at counts
  rw [counts.1, counts.2, slab_bytes]
  exact slab_fits a.pool

/-- In every interleaving of any number of threads: a class that has a slab has one, for which its
flag is raised, and all slabs together have no more than 26 MiB. -/
theorem slabs_bounded (path : Pool.Reaches code (fun _ _ => True) start pool) :
    (∀ idx, slabs idx pool.shared ≤ 1 ∧ (0 < slabs idx pool.shared → pool.shared.own.initialized idx = true)) ∧
    ((pool.shared.heap.filter (·.stored)).map Allocation.bytes).sum ≤ 26 * 2 ^ 20 := by
  have valid := reaches_valid path
  have few : ∀ idx, slabs idx pool.shared ≤ 1 := fun idx => (slabs_le path idx).trans (Bool.toNat_le _)
  refine ⟨fun idx => ⟨few idx, fun made => ?_⟩, ?_⟩
  · cases raised : pool.shared.own.initialized idx with
    | true => rfl
    | false =>
      have none_ := slabs_le path idx
      rw [raised, Bool.toNat_false] at none_
      omega
  · calc ((pool.shared.heap.filter (·.stored)).map Allocation.bytes).sum
        ≤ ((pool.shared.heap.filter (·.stored)).map fun a => slabTotal a.pool).sum := by
          refine List.sum_le_sum fun a member => ?_
          obtain ⟨known, stored⟩ := List.mem_filter.mp member
          exact slab_le (valid.counted a known).1 stored
      _ = (((pool.shared.heap.filter (·.stored)).map Allocation.pool).map slabTotal).sum := by
          rw [List.map_map]
          rfl
      _ = ∑ idx ∈ ((pool.shared.heap.filter (·.stored)).map Allocation.pool).toFinset,
            slabs idx pool.shared • slabTotal idx := by
          rw [Finset.sum_list_map_count]
          exact Finset.sum_congr rfl fun idx _ => by rw [count_pool]
      _ ≤ ∑ idx : Class, slabTotal idx := by
          refine (Finset.sum_le_sum fun idx _ => ?_).trans (Finset.sum_le_sum_of_subset (Finset.subset_univ _))
          exact (Nat.mul_le_mul_right _ (few idx)).trans_eq (Nat.one_mul _)
      _ = 26 * 2 ^ 20 := slabTotal_sum

/-- Two threads find nothing in the largest class. Thread 0 gets past the compare-exchange and thread
1 does not, so it gets a block of its own before there is a slab. -/
def lateSlabSchedule : List (Nat × Choice Action Class) :=
  List.replicate 5 (0, ⟨.allocate 65536, none, none⟩) ++ List.replicate 6 (1, ⟨.allocate 65536, none, none⟩) ++
    [(1, ⟨.allocate 65536, some 4096, none⟩), (0, ⟨.allocate 65536, some (2 ^ 20), none⟩)]

theorem lateSlab_bounded : ∃ pool : Threads Nat, Pool.Reaches code (fun _ _ => True) start pool ∧
    pool.shared.heap.map Allocation.stored = [false, true] ∧ slabs ⟨10, by decide⟩ pool.shared ≤ 1 ∧
    ((pool.shared.heap.filter (·.stored)).map Allocation.bytes).sum ≤ 26 * 2 ^ 20 := by
  have executed : (Pool.run code (fun _ _ => true) lateSlabSchedule start).map
      (fun p => p.shared.heap.map Allocation.stored) = some [false, true] := by
    decide +kernel
  obtain ⟨pool, run, made⟩ := Option.map_eq_some_iff.mp executed
  have path : Pool.Reaches code (fun _ _ => True) start pool := Pool.reaches_of_run (fun _ _ _ => trivial) run
  obtain ⟨few, small⟩ := slabs_bounded path
  exact ⟨pool, path, made, (few _).1, small⟩

end BufferPool
end Talon.Memory
