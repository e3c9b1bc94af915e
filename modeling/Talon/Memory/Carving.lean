import Talon.Memory.ObjectPool

/-! `ObjectPool::GrowPool` with 64-bit words in place of numbers: the size of the block
is a product that wraps, and the loop that carves it into slots goes by the count. -/
namespace Talon.Memory.Carving
open Talon.Memory.ObjectPool

abbrev Word := BitVec 64

def kSlotAlign : Word := 64

/-- `obj_size` -/
def objSizeWord (sizeofT : Word) : Word :=
  ((if BitVec.ofNat 64 sizeofPoolNode < sizeofT then sizeofT else BitVec.ofNat 64 sizeofPoolNode) +
    (kSlotAlign - 1)) &&& ~~~(kSlotAlign - 1)

/-- `obj_size * count` -/
def blockLength (sizeofT count : Word) : Word := objSizeWord sizeofT * count

/-- `static_cast<char*>(block) + i * obj_size` -/
def slotWord (sizeofT block : Word) (i : Nat) : Word := block + BitVec.ofNat 64 i * objSizeWord sizeofT

def slotWords (sizeofT block : Word) (count : Nat) : List Word := (List.range count).map (slotWord sizeofT block)

/-- An address as a pointer. -/
def pointer (address : Word) : Option Word := if address = 0 then none else some address

/-- The word at the beginning of each node, and the two ends of the chain. -/
structure Links where
  next : Word → Option Word
  chainHead : Option Word := none
  chainTail : Option Word := none

/-- One turn of the loop: a `PoolNode` is constructed and becomes the tail. -/
def Links.add (l : Links) (node : Word) : Links :=
  let made := Function.update l.next node none
  match l.chainHead with
  | none => ⟨made, pointer node, pointer node⟩
  | some head => ⟨Function.update made (l.chainTail.getD 0) (pointer node), some head, pointer node⟩

def carve (sizeofT block : Word) : (remaining i : Nat) → Links → Links
  | 0, _, l => l
  | remaining + 1, i, l => carve sizeofT block remaining (i + 1) (l.add (slotWord sizeofT block i))

/-- `chain_tail->next.store(nullptr)`, where there is a chain. -/
def Links.terminate (l : Links) : Links :=
  match l.chainHead with
  | none => l
  | some _ => { l with next := Function.update l.next (l.chainTail.getD 0) none }

/-- The chain as `GrowPool(count)` hands it to `PushChain`. -/
def chain (sizeofT count block : Word) (next : Word → Option Word) : Links :=
  (carve sizeofT block count.toNat 0 { next := next }).terminate

/-- The pool's members and its memory. -/
structure Pool where
  next : Word → Option Word
  freeList : Option Word
  storageBlocks : List Word

/-- `GrowPool(count)`, where `aligned_alloc(64, obj_size * count)` returns `block`. -/
def growPool (p : Pool) (sizeofT count : Word) : Option Word → Pool
  | none => p
  | some block =>
      let stored := p.storageBlocks ++ [block]
      let links := chain sizeofT count block p.next
      match links.chainHead with
      | none => ⟨links.next, p.freeList, stored⟩
      | some head => ⟨Function.update links.next (links.chainTail.getD 0) p.freeList, some head, stored⟩

/-- `aligned_alloc(64, length)` has returned `block`. -/
structure Allocated (block length : Word) : Prop where
  aligned : 64 ∣ block.toNat
  nonnull : 0 < block.toNat
  room : block.toNat + length.toNat ≤ 2 ^ 64

/-- The slots are what a pool needs, and so is the chain. -/
structure Carved (sizeofT count block : Word) (next : Word → Option Word) : Prop where
  aligned : ∀ i < count.toNat, 64 ∣ (slotWord sizeofT block i).toNat
  sized : ∀ i < count.toNat, max sizeofT.toNat sizeofPoolNode ≤ (objSizeWord sizeofT).toNat
  apart : ∀ i < count.toNat, ∀ j < count.toNat, i ≠ j →
    Apart (slotWord sizeofT block i).toNat (objSizeWord sizeofT).toNat
      (slotWord sizeofT block j).toNat (objSizeWord sizeofT).toNat
  inside : ∀ i < count.toNat, block.toNat ≤ (slotWord sizeofT block i).toNat ∧
    (slotWord sizeofT block i).toNat + (objSizeWord sizeofT).toNat ≤ block.toNat + (blockLength sizeofT count).toNat
  ordered : (slotWords sizeofT block count.toNat).Pairwise (· < ·)
  linked : Linked (chain sizeofT count block next).next (chain sizeofT count block next).chainHead
    (slotWords sizeofT block count.toNat)
  tail : (chain sizeofT count block next).chainTail = (slotWords sizeofT block count.toNat).getLast?

/-! ### The chain -/

/-- The chain is `nodes`, so far, and nothing else has changed since `base`. -/
structure Built (base : Word → Option Word) (l : Links) (nodes : List Word) : Prop where
  linked : Linked l.next l.chainHead nodes
  tail : l.chainTail = nodes.getLast?
  kept : ∀ n, n ∉ nodes → l.next n = base n

variable {base : Word → Option Word} {l : Links} {nodes : List Word}

theorem Built.add {node : Word} (built : Built base l nodes) (unique : nodes.Nodup) (new : node ∉ nodes)
    (nonnull : node ≠ 0) : Built base (l.add node) (nodes ++ [node]) := by
  have here : pointer node = some node := if_neg nonnull
  have head := built.linked.head
  cases ends : nodes.getLast? with
  | none =>
    obtain rfl := List.getLast?_eq_none_iff.mp ends
    simp only [Links.add, show l.chainHead = none from head, here]
    refine ⟨⟨rfl, Function.update_self node _ _⟩, rfl, fun n outside => ?_⟩
    have different : n ≠ node := fun same => outside (same ▸ List.mem_singleton_self node)
    exact (Function.update_of_ne different _ _).trans (built.kept n List.not_mem_nil)
  | some last =>
    obtain ⟨first, rest, rfl⟩ := List.exists_cons_of_ne_nil (List.ne_nil_of_mem (List.mem_of_getLast? ends))
    have path : List.IsChain
        (fun a b => Function.update (Function.update l.next node none) last (some node) a = some b)
        (first :: rest ++ [node]) :=
      isChain_link (isChain_update_of_not_mem none built.linked.isChain new) unique ends
    have different : node ≠ last := fun same => new (same ▸ List.mem_of_getLast? ends)
    have final : Function.update (Function.update l.next node none) last (some node) node = none := by
      rw [Function.update_of_ne different, Function.update_self]
    have ended : Linked (Function.update (Function.update l.next node none) last (some node)) none [] := rfl
    have linked := ended.prepend path List.getLast?_concat final
    rw [List.append_nil] at linked
    simp only [Links.add, show l.chainHead = some first from head, built.tail, ends, Option.getD_some, here]
    refine ⟨linked, List.getLast?_concat.symm, fun n outside => ?_⟩
    rw [List.mem_append, not_or, List.mem_singleton] at outside
    have earlier : n ≠ last := fun same => outside.1 (same ▸ List.mem_of_getLast? ends)
    have made : Function.update l.next node none n = l.next n := Function.update_of_ne outside.2 _ _
    exact (Function.update_of_ne earlier _ _).trans (made.trans (built.kept n outside.1))

/-- The first `n` slots have different addresses, and none is the null pointer. -/
structure Distinct (sizeofT block : Word) (n : Nat) : Prop where
  injective : ∀ j < n, ∀ k < n, slotWord sizeofT block j = slotWord sizeofT block k → j = k
  nonnull : ∀ j < n, slotWord sizeofT block j ≠ 0

theorem Distinct.nodup {sizeofT block : Word} {n k : Nat} (distinct : Distinct sizeofT block n) (within : k ≤ n) :
    (slotWords sizeofT block k).Nodup := by
  refine List.Nodup.map_on (fun i first j second same => ?_) List.nodup_range
  rw [List.mem_range] at first second
  exact distinct.injective i (by omega) j (by omega) same

/-- The loop goes through the slots in order. -/
theorem Built.carve {sizeofT block : Word} {n : Nat} (distinct : Distinct sizeofT block n) (remaining : Nat) {i : Nat}
    (built : Built base l (slotWords sizeofT block i)) (total : i + remaining = n) :
    Built base (carve sizeofT block remaining i l) (slotWords sizeofT block n) := by
  induction remaining generalizing i l with
  | zero => exact total ▸ built
  | succ remaining ih =>
    have new : slotWord sizeofT block i ∉ slotWords sizeofT block i := by
      intro member
      obtain ⟨j, earlier, same⟩ := List.mem_map.mp member
      rw [List.mem_range] at earlier
      exact Nat.ne_of_lt earlier (distinct.injective j (by omega) i (by omega) same)
    have added := built.add (distinct.nodup (by omega)) new (distinct.nonnull i (by omega))
    have next : slotWords sizeofT block (i + 1) = slotWords sizeofT block i ++ [slotWord sizeofT block i] := by
      simp only [slotWords, List.range_succ, List.map_append, List.map_cons, List.map_nil]
    exact ih (next ▸ added) (by omega)

theorem Built.terminate (built : Built base l nodes) (unique : nodes.Nodup) : Built base l.terminate nodes := by
  have head := built.linked.head
  cases ends : nodes.getLast? with
  | none =>
    obtain rfl := List.getLast?_eq_none_iff.mp ends
    simp only [Links.terminate, show l.chainHead = none from head]
    exact built
  | some last =>
    obtain ⟨first, rest, rfl⟩ := List.exists_cons_of_ne_nil (List.ne_nil_of_mem (List.mem_of_getLast? ends))
    have path := isChain_update_last none built.linked.isChain unique ends
    have ended : Linked (Function.update l.next last none) none [] := rfl
    have linked := ended.prepend path ends (Function.update_self last none l.next)
    rw [List.append_nil] at linked
    simp only [Links.terminate, show l.chainHead = some first from head, built.tail, ends, Option.getD_some]
    refine ⟨linked, ends.symm, fun n outside => ?_⟩
    have different : n ≠ last := fun same => outside (same ▸ List.mem_of_getLast? ends)
    exact (Function.update_of_ne different _ _).trans (built.kept n outside)

theorem Distinct.built {sizeofT count block : Word} (distinct : Distinct sizeofT block count.toNat)
    (next : Word → Option Word) :
    Built next (chain sizeofT count block next) (slotWords sizeofT block count.toNat) := by
  have empty : Built next { next := next } (slotWords sizeofT block 0) := ⟨rfl, rfl, fun _ _ => rfl⟩
  exact (empty.carve distinct count.toNat (Nat.zero_add _)).terminate (distinct.nodup (Nat.le_refl _))

/-! ### The slots -/

/-- The mask clears the lower six bits. -/
theorem and_mask_toNat (x : Word) : (x &&& ~~~(kSlotAlign - 1)).toNat = x.toNat / 64 * 64 := by
  have masked : ∀ i < 64, (~~~(kSlotAlign - 1)).getLsbD i = decide (6 ≤ i) := by decide
  have shifted : x &&& ~~~(kSlotAlign - 1) = x >>> 6 <<< 6 := by
    refine BitVec.eq_of_getLsbD_eq fun i inside => ?_
    rw [BitVec.getLsbD_and, masked i inside, BitVec.getLsbD_shiftLeft, BitVec.getLsbD_ushiftRight]
    by_cases low : i < 6
    · simp [low]
    · simp [low, inside, Nat.not_lt.mp low]
  rw [shifted, BitVec.toNat_shiftLeft, BitVec.toNat_ushiftRight, Nat.shiftLeft_eq, Nat.shiftRight_eq_div_pow]
  have bound := x.isLt
  omega

/-- The rounded size, as far as a word holds it. -/
theorem objSizeWord_toNat (sizeofT : Word) : (objSizeWord sizeofT).toNat = objSize sizeofT.toNat % 2 ^ 64 := by
  have larger : (if BitVec.ofNat 64 sizeofPoolNode < sizeofT then sizeofT else BitVec.ofNat 64 sizeofPoolNode).toNat =
      max sizeofT.toNat sizeofPoolNode := by
    split
    · next large =>
      have large : sizeofPoolNode < sizeofT.toNat := large
      omega
    · next small =>
      have small : ¬ sizeofPoolNode < sizeofT.toNat := small
      have node : (BitVec.ofNat 64 sizeofPoolNode).toNat = sizeofPoolNode := rfl
      omega
  have bound := sizeofT.isLt
  have mask : (kSlotAlign - 1).toNat = 63 := rfl
  rw [objSizeWord, and_mask_toNat, BitVec.toNat_add, larger, mask, objSize]
  omega

theorem objSize_le (n : Nat) : max n sizeofPoolNode ≤ objSize n ∧ 64 ∣ objSize n := by
  refine ⟨?_, Dvd.intro_left _ rfl⟩
  unfold objSize
  omega

/-- The length that is asked for is the one the pool's model asks for. -/
theorem blockLength_toNat (sizeofT count : Word) :
    (blockLength sizeofT count).toNat = byteCount (objSize sizeofT.toNat) count.toNat := by
  rw [blockLength, BitVec.toNat_mul, objSizeWord_toNat, Nat.mod_mul_mod, byteCount]

section Product
variable {sizeofT count block : Word} {i : Nat}

/-- The numbers that the words stand for, when the product does not wrap. -/
theorem sizes_of_fits (fits : objSize sizeofT.toNat * count.toNat < 2 ^ 64) (below : i < count.toNat) :
    (objSizeWord sizeofT).toNat = objSize sizeofT.toNat ∧
      (blockLength sizeofT count).toNat = objSize sizeofT.toNat * count.toNat ∧
      i * objSize sizeofT.toNat + objSize sizeofT.toNat ≤ objSize sizeofT.toNat * count.toNat := by
  have one : objSize sizeofT.toNat ≤ objSize sizeofT.toNat * count.toNat :=
    Nat.le_mul_of_pos_right _ (Nat.zero_lt_of_lt below)
  have size : (objSizeWord sizeofT).toNat = objSize sizeofT.toNat := by
    rw [objSizeWord_toNat, Nat.mod_eq_of_lt (Nat.lt_of_le_of_lt one fits)]
  refine ⟨size, ?_, ?_⟩
  · rw [blockLength_toNat, byteCount, Nat.mod_eq_of_lt fits]
  · rw [← Nat.succ_mul, Nat.mul_comm]
    exact Nat.mul_le_mul_left _ below

theorem objSize_pos (n : Nat) : 0 < objSize n :=
  Nat.lt_of_lt_of_le (by decide) (Nat.le_trans (Nat.le_max_right n _) (objSize_le n).1)

/-- Slot `i` begins `i` sizes after the block. -/
theorem slotWord_toNat (allocated : Allocated block (blockLength sizeofT count))
    (fits : objSize sizeofT.toNat * count.toNat < 2 ^ 64) (below : i < count.toNat) :
    (slotWord sizeofT block i).toNat = block.toNat + i * objSize sizeofT.toNat := by
  obtain ⟨size, length, inside⟩ := sizes_of_fits fits below
  have room := allocated.room
  have positive := objSize_pos sizeofT.toNat
  rw [slotWord, BitVec.toNat_add, BitVec.toNat_mul, BitVec.toNat_ofNat, size,
    Nat.mod_eq_of_lt (Nat.lt_trans below count.isLt)]
  omega

theorem distinct_of_fits (allocated : Allocated block (blockLength sizeofT count))
    (fits : objSize sizeofT.toNat * count.toNat < 2 ^ 64) : Distinct sizeofT block count.toNat := by
  refine ⟨fun j first k second same => ?_, fun j below zero => ?_⟩
  · have equal := congrArg BitVec.toNat same
    rw [slotWord_toNat allocated fits first, slotWord_toNat allocated fits second] at equal
    exact Nat.eq_of_mul_eq_mul_right (objSize_pos _) (Nat.add_left_cancel equal)
  · have place := slotWord_toNat allocated fits below
    have nonnull := allocated.nonnull
    have null : (0 : Word).toNat = 0 := rfl
    rw [zero] at place
    omega

theorem carved_of_fits (allocated : Allocated block (blockLength sizeofT count))
    (fits : objSize sizeofT.toNat * count.toNat < 2 ^ 64) (next : Word → Option Word) :
    Carved sizeofT count block next := by
  have place : ∀ i < count.toNat, (slotWord sizeofT block i).toNat = block.toNat + i * objSize sizeofT.toNat :=
    fun i below => slotWord_toNat allocated fits below
  have before : ∀ i j, i < j → i * objSize sizeofT.toNat + objSize sizeofT.toNat ≤ j * objSize sizeofT.toNat := by
    intro i j earlier
    rw [← Nat.succ_mul]
    exact Nat.mul_le_mul_right _ earlier
  have positive := objSize_pos sizeofT.toNat
  have built := (distinct_of_fits allocated fits).built next
  refine ⟨fun i below => ?_, fun i below => ?_, fun i first j second different => ?_, fun i below => ?_, ?_,
    built.linked, built.tail⟩
  · rw [place i below]
    exact Nat.dvd_add allocated.aligned (Nat.dvd_mul_left_of_dvd (objSize_le _).2 i)
  · rw [(sizes_of_fits fits below).1]
    exact (objSize_le _).1
  · rw [place i first, place j second, (sizes_of_fits fits first).1]
    rcases Nat.lt_or_gt_of_ne different with earlier | later
    · have ends := before i j earlier
      exact Or.inl (by omega)
    · have ends := before j i later
      exact Or.inr (by omega)
  · obtain ⟨size, length, inside⟩ := sizes_of_fits fits below
    rw [place i below, size, length]
    omega
  · refine List.pairwise_map.mpr (List.pairwise_lt_range.imp_of_mem fun {i j} first second earlier => ?_)
    rw [List.mem_range] at first second
    have ends := before i j earlier
    rw [BitVec.lt_def, place i first, place j second]
    omega

/-- The slot in which the block ends, or the one after it. -/
theorem not_carved_of_wraps (allocated : Allocated block (blockLength sizeofT count))
    (wraps : 2 ^ 64 ≤ objSize sizeofT.toNat * count.toNat) (next : Word → Option Word) :
    ¬ Carved sizeofT count block next := by
  intro carved
  have some_ : 0 < count.toNat := by
    rcases Nat.eq_zero_or_pos count.toNat with zero | positive
    · rw [zero, Nat.mul_zero] at wraps
      contradiction
    · exact positive
  have size := objSizeWord_toNat sizeofT
  have sized := carved.sized 0 some_
  have bound := sizeofT.isLt
  -- The rounding alone wraps only to zero.
  have narrow : objSize sizeofT.toNat < 2 ^ 64 := by
    by_contra wide
    rw [size, sizeofPoolNode] at sized
    unfold objSize sizeofPoolNode at wide sized
    omega
  rw [Nat.mod_eq_of_lt narrow] at size
  have length := blockLength_toNat sizeofT count
  rw [byteCount] at length
  have positive := objSize_pos sizeofT.toNat
  have below : (blockLength sizeofT count).toNat / objSize sizeofT.toNat < count.toNat := by
    refine Nat.div_lt_of_lt_mul ?_
    omega
  have inside := carved.inside _ below
  have quotient := Nat.div_add_mod (blockLength sizeofT count).toNat (objSize sizeofT.toNat)
  have remainder := Nat.mod_lt (blockLength sizeofT count).toNat positive
  rw [slotWord, BitVec.toNat_add, BitVec.toNat_mul, BitVec.toNat_ofNat, size,
    Nat.mod_eq_of_lt (Nat.lt_trans below count.isLt), Nat.mul_comm _ (objSize sizeofT.toNat)] at inside
  have room := allocated.room
  have nonnull := allocated.nonnull
  omega

/-- Then the slots are those of the pool's model. -/
theorem slotWords_addresses {ι Q : Type} {config : Config Q} {start : Slot Q}
    (allocated : Allocated block (blockLength sizeofT count))
    (fits : objSize sizeofT.toNat * count.toNat < 2 ^ 64) (size : config.sizeofT = sizeofT.toNat)
    (here : start.address = block.toNat) :
    (slotWords sizeofT block count.toNat).map BitVec.toNat =
      (slots (layout (ι := ι) config) start count.toNat).map Slot.address := by
  rw [slotWords, slots, List.map_map, List.map_map]
  refine List.map_congr_left fun i below => ?_
  rw [Function.comp, Function.comp, slotWord_toNat allocated fits (List.mem_range.mp below)]
  simp only [slotAt, layout, size, here]

/-- The free list is what it was, behind the new slots. -/
theorem growPool_linked {p : Pool} {free : List Word} (allocated : Allocated block (blockLength sizeofT count))
    (fits : objSize sizeofT.toNat * count.toNat < 2 ^ 64) (linked : Linked p.next p.freeList free)
    (elsewhere : ∀ node ∈ free, node ∉ slotWords sizeofT block count.toNat) :
    Linked (growPool p sizeofT count (some block)).next (growPool p sizeofT count (some block)).freeList
      (slotWords sizeofT block count.toNat ++ free) := by
  have distinct := distinct_of_fits allocated fits
  have built := distinct.built p.next
  have unique := distinct.nodup (Nat.le_refl _)
  have head := built.linked.head
  simp only [growPool]
  cases ends : (slotWords sizeofT block count.toNat).getLast? with
  | none =>
    have nothing := List.getLast?_eq_none_iff.mp ends
    rw [nothing] at head built ⊢
    rw [head]
    exact linked.congr fun node _ => built.kept node List.not_mem_nil
  | some last =>
    obtain ⟨first, rest, nodes⟩ :=
      List.exists_cons_of_ne_nil (List.ne_nil_of_mem (List.mem_of_getLast? ends))
    have path := isChain_update_last p.freeList built.linked.isChain unique ends
    have kept : Linked (chain sizeofT count block p.next).next p.freeList free :=
      linked.congr fun node member => built.kept node (elsewhere node member)
    have redirected : Linked (Function.update (chain sizeofT count block p.next).next last p.freeList) p.freeList free :=
      kept.update fun member => elsewhere last member (List.mem_of_getLast? ends)
    have joined := redirected.prepend path ends (by rw [Function.update_self])
    have some_ : (chain sizeofT count block p.next).chainHead = some first := by
      rw [head, nodes, List.head?_cons]
    rw [← head, some_] at joined
    simp only [some_, built.tail, ends, Option.getD_some]
    exact joined

end Product

/-- The slots and the chain are as they should be exactly if the size of the block is
the product it is meant to be. -/
theorem carved_iff {sizeofT count block : Word} (allocated : Allocated block (blockLength sizeofT count))
    (next : Word → Option Word) :
    Carved sizeofT count block next ↔ objSize sizeofT.toNat * count.toNat < 2 ^ 64 := by
  constructor
  · intro carved
    by_contra wraps
    exact not_carved_of_wraps allocated (Nat.not_lt.mp wraps) next carved
  · intro fits
    exact carved_of_fits allocated fits next

/-- Three objects of 100 bytes. -/
theorem three_slots_carved : Carved 100 3 4096 fun _ => none :=
  (carved_iff ⟨by decide, by decide, by decide⟩ _).mpr (by decide)

/-- The size of 2^58 + 1 slots wraps to that of one. -/
theorem wrapped_block_overrun :
    ¬ ∀ (sizeofT count block : Word) (next : Word → Option Word), Allocated block (blockLength sizeofT count) →
      Carved sizeofT count block next := by
  intro claimed
  have allocated : Allocated 4096 (blockLength 64 288230376151711745) := ⟨by decide, by decide, by decide⟩
  have carved := claimed 64 288230376151711745 4096 (fun _ => none) allocated
  exact absurd (carved.inside 1 (by decide)).2 (by decide)

end Talon.Memory.Carving
