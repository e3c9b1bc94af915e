import Talon.Memory.ArenaInvariant

/-! Every atomic step of the pools keeps the invariant: what a slot's move from
one place to another needs, one lemma per step. -/
namespace Talon.Memory
open Interleaving

section Stocks
variable {X Q L E : Type} {lay : Layout X Q L E} {x : X} {c : ThreadCache (Slot Q)}

/-- A cache that has only given slots away. -/
theorem Stocks.fewer {count : Nat} (stocks : Stocks lay x c) (fewer : count ≤ c.count) {given : List (Slot Q)}
    (live : c.live = ({ c with count := count } : ThreadCache (Slot Q)).live ++ given) :
    Stocks lay x { c with count := count } where
  filled := stocks.filled.fewer fewer
  bounded := fewer.trans stocks.bounded
  binned slot member := stocks.binned slot (live ▸ List.mem_append_left _ member)

theorem Stocks.push {node : Slot Q} (stocks : Stocks lay x c) (room : c.count < lay.cacheSize)
    (fits : lay.bin node.pool = x) :
    Stocks lay x ⟨Function.update c.nodes c.count (some node), c.count + 1⟩ where
  filled := stocks.filled.push node
  bounded := room
  binned slot member := by
    rw [ThreadCache.live_push, List.mem_append, List.mem_singleton] at member
    rcases member with old | rfl
    · exact stocks.binned slot old
    · exact fits

end Stocks

namespace Arena
variable {ι X Q L E : Type} {lay : Layout X Q L E} {s : Arena ι X Q L E} {i : ι} {x : X}
  {c : ThreadCache (Slot Q)} {slot : Option (Slot Q)}

section Contents
variable [DecidableEq ι]

@[simp] theorem contents_setHand_self : (s.setHand i slot).contents (.hand i) = slot.toList := by
  simp only [contents, setHand, Function.update_self]

theorem contents_setHand (place : Place ι X Q) (other : place ≠ .hand i) :
    (s.setHand i slot).contents place = s.contents place := by
  cases place with
  | hand j =>
    have elsewhere : j ≠ i := fun same => other (by rw [same])
    simp only [contents, setHand, Function.update_of_ne elsewhere]
  | free | cached | held | chain | lost => rfl

variable [DecidableEq X]

theorem setCache_all {P : ι → X → ThreadCache (Slot Q) → Prop} (new : P i x c)
    (old : ∀ j y, P j y (s.cache j y)) (j : ι) (y : X) : P j y ((s.setCache i x c).cache j y) := by
  by_cases mine : j = i
  · subst mine
    by_cases here : y = x
    · subst here
      simpa only [setCache, Function.update_self] using new
    · simpa only [setCache, Function.update_self, Function.update_of_ne here] using old j y
  · simpa only [setCache, Function.update_of_ne mine] using old j y

@[simp] theorem contents_setCache_self : (s.setCache i x c).contents (.cached i x) = c.live := by
  simp only [contents, setCache, Function.update_self]

theorem contents_setCache (place : Place ι X Q) (other : place ≠ .cached i x) :
    (s.setCache i x c).contents place = s.contents place := by
  cases place with
  | cached j y =>
    by_cases mine : j = i
    · subst mine
      have elsewhere : y ≠ x := fun same => other (by rw [same])
      simp only [contents, setCache, Function.update_self, Function.update_of_ne elsewhere]
    · simp only [contents, setCache, Function.update_of_ne mine]
  | free | held | hand | chain | lost => rfl

end Contents

/-- A link may change where no free list runs. -/
theorem Valid.linked_update [DecidableEq Q] (valid : s.Valid lay) (place : Place ι X Q) {node : Slot Q}
    {value : Option (Slot Q)} (elsewhere : ∀ q, place ≠ .free q) (member : node ∈ s.contents place) (q : Q) :
    Linked (Function.update s.next node value) (s.head q) (s.freed q) := by
  refine (valid.linked q).congr fun n free => Function.update_of_ne ?_ _ _
  intro same
  subst same
  exact elsewhere q (valid.custody.apart place (.free q) n member free)

theorem Valid.setNext [DecidableEq Q] (valid : s.Valid lay) (place : Place ι X Q) {node : Slot Q}
    {value : Option (Slot Q)} (elsewhere : ∀ q, place ≠ .free q) (member : node ∈ s.contents place) :
    (s.setNext node value).Valid lay :=
  { valid with
    custody := valid.custody.congr fun place => by cases place <;> rfl
    linked := valid.linked_update place elsewhere member }

section Moves
variable [DecidableEq ι]

theorem Valid.serve (valid : s.Valid lay) {target : Option Q}
    (born : ∀ q, target = some q → lay.born s.own q) : (s.serve i target).Valid lay :=
  { valid with
    custody := valid.custody.congr fun place => by cases place <;> rfl
    served := by
      intro j q serving
      by_cases mine : j = i
      · subst mine
        exact born q (by simpa only [Arena.serve, Function.update_self] using serving)
      · exact valid.served j q (by simpa only [Arena.serve, Function.update_of_ne mine] using serving) }

theorem Valid.receive (valid : s.Valid lay) {request : L}
    (mine : s.hand i = slot) (answers : ∀ node, slot = some node → lay.target request = some node.pool) :
    (s.receive i request slot).Valid lay :=
  { valid with
    custody := by
      refine valid.custody.move (.hand i) .held slot.toList nofun ?_ ?_ ?_
      · simp only [contents, Arena.receive, Function.update_self, Option.toList, List.append_nil, mine,
          List.Perm.refl]
      · simp only [contents, Arena.receive, List.map_append, List.map_map, Function.comp_def,
          List.map_id', List.Perm.refl]
      · intro place left came
        cases place with
        | hand j =>
          have elsewhere : j ≠ i := fun same => left (by rw [same])
          simp only [contents, Arena.receive, Function.update_of_ne elsewhere]
        | held => contradiction
        | free | cached | chain | lost => rfl
    answered := by
      intro h member
      rcases List.mem_append.mp member with new | old
      · obtain ⟨node, given, rfl⟩ := List.mem_map.mp new
        exact answers node (Option.mem_toList.mp given)
      · exact valid.answered h old }

theorem Valid.takeBack [DecidableEq L] [DecidableEq Q] (valid : s.Valid lay) {request : L}
    {node : Slot Q} (idle : s.hand i = none) (held : (request, node) ∈ s.held) :
    (s.takeBack i request node).Valid lay :=
  { valid with
    custody := by
      have split : (s.held.map Prod.snd).Perm (node :: (s.held.erase (request, node)).map Prod.snd) :=
        (List.perm_cons_erase held).map Prod.snd
      refine valid.custody.move .held (.hand i) [node] nofun split.symm ?_ ?_
      · simp only [contents, Arena.takeBack, Function.update_self, Option.toList, idle, List.append_nil,
          List.Perm.refl]
      · intro place left came
        cases place with
        | hand j =>
          have elsewhere : j ≠ i := fun same => came (by rw [same])
          simp only [contents, Arena.takeBack, Function.update_of_ne elsewhere]
        | held => contradiction
        | free | cached | chain | lost => rfl
    answered := fun h member => valid.answered h (List.mem_of_mem_erase member) }

end Moves

section Caches
variable [DecidableEq ι] [DecidableEq X]

/-- Slots go between the cache and the hand, and nothing else changes. -/
theorem Valid.cacheHand (valid : s.Valid lay) (stocks : Stocks lay x c)
    (custody : Custody ((s.setCache i x c).setHand i slot).contents s.carved) :
    ((s.setCache i x c).setHand i slot).Valid lay :=
  { valid with
    custody := custody
    stocked := setCache_all (P := fun _ x c => Stocks lay x c) stocks valid.stocked }

theorem Valid.popCache (valid : s.Valid lay) (idle : s.hand i = none) :
    ((s.setCache i x (s.cache i x).pop.2).setHand i (s.cache i x).pop.1).Valid lay := by
  by_cases none_ : (s.cache i x).count = 0
  · have same : (s.setCache i x (s.cache i x)).setHand i none = s := by
      simp only [setCache, setHand, Function.update_eq_self, ← idle]
    rw [ThreadCache.pop_empty none_, same]
    exact valid
  obtain ⟨node, popped, live⟩ := ThreadCache.pop_some (valid.stocked i x).filled none_
  rw [popped]
  refine valid.cacheHand ((valid.stocked i x).fewer (Nat.sub_le _ _) live) ?_
  refine valid.custody.move (.cached i x) (.hand i) [node] nofun ?_ ?_ ?_
  · rw [contents_setHand (.cached i x) nofun, contents_setCache_self]
    simp only [contents, live]
    exact List.perm_append_comm
  · rw [contents_setHand_self]
    simp only [contents, idle, Option.toList, List.append_nil, List.Perm.refl]
  · intro place left came
    rw [contents_setHand place came, contents_setCache place left]

theorem Valid.pushCache (valid : s.Valid lay) {node : Slot Q} (mine : s.hand i = some node)
    (fits : lay.bin node.pool = x) (room : (s.cache i x).count < lay.cacheSize) :
    ((s.setCache i x ((s.cache i x).push lay.cacheSize node).2).setHand i none).Valid lay := by
  rw [ThreadCache.push_room room]
  refine valid.cacheHand ((valid.stocked i x).push room fits) ?_
  refine valid.custody.move (.hand i) (.cached i x) [node] nofun ?_ ?_ ?_
  · rw [contents_setHand_self]
    simp only [contents, mine, Option.toList, List.append_nil, List.Perm.refl]
  · rw [contents_setHand (.cached i x) nofun, contents_setCache_self, ThreadCache.live_push]
    exact List.perm_append_comm
  · intro place left came
    rw [contents_setHand place left, contents_setCache place came]

theorem Valid.takeHalf (valid : s.Valid lay) (idle : s.chain i = []) : (s.takeHalf i x).Valid lay := by
  have live := (s.cache i x).live_halve
  have stocks : Stocks lay x (s.cache i x).halve := (valid.stocked i x).fewer (Nat.sub_le _ _) live
  exact { valid with
    stocked := setCache_all (P := fun _ x c => Stocks lay x c) stocks valid.stocked
    custody := by
      refine valid.custody.move (.cached i x) (.chain i) (s.cache i x).upper nofun ?_ ?_ ?_
      · have taken : (s.takeHalf i x).contents (.cached i x) = (s.cache i x).halve.live :=
          contents_setCache_self
        rw [taken]
        simp only [contents, live]
        exact List.perm_append_comm
      · simp only [contents, Arena.takeHalf, Function.update_self, idle, List.append_nil, List.Perm.refl]
      · intro place left came
        have kept : (s.takeHalf i x).contents place =
            (s.setCache i x (s.cache i x).halve).contents place := by
          cases place with
          | chain j =>
            have elsewhere : j ≠ i := fun same => came (by rw [same])
            simp only [contents, Arena.takeHalf, setCache, Function.update_of_ne elsewhere]
          | free | cached | held | hand | lost => rfl
        rw [kept, contents_setCache place left] }

end Caches

theorem Valid.popFree_pool (valid : s.Valid lay) {q : Q} {node : Slot Q} (top : s.head q = some node) :
    node.pool = q := by
  have first : (s.freed q).head? = some node := by rw [← (valid.linked q).head, top]
  exact valid.sorted q node (List.mem_of_mem_head? first)

section FreeLists
variable [DecidableEq ι] [DecidableEq Q] {q : Q}

theorem Valid.popFree (valid : s.Valid lay) (idle : s.hand i = none) : (s.popFree i q).Valid lay := by
  cases top : s.head q with
  | none => simpa only [Arena.popFree, top] using valid
  | some node =>
    have first : (s.freed q).head? = some node := by rw [← (valid.linked q).head, top]
    obtain ⟨rest, list⟩ : ∃ rest, s.freed q = node :: rest := List.head?_eq_some_iff.mp first
    simp only [Arena.popFree, top]
    exact { valid with
      custody := by
        refine valid.custody.move (.free q) (.hand i) [node] nofun ?_ ?_ ?_
        · simp only [contents, Function.update_self, list, List.tail_cons, List.singleton_append,
            List.Perm.refl]
        · simp only [contents, Function.update_self, idle, Option.toList, List.append_nil, List.Perm.refl]
        · intro place left came
          cases place with
          | free p =>
            have elsewhere : p ≠ q := fun same => left (by rw [same])
            simp only [contents, Function.update_of_ne elsewhere]
          | hand j =>
            have elsewhere : j ≠ i := fun same => came (by rw [same])
            simp only [contents, Function.update_of_ne elsewhere]
          | cached | held | chain | lost => rfl
      linked := by
        intro p
        by_cases here : p = q
        · subst here
          simpa only [Function.update_self] using (valid.linked p).tail first
        · simpa only [Function.update_of_ne here] using valid.linked p
      sorted := by
        intro p slot member
        by_cases here : p = q
        · subst here
          simp only [Function.update_self] at member
          exact valid.sorted p slot (List.mem_of_mem_tail member)
        · simp only [Function.update_of_ne here] at member
          exact valid.sorted p slot member }

/-- The pushed chain is the path of links from `chainHead` to `chainTail`. -/
theorem Valid.pushChain (valid : s.Valid lay) {chainHead chainTail : Slot Q}
    (path : List.IsChain (fun a b => s.next a = some b) (s.chain i))
    (first : (s.chain i).head? = some chainHead) (last : (s.chain i).getLast? = some chainTail)
    (sorted : ∀ slot ∈ s.chain i, slot.pool = q) : (s.pushChain i q chainHead chainTail).Valid lay := by
  have tailMember : chainTail ∈ s.chain i := List.mem_of_getLast? last
  have kept : ∀ p, Linked (Function.update s.next chainTail (s.head q)) (s.head p) (s.freed p) :=
    valid.linked_update (.chain i) nofun tailMember
  exact { valid with
    custody := by
      refine valid.custody.move (.chain i) (.free q) (s.chain i) nofun ?_ ?_ ?_
      · simp only [contents, Arena.pushChain, Function.update_self, List.append_nil, List.Perm.refl]
      · simp only [contents, Arena.pushChain, Function.update_self, List.Perm.refl]
      · intro place left came
        cases place with
        | free p =>
          have elsewhere : p ≠ q := fun same => came (by rw [same])
          simp only [contents, Arena.pushChain, Function.update_of_ne elsewhere]
        | chain j =>
          have elsewhere : j ≠ i := fun same => left (by rw [same])
          simp only [contents, Arena.pushChain, Function.update_of_ne elsewhere]
        | cached | held | hand | lost => rfl
    linked := by
      intro p
      by_cases here : p = q
      · subst here
        simp only [Arena.pushChain, Function.update_self]
        rw [← first]
        refine (kept p).prepend (isChain_update_last _ path (valid.custody.once (.chain i)) last) last ?_
        exact Function.update_self _ _ _
      · simpa only [Arena.pushChain, Function.update_of_ne here] using kept p
    sorted := by
      intro p slot member
      by_cases here : p = q
      · subst here
        simp only [Arena.pushChain, Function.update_self, List.mem_append] at member
        exact member.elim (sorted slot) (valid.sorted p slot)
      · simp only [Arena.pushChain, Function.update_of_ne here] at member
        exact valid.sorted p slot member }

end FreeLists

section Allocations
variable {block : Slot Q} {bytes count : Nat}

/-- A slot that an earlier allocation has is none of a new one. -/
theorem Valid.fresh (valid : s.Valid lay) {slot : Slot Q} (new : slot.block = s.heap.length) :
    slot ∉ s.carved := by
  intro member
  obtain ⟨a, found, _⟩ := valid.mapped slot member
  rw [new, List.getElem?_eq_none (Nat.le_refl _)] at found
  contradiction

theorem Valid.mapped_append (valid : s.Valid lay) (a : Allocation Q) {slot : Slot Q}
    (member : slot ∈ s.carved) : ∃ b, (s.heap ++ [a])[slot.block]? = some b ∧ b.pool = slot.pool ∧
      ∃ k < b.count, slot.address = b.start + k * lay.slotBytes b.pool := by
  obtain ⟨b, found, rest⟩ := valid.mapped slot member
  obtain ⟨bound, _⟩ := List.getElem?_eq_some_iff.mp found
  exact ⟨b, by rw [List.getElem?_append_left bound, found], rest⟩

theorem Valid.separate_append (valid : s.Valid lay) {a : Allocation Q}
    (fits : Fits s.heap a.start a.bytes) : (s.heap ++ [a]).Pairwise fun a b =>
      a.live = true → b.live = true → Apart a.start a.bytes b.start b.bytes := by
  rw [List.pairwise_append]
  refine ⟨valid.separate, List.pairwise_singleton _ _, ?_⟩
  intro b member c new live _
  rw [List.mem_singleton] at new
  subst new
  exact fits.2.2 b member live

theorem Valid.counted_append (valid : s.Valid lay) {a : Allocation Q} (counts : lay.counts a)
    (fits : Fits s.heap a.start a.bytes) :
    ∀ b ∈ s.heap ++ [a], lay.counts b ∧ 64 ∣ b.start ∧ 0 < b.start := by
  intro b member
  rcases List.mem_append.mp member with old | new
  · exact valid.counted b old
  · rw [List.mem_singleton] at new
    subst new
    exact ⟨counts, fits.1, fits.2.1⟩

theorem Valid.backed_append (valid : s.Valid lay) {a : Allocation Q} (live : a.live = true) :
    ∀ b ∈ s.heap ++ [a], b.live = true ∨ lay.gone s.own b.pool := by
  intro b member
  rcases List.mem_append.mp member with old | new
  · exact valid.backed b old
  · rw [List.mem_singleton] at new
    subst new
    exact Or.inl live

section Ranges

theorem apart_within {start length start' length' inner innerLength inner' innerLength' : Nat}
    (apart : Apart start length start' length') (low : start ≤ inner)
    (high : inner + innerLength ≤ start + length) (low' : start' ≤ inner')
    (high' : inner' + innerLength' ≤ start' + length') : Apart inner innerLength inner' innerLength' := by
  simp only [Apart] at apart ⊢
  omega

theorem apart_symm {start length start' length' : Nat} (apart : Apart start length start' length') :
    Apart start' length' start length := Or.symm apart

/-- Two slots of one block. -/
theorem apart_slots {start size k m : Nat} (different : k ≠ m) :
    Apart (start + k * size) size (start + m * size) size := by
  rcases Nat.lt_or_gt_of_ne different with below | above
  · have step : (k + 1) * size ≤ m * size := Nat.mul_le_mul_right size below
    rw [Nat.add_one_mul] at step
    exact Or.inl (by omega)
  · have step : (m + 1) * size ≤ k * size := Nat.mul_le_mul_right size above
    rw [Nat.add_one_mul] at step
    exact Or.inr (by omega)

end Ranges

/-- Where the slots fill their allocation exactly, a slot lies inside it. -/
theorem Valid.slot_within (valid : s.Valid lay)
    (filled : ∀ a ∈ s.heap, lay.slotBytes a.pool * a.count = a.bytes) {slot : Slot Q}
    (member : slot ∈ s.carved) : ∃ a, s.heap[slot.block]? = some a ∧ a.pool = slot.pool ∧
      a.start ≤ slot.address ∧ slot.address + lay.slotBytes slot.pool ≤ a.start + a.bytes := by
  obtain ⟨a, found, owner, k, below, address⟩ := valid.mapped slot member
  have last : (k + 1) * lay.slotBytes a.pool ≤ a.count * lay.slotBytes a.pool :=
    Nat.mul_le_mul_right _ below
  rw [Nat.add_one_mul, Nat.mul_comm a.count, filled a (List.mem_of_getElem? found)] at last
  refine ⟨a, found, owner, ?_, ?_⟩
  · rw [address]
    exact Nat.le_add_right _ _
  · rw [address, ← owner]
    omega

/-- Slots that fill live allocations exactly do not overlap. -/
theorem Valid.slots_apart (valid : s.Valid lay) (live : ∀ a ∈ s.heap, a.live = true)
    (filled : ∀ a ∈ s.heap, lay.slotBytes a.pool * a.count = a.bytes) {slot other : Slot Q}
    (member : slot ∈ s.carved) (member' : other ∈ s.carved) (different : slot ≠ other) :
    Apart slot.address (lay.slotBytes slot.pool) other.address (lay.slotBytes other.pool) := by
  by_cases sameBlock : slot.block = other.block
  · obtain ⟨a, found, owner, k, _, address⟩ := valid.mapped slot member
    obtain ⟨a', found', owner', m, _, address'⟩ := valid.mapped other member'
    rw [← sameBlock, found, Option.some.injEq] at found'
    subst found'
    rw [← owner, ← owner', address, address']
    refine apart_slots fun sameIndex => different ?_
    obtain ⟨pool, block, place⟩ := slot
    obtain ⟨pool', block', place'⟩ := other
    simp only at owner owner' sameBlock address address'
    rw [← owner, ← owner', sameBlock, address, address', sameIndex]
  · obtain ⟨a, found, _, low, high⟩ := valid.slot_within filled member
    obtain ⟨a', found', _, low', high'⟩ := valid.slot_within filled member'
    obtain ⟨bound, isA⟩ := List.getElem?_eq_some_iff.mp found
    obtain ⟨bound', isA'⟩ := List.getElem?_eq_some_iff.mp found'
    have liveA := live a (List.mem_of_getElem? found)
    have liveA' := live a' (List.mem_of_getElem? found')
    have separate := List.pairwise_iff_getElem.mp valid.separate
    rcases Nat.lt_or_gt_of_ne sameBlock with first | second
    · have apart := separate _ _ bound bound' first
      rw [isA, isA'] at apart
      exact apart_within (apart liveA liveA') low high low' high'
    · have apart := separate _ _ bound' bound second
      rw [isA, isA'] at apart
      exact apart_symm (apart_within (apart liveA' liveA) low' high' low high)

theorem slots_nodup (positive : 0 < lay.slotBytes block.pool) : (slots lay block count).Nodup := by
  refine List.Nodup.map ?_ List.nodup_range
  intro k m same
  have addresses := congrArg Slot.address same
  simp only [slotAt, Nat.add_left_cancel_iff] at addresses
  exact Nat.eq_of_mul_eq_mul_right positive addresses

variable [DecidableEq ι]

theorem Valid.addBlock (valid : s.Valid lay) (positive : 0 < lay.slotBytes block.pool)
    (idle : s.chain i = []) (new : block.block = s.heap.length)
    (fits : Fits s.heap block.address bytes)
    (counts : lay.counts ⟨block.pool, block.address, bytes, count, true, true⟩)
    (born : lay.born s.own block.pool) : (s.addBlock lay i count bytes block).Valid lay :=
  { valid with
    custody := by
      refine valid.custody.add (.chain i) (slots_nodup positive) ?_ ?_ ?_
      · intro slot member
        obtain ⟨k, _, rfl⟩ := List.mem_map.mp member
        exact valid.fresh new
      · simp only [contents, Arena.addBlock, Function.update_self, idle, List.append_nil, List.Perm.refl]
      · intro place other
        cases place with
        | chain j =>
          have elsewhere : j ≠ i := fun same => other (by rw [same])
          simp only [contents, Arena.addBlock, Function.update_of_ne elsewhere]
        | free | cached | held | hand | lost => rfl
    mapped := by
      intro slot member
      rcases List.mem_append.mp member with old | fresh
      · exact valid.mapped_append _ old
      · obtain ⟨k, below, rfl⟩ := List.mem_map.mp fresh
        refine ⟨⟨block.pool, block.address, bytes, count, true, true⟩, ?_, rfl, k,
          List.mem_range.mp below, rfl⟩
        simp only [Arena.addBlock, slotAt, new, List.getElem?_concat_length]
    counted := valid.counted_append counts fits
    separate := valid.separate_append fits
    backed := valid.backed_append rfl
    born := by
      intro slot member
      rcases List.mem_append.mp member with old | fresh
      · exact valid.born slot old
      · obtain ⟨k, _, rfl⟩ := List.mem_map.mp fresh
        exact born }

theorem Valid.addSlot (valid : s.Valid lay) (idle : s.hand i = none)
    (new : block.block = s.heap.length) (fits : Fits s.heap block.address bytes)
    (counts : lay.counts ⟨block.pool, block.address, bytes, 1, false, true⟩)
    (born : lay.born s.own block.pool) : (s.addSlot i bytes block).Valid lay :=
  { valid with
    custody := by
      refine valid.custody.add (.hand i) (List.nodup_singleton block) ?_ ?_ ?_
      · intro slot member
        rw [List.mem_singleton] at member
        subst member
        exact valid.fresh new
      · simp only [contents, Arena.addSlot, Function.update_self, idle, Option.toList, List.append_nil,
          List.Perm.refl]
      · intro place other
        cases place with
        | hand j =>
          have elsewhere : j ≠ i := fun same => other (by rw [same])
          simp only [contents, Arena.addSlot, Function.update_of_ne elsewhere]
        | free | cached | held | chain | lost => rfl
    mapped := by
      intro slot member
      rcases List.mem_append.mp member with old | fresh
      · exact valid.mapped_append _ old
      · rw [List.mem_singleton] at fresh
        subst fresh
        refine ⟨⟨slot.pool, slot.address, bytes, 1, false, true⟩, ?_, rfl, 0, Nat.one_pos, ?_⟩
        · simp only [Arena.addSlot, new, List.getElem?_concat_length]
        · simp only [Nat.zero_mul, Nat.add_zero]
    counted := valid.counted_append counts fits
    separate := valid.separate_append fits
    backed := valid.backed_append rfl
    born := by
      intro slot member
      rcases List.mem_append.mp member with old | fresh
      · exact valid.born slot old
      · rw [List.mem_singleton] at fresh
        subst fresh
        exact born }

end Allocations
end Arena
end Talon.Memory
