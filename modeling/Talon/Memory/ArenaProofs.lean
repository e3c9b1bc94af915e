import Talon.Memory.ArenaSteps

/-! The pools' operations by what they do to their caller's view: first the
atomic steps, then the loops, then `GrowPool` and `ReleaseMemory`. -/
namespace Talon.Memory
open Interleaving Ownership

section Slots
variable {X Q L E : Type} {lay : Layout X Q L E} {block : Slot Q} {count : Nat}

theorem mem_slots {k : Nat} (below : k < count) : slotAt lay block k ∈ slots lay block count :=
  List.mem_map_of_mem (List.mem_range.mpr below)

theorem slots_succ (k : Nat) : slots lay block (k + 1) = slots lay block k ++ [slotAt lay block k] := by
  simp only [slots, List.range_succ, List.map_append, List.map_cons, List.map_nil]

theorem slots_getLast (k : Nat) : (slots lay block (k + 1)).getLast? = some (slotAt lay block k) := by
  rw [slots_succ, List.getLast?_concat]

theorem slots_head (k : Nat) : (slots lay block (k + 1)).head? = some (slotAt lay block 0) := by
  simp only [slots, List.head?_map, List.head?_range, Nat.succ_ne_zero, if_false, Option.map_some]

/-- The slots linked so far, as the loop remembers them. -/
def linkedSlots (lay : Layout X Q L E) (block : Slot Q) : Nat → Option (Slot Q × Slot Q)
  | 0 => none
  | k + 1 => some (slotAt lay block 0, slotAt lay block k)

end Slots

variable {ι X Q L E A : Type} [DecidableEq Q]
  {lay : Layout X Q L E} {allowed : Arena ι X Q L E → Arena ι X Q L E → Prop}
  {i : ι} {v : View X Q}

theorem Arena.view_congr {s t : Arena ι X Q L E} {j : ι} (cache : t.cache j = s.cache j)
    (hand : t.hand j = s.hand j) (chain : t.chain j = s.chain j) (serving : t.serving j = s.serving j)
    (links : ∀ n ∈ s.chain j, t.next n = s.next n) : t.view j = s.view j := by
  simp only [view, cache, hand, chain, serving, View.mk.injEq, true_and, and_true]
  funext n
  split
  · rename_i member
    exact links n member
  · rfl

theorem ensures_storeNext {node : Slot Q} {value : Option (Slot Q)} (member : node ∈ v.chain) :
    (ownership lay allowed).Ensures spec i v (storeNext (some node) value : Code ι X Q L E A Unit)
      fun _ v' => v' = { v with links := Function.update v.links node value } := by
  refine Ensures.store rfl fun s holds _ => ?_
  obtain ⟨valid, rfl⟩ := holds
  refine ⟨valid.setNext (.chain i) nofun member, fun j other => ?_, ?_⟩
  · refine Arena.view_congr rfl rfl rfl rfl fun n theirs => Function.update_of_ne ?_ _ _
    rintro rfl
    have same := valid.custody.apart (.chain i) (.chain j) n member theirs
    exact other (Place.chain.inj same).symm
  · simp only [ownership, Arena.view, Arena.setNext, View.mk.injEq, true_and, and_true]
    funext n
    by_cases same : n = node
    · subst same
      have mine : n ∈ s.chain i := member
      simp only [mine, if_true, Function.update_self]
    · simp only [Function.update_of_ne same]

theorem ensures_loadCell {x : X} {k : Nat} :
    (ownership lay allowed).Ensures spec i v (loadCell i x k : Code ι X Q L E A (Option (Slot Q)))
      fun cell v' => v' = v ∧ cell = (v.cache x).nodes k := by
  refine Ensures.load fun s holds => ⟨rfl, ?_⟩
  obtain ⟨_, rfl⟩ := holds
  rfl

/-- The tail walk reads the links of the thread's own chain. -/
theorem ensures_loadNext {node : Slot Q} (member : node ∈ v.chain) :
    (ownership lay allowed).Ensures spec i v (.load (·.next node) : Code ι X Q L E A (Option (Slot Q)))
      fun next v' => v' = v ∧ next = v.links node := by
  refine Ensures.load fun s holds => ⟨rfl, ?_⟩
  obtain ⟨_, rfl⟩ := holds
  have mine : node ∈ s.chain i := member
  simp only [ownership, Arena.view, mine, if_true]

section Steps
variable [DecidableEq ι]

section Cache
variable [DecidableEq X]

/-- The view after a pop from the cache, whatever was in it. -/
def View.popped (x : X) (v : View X Q) : View X Q :=
  { v with cache := Function.update v.cache x (v.cache x).pop.2, hand := (v.cache x).pop.1 }

theorem ensures_popCache {x : X} (idle : v.hand = none) :
    (ownership lay allowed).Ensures spec i v (popCache i x : Code ι X Q L E A (Option (Slot Q)))
      fun result v' => v' = v.popped x ∧ result = (v.cache x).pop.1 := by
  refine Ensures.exchange fun s holds _ => ?_
  obtain ⟨valid, rfl⟩ := holds
  refine ⟨_, ⟨rfl, rfl⟩, valid.popCache idle, fun j other => ?_, ?_⟩
  · exact Arena.view_congr (Function.update_of_ne other _ _) (Function.update_of_ne other _ _)
      rfl rfl fun _ _ => rfl
  · simp only [ownership, Arena.view, Arena.setHand, Arena.setCache, View.popped, Function.update_self]

/-- A full cache refuses the slot, which stays in hand. -/
theorem ensures_pushCache_full {x : X} {node : Slot Q} (full : lay.cacheSize ≤ (v.cache x).count) :
    (ownership lay allowed).Ensures spec i v (pushCache lay i x node : Code ι X Q L E A Bool)
      fun pushed v' => v' = v ∧ pushed = false := by
  refine Ensures.exchange fun s holds _ => ?_
  obtain ⟨valid, rfl⟩ := holds
  have refused : (s.cache i x).push lay.cacheSize node = (false, s.cache i x) := ThreadCache.push_full full
  have same : (s.setCache i x (s.cache i x)).setHand i (s.hand i) = s := by
    simp only [Arena.setCache, Arena.setHand, Function.update_eq_self]
  simp only [refused, Bool.false_eq_true, if_false, same]
  exact ⟨_, ⟨rfl, trivial⟩, valid, fun _ _ => rfl, rfl⟩

theorem ensures_pushCache_room {x : X} {node : Slot Q} (mine : v.hand = some node)
    (fits : lay.bin node.pool = x) (room : (v.cache x).count < lay.cacheSize) :
    (ownership lay allowed).Ensures spec i v (pushCache lay i x node : Code ι X Q L E A Bool)
      fun pushed v' => pushed = true ∧ v'.hand = none ∧ v'.chain = v.chain ∧ v'.serving = v.serving := by
  refine Ensures.exchange fun s holds _ => ?_
  obtain ⟨valid, rfl⟩ := holds
  have below : (s.cache i x).count < lay.cacheSize := room
  have accepted : ((s.cache i x).push lay.cacheSize node).1 = true := by
    rw [ThreadCache.push_room below]
  simp only [accepted, if_true]
  refine ⟨_, ⟨trivial, ?_⟩, valid.pushCache mine fits room, fun j other => ?_, rfl⟩
  · exact ⟨Function.update_self _ _ _, rfl, rfl⟩
  · exact Arena.view_congr (Function.update_of_ne other _ _) (Function.update_of_ne other _ _)
      rfl rfl fun _ _ => rfl

theorem ensures_takeHalf {x : X} (idle : v.chain = []) :
    (ownership lay allowed).Ensures spec i v (.store (·.takeHalf i x) : Code ι X Q L E A Unit)
      fun _ v' => v'.cache = Function.update v.cache x (v.cache x).halve ∧
        v'.chain = (v.cache x).upper ∧ v'.hand = v.hand ∧ v'.serving = v.serving := by
  refine Ensures.exchange fun s holds _ => ?_
  obtain ⟨valid, rfl⟩ := holds
  refine ⟨_, ?_, valid.takeHalf idle, fun j other => ?_, rfl⟩
  · exact ⟨Function.update_self _ _ _, Function.update_self _ _ _, rfl, rfl⟩
  · exact Arena.view_congr (Function.update_of_ne other _ _) rfl (Function.update_of_ne other _ _) rfl
      fun _ _ => rfl

end Cache

theorem ensures_popFree {q : Q} (idle : v.hand = none) :
    (ownership lay allowed).Ensures spec i v (popFree i q : Code ι X Q L E A (Option (Slot Q)))
      fun result v' => v' = { v with hand := result } ∧ ∀ node, result = some node → node.pool = q := by
  refine Ensures.exchange fun s holds _ => ?_
  obtain ⟨valid, rfl⟩ := holds
  refine ⟨_, ⟨rfl, fun node top => valid.popFree_pool top⟩, valid.popFree idle, fun j other => ?_, ?_⟩
  · cases top : s.head q with
    | none => simp only [ownership, Arena.popFree, top]
    | some node =>
      simp only [ownership, Arena.popFree, top]
      exact Arena.view_congr rfl (Function.update_of_ne other _ _) rfl rfl fun _ _ => rfl
  · have none_ : s.hand i = none := idle
    cases top : s.head q with
    | none => simp only [ownership, Arena.popFree, top, Arena.view, none_]
    | some node => simp only [ownership, Arena.popFree, top, Arena.view, Function.update_self]

/-- The chain that the thread pushes is a path of links from its first slot. -/
structure View.Chained (v : View X Q) (chainHead chainTail : Slot Q) : Prop where
  path : List.IsChain (fun a b => v.links a = some b) v.chain
  first : v.chain.head? = some chainHead
  last : v.chain.getLast? = some chainTail

theorem ensures_pushChain {q : Q} {chainHead chainTail : Slot Q} (chained : v.Chained chainHead chainTail)
    (sorted : ∀ slot ∈ v.chain, slot.pool = q) :
    (ownership lay allowed).Ensures spec i v (pushChain i q chainHead chainTail : Code ι X Q L E A Unit)
      fun _ v' => v'.cache = v.cache ∧ v'.hand = v.hand ∧ v'.chain = [] ∧ v'.serving = v.serving := by
  refine Ensures.exchange fun s holds _ => ?_
  obtain ⟨valid, rfl⟩ := holds
  obtain ⟨path, first, last⟩ := chained
  have tailMember : chainTail ∈ s.chain i := List.mem_of_getLast? last
  have linked : List.IsChain (fun a b => s.next a = some b) (s.chain i) := by
    refine List.IsChain.imp_of_mem_imp (fun a b member _ points => ?_) path
    have mine : a ∈ s.chain i := member
    simpa only [ownership, Arena.view, mine, if_true] using points
  refine ⟨_, ?_, valid.pushChain linked first last sorted, fun j other => ?_, rfl⟩
  · exact ⟨rfl, rfl, Function.update_self _ _ _, rfl⟩
  · refine Arena.view_congr rfl rfl (Function.update_of_ne other _ _) rfl fun n theirs => ?_
    refine Function.update_of_ne ?_ _ _
    rintro rfl
    have same := valid.custody.apart (.chain i) (.chain j) n tailMember theirs
    exact other (Place.chain.inj same).symm

section Allocate
variable {q : Q} (serves : v.serving = some q)
include serves

theorem ensures_addBlock {count bytes : Nat} (positive : 0 < lay.slotBytes q) (idle : v.chain = [])
    (counts : ∀ address, lay.counts ⟨q, address, bytes, count, true, true⟩) :
    (ownership lay allowed).Ensures spec i v
      (alignedAlloc q bytes (Arena.addBlock lay i count bytes) : Code ι X Q L E A (Option (Slot Q)))
      fun result v' => v'.cache = v.cache ∧ v'.hand = v.hand ∧ v'.serving = v.serving ∧
        match result with
        | none => v'.chain = []
        | some block => block.pool = q ∧ v'.chain = slots lay block count := by
  refine Ensures.atomic fun c s t holds stepped _ => ?_
  obtain ⟨valid, rfl⟩ := holds
  cases chosen : c.address with
  | none =>
    simp only [chosen, Option.some.injEq] at stepped
    subst stepped
    exact ⟨_, ⟨rfl, rfl, rfl, idle⟩, valid, fun _ _ => rfl, rfl⟩
  | some address =>
    simp only [chosen, Option.ite_none_right_eq_some, Option.some.injEq] at stepped
    obtain ⟨fits, rfl⟩ := stepped
    refine ⟨_, ?_, ?_, fun j other => ?_, rfl⟩
    · exact ⟨rfl, rfl, rfl, rfl, Function.update_self _ _ _⟩
    · exact valid.addBlock positive idle rfl fits (counts address) (valid.served i q serves)
    · exact Arena.view_congr rfl rfl (Function.update_of_ne other _ _) rfl fun _ _ => rfl

theorem ensures_allocateSlot (idle : v.hand = none)
    (counts : ∀ address, lay.counts ⟨q, address, lay.slotBytes q, 1, false, true⟩) :
    (ownership lay allowed).Ensures spec i v
      (allocateSlot lay i q : Code ι X Q L E A (Option (Slot Q)))
      fun result v' => v' = { v with hand := result } ∧ ∀ node, result = some node → node.pool = q := by
  refine Ensures.atomic fun c s t holds stepped _ => ?_
  obtain ⟨valid, rfl⟩ := holds
  cases chosen : c.address with
  | none =>
    simp only [chosen, Option.some.injEq] at stepped
    subst stepped
    refine ⟨_, ⟨rfl, nofun⟩, valid, fun _ _ => rfl, ?_⟩
    have none_ : s.hand i = none := idle
    simp only [ownership, Arena.view, none_, Option.map_none]
  | some address =>
    simp only [chosen, Option.ite_none_right_eq_some, Option.some.injEq] at stepped
    obtain ⟨fits, rfl⟩ := stepped
    refine ⟨_, ⟨rfl, ?_⟩, ?_, fun j other => ?_, ?_⟩
    · rintro node ⟨⟩
      rfl
    · exact valid.addSlot idle rfl fits (counts address) (valid.served i q serves)
    · exact Arena.view_congr rfl (Function.update_of_ne other _ _) rfl rfl fun _ _ => rfl
    · simp only [ownership, Arena.view, Arena.addSlot, Function.update_self, Option.map_some]

end Allocate
end Steps

section Carve
variable {block : Slot Q} {count : Nat}

theorem ensures_carveLoop (positive : 0 < lay.slotBytes block.pool) {remaining k : Nat}
    (chain : v.chain = slots lay block (k + remaining))
    (path : List.IsChain (fun a b => v.links a = some b) (slots lay block k)) :
    (ownership lay allowed).Ensures spec i v
      (carveLoop lay block remaining k (linkedSlots lay block k) :
        Code ι X Q L E A (Option (Slot Q × Slot Q)))
      fun result v' => result = linkedSlots lay block (k + remaining) ∧ v'.cache = v.cache ∧
        v'.hand = v.hand ∧ v'.chain = v.chain ∧ v'.serving = v.serving ∧
        List.IsChain (fun a b => v'.links a = some b) v'.chain := by
  induction remaining generalizing k v with
  | zero =>
    refine Ensures.pure ⟨rfl, rfl, rfl, rfl, rfl, ?_⟩
    rw [chain]
    exact path
  | succ remaining ih =>
    have whole : k + (remaining + 1) = k + 1 + remaining := by omega
    have nodeMember : slotAt lay block k ∈ v.chain := by
      rw [chain]
      exact mem_slots (by omega)
    have once : (slots lay block (k + 1)).Nodup := Arena.slots_nodup positive
    rw [slots_succ] at once
    obtain ⟨onceBefore, _, apart⟩ := List.nodup_append'.mp once
    have absent : slotAt lay block k ∉ slots lay block k :=
      fun member => apart member (List.mem_singleton.mpr rfl)
    refine Ensures.bind (M := fun _ v' => v' = _) (ensures_storeNext nodeMember) ?_
    rintro _ _ rfl
    have cleared := isChain_update_of_not_mem none path absent
    rw [whole] at chain ⊢
    cases k with
    | zero => exact ih chain (.singleton _)
    | succ k =>
      refine Ensures.bind (M := fun _ v' => v' = _) (ensures_storeNext ?_) ?_
      · simp only [chain]
        exact mem_slots (by omega)
      rintro _ _ rfl
      refine ih chain ?_
      rw [slots_succ]
      exact isChain_link cleared onceBefore (slots_getLast k)

/-- What `GrowPool` leaves alone. -/
structure View.Kept (v v' : View X Q) : Prop where
  cache : v'.cache = v.cache
  hand : v'.hand = v.hand
  chain : v'.chain = v.chain
  serving : v'.serving = v.serving

theorem ensures_growPool [DecidableEq ι] {q : Q} {count : Nat} (serves : v.serving = some q)
    (positive : 0 < lay.slotBytes q) (idle : v.chain = [])
    (counts : ∀ address,
      lay.counts ⟨q, address, byteCount (lay.slotBytes q) count, count, true, true⟩) :
    (ownership lay allowed).Ensures spec i v (growPool lay i q count : Code ι X Q L E A Unit)
      fun _ v' => v.Kept v' := by
  refine Ensures.bind (ensures_addBlock serves positive idle counts) ?_
  rintro (_ | block) w ⟨cache, hand, serving, rest⟩
  · exact Ensures.pure ⟨cache, hand, rest.trans idle.symm, serving⟩
  obtain ⟨rfl, chain⟩ := rest
  refine Ensures.bind (ensures_carveLoop (k := 0) positive ?_ .nil) ?_
  · rw [Nat.zero_add]
    exact chain
  rintro result u ⟨rfl, cache', hand', chain', serving', path⟩
  rw [Nat.zero_add]
  cases count with
  | zero => exact Ensures.pure ⟨cache'.trans cache, hand'.trans hand, (chain'.trans chain).trans idle.symm,
      serving'.trans serving⟩
  | succ count =>
    have last : u.chain.getLast? = some (slotAt lay block count) := by
      rw [chain', chain, slots_getLast]
    have once : u.chain.Nodup := by
      rw [chain', chain]
      exact Arena.slots_nodup positive
    refine Ensures.bind (M := fun _ v' => v' = _) (ensures_storeNext (List.mem_of_getLast? last)) ?_
    rintro _ _ rfl
    refine Ensures.mono (ensures_pushChain ⟨isChain_update_last none path once last, ?_, last⟩ ?_) ?_
    · simp only [chain', chain, slots_head]
    · intro slot member
      simp only [chain', chain, slots, List.mem_map] at member
      obtain ⟨k, _, rfl⟩ := member
      rfl
    · rintro _ v' ⟨cache'', hand'', chain'', serving''⟩
      exact ⟨cache''.trans (cache'.trans cache), hand''.trans (hand'.trans hand), chain''.trans idle.symm,
        serving''.trans (serving'.trans serving)⟩

end Carve

section Calls
variable [DecidableEq ι]

/-- `Acquire` ends with a slot of its own free list in hand, or with none, as long
as the slot on top of its thread's cache is one. -/
theorem ensures_acquire [DecidableEq X] {q : Q} {populate : Code ι X Q L E A Unit} (idle : v.hand = none)
    (empty : v.chain = []) (serves : v.serving = some q)
    (own : ∀ slot ∈ (v.cache (lay.bin q)).pop.1, slot.pool = q)
    (counts : ∀ address, lay.counts ⟨q, address, lay.slotBytes q, 1, false, true⟩)
    (populates : ∀ w : View X Q, w.chain = [] → w.serving = some q →
      (ownership lay allowed).Ensures spec i w populate fun _ w' => w.Kept w') :
    (ownership lay allowed).Ensures spec i v (acquire lay i q populate)
      fun result v' => v'.hand = result ∧ v'.chain = [] ∧ ∀ node, result = some node → node.pool = q := by
  refine Ensures.bind (M := fun result w => w = v.popped (lay.bin q) ∧
    result = (v.cache (lay.bin q)).pop.1) (ensures_popCache idle) ?_
  rintro result _ ⟨rfl, rfl⟩
  cases top : (v.cache (lay.bin q)).pop.1 with
  | some node =>
    refine Ensures.pure ⟨top, empty, fun other same => own other ?_⟩
    rw [top]
    exact same
  | none =>
    have none_ : (v.popped (lay.bin q)).hand = none := top
    refine Ensures.bind (ensures_popFree none_) ?_
    rintro (_ | node) w ⟨rfl, own⟩
    · refine Ensures.bind (populates _ empty serves) ?_
      rintro _ w ⟨_, hand, chain, serving⟩
      refine Ensures.bind (ensures_popFree hand) ?_
      rintro (_ | node) u ⟨rfl, own⟩
      · refine Ensures.mono (ensures_allocateSlot (serving.trans serves) rfl counts) ?_
        rintro result u ⟨rfl, own⟩
        exact ⟨rfl, chain.trans empty, own⟩
      · exact Ensures.pure ⟨rfl, chain.trans empty, own⟩
    · exact Ensures.pure ⟨rfl, empty, own⟩

theorem ensures_finish : (ownership lay allowed).Ensures spec i v (finish i : Code ι X Q L E A Unit)
    fun _ v' => v'.hand = v.hand ∧ v'.chain = v.chain := by
  refine Ensures.exchange fun s holds _ => ?_
  obtain ⟨valid, rfl⟩ := holds
  refine ⟨_, ?_, valid.serve nofun, fun j other => ?_, rfl⟩
  · exact ⟨rfl, rfl⟩
  · exact Arena.view_congr rfl rfl rfl (Function.update_of_ne other _ _) fun _ _ => rfl

theorem ensures_receive {request : L} {result : Option (Slot Q)} (mine : v.hand = result)
    (answers : ∀ node, result = some node → lay.target request = some node.pool) :
    (ownership lay allowed).Ensures spec i v (receive i request result : Code ι X Q L E A Unit)
      fun _ v' => v'.hand = none ∧ v'.chain = v.chain := by
  refine Ensures.exchange fun s holds _ => ?_
  obtain ⟨valid, rfl⟩ := holds
  refine ⟨_, ?_, (valid.receive mine answers).serve nofun, fun j other => ?_, rfl⟩
  · exact ⟨Function.update_self _ _ _, rfl⟩
  · exact Arena.view_congr rfl (Function.update_of_ne other _ _) rfl (Function.update_of_ne other _ _)
      fun _ _ => rfl

end Calls

section Flush

/-- The loop of `FlushHalf` has linked `front` and `tail`; `rest` is still in the
cells from `k` on. -/
theorem ensures_linkLoop {x : X} {front rest : List (Slot Q)} {tail : Slot Q} {k : Nat}
    (chain : v.chain = front ++ tail :: rest) (once : v.chain.Nodup)
    (cells : ∀ j, j < rest.length → (v.cache x).nodes (k + j) = rest[j]?)
    (path : List.IsChain (fun a b => v.links a = some b) (front ++ [tail])) :
    (ownership lay allowed).Ensures spec i v
      (linkLoop i x rest.length k (some tail) : Code ι X Q L E A (Option (Slot Q)))
      fun result v' => result = v.chain.getLast? ∧ v'.cache = v.cache ∧
        v'.hand = v.hand ∧ v'.chain = v.chain ∧ v'.serving = v.serving ∧
        List.IsChain (fun a b => v'.links a = some b) v'.chain := by
  induction rest generalizing v front tail k with
  | nil =>
    refine Ensures.pure ⟨?_, rfl, rfl, rfl, rfl, ?_⟩
    · rw [chain, List.getLast?_concat]
    · rw [chain]
      exact path
  | cons node rest ih =>
    have cell : (v.cache x).nodes k = some node := by
      have first := cells 0 (Nat.succ_pos _)
      rwa [Nat.add_zero, List.getElem?_cons_zero] at first
    have regrouped : front ++ tail :: node :: rest = front ++ [tail] ++ node :: rest := by
      simp only [List.append_assoc, List.cons_append, List.nil_append]
    have oncePrefix : (front ++ [tail]).Nodup := by
      rw [chain, regrouped] at once
      exact (List.nodup_append'.mp once).1
    refine Ensures.bind (M := fun cell v' => v' = v ∧ cell = some node) ?_ ?_
    · exact Ensures.mono ensures_loadCell fun _ _ ⟨same, read⟩ => ⟨same, read.trans cell⟩
    rintro _ _ ⟨rfl, rfl⟩
    refine Ensures.bind (M := fun _ v' => v' = _) (ensures_storeNext ?_) ?_
    · rw [chain]
      exact List.mem_append_right _ List.mem_cons_self
    rintro _ _ rfl
    refine ih (chain.trans regrouped) once ?_ ?_
    · intro j below
      have next := cells (j + 1) (Nat.succ_lt_succ below)
      rw [List.getElem?_cons_succ] at next
      rw [← next, Nat.add_right_comm, Nat.add_assoc]
    · exact isChain_link path oncePrefix List.getLast?_concat

variable [DecidableEq ι] [DecidableEq X]

/-- The batch of `FlushHalf` is what it took out of the cache, linked in order
and null terminated. -/
theorem ensures_flushHalf {x : X} (wide : 4 ≤ lay.cacheSize) (idle : v.chain = [])
    (many : lay.cacheSize / 4 < (v.cache x).count) :
    (ownership lay allowed).Ensures spec i v (flushHalf lay i x : Code ι X Q L E A (Option (Slot Q)))
      fun result v' => result = v'.chain.head? ∧ result ≠ none ∧
        v'.cache = Function.update v.cache x (v.cache x).halve ∧ v'.hand = v.hand ∧
        v'.chain = (v.cache x).upper ∧ v'.serving = v.serving ∧
        Linked v'.links v'.chain.head? v'.chain := by
  refine Ensures.known (P := (v.cache x).Filled) ?_ fun filled => ?_
  · rintro s ⟨valid, rfl⟩
    exact (valid.stocked i x).filled
  refine Ensures.bind (M := fun count v' => v' = v ∧ count = (v.cache x).count) ?_ ?_
  · refine Ensures.load fun s holds => ⟨rfl, ?_⟩
    obtain ⟨_, rfl⟩ := holds
    rfl
  rintro _ v ⟨rfl, rfl⟩
  rw [if_neg (Nat.not_le.mpr many)]
  -- With four cells or more the flushed half is not empty.
  obtain ⟨head, rest, upper⟩ : ∃ head rest, (v.cache x).upper = head :: rest := by
    refine List.exists_cons_of_length_pos ?_
    rw [filled.upper_length]
    omega
  have length : rest.length = (v.cache x).count / 2 - 1 := by
    have whole := filled.upper_length
    rw [upper, List.length_cons] at whole
    omega
  have cells : ∀ j, j < rest.length + 1 →
      (v.cache x).nodes ((v.cache x).count - (v.cache x).count / 2 + j) = (head :: rest)[j]? := by
    intro j below
    rw [← upper, filled.upper (by omega)]
  refine Ensures.bind (ensures_takeHalf idle) ?_
  rintro _ w ⟨cache, chain, hand, serving⟩
  have kept : ∀ j, (w.cache x).nodes j = (v.cache x).nodes j := by
    intro j
    rw [cache, Function.update_self]
    rfl
  have first : (w.cache x).nodes ((v.cache x).count - (v.cache x).count / 2) = some head := by
    rw [kept]
    exact cells 0 (Nat.succ_pos _)
  refine Ensures.bind (M := fun cell w' => w' = w ∧ cell = some head) ?_ ?_
  · exact Ensures.mono ensures_loadCell fun _ _ ⟨same, read⟩ => ⟨same, read.trans first⟩
  rintro _ w ⟨rfl, rfl⟩
  refine Ensures.known (P := w.chain.Nodup) ?_ fun once => ?_
  · rintro s ⟨valid, rfl⟩
    exact valid.custody.once (.chain i)
  rw [upper] at chain
  rw [← length]
  refine Ensures.bind (ensures_linkLoop (chain.trans (List.nil_append _).symm) once ?_ (.singleton _)) ?_
  · intro j below
    rw [kept, Nat.add_right_comm, Nat.add_assoc, cells (j + 1) (Nat.succ_lt_succ below),
      List.getElem?_cons_succ]
  rintro tail u ⟨isLast, cache', hand', chain', serving', path⟩
  obtain ⟨last, ends⟩ : ∃ last, u.chain.getLast? = some last := by
    rw [chain', chain]
    exact ⟨_, List.getLast?_cons⟩
  rw [← chain', ends] at isLast
  subst isLast
  refine Ensures.bind (M := fun _ v' => v' = _) (ensures_storeNext (List.mem_of_getLast? ends)) ?_
  rintro _ _ rfl
  have onceLater : u.chain.Nodup := chain' ▸ once
  have terminated : Linked (Function.update u.links last none) none [] := rfl
  have linked := terminated.prepend (isChain_update_last none path onceLater ends) ends
    (Function.update_self _ _ _)
  rw [List.append_nil] at linked
  refine Ensures.pure ⟨?_, nofun, cache'.trans cache, hand'.trans hand, ?_, serving'.trans serving, linked⟩
  · simp only [chain', chain, List.head?_cons]
  · simp only [chain', chain, upper]

end Flush

/-- The walk from a slot of the flushed chain ends at the chain's last slot. -/
theorem ensures_walk {tail : Slot Q} (pre : spec.pre (.walk tail) v) :
    (ownership lay allowed).Ensures spec i v (walk tail : Code ι X Q L E A (Option (Slot Q)))
      (spec.post (.walk tail) v) := by
  obtain ⟨whole, front, rest, chain, linked⟩ := pre
  cases rest with
  | nil => exact absurd linked nofun
  | cons node rest =>
    obtain ⟨same, linked⟩ := linked
    cases Option.some.inj same
    have member : tail ∈ v.chain := by
      rw [chain]
      exact List.mem_append_right _ List.mem_cons_self
    refine Ensures.bind (ensures_loadNext member) ?_
    rintro next v ⟨rfl, rfl⟩
    cases rest with
    | nil =>
      have null : v.links tail = none := linked
      rw [null]
      refine Ensures.pure ⟨rfl, ?_⟩
      rw [chain, List.getLast?_concat]
    | cons node rest =>
      obtain ⟨points, linked⟩ := linked
      rw [points]
      refine Ensures.bind (ensures_loadNext member) ?_
      rintro next v ⟨rfl, rfl⟩
      rw [points]
      refine Ensures.enter ⟨whole, front ++ [tail], node :: rest, ?_, rfl, linked⟩ ?_
      · simp only [chain, List.append_assoc, List.cons_append, List.nil_append]
      · exact fun _ _ returned => returned

section Release
variable [DecidableEq ι] [DecidableEq X] {q : Q}

theorem ensures_flush (wide : 4 ≤ lay.cacheSize) (idle : v.chain = [])
    (full : (v.cache (lay.bin q)).count = lay.cacheSize)
    (own : ∀ slot ∈ (v.cache (lay.bin q)).upper, slot.pool = q) :
    (ownership lay allowed).Ensures spec i v (flush lay i q : Code ι X Q L E A Unit)
      fun _ v' => v'.hand = v.hand ∧ v'.chain = [] ∧ v'.serving = v.serving ∧
        (v'.cache (lay.bin q)).count < lay.cacheSize := by
  refine Ensures.bind (ensures_flushHalf wide idle (by omega)) ?_
  rintro (_ | batch) w ⟨isHead, notNull, cache, hand, chain, serving, linked⟩
  · contradiction
  have smaller : (w.cache (lay.bin q)).count < lay.cacheSize := by
    rw [cache, Function.update_self]
    simp only [ThreadCache.halve]
    omega
  obtain ⟨last, ends⟩ : ∃ last, w.chain.getLast? = some last := by
    cases nodes : w.chain with
    | nil => simp only [nodes, List.head?_nil, reduceCtorEq] at isHead
    | cons first others => exact ⟨_, List.getLast?_cons⟩
  refine Ensures.bind (M := fun result w' => w' = w ∧ result = some last) ?_ ?_
  · refine Ensures.enter ⟨linked, [], w.chain, rfl, isHead ▸ linked⟩ ?_
    rintro _ _ ⟨same, isLast⟩
    exact ⟨same, isLast.trans ends⟩
  rintro _ w ⟨rfl, rfl⟩
  refine Ensures.mono (ensures_pushChain ⟨linked.isChain, isHead.symm, ends⟩ ?_) ?_
  · rw [chain]
    exact own
  · rintro _ u ⟨cache', hand', chain', serving'⟩
    exact ⟨hand'.trans hand, chain', serving'.trans serving, cache' ▸ smaller⟩

/-- `ReleaseMemory` puts the slot in hand away, as long as what it flushes
belongs to the free list it flushes to. -/
theorem ensures_releaseMemory {node : Slot Q} (wide : 4 ≤ lay.cacheSize) (idle : v.chain = [])
    (mine : v.hand = some node) (fits : lay.bin node.pool = lay.bin q)
    (own : (v.cache (lay.bin q)).count = lay.cacheSize →
      ∀ slot ∈ (v.cache (lay.bin q)).upper, slot.pool = q) :
    (ownership lay allowed).Ensures spec i v (releaseMemory lay i q node : Code ι X Q L E A Unit)
      fun _ v' => v'.hand = none ∧ v'.chain = [] ∧ v'.serving = v.serving := by
  by_cases room : (v.cache (lay.bin q)).count < lay.cacheSize
  · refine Ensures.bind (ensures_pushCache_room mine fits room) ?_
    rintro _ w ⟨rfl, hand, chain, serving⟩
    exact Ensures.pure ⟨hand, chain.trans idle, serving⟩
  refine Ensures.known (P := (v.cache (lay.bin q)).count ≤ lay.cacheSize) ?_ fun bounded => ?_
  · rintro s ⟨valid, rfl⟩
    exact (valid.stocked i _).bounded
  have full : (v.cache (lay.bin q)).count = lay.cacheSize := by omega
  refine Ensures.bind (ensures_pushCache_full (Nat.le_of_eq full.symm)) ?_
  rintro _ v ⟨rfl, rfl⟩
  refine Ensures.bind (ensures_flush wide idle full (own full)) ?_
  rintro _ w ⟨hand, chain, serving, smaller⟩
  refine Ensures.bind (ensures_pushCache_room (hand.trans mine) fits smaller) ?_
  rintro _ u ⟨rfl, hand', chain', serving'⟩
  exact Ensures.pure ⟨hand', chain'.trans chain, serving'.trans serving⟩

end Release
end Talon.Memory
