import Talon.Interleaving.Custody
import Talon.Interleaving.Ownership
import Talon.Memory.Arena

/-! The invariant of the pools: every slot is in one place, the links of each
free list spell it out, and no slot strays to a free list or a cache that is not
its own. A thread's view is its caches and what its operation carries. -/
namespace Talon.Memory
open Interleaving

namespace ThreadCache
variable {N : Type}

/-- No live cell is null. -/
def Filled (c : ThreadCache N) : Prop := ∀ k, k < c.count → c.nodes k ≠ none

theorem live_nil {c : ThreadCache N} (none_ : c.count = 0) : c.live = [] := by
  simp only [live, none_, List.range_zero, List.filterMap_nil]

theorem pop_empty {c : ThreadCache N} (none_ : c.count = 0) : c.pop = (none, c) := by
  simp only [pop, none_, if_true]

/-- A full cell on top of the cache: what `pop` returns and leaves. -/
theorem pop_some {c : ThreadCache N} (filled : c.Filled) (some_ : c.count ≠ 0) :
    ∃ node, c.pop = (some node, { c with count := c.count - 1 }) ∧
      c.live = ({ c with count := c.count - 1 } : ThreadCache N).live ++ [node] := by
  obtain ⟨node, top⟩ := Option.ne_none_iff_exists'.mp (filled (c.count - 1) (by omega))
  refine ⟨node, by simp only [pop, some_, if_false, top], ?_⟩
  have more : c.count = c.count - 1 + 1 := by omega
  simp only [live]
  rw [more, List.range_succ, List.filterMap_append]
  simp only [Nat.add_sub_cancel, top, List.filterMap_cons, List.filterMap_nil]

theorem Filled.fewer {c : ThreadCache N} (filled : c.Filled) {count : Nat} (fewer : count ≤ c.count) :
    ({ c with count := count } : ThreadCache N).Filled := by
  intro k below
  exact filled k (Nat.lt_of_lt_of_le below fewer)

theorem push_full {c : ThreadCache N} {size : Nat} {node : N} (full : size ≤ c.count) :
    c.push size node = (false, c) := by
  simp only [push, full, if_true]

theorem push_room {c : ThreadCache N} {size : Nat} {node : N} (room : c.count < size) :
    c.push size node = (true, ⟨Function.update c.nodes c.count (some node), c.count + 1⟩) := by
  simp only [push, Nat.not_le.mpr room, if_false]

theorem live_push {c : ThreadCache N} {node : N} :
    (⟨Function.update c.nodes c.count (some node), c.count + 1⟩ : ThreadCache N).live =
      c.live ++ [node] := by
  simp only [live, List.range_succ, List.filterMap_append]
  congr 1
  · refine List.filterMap_congr fun k member => ?_
    rw [Function.update_of_ne (Nat.ne_of_lt (List.mem_range.mp member))]
  · simp only [List.filterMap_cons, Function.update_self, List.filterMap_nil]

theorem Filled.push {c : ThreadCache N} (filled : c.Filled) (node : N) :
    (⟨Function.update c.nodes c.count (some node), c.count + 1⟩ : ThreadCache N).Filled := by
  intro k below
  by_cases last : k = c.count
  · subst last
    simp only [Function.update_self, ne_eq, reduceCtorEq, not_false_eq_true]
  · simp only [Function.update_of_ne last]
    have smaller : k < c.count := by
      simp only at below
      omega
    exact filled k smaller

theorem live_halve (c : ThreadCache N) : c.live = c.halve.live ++ c.upper := by
  have whole : c.count - c.count / 2 + c.count / 2 = c.count := by omega
  have joined : List.range c.count =
      List.range (c.count - c.count / 2) ++ List.range' (c.count - c.count / 2) (c.count / 2) := by
    have appended := @List.range'_append_1 0 (c.count - c.count / 2) (c.count / 2)
    simp only [Nat.zero_add, whole] at appended
    rw [List.range_eq_range', List.range_eq_range', appended]
  simp only [live, halve, upper, joined, List.filterMap_append]

/-- The cells that `halve` drops are the chain that is made of them. -/
theorem Filled.upper {c : ThreadCache N} (filled : c.Filled) {k : Nat} (below : k < c.count / 2) :
    c.upper[k]? = c.nodes (c.count - c.count / 2 + k) := by
  have cells : c.upper.map some =
      (List.range' (c.count - c.count / 2) (c.count / 2)).map c.nodes := by
    simp only [ThreadCache.upper]
    rw [List.map_filterMap]
    rw [← List.filterMap_eq_map]
    refine List.filterMap_congr fun j member => ?_
    obtain ⟨_, bound⟩ := List.mem_range'_1.mp member
    obtain ⟨node, cell⟩ := Option.ne_none_iff_exists'.mp (filled j (by omega))
    simp only [cell, Option.map_some, Function.comp_apply]
  have at_k := congrArg (·[k]?) cells
  simp only [List.getElem?_map, List.getElem?_range' below, Nat.one_mul, Option.map_some] at at_k
  cases found : c.upper[k]? with
  | none => simp only [found, Option.map_none, reduceCtorEq] at at_k
  | some node =>
    simp only [found, Option.map_some, Option.some.injEq] at at_k
    exact at_k

theorem Filled.upper_length {c : ThreadCache N} (filled : c.Filled) :
    c.upper.length = c.count / 2 := by
  have cells : c.upper.length = (List.range' (c.count - c.count / 2) (c.count / 2)).length := by
    simp only [ThreadCache.upper]
    rw [List.length_filterMap_eq_countP, List.countP_eq_length]
    intro j member
    obtain ⟨_, bound⟩ := List.mem_range'_1.mp member
    exact Option.isSome_iff_ne_none.mpr (filled j (by omega))
  rw [cells, List.length_range']

end ThreadCache

/-- Where a slot can be. An operation in progress has it in hand or in the chain
that it is about to push. -/
inductive Place (ι X Q : Type) where
  | free (q : Q)
  | cached (i : ι) (x : X)
  | held
  | hand (i : ι)
  | chain (i : ι)
  | lost

variable {ι X Q L E : Type}

def Arena.contents (s : Arena ι X Q L E) : Place ι X Q → List (Slot Q)
  | .free q => s.freed q
  | .cached i x => (s.cache i x).live
  | .held => s.held.map Prod.snd
  | .hand i => (s.hand i).toList
  | .chain i => s.chain i
  | .lost => s.lost

/-- What a cache holds: no null, no more than it has room for, and only slots of
the free lists it serves. -/
structure Stocks (lay : Layout X Q L E) (x : X) (c : ThreadCache (Slot Q)) : Prop where
  filled : c.Filled
  bounded : c.count ≤ lay.cacheSize
  binned : ∀ slot ∈ c.live, lay.bin slot.pool = x

structure Arena.Valid (lay : Layout X Q L E) (s : Arena ι X Q L E) : Prop where
  custody : Custody s.contents s.carved
  linked : ∀ q, Linked s.next (s.head q) (s.freed q)
  stocked : ∀ i x, Stocks lay x (s.cache i x)
  sorted : ∀ q, ∀ slot ∈ s.freed q, slot.pool = q
  answered : ∀ h ∈ s.held, lay.target h.1 = some h.2.pool
  /-- A slot is one of those its allocation was made for. -/
  mapped : ∀ slot ∈ s.carved, ∃ a, s.heap[slot.block]? = some a ∧ a.pool = slot.pool ∧
    ∃ k < a.count, slot.address = a.start + k * lay.slotBytes a.pool
  counted : ∀ a ∈ s.heap, lay.counts a ∧ 64 ∣ a.start ∧ 0 < a.start
  separate : s.heap.Pairwise fun a b =>
    a.live = true → b.live = true → Apart a.start a.bytes b.start b.bytes
  /-- Memory is given back only with its pool. -/
  backed : ∀ a ∈ s.heap, a.live = true ∨ lay.gone s.own a.pool
  forgotten : ∀ slot ∈ s.lost, lay.gone s.own slot.pool
  born : ∀ slot ∈ s.carved, lay.born s.own slot.pool
  served : ∀ i q, s.serving i = some q → lay.born s.own q
  sound : s.faulted = false

theorem Arena.valid_empty {lay : Layout X Q L E} (own : E) : (Arena.empty own : Arena ι X Q L E).Valid lay where
  custody := by
    refine ⟨fun place => ?_, fun a b n here => ?_, fun n => ⟨nofun, ?_⟩⟩
    · cases place <;> exact List.nodup_nil
    · cases a <;> contradiction
    · rintro ⟨place, member⟩
      cases place <;> contradiction
  linked _ := rfl
  stocked _ _ := ⟨nofun, Nat.zero_le _, nofun⟩
  sorted _ := nofun
  answered := nofun
  mapped := nofun
  counted := nofun
  separate := .nil
  backed := nofun
  forgotten := nofun
  born := nofun
  served := nofun
  sound := rfl

/-- What no other thread changes: a thread's caches, what its operation carries,
the links of its chain, and the pool it works for. -/
structure View (X Q : Type) where
  cache : X → ThreadCache (Slot Q)
  hand : Option (Slot Q)
  chain : List (Slot Q)
  links : Slot Q → Option (Slot Q)
  serving : Option Q

variable [DecidableEq Q]

def Arena.view (i : ι) (s : Arena ι X Q L E) : View X Q where
  cache := s.cache i
  hand := s.hand i
  chain := s.chain i
  links n := if n ∈ s.chain i then s.next n else none
  serving := s.serving i

def ownership (lay : Layout X Q L E) (allowed : Arena ι X Q L E → Arena ι X Q L E → Prop) :
    Ownership ι (Arena ι X Q L E) (View X Q) where
  Inv := Arena.Valid lay
  view := Arena.view
  allowed := allowed

/-- The tail walk stands on the chain that the thread has flushed, which is null
terminated. Between two calls a thread carries nothing. -/
def spec : Spec (Procedure Q) (Option (Slot Q)) (View X Q) where
  pre
    | .walk tail, v => Linked v.links v.chain.head? v.chain ∧
        ∃ front rest, v.chain = front ++ rest ∧ Linked v.links (some tail) rest
    | .client, v => v.hand = none ∧ v.chain = []
  post
    | .walk _, v, result, v' => v' = v ∧ result = v.chain.getLast?
    | .client, _, _, _ => True

end Talon.Memory
