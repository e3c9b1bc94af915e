import Talon.Interleaving.Machine
import Talon.Memory.StackHistory
import Mathlib.Data.List.Perm.Basic

/-! Who owns which task. `next_` is a `std::unique_ptr`, so `SetNextTask` deletes the task
that was there before, and with it the chain behind that task; `ReleaseNextTask` gives a
chain away; `delete` takes a task and its chain. Whoever holds the pointer of a task that
no other task owns, a client or the event loop, has to pass it on or delete it once. -/
namespace Talon.Task.NextTask
open Interleaving Talon.Memory
open scoped List
variable {N : Type} [DecidableEq N]

/-- The task objects and their `next_`, then history: the tasks that a holder outside the
heap is responsible for, and all tasks that were ever created and deleted. -/
structure Heap (N : Type) where
  live : List N := []
  next : N → Option N := fun _ => none
  owned : List N := []
  created : List N := []
  deleted : List N := []

inductive Action (N : Type) where
  | createTaskWithHandler (task : N)
  | setNextTask (task : N) (next : Option N)
  | releaseNextTask (task : N)
  | deleteTask (task : N)

/-- The tasks on the way from `p`, as far as `n` steps lead. -/
def follow (next : N → Option N) : Nat → Option N → List N
  | 0, _ => []
  | _ + 1, none => []
  | n + 1, some p => p :: follow next n (next p)

namespace Heap

/-- A task and those behind it. -/
def chain (h : Heap N) (p : N) : List N := follow h.next h.live.length (some p)

def remove (h : Heap N) (p : N) : Heap N :=
  { h with live := h.live.erase p, deleted := p :: h.deleted }

/-- The destructors of a chain. Deleting a task that is not there is undefined. Each round
removes a task, so `n` is enough once there are at most `n` of them. -/
def destroy : Nat → N → Heap N → Option (Heap N)
  | 0, _, _ => none
  | n + 1, p, h =>
      if p ∈ h.live then
        match h.next p with
        | none => some (h.remove p)
        | some next => destroy n next (h.remove p)
      else none

def delete (h : Heap N) : Option N → Option (Heap N)
  | none => some h
  | some p => destroy h.live.length p h

def createTaskWithHandler (h : Heap N) (p : N) : Heap N :=
  { h with
    live := p :: h.live
    next := Function.update h.next p none
    owned := p :: h.owned
    created := p :: h.created }

/-- `next_` holds `next` from now on, and its holder has given it away. -/
def link (h : Heap N) (t : N) (next : Option N) : Heap N :=
  { h with
    next := Function.update h.next t next
    owned := h.owned.diff next.toList }

/-- `next_.reset(next)` -/
def setNextTask (h : Heap N) (t : N) (next : Option N) : Option (Heap N) :=
  if t ∈ h.live then (h.link t next).delete (h.next t) else none

/-- `next_.release()` -/
def releaseNextTask (h : Heap N) (t : N) : Option (Heap N) :=
  if t ∈ h.live then
    some { h with next := Function.update h.next t none, owned := (h.next t).toList ++ h.owned }
  else none

def deleteTask (h : Heap N) (p : N) : Option (Heap N) :=
  { h with owned := h.owned.erase p }.delete (some p)

def perform (h : Heap N) : Action N → Option (Heap N)
  | .createTaskWithHandler p => some (h.createTaskWithHandler p)
  | .setNextTask t next => h.setNextTask t next
  | .releaseNextTask t => h.releaseNextTask t
  | .deleteTask p => h.deleteTask p

/-- Storage that holds no task is given out, tasks that exist are used, and a pointer is
handed over by who is responsible for it, though never to a task on its own chain. -/
def Permitted (h : Heap N) : Action N → Prop
  | .createTaskWithHandler p => p ∉ h.live
  | .setNextTask t next => t ∈ h.live ∧ ∀ p ∈ next, p ∈ h.owned ∧ t ∉ h.chain p
  | .releaseNextTask t => t ∈ h.live
  | .deleteTask p => p ∈ h.owned

instance (h : Heap N) : (action : Action N) → Decidable (h.Permitted action)
  | .createTaskWithHandler p => inferInstanceAs (Decidable (p ∉ h.live))
  | .setNextTask t next => inferInstanceAs (Decidable (t ∈ h.live ∧ ∀ p ∈ next, p ∈ h.owned ∧ t ∉ h.chain p))
  | .releaseNextTask t => inferInstanceAs (Decidable (t ∈ h.live))
  | .deleteTask p => inferInstanceAs (Decidable (p ∈ h.owned))

def step (h : Heap N) (action : Action N) : Option (Heap N) :=
  if h.Permitted action then h.perform action else none

end Heap

abbrev Reaches (s t : Heap N) : Prop := Machine.Reaches Heap.step s t

/-! ### Chains -/

omit [DecidableEq N] in
theorem Linked.unique {next : N → Option N} {p : Option N} {nodes others : List N}
    (linked : Linked next p nodes) (other : Linked next p others) : nodes = others := by
  induction nodes generalizing p others with
  | nil =>
    cases others with
    | nil => rfl
    | cons m rest =>
      rw [other.1] at linked
      contradiction
  | cons n rest ih =>
    cases others with
    | nil =>
      rw [linked.1] at other
      contradiction
    | cons m more =>
      obtain rfl : n = m := Option.some.inj (linked.1.symm.trans other.1)
      rw [ih linked.2 other.2]

omit [DecidableEq N] in
theorem Linked.suffix {next : N → Option N} {p : Option N} {first rest : List N} {t : N}
    (linked : Linked next p (first ++ t :: rest)) : Linked next (next t) rest := by
  induction first generalizing p with
  | nil => exact linked.2
  | cons n more ih => exact ih linked.2

/-- A chain is cut behind `t` and continued with another one. -/
theorem Linked.redirect {next : N → Option N} {p : Option N} {first rest others : List N} {t : N}
    (linked : Linked next p (first ++ t :: rest)) (other : Linked next others.head? others)
    (before : t ∉ first) (apart : t ∉ others) :
    Linked (Function.update next t others.head?) p (first ++ t :: others) := by
  induction first generalizing p with
  | nil =>
    refine ⟨linked.1, ?_⟩
    rw [Function.update_self]
    exact other.update apart
  | cons n more ih =>
    obtain ⟨different, before⟩ := List.ne_and_not_mem_of_not_mem_cons before
    refine ⟨linked.1, ?_⟩
    rw [Function.update_of_ne (Ne.symm different)]
    exact ih linked.2 before

omit [DecidableEq N] in
theorem follow_linked {next : N → Option N} {p : Option N} {nodes : List N} {n : Nat}
    (linked : Linked next p nodes) (short : nodes.length ≤ n) : follow next n p = nodes := by
  induction nodes generalizing p n with
  | nil =>
    obtain rfl : p = none := linked
    cases n <;> rfl
  | cons m rest ih =>
    obtain ⟨rfl, linked⟩ := linked
    cases n with
    | zero => contradiction
    | succ n => rw [follow, ih linked (Nat.le_of_succ_le_succ short)]

theorem diff_append_left (first second : List N) : (first ++ second).diff first = second := by
  induction first with
  | nil => rfl
  | cons n rest ih => simp [ih]

/-- Deleting a task deletes its chain and nothing else. -/
theorem destroy_linked {h : Heap N} {p : N} {nodes : List N} {n : Nat} (linked : Linked h.next (some p) nodes)
    (distinct : nodes.Nodup) (there : nodes ⊆ h.live) (short : nodes.length ≤ n) :
    h.destroy n p = some { h with live := h.live.diff nodes, deleted := nodes.reverse ++ h.deleted } := by
  induction nodes generalizing h p n with
  | nil => contradiction
  | cons m rest ih =>
    obtain ⟨same, linked⟩ := linked
    obtain rfl := Option.some.inj same
    obtain ⟨fresh, distinct⟩ := List.nodup_cons.mp distinct
    obtain ⟨here, there⟩ := List.cons_subset.mp there
    cases n with
    | zero => contradiction
    | succ n =>
      cases next : h.next p with
      | none =>
        rw [next] at linked
        obtain rfl : rest = [] := Linked.unique linked (show Linked h.next none [] from rfl)
        simp [Heap.destroy, here, next, Heap.remove]
      | some q =>
        rw [next] at linked
        have kept : rest ⊆ (h.remove p).live := by
          intro r member
          have different : r ≠ p := fun same => fresh (same ▸ member)
          exact (List.mem_erase_of_ne different).mpr (there member)
        have rest' := ih (h := h.remove p) linked distinct kept (Nat.le_of_succ_le_succ short)
        simp only [Heap.destroy, here, next, if_true, rest']
        simp [Heap.remove]

/-! ### The invariant -/

/-- The live tasks lie on chains, each task once, and the chains begin at the tasks that
somebody is responsible for. No task was lost or deleted twice. -/
structure Chained (h : Heap N) (chains : List (List N)) : Prop where
  linked : ∀ c ∈ chains, Linked h.next c.head? c
  heads : h.owned.Perm (chains.filterMap List.head?)
  covers : h.live.Perm chains.flatten
  distinct : h.live.Nodup
  ledger : h.created.Perm (h.live ++ h.deleted)

def Owned (h : Heap N) : Prop := ∃ chains, Chained h chains

variable {h : Heap N} {chains others : List (List N)} {first rest nodes : List N} {t p : N}

omit [DecidableEq N] in
theorem Chained.perm {chains' : List (List N)} (chained : Chained h chains) (same : chains.Perm chains') :
    Chained h chains' where
  linked c member := chained.linked c (same.mem_iff.mpr member)
  heads := chained.heads.trans (same.filterMap _)
  covers := chained.covers.trans same.flatten
  distinct := chained.distinct
  ledger := chained.ledger

omit [DecidableEq N] in
theorem Chained.find (chained : Chained h chains) (there : t ∈ h.live) :
    ∃ first rest others, chains.Perm ((first ++ t :: rest) :: others) := by
  obtain ⟨c, member, inside⟩ := List.mem_flatten.mp (chained.covers.mem_iff.mp there)
  obtain ⟨first, rest, rfl⟩ := List.append_of_mem inside
  obtain ⟨before, after, rfl⟩ := List.append_of_mem member
  exact ⟨first, rest, before ++ after, List.perm_middle⟩

omit [DecidableEq N] in
theorem Chained.head (chained : Chained h chains) (mine : p ∈ h.owned) :
    ∃ rest others, chains.Perm ((p :: rest) :: others) := by
  obtain ⟨c, member, top⟩ := List.mem_filterMap.mp (chained.heads.mem_iff.mp mine)
  obtain ⟨before, after, rfl⟩ := List.append_of_mem member
  cases c with
  | nil => contradiction
  | cons n rest =>
    obtain rfl := Option.some.inj top
    exact ⟨rest, before ++ after, List.perm_middle⟩

omit [DecidableEq N] in
theorem Chained.chain_eq (chained : Chained h ((p :: rest) :: others)) : h.chain p = p :: rest := by
  refine follow_linked (chained.linked _ List.mem_cons_self) ?_
  rw [chained.covers.length_eq, List.flatten_cons, List.length_append]
  exact Nat.le_add_right _ _

theorem Chained.create (chained : Chained h chains) (unused : p ∉ h.live) :
    Chained (h.createTaskWithHandler p) ([p] :: chains) where
  linked := by
    refine List.forall_mem_cons.mpr ⟨⟨rfl, Function.update_self ..⟩, fun c member => ?_⟩
    refine (chained.linked c member).update fun inside => unused ?_
    exact chained.covers.mem_iff.mpr (List.mem_flatten.mpr ⟨c, member, inside⟩)
  heads := chained.heads.cons p
  covers := chained.covers.cons p
  distinct := List.nodup_cons.mpr ⟨unused, chained.distinct⟩
  ledger := chained.ledger.cons p

/-- A chain is taken out as a whole. -/
theorem Chained.delete (chained : Chained h (nodes :: others)) (owned : List N)
    (heads : owned.Perm (others.filterMap List.head?)) :
    Chained { h with
      live := h.live.diff nodes, owned := owned, deleted := nodes.reverse ++ h.deleted } others where
  linked c member := chained.linked c (List.mem_cons_of_mem _ member)
  heads := heads
  covers := by
    have removed := chained.covers.diff_right nodes
    rwa [List.flatten_cons, diff_append_left] at removed
  distinct := chained.distinct.diff
  ledger := by
    have removed := chained.covers.diff_right nodes
    rw [List.flatten_cons, diff_append_left] at removed
    have parts : h.live ~ h.live.diff nodes ++ nodes.reverse :=
      calc h.live ~ nodes ++ others.flatten := chained.covers
        _ ~ others.flatten ++ nodes := List.perm_append_comm
        _ ~ h.live.diff nodes ++ nodes.reverse := removed.symm.append nodes.reverse_perm.symm
    have moved := chained.ledger.trans (parts.append_right h.deleted)
    rwa [List.append_assoc] at moved

omit [DecidableEq N] in
theorem filterMap_head? (c : List N) (cs : List (List N)) :
    (c :: cs).filterMap List.head? = c.head?.toList ++ cs.filterMap List.head? := by
  cases c <;> rfl

omit [DecidableEq N] in
theorem head?_append_cons (first rest rest' : List N) (t : N) :
    (first ++ t :: rest).head? = (first ++ t :: rest').head? := by
  cases first <;> rfl

omit [DecidableEq N] in
theorem Chained.nil (chained : Chained h (nodes :: others)) : Chained h (nodes :: [] :: others) where
  linked := by
    refine List.forall_mem_cons.mpr ⟨chained.linked _ List.mem_cons_self, ?_⟩
    exact List.forall_mem_cons.mpr ⟨rfl, fun c member => chained.linked c (List.mem_cons_of_mem _ member)⟩
  heads := by simpa only [filterMap_head?, List.head?_nil, Option.toList_none, List.nil_append] using chained.heads
  covers := by simpa only [List.flatten_cons, List.nil_append] using chained.covers
  distinct := chained.distinct
  ledger := chained.ledger

omit [DecidableEq N] in
/-- A task is on one chain only, and once. -/
theorem Chained.apart (chained : Chained h ((first ++ t :: rest) :: others)) :
    t ∉ first ∧ t ∉ rest ∧ ∀ c ∈ others, t ∉ c := by
  have distinct := chained.covers.nodup_iff.mp chained.distinct
  rw [List.flatten_cons, List.append_assoc, List.cons_append] at distinct
  have absent := (List.nodup_middle.mp distinct)
  simp only [List.nodup_cons, List.mem_append, List.mem_flatten, not_or, not_exists, not_and] at absent
  exact ⟨absent.1.1, absent.1.2.1, absent.1.2.2⟩

/-- `next_` of `t` is redirected to another chain. What was behind `t` is left alone. -/
theorem Chained.link {new : List N} (chained : Chained h ((first ++ t :: rest) :: new :: others)) :
    Chained { h.link t new.head? with owned := rest.head?.toList ++ (h.link t new.head?).owned }
      (rest :: (first ++ t :: new) :: others) where
  linked := by
    obtain ⟨before, behind, elsewhere⟩ := chained.apart
    obtain ⟨whole, other, remaining⟩ := (List.forall_mem_cons.mp chained.linked).imp_right List.forall_mem_cons.mp
    have suffix := Linked.suffix whole
    rw [suffix.head] at suffix
    refine List.forall_mem_cons.mpr ⟨suffix.update behind, List.forall_mem_cons.mpr ⟨?_, fun c member => ?_⟩⟩
    · rw [head?_append_cons first new rest t]
      exact Linked.redirect whole other before (elsewhere new List.mem_cons_self)
    · exact (remaining c member).update (elsewhere c (List.mem_cons_of_mem _ member))
  heads := by
    have heads := chained.heads
    rw [filterMap_head?, filterMap_head?, head?_append_cons first rest new t] at heads
    rw [filterMap_head?, filterMap_head?]
    refine List.Perm.append_left _ ?_
    have given := (heads.trans (List.perm_append_comm_assoc _ _ _)).diff_right new.head?.toList
    rwa [diff_append_left] at given
  covers := by
    refine chained.covers.trans ?_
    have moved := List.perm_append_comm_assoc (first ++ [t]) rest (new ++ others.flatten)
    simpa only [List.flatten_cons, List.append_assoc, List.cons_append, List.nil_append] using moved
  distinct := chained.distinct
  ledger := chained.ledger

/-! ### The operations -/

omit [DecidableEq N] in
theorem Chained.subset (chained : Chained h (nodes :: others)) : nodes ⊆ h.live := fun _ member =>
  chained.covers.mem_iff.mpr (List.mem_append_left _ member)

omit [DecidableEq N] in
theorem Chained.nodup (chained : Chained h (nodes :: others)) : nodes.Nodup :=
  (chained.covers.nodup_iff.mp chained.distinct).of_append_left

/-- Deleting the head of a chain, which may be empty, takes the chain out. -/
theorem delete_linked (linked : Linked h.next nodes.head? nodes) (distinct : nodes.Nodup) (there : nodes ⊆ h.live) :
    h.delete nodes.head? = some { h with live := h.live.diff nodes, deleted := nodes.reverse ++ h.deleted } := by
  cases nodes with
  | nil => rfl
  | cons p rest => exact destroy_linked linked distinct there (List.subperm_of_subset distinct there).length_le

theorem Chained.setNextTask {new : List N} (chained : Chained h ((first ++ t :: rest) :: new :: others)) :
    ∃ u, h.setNextTask t new.head? = some u ∧ Chained u ((first ++ t :: new) :: others) ∧
      u.owned = h.owned.diff new.head?.toList ∧ u.live = h.live.diff rest := by
  have there : t ∈ h.live := chained.subset (List.mem_append_right _ List.mem_cons_self)
  have behind : h.next t = rest.head? := (Linked.suffix (chained.linked _ List.mem_cons_self)).head
  have linked := chained.link
  have removed := delete_linked (h := h.link t new.head?) (linked.linked _ List.mem_cons_self) linked.nodup linked.subset
  have heads := linked.heads
  rw [filterMap_head?] at heads
  refine ⟨_, ?_, linked.delete _ ((List.perm_append_left_iff _).mp heads), rfl, rfl⟩
  rw [Heap.setNextTask, if_pos there, behind]
  exact removed

theorem Chained.releaseNextTask (chained : Chained h ((first ++ t :: rest) :: others)) :
    ∃ u, h.releaseNextTask t = some u ∧ Chained u (rest :: (first ++ [t]) :: others) := by
  have there : t ∈ h.live := chained.subset (List.mem_append_right _ List.mem_cons_self)
  have behind : h.next t = rest.head? := (Linked.suffix (chained.linked _ List.mem_cons_self)).head
  refine ⟨_, ?_, chained.nil.link⟩
  rw [Heap.releaseNextTask, if_pos there, behind]
  rfl

theorem Chained.deleteTask (chained : Chained h ((p :: rest) :: others)) :
    ∃ u, h.deleteTask p = some u ∧ Chained u others ∧ u.live = h.live.diff (p :: rest) ∧
      u.deleted = (p :: rest).reverse ++ h.deleted := by
  have heads : h.owned.erase p ~ others.filterMap List.head? := by
    have given := chained.heads.erase p
    rwa [filterMap_head?, List.head?_cons, Option.toList_some, List.singleton_append, List.erase_cons_head] at given
  have removed := delete_linked (h := { h with owned := h.owned.erase p }) (chained.linked _ List.mem_cons_self)
    chained.nodup chained.subset
  exact ⟨_, removed, chained.delete _ heads, rfl, rfl⟩

omit [DecidableEq N] in
/-- The chain of a task in somebody's care is the one with `t` on it, or another. -/
theorem Chained.locate (chained : Chained h ((first ++ t :: rest) :: others)) (mine : p ∈ h.owned) :
    h.chain p = first ++ t :: rest ∧ (first ++ t :: rest).head? = some p ∨
      ∃ more others', others ~ (p :: more) :: others' ∧ h.chain p = p :: more := by
  have heads := chained.heads.mem_iff.mp mine
  rw [filterMap_head?, List.mem_append, Option.mem_toList] at heads
  rcases heads with top | member
  · left
    cases nodes : first ++ t :: rest with
    | nil => simp at nodes
    | cons q more =>
      rw [nodes] at chained top
      obtain rfl := Option.some.inj top
      exact ⟨chained.chain_eq, rfl⟩
  · right
    obtain ⟨c, inside, top⟩ := List.mem_filterMap.mp member
    obtain ⟨before, after, rfl⟩ := List.append_of_mem inside
    cases c with
    | nil => contradiction
    | cons q more =>
      obtain rfl := Option.some.inj top
      have moved : before ++ (q :: more) :: after ~ (q :: more) :: (before ++ after) := List.perm_middle
      have turned := chained.perm ((moved.cons _).trans (List.Perm.swap ..))
      exact ⟨more, before ++ after, moved, turned.chain_eq⟩

/-- A permitted operation is defined and leaves every task in somebody's care. -/
theorem Owned.perform {action : Action N} (owned : Owned h) (permitted : h.Permitted action) :
    ∃ u, h.perform action = some u ∧ Owned u := by
  obtain ⟨chains, chained⟩ := owned
  cases action with
  | createTaskWithHandler p => exact ⟨_, rfl, _, chained.create permitted⟩
  | setNextTask t next =>
    obtain ⟨there, given⟩ := permitted
    obtain ⟨first, rest, others, same⟩ := chained.find there
    have chained := chained.perm same
    cases next with
    | none =>
      obtain ⟨u, performed, result, -⟩ := chained.nil.setNextTask
      exact ⟨u, performed, _, result⟩
    | some p =>
      obtain ⟨mine, apart⟩ := given p rfl
      obtain ⟨same, -⟩ | ⟨more, others', moved, -⟩ := chained.locate mine
      · rw [same] at apart
        exact absurd (List.mem_append_right _ List.mem_cons_self) apart
      · obtain ⟨u, performed, result, -⟩ := (chained.perm (moved.cons _)).setNextTask
        exact ⟨u, performed, _, result⟩
  | releaseNextTask t =>
    obtain ⟨first, rest, others, same⟩ := chained.find permitted
    obtain ⟨u, performed, result⟩ := (chained.perm same).releaseNextTask
    exact ⟨u, performed, _, result⟩
  | deleteTask p =>
    obtain ⟨rest, others, same⟩ := chained.head permitted
    obtain ⟨u, performed, result, -⟩ := (chained.perm same).deleteTask
    exact ⟨u, performed, _, result⟩

theorem Reaches.owned (run : Reaches {} h) : Owned h := by
  refine Machine.Reaches.invariant run (fun s action u owned stepped => ?_) ⟨[], nofun, .nil, .nil, .nil, .nil⟩
  simp only [Heap.step, Option.ite_none_right_eq_some] at stepped
  obtain ⟨permitted, performed⟩ := stepped
  obtain ⟨u', performed', owned⟩ := owned.perform permitted
  obtain rfl := Option.some.inj (performed.symm.trans performed')
  exact owned

/-- What holds after any history of permitted operations. -/
structure Orderly (h : Heap N) : Prop where
  owned : Owned h
  defined : ∀ action, h.Permitted action → ∃ u, h.perform action = some u
  deletes : ∀ p ∈ h.owned, ∃ u, h.deleteTask p = some u ∧ u.deleted = (h.chain p).reverse ++ h.deleted ∧
    ∀ q, q ∈ u.live ↔ q ∈ h.live ∧ q ∉ h.chain p
  settled : h.owned = [] → h.live = [] ∧ h.created ~ h.deleted

theorem reaches_settles (run : Reaches {} h) : Orderly h where
  owned := run.owned
  defined action permitted := by
    obtain ⟨u, performed, -⟩ := run.owned.perform permitted
    exact ⟨u, performed⟩
  deletes p mine := by
    obtain ⟨chains, chained⟩ := run.owned
    obtain ⟨rest, others, same⟩ := chained.head mine
    have chained := chained.perm same
    obtain ⟨u, performed, -, live, deleted⟩ := chained.deleteTask
    refine ⟨u, performed, ?_, fun q => ?_⟩
    · rw [chained.chain_eq, deleted]
    · rw [chained.chain_eq, live, chained.distinct.mem_sdiff_iff]
  settled none_ := by
    obtain ⟨chains, chained⟩ := run.owned
    have empty : h.live = [] := by
      by_contra some_
      obtain ⟨t, tasks, same⟩ := List.exists_cons_of_ne_nil some_
      obtain ⟨first, rest, others, same⟩ := chained.find (t := t) (by rw [same]; exact List.mem_cons_self)
      have heads := (chained.perm same).heads
      rw [none_, filterMap_head?] at heads
      have short := heads.length_eq
      cases first <;> simp at short
    refine ⟨empty, ?_⟩
    have ledger := chained.ledger
    rwa [empty, List.nil_append] at ledger

/-- A task with two behind it gets another one, which deletes those, and is deleted last. -/
theorem replaced_chain_settles : ∃ h : Heap Nat, h.deleted = [4, 1, 3, 2] ∧ Orderly h := by
  have one : Reaches ({} : Heap Nat) _ := .next (.createTaskWithHandler 1) .refl rfl
  have two : Reaches ({} : Heap Nat) _ := .next (.createTaskWithHandler 2) one rfl
  have three : Reaches ({} : Heap Nat) _ := .next (.createTaskWithHandler 3) two rfl
  have four : Reaches ({} : Heap Nat) _ := .next (.createTaskWithHandler 4) three rfl
  have joined : Reaches ({} : Heap Nat) _ := .next (.setNextTask 2 (some 3)) four rfl
  have chained : Reaches ({} : Heap Nat) _ := .next (.setNextTask 1 (some 2)) joined rfl
  have replaced : Reaches ({} : Heap Nat) _ := .next (.setNextTask 1 (some 4)) chained rfl
  have deleted : Reaches ({} : Heap Nat) _ := .next (.deleteTask 1) replaced rfl
  exact ⟨_, rfl, reaches_settles deleted⟩

/-! ### Rings -/

omit [DecidableEq N] in
theorem Owned.covered (owned : Owned h) (there : t ∈ h.live) : ∃ p ∈ h.owned, t ∈ h.chain p := by
  obtain ⟨chains, chained⟩ := owned
  obtain ⟨first, rest, others, same⟩ := chained.find there
  have chained := chained.perm same
  cases nodes : first ++ t :: rest with
  | nil => simp at nodes
  | cons p more =>
    have inside : t ∈ p :: more := nodes ▸ List.mem_append_right _ List.mem_cons_self
    rw [nodes] at chained
    refine ⟨p, chained.heads.mem_iff.mpr List.mem_cons_self, ?_⟩
    rwa [chained.chain_eq]

omit [DecidableEq N] in
theorem Chained.disjoint {c : List N} (chained : Chained h (nodes :: others)) (other : c ∈ others) :
    List.Disjoint nodes c := by
  intro q inside
  obtain ⟨first, rest, rfl⟩ := List.append_of_mem inside
  exact chained.apart.2.2 c other

/-- The chain of `t` is appended to `t`: the part behind `t` goes, the part before it
becomes a ring, and the other chains are as before. -/
theorem Chained.close (chained : Chained h ((first ++ t :: rest) :: others))
    (top : (first ++ t :: rest).head? = some p) :
    ∃ u, h.setNextTask t (some p) = some u ∧ p ∈ u.live ∧ ∀ q ∈ u.owned, p ∉ u.chain q := by
  obtain ⟨before, behind, elsewhere⟩ := chained.apart
  have there : t ∈ h.live := chained.subset (List.mem_append_right _ List.mem_cons_self)
  have whole := chained.linked _ List.mem_cons_self
  have suffix := Linked.suffix whole
  have behindNext := suffix.head
  rw [behindNext] at suffix
  have inRest : rest ⊆ h.live := fun q member =>
    chained.subset (List.mem_append_right _ (List.mem_cons_of_mem _ member))
  have apart : List.Disjoint (first ++ [t]) rest := by
    have distinct := chained.nodup
    rw [List.append_cons] at distinct
    exact List.disjoint_of_nodup_append distinct
  have removed : h.setNextTask t (some p) = some { h.link t (some p) with
      live := h.live.diff rest, deleted := rest.reverse ++ h.deleted } := by
    rw [Heap.setNextTask, if_pos there, behindNext]
    refine delete_linked (h := h.link t (some p)) (suffix.update behind) ?_ inRest
    exact chained.nodup.sublist ((List.sublist_cons_self t rest).trans (List.sublist_append_right ..))
  have onChain : p ∈ first ++ t :: rest := List.mem_of_head? top
  have early : p ∈ first ++ [t] := List.mem_of_head? ((head?_append_cons first [] rest t).trans top)
  refine ⟨_, removed, List.mem_diff_of_mem (chained.subset onChain) fun late => apart early late, fun q mine => ?_⟩
  have heads := chained.heads.diff_right [p]
  rw [filterMap_head?, top, Option.toList_some, diff_append_left] at heads
  obtain ⟨c, member, head⟩ := List.mem_filterMap.mp (heads.mem_iff.mp mine)
  obtain ⟨before', after, rfl⟩ := List.append_of_mem member
  have other := chained.perm ((List.perm_middle.cons _).trans (List.Perm.swap ..))
  have linked : Linked (Function.update h.next t (some p)) c.head? c :=
    (other.linked c List.mem_cons_self).update (elsewhere c member)
  rw [head] at linked
  have kept : c ⊆ h.live.diff rest := fun r inside =>
    List.mem_diff_of_mem (other.subset inside) fun late =>
      chained.disjoint member (List.mem_append_right _ (List.mem_cons_of_mem _ late)) inside
  have same : follow (Function.update h.next t (some p)) (h.live.diff rest).length (some q) = c :=
    follow_linked linked (List.subperm_of_subset other.nodup kept).length_le
  intro found
  exact chained.disjoint member onChain (same ▸ found)

/-- A chain stays in somebody's care if and only if it is not appended to one of its own
tasks. If it is, it becomes a ring that nobody will delete. -/
theorem appended_owned_iff (run : Reaches {} h) (there : t ∈ h.live) (mine : p ∈ h.owned) :
    ∃ u, h.setNextTask t (some p) = some u ∧ (Owned u ↔ t ∉ h.chain p) ∧
      (t ∈ h.chain p → p ∈ u.live ∧ ∀ q ∈ u.owned, p ∉ u.chain q) := by
  by_cases inside : t ∈ h.chain p
  · obtain ⟨chains, chained⟩ := run.owned
    obtain ⟨first, rest, others, same⟩ := chained.find there
    have chained := chained.perm same
    obtain ⟨-, top⟩ | ⟨more, others', moved, other⟩ := chained.locate mine
    · obtain ⟨u, performed, live, lost⟩ := chained.close top
      refine ⟨u, performed, ⟨fun owned => ?_, fun apart => absurd inside apart⟩, fun _ => ⟨live, lost⟩⟩
      obtain ⟨q, held, reached⟩ := owned.covered live
      exact absurd reached (lost q held)
    · rw [other] at inside
      exact absurd inside (chained.apart.2.2 _ (moved.mem_iff.mpr List.mem_cons_self))
  · have permitted : h.Permitted (.setNextTask t (some p)) := by
      refine ⟨there, fun q same => ?_⟩
      obtain rfl := Option.some.inj same
      exact ⟨mine, inside⟩
    obtain ⟨u, performed, owned⟩ := run.owned.perform permitted
    exact ⟨u, performed, ⟨fun _ => inside, fun _ => owned⟩, fun found => absurd found inside⟩

/-- The second task of a chain gets the first one as its next. -/
theorem ring_not_owned : ∃ h u : Heap Nat, h.setNextTask 2 (some 1) = some u ∧ ¬ Owned u := by
  have one : Reaches ({} : Heap Nat) _ := .next (.createTaskWithHandler 1) .refl rfl
  have two : Reaches ({} : Heap Nat) _ := .next (.createTaskWithHandler 2) one rfl
  have chained : Reaches ({} : Heap Nat) _ := .next (.setNextTask 1 (some 2)) two rfl
  obtain ⟨u, performed, iff, -⟩ := appended_owned_iff (t := 2) (p := 1) chained (by decide) (by decide)
  exact ⟨_, u, performed, fun owned => iff.mp owned (by decide)⟩

end Talon.Task.NextTask
