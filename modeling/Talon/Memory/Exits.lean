import Mathlib.Algebra.Order.BigOperators.Group.Finset
import Mathlib.Algebra.BigOperators.Group.Finset.Piecewise
import Talon.Memory.BufferPoolProofs
import Talon.Memory.ObjectPoolCustody
import Talon.Memory.Turnover

/-! `ObjectPool` and `BufferPool` under threads that start and exit: what they
reserve without looking, and what an operation may allocate once it has found its
free list empty. -/
namespace Talon.Memory
open Interleaving

namespace ObjectPool
variable {ι : Type} {config : Config Unit} {i : ι} {s : Shared ι Unit} {action : Action Unit}
  {word : Option (Slot Unit)}

/-- The constructor's slots, as long as it has not run. -/
def reserve (config : Config Unit) (own : Own ι Unit) (_ : Unit) : Nat :=
  if own.status () = .unborn then config.capacity () else 0

/-- No operation carries more slots than this. -/
def width (config : Config Unit) : Nat := config.capacity () + config.growBatch () + kObjectPoolTlsCacheSize

/-- No operation asks for more slots at once. -/
def limit (config : Config Unit) : Nat := config.capacity () + config.growBatch () + 1

/-- What a call takes from the reserve. -/
def need (config : Config Unit) : Action Unit → Nat
  | .construct _ => config.capacity ()
  | _ => 0

abbrev budget (config : Config Unit) : Budget (Shared ι Unit) :=
  slotBudget (layout config) (reserve config) (width config) (limit config) ()

/-- A pool that is not constructed has no slots yet. -/
theorem carved_unborn (valid : s.Valid (layout config)) (unborn : s.own.status () = .unborn) : s.carved = [] :=
  List.eq_nil_iff_forall_not_mem.mpr fun slot member => valid.born slot member unborn

variable [DecidableEq ι]

theorem orderly_begin (valid : s.Valid (layout config)) (permitted : Permitted s action)
    (orderly : Orderly (width config) s) : Orderly (width config) (record i action (begin i word s action)) := by
  match action with
  | .construct p =>
    have nothing : (s.cache i ()).live = [] := by
      apply List.eq_nil_iff_forall_not_mem.mpr
      intro slot member
      have known := valid.custody.known (a := .cached i ()) member
      rw [carved_unborn valid permitted] at known
      contradiction
    refine ⟨orderly.chain, orderly.once, ?_⟩
    change s.lost ++ (s.cache i ()).live = []
    rw [orderly.lost, nothing, List.append_nil]
  | .destroy p | .acquire p | .overwrite slot | .release p none | .releaseMemory p none
  | .release p (some slot) | .releaseMemory p (some slot) => exact ⟨orderly.chain, orderly.once, orderly.lost⟩

theorem cost_begin (permitted : Permitted s action) :
    (budget config).cost (record i action (begin i word s action)) + need config action ≤ (budget config).cost s := by
  match action with
  | .construct p =>
    have unborn : s.own.status () = .unborn := permitted
    change _ + (if Function.update s.own.status p .alive () = .unborn then _ else _) + _ ≤
      _ + if s.own.status () = .unborn then _ else _
    rw [if_pos unborn, Function.update_self, if_neg nofun]
    exact Nat.le_refl _
  | .destroy p =>
    change _ + (if Function.update s.own.status p .destroyed () = .unborn then _ else _) + 0 ≤ _
    rw [Function.update_self, if_neg nofun]
    exact Nat.le_add_right _ _
  | .acquire p | .overwrite slot | .release p none | .releaseMemory p none
  | .release p (some slot) | .releaseMemory p (some slot) => exact Nat.le_refl _

theorem frugal_perform : (budget config).Frugal (perform config i action) (need config action) := by
  have wide : kObjectPoolTlsCacheSize ≤ width config := Nat.le_add_left _ _
  have grows : ∀ count, count ≤ config.capacity () + config.growBatch () → (budget config).Frugal
      (growPool (layout config) i () count : Program ι Unit Unit) (if () = () then count else 0) := fun count fits =>
    frugal_growPool (objSize_pos config.sizeofT) (Nat.le_trans fits (Nat.le_add_right _ _))
  have releases : ∀ obj, (budget config).Frugal (releaseMemory config i () obj : Program ι Unit Unit) 0 := by
    intro obj
    cases obj with
    | none => exact .pure
    | some node => exact frugal_releaseMemory wide
  cases action with
  | construct p => exact .bind (grows (config.capacity ()) (Nat.le_add_right _ _)) fun _ => frugal_finish
  | destroy p | overwrite slot => exact .pure
  | acquire p =>
    have batch : config.growBatch () ≤ config.capacity () + config.growBatch () := Nat.le_add_left _ _
    refine .bind ?_ fun _ => frugal_receive
    exact frugal_acquire (Nat.le_succ_of_le batch) (Nat.le_add_left _ _) (grows (config.growBatch ()) batch)
  | release p obj =>
    refine .bind ?_ fun _ => frugal_finish
    cases obj with
    | none => exact .pure
    | some slot =>
      refine .bind ?_ fun _ => releases (some slot)
      refine .atomic fun c s t _ stepped _ => ?_
      cases Option.some.inj stepped
      exact ⟨fun orderly => ⟨orderly.chain, orderly.once, orderly.lost⟩, Nat.le_refl _⟩
  | releaseMemory p obj => exact .bind (releases obj) fun _ => frugal_finish

theorem keeps : Keeps (layout config) Unmixed ⟨fun _ => .unborn, []⟩ (code config : ι → _) (reserve config)
    (width config) (limit config) fun _ => config.capacity () where
  proved _ path := reaches_meets (path.mono fun s t _ => unmixed_unit s t)
  admits := unmixed_unit
  frugal _ i f := by
    cases f with
    | walk tail => exact frugal_walk
    | client =>
      refine .atomic_bind fun c s t valid stepped _ => ?_
      simp only [Option.ite_none_right_eq_some, Option.some.injEq] at stepped
      obtain ⟨permitted, rfl⟩ := stepped
      refine ⟨orderly_begin valid permitted, need config c.action, ?_, ?_, Or.inl (cost_begin permitted)⟩
      · cases c.action with
        | construct p => exact Nat.le_trans (Nat.le_add_right _ _) (Nat.le_add_right _ _)
        | _ => exact Nat.zero_le _
      · exact .bind frugal_perform fun _ => .enter
  reserves own _ := by
    unfold reserve
    split
    · exact Nat.le_refl _
    · exact Nat.zero_le _

/-- The threads that use one pool. -/
abbrev Users (ι : Type) := Turnover ι Unit Unit Unit (Own ι Unit) (Action Unit)

/-- Every crowd of threads that uses one pool, from before its construction on. -/
abbrev Arrives (config : Config Unit)
    (allowed : Users ι → Event ι (Choice (Action Unit) Unit) → Users ι → Prop) : Users ι → Prop :=
  Crowd.Reaches (code config) (exits [()]) allowed (nobody ⟨fun _ => .unborn, []⟩)

def slotLimit (config : Config Unit) (held threads : Nat) : Nat :=
  held + threads * (kObjectPoolTlsCacheSize + 1 + width config) + config.capacity () + threads * limit config

end ObjectPool

namespace BufferPool
variable {ι : Type} {i : ι} {s : Shared ι} {idx q : Class}

/-- A class's slab, as long as nobody has claimed it. -/
def reserve (own : Own) (idx : Class) : Nat := if own.initialized idx then 0 else numBlocks idx

/-- The most blocks that a class has in its slab. -/
def slabMost : Nat := 8192

theorem numBlocks_le : ∀ idx : Class, numBlocks idx ≤ slabMost := by decide

def width : Nat := slabMost + kBufferPoolTlsCacheSize

def limit : Nat := slabMost + 1

abbrev budget (q : Class) : Budget (Shared ι) := slotBudget layout reserve width limit q

/-- No block is given back to the system. -/
theorem lost_nil (valid : s.Valid layout) : s.lost = [] :=
  List.eq_nil_iff_forall_not_mem.mpr fun slot member => valid.forgotten slot member

variable [DecidableEq ι]

/-- Who claims a slab has it from the reserve. -/
theorem frugal_ensureClassPopulated {n : Nat} :
    (budget q).Frugal (ensureClassPopulated i idx : Program ι Unit) n := by
  refine .atomic_bind fun c s t _ stepped _ => ?_
  cases Option.some.inj stepped
  refine ⟨fun orderly => ⟨orderly.chain, orderly.once, orderly.lost⟩, ?_⟩
  cases claimed : s.own.initialized idx with
  | true =>
    refine ⟨0, Nat.zero_le _, ?_, Or.inl ?_⟩
    · simp only [claimed, if_true]
      exact .pure
    · have same : Function.update s.own.initialized idx true = s.own.initialized := by
        rw [← claimed, Function.update_eq_self]
      simp only [same]
      exact Nat.le_add_right _ _
  | false =>
    refine ⟨if idx = q then numBlocks idx else 0, ?_, ?_, Or.inl ?_⟩
    · split
      · exact Nat.le_succ_of_le (numBlocks_le idx)
      · exact Nat.zero_le _
    · simp only [claimed, Bool.false_eq_true, if_false]
      exact frugal_growPool (allocSize_pos idx) (Nat.le_trans (numBlocks_le idx) (Nat.le_add_right _ _))
    · simp only [slotBudget, reserve]
      by_cases same : idx = q
      · subst same
        simp only [Function.update_self, claimed, if_true, Bool.false_eq_true, if_false]
        omega
      · simp only [Function.update_of_ne (Ne.symm same), same, if_false]
        omega

theorem frugal_allocate {bytes n : Nat} : (budget q).Frugal (allocate i bytes : Program ι (Option (Slot Class))) n := by
  unfold allocate
  split
  · exact .pure
  · exact frugal_acquire (m := 0) (Nat.zero_le _) (Nat.le_add_left _ _) frugal_ensureClassPopulated

theorem frugal_deallocate {ptr : Option (Slot Class)} {bytes n : Nat} :
    (budget q).Frugal (deallocate i ptr bytes : Program ι Unit) n := by
  cases ptr with
  | none => exact .pure
  | some node =>
    simp only [deallocate]
    split
    · refine .exchange fun s _ valid => ⟨fun orderly => ⟨orderly.chain, orderly.once, lost_nil valid⟩, ?_⟩
      exact Nat.le_refl _
    · exact frugal_releaseMemory (Nat.le_add_left _ _)

theorem frugal_perform {action : Action} : (budget q).Frugal (perform i action : Program ι Unit) 0 := by
  cases action with
  | allocate bytes => exact .bind frugal_allocate fun _ => frugal_receive
  | deallocate ptr bytes request => exact frugal_deallocate
  | overwrite slot => exact .pure

theorem keeps : Keeps layout (fun _ _ => True) ⟨fun _ => false⟩ (code : ι → _) reserve width limit numBlocks where
  proved _ path := reaches_meets path
  admits _ _ := trivial
  frugal q i f := by
    cases f with
    | walk tail => exact frugal_walk
    | client =>
      refine .bind ?_ fun action => .bind frugal_perform fun _ => .enter
      refine .atomic fun c s t _ stepped _ => ?_
      simp only [Option.ite_none_right_eq_some, Option.some.injEq] at stepped
      obtain ⟨-, rfl⟩ := stepped
      have plain : Plain width s (begin i c.word s c.action) := by
        match c.action with
        | .allocate _ | .deallocate none _ _ | .deallocate (some _) _ _ | .overwrite _ =>
          exact .of_chain rfl rfl rfl rfl
      exact ⟨plain.orderly, Nat.le_of_eq plain.cost⟩
  reserves own idx := by
    unfold reserve
    split
    · exact Nat.zero_le _
    · exact Nat.le_refl _

abbrev Users (ι : Type) := Turnover ι Class Class Nat Own Action

/-- Every crowd of threads that uses the pool. -/
abbrev Arrives (allowed : Users ι → Event ι (Choice Action Class) → Users ι → Prop) : Users ι → Prop :=
  Crowd.Reaches code (exits (List.finRange kNumClasses)) allowed (nobody ⟨fun _ => false⟩)

def slotLimit (held threads : Nat) : Nat := ∑ idx : Class,
  (held + threads * (kBufferPoolTlsCacheSize + 1 + width) + numBlocks idx + threads * limit)

theorem length_eq_sum (blocks : List (Slot Class)) :
    blocks.length = ∑ idx : Class, blocks.countP fun slot => decide (slot.pool = idx) := by
  induction blocks with
  | nil => simp only [List.countP_nil, Finset.sum_const_zero, List.length_nil]
  | cons slot rest ih =>
    simp only [List.countP_cons, Finset.sum_add_distrib, ← ih, decide_eq_true_eq, Finset.sum_ite_eq, Finset.mem_univ,
      if_true, List.length_cons]

end BufferPool

/-- If threads exit only with empty caches, every slot that no caller has is in
its free list or with a running thread, and the slots that are ever made are
bounded by the most that were held at once and the most threads that ran at once. -/
theorem tidy_exits_recycle {ι : Type} [DecidableEq ι] :
    (∀ (config : ObjectPool.Config Unit) (crowd : ObjectPool.Users ι),
      (ObjectPool.Arrives config (fun before event _ => Tidy before event) crowd → Recovers crowd) ∧
      ∀ held threads, ObjectPool.Arrives config (Modest held threads) crowd →
        crowd.shared.carved.length ≤ ObjectPool.slotLimit config held threads) ∧
    ∀ crowd : BufferPool.Users ι,
      (BufferPool.Arrives (fun before event _ => Tidy before event) crowd → Recovers crowd) ∧
      ∀ held threads, BufferPool.Arrives (Modest held threads) crowd →
        crowd.shared.carved.length ≤ BufferPool.slotLimit held threads := by
  refine ⟨fun config crowd => ⟨fun path => ?_, fun held threads path => ?_⟩,
    fun crowd => ⟨fun path => ?_, fun held threads path => ?_⟩⟩
  · obtain ⟨held, threads, modest⟩ := tidy_modest path
    exact turnover_recovers ObjectPool.keeps modest
  · have bounded := (turnover_bounded ObjectPool.keeps path ()).2
    rw [List.countP_eq_length.mpr fun _ _ => decide_eq_true rfl] at bounded
    exact bounded
  · obtain ⟨held, threads, modest⟩ := tidy_modest path
    exact turnover_recovers BufferPool.keeps modest
  · rw [BufferPool.length_eq_sum]
    exact Finset.sum_le_sum fun idx _ => (turnover_bounded BufferPool.keeps path idx).2

/-- Each step of thread `i` with the same choice. -/
def works {ι A Q : Type} (i : ι) (n : Nat) (action : A) (address : Option Nat) : List (Event ι (Choice A Q)) :=
  List.replicate n (.work i ⟨action, address, none⟩)

/-- One thread constructs the pool and exits. Another then acquires its slot and 33 that are
allocated on their own, and releases these, one more than its cache takes. -/
def handover : List (Event Bool (Choice (ObjectPool.Action Unit) Unit)) :=
  let acquires (n : Nat) := works true 8 (ObjectPool.Action.acquire ()) (some (ObjectPool.singleSlot n).address)
  let releases (n steps : Nat) :=
    works true steps (ObjectPool.Action.release () (some (ObjectPool.singleSlot n))) none
  [Event.start false] ++ works false 7 (ObjectPool.Action.construct ()) (some 64) ++
    [Event.exit false, Event.start true] ++ works true 5 (ObjectPool.Action.acquire ()) none ++
    (List.range' 1 33).flatMap acquires ++ (List.range' 1 32).flatMap (fun n => releases n 5) ++ releases 33 89

/-- A thread that has allocated a block exits. Another allocates 17 and gives them back. -/
def departure : List (Event Bool (Choice BufferPool.Action BufferPool.Class)) :=
  let allocates (n : Nat) := works true 8 (BufferPool.Action.allocate 100) (some (BufferPool.smallBlock n).address)
  let deallocates (n steps : Nat) :=
    works true steps (BufferPool.Action.deallocate (some (BufferPool.smallBlock n)) 100 100) none
  [Event.start false] ++ works false 6 (BufferPool.Action.allocate 100) none ++
    works false 3 (BufferPool.Action.allocate 100) (some 4096) ++ [Event.exit false, Event.start true] ++
    (List.range' 1 17).flatMap allocates ++ (List.range' 1 16).flatMap (fun n => deallocates n 3) ++
    deallocates 17 47

theorem handover_recycles :
    (∃ crowd, ObjectPool.Arrives ObjectPool.onePool (Modest 34 1) crowd ∧ crowd.ended = [false] ∧
      (crowd.shared.freed ()).length = 16 ∧ Recovers crowd ∧
      crowd.shared.carved.length ≤ ObjectPool.slotLimit ObjectPool.onePool 34 1) ∧
    ∃ crowd, BufferPool.Arrives (Modest 18 1) crowd ∧ crowd.ended = [false] ∧
      (crowd.shared.freed (BufferPool.smallBlock 0).pool).length = 8 ∧ Recovers crowd ∧
      crowd.shared.carved.length ≤ BufferPool.slotLimit 18 1 := by
  constructor
  · have executed : (Crowd.run (ObjectPool.code ObjectPool.onePool) (exits [()])
        (fun before event after => decide (Modest 34 1 before event after)) handover
        (nobody ⟨fun _ => .unborn, []⟩)).map (fun crowd => (crowd.ended, (crowd.shared.freed ()).length)) =
        some ([false], 16) := by
      decide +kernel
    obtain ⟨crowd, run, outcome⟩ := Option.map_eq_some_iff.mp executed
    obtain ⟨ended, freed⟩ := Prod.mk.inj outcome
    have path := Crowd.reaches_of_run (fun _ _ _ => of_decide_eq_true) run
    obtain ⟨recovers, bounded⟩ := tidy_exits_recycle.1 ObjectPool.onePool crowd
    exact ⟨crowd, path, ended, freed, recovers (path.mono fun _ _ _ => And.left), bounded 34 1 path⟩
  · have executed : (Crowd.run BufferPool.code (exits (List.finRange BufferPool.kNumClasses))
        (fun before event after => decide (Modest 18 1 before event after)) departure
        (nobody ⟨fun _ => false⟩)).map (fun crowd =>
          (crowd.ended, (crowd.shared.freed (BufferPool.smallBlock 0).pool).length)) = some ([false], 8) := by
      decide +kernel
    obtain ⟨crowd, run, outcome⟩ := Option.map_eq_some_iff.mp executed
    obtain ⟨ended, freed⟩ := Prod.mk.inj outcome
    have path := Crowd.reaches_of_run (fun _ _ _ => of_decide_eq_true) run
    obtain ⟨recovers, bounded⟩ := tidy_exits_recycle.2 crowd
    exact ⟨crowd, path, ended, freed, recovers (path.mono fun _ _ _ => And.left), bounded 18 1 path⟩

/-- A thread acquires and releases the only slot, and exits with it in its cache. -/
def cachedAtExit : List (Event Unit (Choice (ObjectPool.Action Unit) Unit)) :=
  [Event.start ()] ++ works () 7 (ObjectPool.Action.construct ()) (some 64) ++
    works () 5 (ObjectPool.Action.acquire ()) none ++
    works () 5 (ObjectPool.Action.release () (some ⟨(), 0, 64⟩)) none ++ [Event.exit ()]

theorem cached_slot_lost : ¬ ∀ crowd : ObjectPool.Users Unit,
    ObjectPool.Arrives ObjectPool.onePool (fun _ _ _ => True) crowd → Recovers crowd := by
  intro always
  have executed : (Crowd.run (ObjectPool.code ObjectPool.onePool) (exits [()]) (fun _ _ _ => true) cachedAtExit
      (nobody ⟨fun _ => .unborn, []⟩)).map (fun crowd =>
        (crowd.shared.carved, crowd.shared.held, crowd.shared.freed (), crowd.running)) =
      some ([⟨(), 0, 64⟩], [], [], []) := by
    decide +kernel
  obtain ⟨crowd, run, outcome⟩ := Option.map_eq_some_iff.mp executed
  simp only [Prod.mk.injEq] at outcome
  obtain ⟨carved, held, freed, running⟩ := outcome
  have recovers := always crowd (Crowd.reaches_of_run (fun _ _ _ _ => trivial) run)
  have found := recovers.reachable ⟨(), 0, 64⟩ (carved ▸ List.mem_singleton.mpr rfl) (by rw [held]; exact nofun)
  rcases found with free | ⟨i, runs, -⟩
  · rw [freed] at free
    contradiction
  · rw [running] at runs
    contradiction

end Talon.Memory
