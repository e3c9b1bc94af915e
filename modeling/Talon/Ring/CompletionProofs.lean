import Talon.Interleaving.Ownership
import Talon.Ring.Completion

/-! As long as the kernel leaves the slot alone that the event loop is reading,
the loop acts on the kernel's completions one by one and in order. -/
namespace Talon.Ring.Completion
open Interleaving Ownership

theorem dispatched_append (cqes more : List Cqe) :
    dispatched (cqes ++ more) = dispatched cqes ++ dispatched more := List.filter_append _ _

theorem dispatched_take {cqes : List Cqe} {k : Nat} {cqe : Cqe} (at_k : cqes[k]? = some cqe) :
    dispatched (cqes.take (k + 1)) = dispatched (cqes.take k) ++ dispatched [cqe] := by
  rw [List.take_add_one, at_k, Option.toList_some, dispatched_append]

/-- How many entries the loop has dealt with. -/
def Shared.consumed (s : Shared) : Nat :=
  match s.stage with
  | .idle | .found => s.head
  | .reading k => k

/-- Written and not given back entries are the kernel's completions in order, and
so is the entry that the loop is reading. -/
structure Valid (size : Nat) (s : Shared) : Prop where
  waiting : s.backlog = s.posted.drop s.tail
  room : s.head ≤ s.tail ∧ s.tail ≤ s.head + size
  bounded : s.tail ≤ s.posted.length
  written : ∀ k, s.head ≤ k → k < s.tail → s.posted[k]? = some (s.slots (k % size))
  found : s.stage = .found → s.head < s.tail
  reading : ∀ k, s.stage = .reading k → k + 1 = s.head ∧ s.posted[k]? = some (s.slots (k % size))
  acted : s.acted = dispatched (s.posted.take s.consumed)

/-- The loop's own part: the head, its stage and the entry it is reading. -/
structure View where
  head : Nat
  stage : Stage
  cell : Option Cqe

def view (size : Nat) : Thread → Shared → View
  | .kernel, _ => ⟨0, .idle, none⟩
  | .loop, s => ⟨s.head, s.stage, match s.stage with
      | .reading k => some (s.slots (k % size))
      | .idle | .found => none⟩

def ownership (size : Nat) : Ownership Thread Shared View where
  Inv := Valid size
  view := view size
  allowed := Unclobbered size

/-- The kernel's thread runs the kernel, the loop's thread the loop, which has no
entry at the start of an iteration. -/
def spec : Thread → Spec Procedure Unit View
  | .kernel => ⟨fun f _ => f = .kernel, fun _ _ _ _ => True⟩
  | .loop => ⟨fun f v => f = .runEventLoop ∧ v.stage = .idle, fun _ _ _ _ => True⟩

theorem slot_ne {size k m : Nat} (below : k < m) (near : m < k + size) : m % size ≠ k % size := by
  intro same
  have multiple : size ∣ m - k := Nat.dvd_of_mod_eq_zero (Nat.sub_mod_eq_zero_of_mod_eq same)
  have far := Nat.le_of_dvd (by omega) multiple
  omega

variable {size : Nat} {s : Shared}

theorem Valid.consumed_le (valid : Valid size s) : s.consumed ≤ s.posted.length := by
  have room := valid.room
  have bounded := valid.bounded
  unfold Shared.consumed
  split
  · omega
  · omega
  · rename_i k stage
    have next := (valid.reading k stage).1
    omega

theorem Valid.complete (valid : Valid size s) (cqe : Cqe) :
    Valid size (s.perform size (.complete cqe)) where
  waiting := by
    simp only [Shared.perform, valid.waiting]
    rw [List.drop_append_of_le_length valid.bounded]
  room := valid.room
  bounded := by
    simp only [Shared.perform, List.length_append]
    exact Nat.le_add_right_of_le valid.bounded
  written k low high := by
    simp only [Shared.perform]
    rw [List.getElem?_append_left (Nat.lt_of_lt_of_le high valid.bounded)]
    exact valid.written k low high
  found := valid.found
  reading k stage := by
    obtain ⟨next, entry⟩ := valid.reading k stage
    obtain ⟨bound, _⟩ := List.getElem?_eq_some_iff.mp entry
    refine ⟨next, ?_⟩
    simp only [Shared.perform]
    rw [List.getElem?_append_left bound]
    exact entry
  acted := by
    have kept : (s.posted ++ [cqe]).take s.consumed = s.posted.take s.consumed :=
      List.take_append_of_le_length valid.consumed_le
    exact valid.acted.trans (congrArg dispatched kept.symm)

/-- A write goes to a slot that holds no entry the loop has yet to see, nor the
one it is reading. -/
theorem Valid.write (valid : Valid size s) (unclobbered : Unclobbered size s (s.perform size .write)) :
    Valid size (s.perform size .write) := by
  cases backlog : s.backlog with
  | nil => simpa only [Shared.perform, backlog] using valid
  | cons cqe rest =>
    by_cases free : s.tail < s.head + size
    · have written : s.perform size .write = { s with
          slots := Function.update s.slots (s.tail % size) cqe, tail := s.tail + 1, backlog := rest } := by
        simp only [Shared.perform, backlog, free, if_true]
      rw [written] at unclobbered ⊢
      have waiting : cqe :: rest = s.posted.drop s.tail := backlog ▸ valid.waiting
      have entry : s.posted[s.tail]? = some cqe := by
        have first := congrArg List.head? waiting
        rwa [List.head?_cons, List.head?_drop, eq_comm] at first
      obtain ⟨bound, _⟩ := List.getElem?_eq_some_iff.mp entry
      have room := valid.room
      refine ⟨?_, ⟨by simp only; omega, by simp only; omega⟩, bound, fun k low high => ?_,
        fun stage => ?_, fun k stage => ?_, valid.acted⟩
      · have tail := congrArg List.tail waiting
        rwa [List.tail_cons, List.tail_drop] at tail
      · simp only at low high ⊢
        by_cases last : k = s.tail
        · rw [last, Function.update_self]
          exact entry
        · have kept : k % size ≠ s.tail % size := (slot_ne (by omega) (by omega)).symm
          rw [Function.update_of_ne kept]
          exact valid.written k low (by omega)
      · have some_ := valid.found stage
        simp only
        omega
      · obtain ⟨next, current⟩ := valid.reading k stage
        have kept : k % size ≠ s.tail % size := (unclobbered rfl k stage).symm
        refine ⟨next, ?_⟩
        simp only
        rw [Function.update_of_ne kept]
        exact current
    · simpa only [Shared.perform, backlog, free, if_false] using valid

/-- The kernel leaves the loop's part alone. -/
theorem view_perform {action : Action} (unclobbered : Unclobbered size s (s.perform size action)) :
    view size .loop (s.perform size action) = view size .loop s := by
  cases action with
  | complete | requestShutdown => rfl
  | write =>
    cases backlog : s.backlog with
    | nil => simp only [Shared.perform, backlog]
    | cons cqe rest =>
      by_cases free : s.tail < s.head + size
      · simp only [Shared.perform, backlog, free, if_true] at unclobbered ⊢
        cases stage : s.stage with
        | idle | found => simp only [view, stage]
        | reading k =>
          have kept : k % size ≠ s.tail % size := (unclobbered rfl k stage).symm
          simp only [view, stage, Function.update_of_ne kept]
      · simp only [Shared.perform, backlog, free, if_false]

variable {v : View}

theorem ensures_kernel : (ownership size).Ensures (spec .kernel) .kernel v
    (code size .kernel .kernel) fun _ _ => True := by
  refine Ensures.bind (M := fun _ _ => True) ?_ ?_
  · refine Ensures.atomic fun c s t holds stepped admitted => ?_
    cases Option.some.inj stepped
    obtain ⟨valid, rfl⟩ := holds
    refine ⟨_, trivial, ?_, fun i other => ?_, rfl⟩
    · cases action : c.action with
      | complete cqe => exact valid.complete cqe
      | write =>
        rw [action] at admitted
        exact valid.write admitted
      | requestShutdown => exact { valid with }
    · cases i with
      | kernel => contradiction
      | loop => exact view_perform admitted
  · exact fun _ _ _ => Ensures.enter rfl fun _ _ _ => trivial

/-- The kernel's view never changes. -/
theorem kernel_view (s t : Shared) (i : Thread) (other : i ≠ .loop) : view size i t = view size i s := by
  cases i with
  | kernel => rfl
  | loop => contradiction

theorem lookup_entry {c : Choice} {k : Nat} (outcome : lookup c s = .entry k) :
    k = s.head ∧ s.head < s.tail := by
  simp only [lookup] at outcome
  split at outcome
  · split at outcome
    · rename_i some_
      exact ⟨(Found.entry.inj outcome).symm, some_⟩
    · contradiction
  all_goals contradiction

/-- What `peek` and `wait` leave behind: with an entry, it is the one at the head. -/
def Finds (result : Found) (v : View) : Prop :=
  match result with
  | .entry k => v.stage = .found ∧ k = v.head
  | _ => v.stage = .idle

theorem ensures_find {effect : Choice → Shared → Option Shared} (idle : v.stage = .idle)
    (finds : ∀ c s t, effect c s = some t → t = s.find c) :
    (ownership size).Ensures (spec .loop) .loop v (.atomic effect lookup : Code Found)
      fun result v' => Finds result v' := by
  refine Ensures.atomic fun c s t holds stepped _ => ?_
  cases finds c s t stepped
  obtain ⟨valid, rfl⟩ := holds
  have none_ : s.stage = .idle := idle
  cases outcome : lookup c s with
  | entry k =>
    obtain ⟨isHead, some_⟩ := lookup_entry outcome
    simp only [Shared.find, outcome]
    refine ⟨_, ?_, ?_, kernel_view _ _, rfl⟩
    · exact ⟨rfl, isHead⟩
    · have acted := valid.acted
      simp only [Shared.consumed, none_] at acted
      exact { valid with found := fun _ => some_, reading := nofun, acted := acted }
  | again | interrupted | error | null =>
    simp only [Shared.find, outcome]
    exact ⟨_, idle, valid, kernel_view _ _, rfl⟩

/-- The loop gives back the entry that it has found, and goes on to read it. -/
theorem ensures_seen {k : Nat} (finds : Finds (.entry k) v) :
    (ownership size).Ensures (spec .loop) .loop v (.store Shared.seen : Code Unit)
      fun _ v' => v'.stage = .reading k ∧ ∃ cqe, v'.cell = some cqe := by
  refine Ensures.exchange fun s holds _ => ?_
  obtain ⟨valid, rfl⟩ := holds
  obtain ⟨stage, rfl⟩ := finds
  have found : s.stage = .found := stage
  have some_ := valid.found found
  have room := valid.room
  refine ⟨_, ?_, ?_, kernel_view _ _, rfl⟩
  · exact ⟨rfl, _, rfl⟩
  · have acted := valid.acted
    simp only [Shared.consumed, found] at acted
    refine ⟨valid.waiting, ⟨?_, ?_⟩, valid.bounded, fun m low high => ?_, nofun, fun m reading => ?_, acted⟩
    · exact some_
    · simp only [Shared.seen]
      omega
    · exact valid.written m (Nat.le_of_succ_le low) high
    · cases reading
      exact ⟨rfl, valid.written s.head (Nat.le_refl _) some_⟩

theorem ensures_readUserData {k : Nat} {cqe : Cqe} (stage : v.stage = .reading k)
    (cell : v.cell = some cqe) :
    (ownership size).Ensures (spec .loop) .loop v (readUserData size k)
      fun userData v' => userData = cqe.userData ∧
        if skips cqe.userData then v'.stage = .idle else v' = v := by
  refine Ensures.exchange fun s holds _ => ?_
  obtain ⟨valid, rfl⟩ := holds
  have reading : s.stage = .reading k := stage
  have slot : s.slots (k % size) = cqe := by
    have content : some (s.slots (k % size)) = some cqe := by
      simpa only [ownership, view, reading] using cell
    exact Option.some.inj content
  obtain ⟨next, entry⟩ := valid.reading k reading
  rw [slot] at entry ⊢
  cases skipped : skips cqe.userData with
  | true =>
    refine ⟨_, ?_, ?_, kernel_view _ _, rfl⟩
    · exact ⟨rfl, rfl⟩
    · have acted := valid.acted
      simp only [Shared.consumed, reading] at acted
      refine { valid with found := nofun, reading := nofun, acted := ?_ }
      have nothing : dispatched [cqe] = [] := by
        simp only [dispatched, List.filter_cons, skipped, Bool.not_true, Bool.false_eq_true, if_false,
          List.filter_nil]
      simp only [if_true, Shared.consumed, ← next, dispatched_take entry, nothing, List.append_nil]
      exact acted
  | false =>
    simp only [Bool.false_eq_true, if_false]
    exact ⟨_, ⟨trivial, rfl⟩, valid, kernel_view _ _, rfl⟩

theorem ensures_dispatch {k : Nat} {cqe : Cqe} (stage : v.stage = .reading k) (cell : v.cell = some cqe)
    (acts : skips cqe.userData = false) :
    (ownership size).Ensures (spec .loop) .loop v
      (.store (·.dispatch size k cqe.userData) : Code Unit) fun _ v' => v'.stage = .idle := by
  refine Ensures.exchange fun s holds _ => ?_
  obtain ⟨valid, rfl⟩ := holds
  have reading : s.stage = .reading k := stage
  have slot : s.slots (k % size) = cqe := by
    have content : some (s.slots (k % size)) = some cqe := by
      simpa only [ownership, view, reading] using cell
    exact Option.some.inj content
  obtain ⟨next, entry⟩ := valid.reading k reading
  rw [slot] at entry
  refine ⟨_, ?_, ?_, kernel_view _ _, rfl⟩
  · rfl
  · have acted := valid.acted
    simp only [Shared.consumed, reading] at acted
    refine { valid with found := nofun, reading := nofun, acted := ?_ }
    have one : dispatched [cqe] = [cqe] := by
      simp only [dispatched, List.filter_cons, acts, Bool.not_false, if_true, List.filter_nil]
    simp only [Shared.dispatch, Shared.consumed, ← next, dispatched_take entry, one, slot, acted]

theorem ensures_consume {k : Nat} (finds : Finds (.entry k) v) :
    (ownership size).Ensures (spec .loop) .loop v (consume size k) fun _ v' => v'.stage = .idle := by
  refine Ensures.bind (ensures_seen finds) ?_
  rintro _ w ⟨stage, cqe, cell⟩
  refine Ensures.bind (ensures_readUserData stage cell) ?_
  rintro _ u ⟨rfl, rest⟩
  cases skipped : skips cqe.userData with
  | true =>
    simp only [skipped, if_true] at rest ⊢
    exact Ensures.pure rest
  | false =>
    simp only [skipped, Bool.false_eq_true, if_false] at rest ⊢
    rw [rest]
    exact ensures_dispatch stage cell skipped

theorem ensures_load_shutdown {p q : Code Unit} {post : Unit → View → Prop}
    (stops : (ownership size).Ensures (spec .loop) .loop v p post)
    (continues : (ownership size).Ensures (spec .loop) .loop v q post) :
    (ownership size).Ensures (spec .loop) .loop v
      (Prog.load (·.shutdownRequested) >>= fun stop => if stop then p else q) post := by
  refine Ensures.bind (M := fun _ w => w = v) (Ensures.load fun _ _ => rfl) ?_
  rintro (_ | _) v rfl
  · exact continues
  · exact stops

theorem ensures_handle {result : Found} (finds : Finds result v) :
    (ownership size).Ensures (spec .loop) .loop v (handle size result) fun _ _ => True := by
  have again : ∀ w : View, w.stage = .idle → (ownership size).Ensures (spec .loop) .loop w
      (.enter .runEventLoop : Code Unit) fun _ _ => True :=
    fun w idle => Ensures.enter ⟨rfl, idle⟩ fun _ _ _ => trivial
  cases result with
  | entry k => exact Ensures.bind (ensures_consume finds) fun _ w idle => again w idle
  | interrupted | null => exact again v finds
  | again | error => exact ensures_load_shutdown (Ensures.pure trivial) (again v finds)

theorem meets (i : Thread) (f : Procedure) (v : View) (pre : (spec i).pre f v) :
    (ownership size).Ensures (spec i) i v (code size i f) ((spec i).post f v) := by
  cases i with
  | kernel =>
    cases pre
    exact ensures_kernel
  | loop =>
    obtain ⟨rfl, idle⟩ := pre
    refine ensures_load_shutdown (Ensures.pure trivial) ?_
    refine Ensures.bind (ensures_find idle fun c s t stepped => (Option.some.inj stepped).symm) ?_
    intro peeked w finds
    cases peeked with
    | again =>
      refine Ensures.bind (ensures_find finds fun c s t stepped => ?_) ?_
      · simp only [Option.ite_none_left_eq_some, Option.some.injEq] at stepped
        exact stepped.2.symm
      · exact fun waited u finds => ensures_handle finds
    | entry | interrupted | error | null => exact ensures_handle finds

theorem valid_initial (slots : Nat → Cqe) : Valid size (initial slots) :=
  ⟨rfl, ⟨Nat.le_refl _, Nat.zero_le _⟩, Nat.le_refl _, nofun, nofun, nofun, rfl⟩

theorem reaches_valid {slots : Nat → Cqe} {pool : Threads}
    (path : Pool.Reaches (code size) (Unclobbered size) (start slots) pool) : Valid size pool.shared := by
  refine invariant (O := ownership size) (K := spec) meets ?_ (fun i => ?_) path
  · exact valid_initial slots
  · cases i with
    | kernel => exact Ensures.enter rfl fun _ _ _ => trivial
    | loop => exact Ensures.enter ⟨rfl, rfl⟩ fun _ _ _ => trivial

/-- The loop acts on the kernel's completions in order, each of them once and with
its own result, and leaves none out. -/
structure InOrder (s : Shared) : Prop where
  inOrder : s.acted <+: dispatched s.posted
  complete : s.stage = .idle → s.acted = dispatched (s.posted.take s.head)

theorem unclobbered_inOrder {slots : Nat → Cqe} {pool : Threads}
    (path : Pool.Reaches (code size) (Unclobbered size) (start slots) pool) : InOrder pool.shared := by
  have valid := reaches_valid path
  constructor
  · rw [valid.acted]
    exact (List.take_prefix _ _).filter _
  · intro idle
    have acted := valid.acted
    simpa only [Shared.consumed, idle] using acted

/-- Completions of three tasks. -/
def cqe (task : Nat) : Cqe := ⟨BitVec.ofNat 64 (64 * task), task⟩

def steps (i : Thread) (n : Nat) (action : Action) : List (Thread × Choice) :=
  List.replicate n (i, ⟨action, .entry⟩)

/-- The kernel completes an operation and writes its entry. -/
def post (task : Nat) : List (Thread × Choice) :=
  steps .kernel 2 (.complete (cqe task)) ++ steps .kernel 2 .write

/-- The loop has peeked at the first entry and given its slot back. -/
def givenBack : List (Thread × Choice) := post 1 ++ post 2 ++ steps .loop 4 .write

theorem quietKernel_inOrder : ∃ pool : Threads,
    Pool.Reaches (code 2) (Unclobbered 2) (start fun _ => cqe 0) pool ∧
    pool.shared.acted = [cqe 1] ∧ InOrder pool.shared := by
  have executed : (Pool.run (code 2) (fun s t => decide (t.tail = s.tail) || decide (s.stage = .idle))
      (givenBack ++ steps .loop 2 .write ++ post 3) (start fun _ => cqe 0)).map
      (fun p => p.shared.acted) = some [cqe 1] := by
    decide +kernel
  obtain ⟨pool, run, acted⟩ := Option.map_eq_some_iff.mp executed
  have path : Pool.Reaches (code 2) (Unclobbered 2) (start fun _ => cqe 0) pool := by
    refine Pool.reaches_of_run (fun s t checked grown k reading => ?_) run
    simp only [grown, reading, Nat.add_eq_left, Nat.one_ne_zero, reduceCtorEq, decide_false,
      Bool.or_self, Bool.false_eq_true] at checked
  exact ⟨pool, path, acted, unclobbered_inOrder path⟩

/-- The kernel writes the third entry into the slot that the loop has given back
and not read: the first completion is lost, the third dispatched in its place. -/
theorem entry_overwritten_before_read :
    ¬ ∀ pool : Threads, Pool.Reaches (code 2) (fun _ _ => True) (start fun _ => cqe 0) pool →
      InOrder pool.shared := by
  intro claimed
  have executed : (Pool.run (code 2) (fun _ _ => true)
      (givenBack ++ post 3 ++ steps .loop 2 .write) (start fun _ => cqe 0)).map
      (fun p => (p.shared.acted, p.shared.posted)) = some ([cqe 3], [cqe 1, cqe 2, cqe 3]) := by
    decide +kernel
  obtain ⟨pool, run, outcome⟩ := Option.map_eq_some_iff.mp executed
  have ordered := claimed pool (Pool.reaches_of_run (fun _ _ _ => trivial) run)
  simp only [Prod.mk.injEq] at outcome
  have first := ordered.inOrder
  rw [outcome.1, outcome.2] at first
  exact absurd first (by decide +kernel)

end Talon.Ring.Completion
