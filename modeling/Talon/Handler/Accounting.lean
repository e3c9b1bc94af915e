import Mathlib.Data.List.Perm.Subperm
import Talon.Handler.Verified

/-! What `inflight_count_` counts. -/
namespace Talon.Handler
open Interleaving

variable {m : Mode} {s : State}

/-- The schedules below are checked event by event. -/
def Mode.admits (m : Mode) (s t : State) : Bool :=
  match t.log with
  | [] => true
  | event :: _ => decide (t.log.length = s.log.length) || m.permits s event

theorem Mode.admits_sound (s t : State) (checked : m.admits s t = true) : m.Admits s t := by
  intro event grown
  simp only [Mode.admits, grown, List.length_cons, Bool.or_eq_true, decide_eq_true_eq] at checked
  rcases checked with same | permitted
  · omega
  · exact permitted

theorem Valid.inflight_eq (valid : Valid m s) : s.inflight = (s.live.length : Int) :=
  valid.ledger.live_length

theorem Valid.principal_live (valid : Valid m s) (opFirst : m ≠ .drained) {e : Entry}
    (member : e ∈ s.outstanding) (principal : e.principal) :
    s.current e.task = some e.submission ∧ e.submission ∈ s.live := by
  obtain ⟨number, ring⟩ := valid.rings.entries e member (Mode.tracks_of_principal principal)
  have queued : s.phase e.task = .queued := by simpa [Mode.InRing, opFirst] using ring
  obtain ⟨reserved, kept⟩ := (valid.tokens.standing e.task).slot e.submission number (Or.inr queued)
  exact ⟨number, List.mem_filter.mpr ⟨reserved, by simpa using kept⟩⟩

/-- Every outstanding operation has a slot of its own. -/
theorem Valid.outstanding_le (valid : Valid m s) (opFirst : m ≠ .drained) :
    ((s.outstanding.filter Entry.principal).length : Int) ≤ s.inflight := by
  have tasks := valid.rings.single opFirst
  have submissions : ((s.outstanding.filter Entry.principal).map Entry.submission).Nodup := by
    refine List.Nodup.map_on ?_ (List.Nodup.of_map Entry.task tasks)
    intro e first other second same
    obtain ⟨member, principal⟩ := List.mem_filter.mp first
    obtain ⟨otherMember, otherPrincipal⟩ := List.mem_filter.mp second
    have number := (valid.principal_live opFirst member principal).1
    have otherNumber := (valid.principal_live opFirst otherMember otherPrincipal).1
    rw [← same] at otherNumber
    exact List.inj_on_of_nodup_map tasks first second
      (valid.tokens.distinct _ _ _ number otherNumber)
  have contained : ((s.outstanding.filter Entry.principal).map Entry.submission).Subperm s.live := by
    apply List.Nodup.subperm submissions
    intro k member
    obtain ⟨e, kept, rfl⟩ := List.mem_map.mp member
    obtain ⟨out, principal⟩ := List.mem_filter.mp kept
    exact (valid.principal_live opFirst out principal).2
  have length := contained.length_le
  rw [List.length_map] at length
  have counted := valid.inflight_eq
  omega

/-- At most one operation of a task is outstanding, every dispatched operation
finds its task submitted, and `inflight_count_` is the number of submissions
with a slot that was not given back, within the limit. -/
structure Accounted (s : State) : Prop where
  single : ∀ a, (s.outstanding.filter fun e => e.task == a).length ≤ 1
  found : ∀ e state, Event.found e state ∈ s.log → e.principal → state = .kSubmitted
  counted : s.inflight = (s.live.length : Int)
  bounded : 0 ≤ s.inflight ∧ (0 < s.maxInflightOps → s.inflight ≤ s.maxInflightOps)

/-- Any number of clients and completion handlers adding tasks, duplicates
included, against the event loop dispatching any results, as long as no SQE of a
timeout, of a cancel request or without an operation is queued and no storage
is reused while a submission on it is in progress. -/
theorem plain_accounted {maxInflightOps : Int} {pool : Pool Thread State Choice Procedure Bool}
    (path : Pool.Reaches code Mode.plain.Admits (start maxInflightOps) pool) :
    Accounted pool.shared := by
  have valid := reaches_valid path
  refine ⟨fun a => ?_, fun e state recorded principal => ?_, valid.inflight_eq, ?_, valid.ledger.limited⟩
  · have all : pool.shared.outstanding.filter Entry.principal = pool.shared.outstanding :=
      List.filter_eq_self.mpr (valid.rings.pure rfl)
    have tasks := valid.rings.single (by simp)
    rw [all] at tasks
    have counted := List.nodup_iff_count_le_one.mp tasks a
    rw [List.count, List.countP_map, List.countP_eq_length_filter] at counted
    simpa [Function.comp_def] using counted
  · exact (valid.logged.found (by simp) e state recorded principal).1
  · have counted := valid.inflight_eq
    omega

/-- A repeating task is added twice and completes once: the loop reserves the
slot of the repetition before it gives the old one back. -/
def repeatSchedule : List (Thread × Choice) :=
  List.replicate 4 (Thread.client 0, { action := .create 1 { taskType := .kRead, fd := 3, repeatForever := true } }) ++
    List.replicate 19 (Thread.client 0, { action := .addTask (some 1) }) ++
    List.replicate 6 (Thread.client 0, { action := .addTask (some 1) }) ++
    List.replicate 32 (Thread.loop, { res := 5 })

theorem repeatSchedule_accounted :
    ∃ pool : Pool Thread State Choice Procedure Bool,
      Pool.Reaches code Mode.plain.Admits (start 2) pool ∧ pool.shared.reserved = [1, 0] ∧
      pool.shared.released = [0] ∧ pool.shared.inflight = 1 ∧ Accounted pool.shared := by
  have executed : (Pool.run code Mode.plain.admits repeatSchedule (start 2)).map
      (fun p => (p.shared.reserved, p.shared.released, p.shared.inflight)) = some ([1, 0], [0], 1) := by
    decide +kernel
  obtain ⟨pool, run, outcome⟩ := Option.map_eq_some_iff.mp executed
  have path := Pool.reaches_of_run Mode.admits_sound run
  simp only [Prod.mk.injEq] at outcome
  exact ⟨pool, path, outcome.1, outcome.2.1, outcome.2.2, plain_accounted path⟩

def readTask : Task := { taskType := .kRead, fd := 3 }

/-- No SQE of a link timeout or of a cancel request, nor one without an operation, is queued. -/
def Untimed (s t : State) : Prop :=
  ∀ event, t.log = event :: s.log →
    (∀ a k, event ≠ .linked a k) ∧ (∀ a, event ≠ .requested a) ∧ event ≠ .unprepared

def untimed (s t : State) : Bool :=
  match t.log with
  | [] => true
  | event :: _ => decide (t.log.length = s.log.length) || match event with
    | .linked _ _ | .requested _ | .unprepared => false
    | _ => true

theorem untimed_sound (s t : State) (checked : untimed s t = true) : Untimed s t := by
  intro event grown
  simp only [untimed, grown, List.length_cons, Bool.or_eq_true, decide_eq_true_eq] at checked
  obtain same | plain := checked
  · omega
  · refine ⟨fun a k same => ?_, fun a same => ?_, fun same => ?_⟩ <;> simp [same] at plain

def Event.calls : Event → Bool
  | .handled _ _ _ => true
  | _ => false

/-- The kernel cancels the operation. Between the store of kCanceled and the `delete`, another
client's `AddTask` passes the gate; a new task gets the storage and is added. The left-over
operation ends the new task, whose own operation is then skipped with its slot still taken. -/
def cancelledReuseSchedule : List (Thread × Choice) :=
  List.replicate 4 (Thread.client 0, { action := .create 1 readTask }) ++
    List.replicate 19 (Thread.client 0, { action := .addTask (some 1) }) ++
    List.replicate 12 (Thread.loop, { res := -ECANCELED }) ++
    List.replicate 20 (Thread.client 1, { action := .addTask (some 1) }) ++
    List.replicate 4 (Thread.loop, { res := -ECANCELED }) ++
    List.replicate 4 (Thread.client 2, { action := .create 1 readTask }) ++
    List.replicate 19 (Thread.client 2, { action := .addTask (some 1) }) ++
    List.replicate 21 (Thread.loop, { res := -ECANCELED })

/-- Not even in runs without any call of a handler, in which every SQE is found. -/
theorem deleted_task_added :
    ¬ ∀ pool : Pool Thread State Choice Procedure Bool, Pool.Reaches code Untimed (start 0) pool →
      pool.shared.refused = 0 → (∀ event ∈ pool.shared.log, event.calls = false) → Accounted pool.shared := by
  intro claimed
  have executed : (Pool.run code untimed cancelledReuseSchedule (start 0)).map
      (fun p => (p.shared.refused, p.shared.log.all fun event => !event.calls,
        decide (.found ⟨1, .kNone, 2⟩ .kCanceled ∈ p.shared.log))) = some (0, true, true) := by
    decide +kernel
  obtain ⟨pool, run, outcome⟩ := Option.map_eq_some_iff.mp executed
  simp only [Prod.mk.injEq, decide_eq_true_eq, List.all_eq_true, Bool.not_eq_true'] at outcome
  obtain ⟨refused, uncalled, skipped⟩ := outcome
  have accounted := claimed pool (Pool.reaches_of_run untimed_sound run) refused uncalled
  have found := accounted.found _ _ skipped rfl
  contradiction

/-- The dispatches of a submission's completions give its slot back exactly
once, so `inflight_count_` covers the outstanding operations and the limit
bounds them. -/
structure ReleasedOnce (s : State) : Prop where
  once : ∀ k, s.released.count k ≤ 1
  dispatched : ∀ e state, Event.found e state ∈ s.log → e.principal →
    s.active ≠ some (e.task, e.submission) → s.released.count e.submission = 1
  covered : ((s.outstanding.filter Entry.principal).length : Int) ≤ s.inflight
  bounded : 0 ≤ s.inflight ∧ (0 < s.maxInflightOps →
    ((s.outstanding.filter Entry.principal).length : Int) ≤ s.maxInflightOps)

/-- Runs in which the completions of cancel requests and timeouts are dispatched
only on tasks that are neither submitted nor ready. -/
theorem opFirst_releasedOnce {maxInflightOps : Int} {pool : Pool Thread State Choice Procedure Bool}
    (path : Pool.Reaches code Mode.opFirst.Admits (start maxInflightOps) pool) :
    ReleasedOnce pool.shared := by
  have valid := reaches_valid path
  have once := List.nodup_iff_count_le_one.mp valid.ledger.releasedOnce
  have covered := valid.outstanding_le (by simp)
  refine ⟨once, fun e state recorded principal finished => ?_, covered, ?_, fun limit => ?_⟩
  · have back := ((valid.logged.found (by simp) e state recorded principal).2).resolve_right finished
    have positive := List.count_pos_iff.mpr back
    have least := once e.submission
    omega
  · have counted := valid.inflight_eq
    omega
  · have limited := valid.ledger.limited limit
    omega

/-- The operation of a cancelled task completes before the cancel request. -/
def cancelLateSchedule : List (Thread × Choice) :=
  List.replicate 4 (Thread.client 0, { action := .create 1 readTask }) ++
    List.replicate 19 (Thread.client 0, { action := .addTask (some 1) }) ++
    List.replicate 3 (Thread.client 0, { action := .cancel 1 none }) ++
    List.replicate 16 (Thread.loop, { res := -ECANCELED }) ++
    List.replicate 5 (Thread.loop, { res := 0 })

theorem cancelLateSchedule_releasedOnce :
    ∃ pool : Pool Thread State Choice Procedure Bool,
      Pool.Reaches code Mode.opFirst.Admits (start 1) pool ∧ pool.shared.outstanding = [] ∧
      pool.shared.released = [0] ∧ ReleasedOnce pool.shared := by
  have executed : (Pool.run code Mode.opFirst.admits cancelLateSchedule (start 1)).map
      (fun p => (p.shared.outstanding, p.shared.released)) = some ([], [0]) := by
    decide +kernel
  obtain ⟨pool, run, outcome⟩ := Option.map_eq_some_iff.mp executed
  have path := Pool.reaches_of_run Mode.admits_sound run
  simp only [Prod.mk.injEq] at outcome
  exact ⟨pool, path, outcome.1, outcome.2, opFirst_releasedOnce path⟩

/-- The cancel request completes first: its dispatch takes the operation's slot
back, and the operation's own dispatch does so again. -/
def cancelEarlySchedule : List (Thread × Choice) :=
  List.replicate 4 (Thread.client 0, { action := .create 1 readTask }) ++
    List.replicate 19 (Thread.client 0, { action := .addTask (some 1) }) ++
    List.replicate 3 (Thread.client 0, { action := .cancel 1 none }) ++
    List.replicate 9 (Thread.loop, { entry := 1, res := 0 }) ++
    List.replicate 13 (Thread.loop, { res := -ECANCELED })

theorem cancelled_slot_released_twice :
    ¬ ∀ pool : Pool Thread State Choice Procedure Bool,
      Pool.Reaches code (fun _ _ => True) (start 1) pool → ReleasedOnce pool.shared := by
  intro claimed
  have executed : (Pool.run code (fun _ _ => true) cancelEarlySchedule (start 1)).map
      (fun p => (p.shared.released, p.shared.inflight)) = some ([0, 0], -1) := by
    decide +kernel
  obtain ⟨pool, run, outcome⟩ := Option.map_eq_some_iff.mp executed
  have releasedOnce := claimed pool (Pool.reaches_of_run (fun _ _ _ => trivial) run)
  simp only [Prod.mk.injEq] at outcome
  have positive := releasedOnce.bounded.1
  omega

end Talon.Handler
