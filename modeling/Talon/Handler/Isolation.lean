import Talon.Handler.Accounting

/-! Which submission a completion acts on. `user_data` carries only an address,
so a completion acts on whatever submission its address is in. -/
namespace Talon.Handler
open Interleaving

/-- Every state that a dispatch stored, every task it deleted and every slot it gave back was
that of the submission whose completion it dispatched. -/
def Isolated (s : State) : Prop := ∀ event ∈ s.log, event.isolated

/-- Runs in which every operation and timeout completion of an address has been
dispatched before the address is submitted, readied or reused. -/
theorem drained_isolated {maxInflightOps : Int} {pool : Pool Thread State Choice Procedure Bool}
    (path : Pool.Reaches code Mode.drained.Admits (start maxInflightOps) pool) :
    Isolated pool.shared :=
  (reaches_valid path).logged.own rfl

def timedTask (maxRetryCount : Int) : Task :=
  { taskType := .kRead, fd := 3, timeoutMs := 100, maxRetryCount := maxRetryCount }

/-- The timeout comes first and deletes the task, its operation is skipped, and
a new task in the same storage completes. -/
def recycledSchedule : List (Thread × Choice) :=
  List.replicate 4 (Thread.client 0, { action := .create 1 (timedTask 0) }) ++
    List.replicate 17 (Thread.client 0, { action := .addTask (some 1) }) ++
    List.replicate 15 (Thread.loop, { entry := 1, res := -ETIME }) ++
    List.replicate 5 (Thread.loop, { res := -ECANCELED }) ++
    List.replicate 3 (Thread.client 0, { action := .create 1 (timedTask 0) }) ++
    List.replicate 16 (Thread.client 0, { action := .addTask (some 1) }) ++
    List.replicate 18 (Thread.loop, { res := 7 })

theorem recycledSchedule_isolated :
    ∃ pool : Pool Thread State Choice Procedure Bool,
      Pool.Reaches code Mode.drained.Admits (start 0) pool ∧ pool.shared.released = [1, 0] ∧
      pool.shared.inflight = 0 ∧ Isolated pool.shared := by
  have executed : (Pool.run code Mode.drained.admits recycledSchedule (start 0)).map
      (fun p => (p.shared.released, p.shared.inflight)) = some ([1, 0], 0) := by
    decide +kernel
  obtain ⟨pool, run, outcome⟩ := Option.map_eq_some_iff.mp executed
  have path := Pool.reaches_of_run Mode.admits_sound run
  simp only [Prod.mk.injEq] at outcome
  exact ⟨pool, path, outcome.1, outcome.2, drained_isolated path⟩

/-- The operation fails and is retried while its link timeout's completion is
still to come; that completion then ends the second submission. -/
def staleTimeoutSchedule : List (Thread × Choice) :=
  List.replicate 4 (Thread.client 0, { action := .create 1 (timedTask 3) }) ++
    List.replicate 17 (Thread.client 0, { action := .addTask (some 1) }) ++
    List.replicate 28 (Thread.loop, { res := -5 }) ++
    List.replicate 15 (Thread.loop, { res := -ECANCELED })

theorem stale_timeout_ends_retry :
    ¬ ∀ pool : Pool Thread State Choice Procedure Bool,
      Pool.Reaches code (fun _ _ => True) (start 0) pool → Isolated pool.shared := by
  intro claimed
  have executed : (Pool.run code (fun _ _ => true) staleTimeoutSchedule (start 0)).map
      (fun p => decide (.settled 1 .kTimeout (some 0) (some 1) ∈ p.shared.log)) = some true := by
    decide +kernel
  obtain ⟨pool, run, outcome⟩ := Option.map_eq_some_iff.mp executed
  have isolated := claimed pool (Pool.reaches_of_run (fun _ _ _ => trivial) run)
  have same := isolated _ (of_decide_eq_true outcome)
  simp [Event.isolated] at same

end Talon.Handler
