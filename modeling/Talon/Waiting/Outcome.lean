import Talon.Waiting.Verified

/-! What the disciplines promise to a caller of `WaitForCompletion`, and what goes
wrong without them. -/
namespace Talon.Waiting
open Interleaving Talon.Handler

variable {i : Thread} {s t : Shared} {timeoutMs : Int} {r : IOResult}

/-- `WaitForCompletion` returns `r` if nothing else happens, and nothing but `r`. -/
def Returns (s : Shared) (i : Thread) (timeoutMs : Int) (r : IOResult) : Prop :=
  (∃ t, Runs (code i) (waitForCompletion i timeoutMs) s r t) ∧
    ∀ r' t, Runs (code i) (waitForCompletion i timeoutMs) s r' t → r' = r

theorem returns_of_iff
    (only : ∀ r' t', Runs (code i) (waitForCompletion i timeoutMs) s r' t' ↔ r' = r ∧ t' = t) :
    Returns s i timeoutMs r :=
  ⟨⟨t, (only r t).mpr ⟨rfl, rfl⟩⟩, fun r' t' run => ((only r' t').mp run).1⟩

theorem returns_attached (attached : s.task.detach = false) :
    Returns s i timeoutMs
      ⟨-1, s.task.buffer.activeFileDescriptor, false, "task not detached from execute queue yet"⟩ := by
  apply returns_of_iff (t := s.access i .reads)
  intro r' t'
  simp [waitForCompletion, attached]

theorem returns_signaled (detached : s.task.detach = true) (signaled : s.task.doneState = .kSignaled) :
    Returns s i timeoutMs
      ⟨s.task.buffer.bytesTransferred, s.task.buffer.activeFileDescriptor, true, "IO result consumed"⟩ := by
  apply returns_of_iff (t := { s with waiting := i :: s.waiting }.access i .reads)
  intro r' t'
  simp [waitForCompletion, wait, loadTask, Shared.access, detached, signaled]

/-! ### Schedules -/

instance (m : Mode) (s : Shared) (i : Thread) (a : Access) : Decidable (m.Permits s i a) :=
  match a with
  | .gates => inferInstanceAs (Decidable (_ ∧ (_ → _)))
  | .refuses _ => inferInstanceAs (Decidable (_ → _))
  | .finds => inferInstanceAs (Decidable (_ = _))
  | .acts _ _ => inferInstanceAs (Decidable ((_ → _ ∧ _) ∧ (_ → _ ∨ _ ∧ _)))
  | .detaches => inferInstanceAs (Decidable (_ ∧ _))
  | .finishes => inferInstanceAs (Decidable (_ = _))
  | .deletes => inferInstanceAs (Decidable (_ → _))
  | .signals => inferInstanceAs (Decidable (_ → _ ∨ _ ∧ _))
  | .notifies => inferInstanceAs (Decidable (_ → _))
  | .reads => inferInstanceAs (Decidable (_ → (_ → _) ∧ (_ → _ ∧ _)))
  | .stores => inferInstanceAs (Decidable (_ → _))

/-- Checks the last access of a step. -/
def Mode.admits (m : Mode) (s t : Shared) : Bool :=
  match t.accesses with
  | [] => true
  | (i, a) :: before => decide (before = s.accesses → m.Permits s i a)

theorem Mode.admits_sound {m : Mode} (checked : m.admits s t = true) : m.Admits s t := by
  intro i a last
  simp only [Mode.admits, last, decide_eq_true_eq] at checked
  exact checked trivial

/-- `n` steps of a thread, with a result for a completion and an action for user code. -/
def steps (i : Thread) (n : Nat) (res : Int) (action : Action) : List (Thread × Choice) :=
  List.replicate n (i, { res := res, action := action })

/-- A reading task; `next` is its successor. -/
def reading (next : Option Addr) : Handler.Task :=
  { taskType := .kRead, fd := 3, next := next, buffer := { size := 16 } }

/-- A client's `AddTask`, up to its return. -/
def adds : List (Thread × Choice) := steps (.client 0) 14 0 .addTask

abbrev Threads := Pool Thread Shared Choice Procedure Bool

/-- A schedule's last state, as far as `read` tells. -/
theorem reached {allowed : Shared → Shared → Prop} {check : Shared → Shared → Bool} {α : Type}
    (read : Shared → α) {value : α} {schedule : List (Thread × Choice)} {config : Handler.Task}
    (sound : ∀ s t, check s t = true → allowed s t)
    (executed : (Pool.run code check schedule (start config)).map (fun p => read p.shared) = some value) :
    ∃ last, Pool.Reaches code allowed (start config) last ∧ read last.shared = value := by
  obtain ⟨last, run, same⟩ := Option.map_eq_some_iff.mp executed
  exact ⟨last, Pool.reaches_of_run sound run, same⟩

/-! ### A detached task is signaled -/

/-- A detached task is signaled, and `WaitForCompletion` returns the result of its
last completion without waiting for anyone. -/
def Prompt (s : Shared) : Prop :=
  s.task.detach = true → s.task.doneState = .kSignaled ∧
    ∀ i timeoutMs, ∃ r, Returns s i timeoutMs r ∧ r.iodone = true ∧
      ∀ res, s.completion = some res → r.ioRet = res

theorem signaled_prompt {config : Handler.Task} {last : Threads}
    (path : Pool.Reaches code Mode.signaled.Admits (start config) last) : Prompt last.shared := by
  intro detached
  obtain ⟨signaled, result⟩ := (reaches_valid path).signaled rfl detached
  exact ⟨signaled, fun i timeoutMs => ⟨_, returns_signaled detached signaled, rfl, result⟩⟩

theorem endOfFile_prompt : ∃ last : Threads,
    Pool.Reaches code Mode.signaled.Admits (start (reading none)) last ∧
    (last.shared.task.detach = true ∧ last.shared.task.alive = true) ∧ Prompt last.shared := by
  have executed : (Pool.run code Mode.signaled.admits (adds ++ steps .loop 13 0 .stop) (start (reading none))).map
      (fun p => (p.shared.task.detach, p.shared.task.alive)) = some (true, true) := by
    decide +kernel
  obtain ⟨last, path, known⟩ := reached (fun s => (s.task.detach, s.task.alive))
    (fun _ _ => Mode.admits_sound) executed
  exact ⟨last, path, Prod.mk.injEq .. ▸ known, signaled_prompt path⟩

/-- At the end of the file a chained task is detached and never signaled. -/
theorem chained_endOfFile_unsignaled :
    ¬ ∀ (config : Handler.Task) (last : Threads),
      Pool.Reaches code (fun _ _ => True) (start config) last → Prompt last.shared := by
  intro claimed
  have executed : (Pool.run code (fun _ _ => true) (adds ++ steps .loop 14 0 .stop) (start (reading (some 1)))).map
      (fun p => (p.shared.task.detach, p.shared.task.doneState)) = some (true, .kIdle) := by
    decide +kernel
  obtain ⟨last, path, known⟩ := reached (fun s => (s.task.detach, s.task.doneState))
    (fun _ _ _ => trivial) executed
  obtain ⟨detached, idle⟩ := Prod.mk.inj known
  obtain ⟨signaled, -⟩ := claimed _ last path detached
  exact absurd (idle.symm.trans signaled) nofun

/-! ### A submission starts afresh -/

/-- While a submission is outstanding nothing of the one before it is left, and
`WaitForCompletion` does not report it as done. -/
def Afresh (s : Shared) : Prop :=
  s.outstanding = true → s.task.detach = false ∧ s.task.doneState ≠ .kSignaled ∧
    ∀ i timeoutMs, ∃ r, Returns s i timeoutMs r ∧ r.iodone = false

theorem apart_afresh {config : Handler.Task} {last : Threads}
    (path : Pool.Reaches code Mode.apart.Admits (start config) last) : Afresh last.shared := by
  intro outstanding
  have valid := reaches_valid path
  obtain ⟨attached, idle⟩ := valid.apart rfl outstanding
  exact ⟨attached, fun signaled => valid.delivery.exchanged signaled idle,
    fun i timeoutMs => ⟨_, returns_attached attached, rfl⟩⟩

theorem addedAgain_afresh : ∃ last : Threads,
    Pool.Reaches code Mode.apart.Admits (start (reading none)) last ∧
    (last.shared.outstanding = true ∧ last.shared.task.buffer.bytesTransferred = 5) ∧ Afresh last.shared := by
  have executed : (Pool.run code Mode.apart.admits (adds ++ steps .loop 14 5 .stop ++ adds)
      (start (reading none))).map (fun p => (p.shared.outstanding, p.shared.task.buffer.bytesTransferred)) =
        some (true, 5) := by
    decide +kernel
  obtain ⟨last, path, known⟩ := reached (fun s => (s.outstanding, s.task.buffer.bytesTransferred))
    (fun _ _ => Mode.admits_sound) executed
  exact ⟨last, path, Prod.mk.injEq .. ▸ known, apart_afresh path⟩

/-- The client sees `kSuccess` and submits again before the event loop has come to
`detach_`: the loop's last stores then mark the new submission complete. -/
theorem resubmission_marked_complete :
    ¬ ∀ (config : Handler.Task) (last : Threads),
      Pool.Reaches code (fun _ _ => True) (start config) last → Afresh last.shared := by
  intro claimed
  have executed : (Pool.run code (fun _ _ => true) (adds ++ steps .loop 9 5 .stop ++ adds ++ steps .loop 5 5 .stop)
      (start (reading none))).map (fun p => (p.shared.outstanding, p.shared.task.detach)) = some (true, true) := by
    decide +kernel
  obtain ⟨last, path, known⟩ := reached (fun s => (s.outstanding, s.task.detach))
    (fun _ _ _ => trivial) executed
  obtain ⟨outstanding, detached⟩ := Prod.mk.inj known
  obtain ⟨attached, -⟩ := claimed _ last path outstanding
  exact absurd (detached.symm.trans attached) nofun

/-! ### `WaitForCompletion` waits for the completion -/

/-- Every unlimited `WaitForCompletion` that has returned did so after a completion of the last
submission had been dispatched, with its result and as done; and once the task has been marked
complete the flag is signaled and nobody is left blocked in the condition variable. -/
structure Awaited (s : Shared) : Prop where
  returned : ∀ r ∈ s.results, r.1 < 0 → r.2.1.iodone = true ∧ r.2.2 = some r.2.1.ioRet
  woken : s.marked = true → s.task.doneState = .kSignaled ∧ s.blocked = []

theorem waited_awaited {config : Handler.Task} {last : Threads}
    (path : Pool.Reaches code Mode.waited.Admits (start config) last) : Awaited last.shared := by
  have valid := reaches_valid path
  refine ⟨fun r member unlimited => ?_, fun marked => ?_⟩
  · obtain ⟨done, right⟩ := valid.results rfl r member
    exact ⟨done, right unlimited⟩
  · have freed := (valid.marked marked).1
    exact ⟨valid.delivery.kept nofun (by rw [freed]; nofun), valid.delivery.freed rfl freed⟩

/-- A client's `WaitForCompletion(-1)`. -/
def waits (n : Nat) : List (Thread × Choice) := steps (.client 0) n 0 (.wait (-1))

/-- The call starts after `detach_.store(true)` and is blocked when `Signal` comes, which notifies it. -/
theorem parkedClient_awaited : ∃ last : Threads,
    Pool.Reaches code Mode.waited.Admits (start (reading none)) last ∧
    last.shared.results = [(-1, ⟨5, 3, true, "IO result consumed"⟩, some 5)] ∧ Awaited last.shared := by
  have executed : (Pool.run code Mode.waited.admits
      (adds ++ steps .loop 10 5 .stop ++ waits 10 ++ steps .loop 7 5 .stop ++ waits 7)
      (start (reading none))).map (fun p => p.shared.results) =
        some [(-1, ⟨5, 3, true, "IO result consumed"⟩, some 5)] := by
    decide +kernel
  obtain ⟨last, path, known⟩ := reached Shared.results (fun _ _ => Mode.admits_sound) executed
  exact ⟨last, path, known, waited_awaited path⟩

/-- A call right after `AddTask` comes back at once and empty-handed. -/
theorem wait_before_completion_returns :
    ¬ ∀ (config : Handler.Task) (last : Threads),
      Pool.Reaches code (fun _ _ => True) (start config) last → Awaited last.shared := by
  intro claimed
  have executed : (Pool.run code (fun _ _ => true) (adds ++ waits 4) (start (reading none))).map
      (fun p => p.shared.results) =
        some [(-1, ⟨-1, 0, false, "task not detached from execute queue yet"⟩, none)] := by
    decide +kernel
  obtain ⟨last, path, known⟩ := reached Shared.results (fun _ _ _ => trivial) executed
  have member := known ▸ List.mem_singleton_self _
  exact absurd ((claimed _ last path).returned _ member (by decide)).1 nofun

end Talon.Waiting
