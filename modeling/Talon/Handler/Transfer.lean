import Talon.Handler.Closing

/-! How many bytes a read or a write asks the kernel for. A buffer's size has 64 bits
and the length field of an SQE has 32. -/
namespace Talon.Handler
open Interleaving

/-- `SubmitTask`, with the request that it queues for a read or a write. -/
def submitRequest (a : Addr) (k : Nat) : Code (Option Request) := do
  let task ← loadTask a
  match task.request with
  | some request =>
    let sqe ← queueSqe a .kNone k
    if sqe then
      finishSqe a k
      return some request
    else
      queueFailedTask a k
      return none
  | none =>
    submitTask a k
    return none

/-- `AddTask` accepts the task at `a` and asks for `r`, or finds no SQE for it. -/
structure Asks (i : Thread) (a : Addr) (s : State) (r : Option Request) (t : State) : Prop where
  idle : (s.task a).taskState ≠ .kSubmitted
  room : s.Room
  run : ∃ middle, Runs (code i) (submitRequest a s.submissions) (s.readied i a) r middle ∧ t = middle.submit

/-- The completion of a failure is on its way, or the task has failed at once. -/
def Reported (i : Thread) (a : Addr) (s t : State) : Prop :=
  ⟨a, .kError, s.submissions⟩ ∈ t.ring ∨ ∃ r middle,
    Runs (code i) (code i (.handleFailedTask a none)) (s.readied i a).refuse.refuse r middle ∧ t = middle.submit

/-- The task asks for its whole buffer or fails, and its descriptor is closed only if a
request for at least one byte has returned 0. -/
structure Transfers (i : Thread) (a : Addr) (s : State) : Prop where
  whole : ∀ r t, Asks i a s (some r) t → r.len.toNat = (s.task a).buffer.size
  failed : ∀ t, Asks i a s none t → Reported i a s t
  ending : ∀ r t u v res, Asks i a s (some r) t → Elsewhere a s.submissions t u →
    Dispatches ⟨a, .kNone, s.submissions⟩ res u v → v.closes ≠ u.closes → r.len ≠ 0 ∧ res = 0

variable {i : Thread} {a : Addr} {k : Nat} {res : Int} {s t : State} {r : Option Request}

theorem request_supported {task : Task} {request : Request} (asks : task.request = some request) :
    task.supported = true := by
  unfold Task.request at asks
  unfold Task.supported
  split at asks <;> simp_all

theorem request_isSome {task : Task} (kind : task.taskType = .kRead ∨ task.taskType = .kWrite) :
    ∃ request, task.request = some request := by
  rcases kind with reads | writes
  · exact ⟨_, by rw [Task.request, reads]⟩
  · exact ⟨_, by rw [Task.request, writes]⟩

theorem request_len {task : Task} {request : Request} (asks : task.request = some request) :
    request.len = BitVec.ofNat 32 task.buffer.size := by
  unfold Task.request at asks
  split at asks
  · cases asks
    rfl
  · cases asks
    rfl
  · contradiction

/-- There is an SQE, or there is none. -/
theorem runs_queueSqe_bind {β : Type} {flag : EventFlag} {f : Bool → Code β} {b : β} :
    Runs (code i) (queueSqe a flag k >>= f) s b t ↔
      Runs (code i) (f true) (s.queue a flag k) b t ∨ Runs (code i) (f false) s.refuse b t := by
  simp only [queueSqe, runs_atomic_bind, Option.some.injEq]
  constructor
  · rintro ⟨c, middle, rfl, run⟩
    cases sqe : c.sqe with
    | true =>
      simp only [sqe, if_true] at run
      exact Or.inl run
    | false =>
      simp only [sqe, Bool.false_eq_true, if_false] at run
      exact Or.inr run
  · rintro (run | run)
    · exact ⟨{ sqe := true }, _, rfl, run⟩
    · exact ⟨{ sqe := false }, _, rfl, run⟩

theorem runs_submitRequest {request : Request} (asks : (s.task a).request = some request) :
    Runs (code i) (submitRequest a k) s r t ↔
      r = some request ∧ Runs (code i) (finishSqe a k) (s.queue a .kNone k) () t ∨
      r = none ∧ Runs (code i) (queueFailedTask a k) s.refuse () t := by
  simp only [submitRequest, loadTask, runs_load_bind, asks, runs_queueSqe_bind, if_true, Bool.false_eq_true,
    if_false, runs_unit_bind, runs_pure]
  constructor
  · rintro (⟨middle, run, rfl, rfl⟩ | ⟨middle, run, rfl, rfl⟩)
    · exact Or.inl ⟨rfl, run⟩
    · exact Or.inr ⟨rfl, run⟩
  · rintro (⟨rfl, run⟩ | ⟨rfl, run⟩)
    · exact Or.inl ⟨t, run, rfl, rfl⟩
    · exact Or.inr ⟨t, run, rfl, rfl⟩

/-- The request is all that `submitRequest` adds to `SubmitTask`. -/
theorem runs_submitTask_request {u : Unit} :
    Runs (code i) (submitTask a k) s u t ↔ ∃ r, Runs (code i) (submitRequest a k) s r t := by
  cases asks : (s.task a).request with
  | none =>
    simp only [submitRequest, loadTask, runs_load_bind, asks, runs_unit_bind, runs_pure]
    constructor
    · intro run
      exact ⟨none, t, run, rfl, rfl⟩
    · rintro ⟨-, middle, run, -, rfl⟩
      exact run
  | some request =>
    simp only [submitTask, loadTask, runs_load_bind, if_pos (request_supported asks), runs_queueSqe_bind, if_true,
      Bool.false_eq_true, if_false, runs_submitRequest asks]
    constructor
    · rintro (run | run)
      · exact ⟨_, Or.inl ⟨rfl, run⟩⟩
      · exact ⟨_, Or.inr ⟨rfl, run⟩⟩
    · rintro ⟨r, ⟨-, run⟩ | ⟨-, run⟩⟩
      · exact Or.inl run
      · exact Or.inr run

/-- `AddTask` accepts a task exactly by asking for its request or failing it. -/
theorem runs_addTask_asks (idle : (s.task a).taskState ≠ .kSubmitted) :
    Runs (code i) (addTask i a) s true t ↔ ∃ r, Asks i a s r t := by
  rw [runs_addTask_true idle, runs_submitReserved_readies]
  constructor
  · rintro ⟨room, middle, run, rfl⟩
    obtain ⟨r, asked⟩ := runs_submitTask_request.mp run
    exact ⟨r, idle, room, middle, asked, rfl⟩
  · rintro ⟨r, -, room, middle, asked, rfl⟩
    exact ⟨room, middle, runs_submitTask_request.mpr ⟨r, asked⟩, rfl⟩

theorem readied_request : ((s.readied i a).task a).request = (s.task a).request := by
  simp [State.readied, State.gate, State.reserve, Task.readied, Task.request, Task.prepare]

theorem Asks.eq_some {request other : Request} (asked : Asks i a s (some other) t)
    (asks : (s.task a).request = some request) : other = request := by
  obtain ⟨middle, run, rfl⟩ := asked.run
  obtain ⟨same, -⟩ | ⟨impossible, -⟩ := (runs_submitRequest (readied_request.trans asks)).mp run
  · exact Option.some.inj same
  · contradiction

/-- With an SQE for the operation and one for its timeout. -/
theorem accept_asks {request : Request} (asks : (s.task a).request = some request)
    (idle : (s.task a).taskState ≠ .kSubmitted) (room : s.Room) :
    Asks i a s (some request) (s.accept i a) := by
  have finished : Runs (code i) (finishSqe a s.submissions) ((s.readied i a).queue a .kNone s.submissions) ()
      ((s.readied i a).fill a s.submissions) ∧ _ := runs_finishSqe.mpr rfl
  exact ⟨idle, room, _, (runs_submitRequest (readied_request.trans asks)).mpr (Or.inl ⟨rfl, finished.1⟩), rfl⟩

theorem Asks.reported {request : Request} (asked : Asks i a s none t) (asks : (s.task a).request = some request) :
    Reported i a s t := by
  obtain ⟨middle, run, rfl⟩ := asked.run
  obtain ⟨impossible, -⟩ | ⟨-, queued⟩ := (runs_submitRequest (readied_request.trans asks)).mp run
  · contradiction
  · simp only [queueFailedTask, runs_queueSqe_bind, if_true, Bool.false_eq_true, if_false, autoFlush, runs_store,
      runs_enter_bind, runs_pure] at queued
    obtain rfl | ⟨r, last, failed, -, rfl⟩ := queued
    · apply Or.inl
      simp [State.submit, State.queue]
    · exact Or.inr ⟨r, _, failed, rfl⟩

/-- A completion that closes a descriptor has the result 0. -/
theorem Delivers.empty_of_closes {d : Delivery} (run : Delivers a d s t) (closes : t.closes ≠ s.closes) :
    d.res = 0 := by
  by_contra transferred
  apply closes
  cases run with
  | other mine run else_ => exact (sealed_other mine run else_).1
  | operation queued live uncancelled success handled finished =>
    have goesOn := finishSuccess_sealed (fun empty => absurd empty transferred) finished
    exact goesOn.1.trans (handled_sealed handled).1

/-- The kernel is asked for the whole buffer, and 0 is the end of the file, exactly if
the size of the buffer fits into the length field. -/
theorem transfers_iff (kind : (s.task a).taskType = .kRead ∨ (s.task a).taskType = .kWrite)
    (positive : 0 < (s.task a).buffer.size) (idle : (s.task a).taskState ≠ .kSubmitted) (room : s.Room) :
    Transfers i a s ↔ (s.task a).buffer.size < 2 ^ 32 := by
  obtain ⟨request, asks⟩ := request_isSome kind
  have len : request.len.toNat = (s.task a).buffer.size % 2 ^ 32 := by
    rw [request_len asks, BitVec.toNat_ofNat]
  constructor
  · intro transfers
    have whole := transfers.whole request _ (accept_asks asks idle room)
    omega
  · intro fits
    refine ⟨fun r t asked => ?_, fun t asked => asked.reported asks, fun r t u v res asked apart run closes => ?_⟩
    · rw [asked.eq_some asks, len, Nat.mod_eq_of_lt fits]
    · obtain ⟨ends, delivers⟩ := dispatches_delivers run
      refine ⟨fun zero => ?_, delivers.empty_of_closes closes⟩
      rw [asked.eq_some asks] at zero
      rw [zero, Nat.mod_eq_of_lt fits] at len
      exact Nat.ne_of_gt positive len.symm

theorem single_idle (config : Task) : ((single config).task 1).taskState ≠ .kSubmitted := by
  simp [single, State.create]

theorem single_room (config : Task) : (single config).Room := by
  intro limited
  exact absurd limited (Int.lt_irrefl 0)

theorem whole_buffer_transfers : Transfers (.client 0) 1 (single (retrying 1)) :=
  (transfers_iff (Or.inl rfl) (by decide) (single_idle _) (single_room _)).mpr (by decide)

/-- A read into four gigabytes. -/
def hugeRead : Task := { taskType := .kRead, fd := 3, buffer := { size := 2 ^ 32 } }

/-- The kernel is asked for nothing, returns nothing, and the file is closed. -/
theorem huge_read_closed :
    ¬ ∀ (i : Thread) (a : Addr) (s : State), (s.task a).taskType = .kRead ∨ (s.task a).taskType = .kWrite →
      0 < (s.task a).buffer.size → (s.task a).buffer.size < 2 ^ 64 → (s.task a).taskState ≠ .kSubmitted → s.Room →
      Transfers i a s := by
  intro claimed
  have transfers := claimed (.client 0) 1 (single hugeRead) (Or.inl rfl) (by decide) (by decide) (single_idle _)
    (single_room _)
  have run : Dispatches ⟨1, .kNone, 0⟩ 0 ((single hugeRead).accept (.client 0) 1) (single hugeRead).acceptEmpty :=
    dispatches_dispatch (by decide +kernel)
  have asked : Asks (.client 0) 1 (single hugeRead) (some ⟨.IORING_OP_READ, 3, 0⟩) _ :=
    accept_asks rfl (single_idle _) (single_room _)
  have closed := transfers.ending _ _ _ _ _ asked (.refl 1 0 _) run (by decide +kernel)
  exact closed.1 rfl

end Talon.Handler
