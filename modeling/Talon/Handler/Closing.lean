import Talon.Handler.Retry
import Mathlib.Algebra.Order.Ring.Nat

/-! Which completions of a task close its descriptor. -/
namespace Talon.Handler
open Interleaving

/-- The handler returned with the task one-shot, without a successor and with a
descriptor. -/
def Task.ends (task : Task) : Bool := !task.repeatForever && task.next.isNone && decide (0 < task.fd)

/-- A completion of a task: the read or write that the submission asked for, if it was one,
the result, and whether it is the completion of its operation and found the task at its end. -/
structure Delivery where
  request : Option Request
  res : Int
  ends : Bool

/-- The event loop dispatches a completion of the task at `a`. -/
inductive Delivers (a : Addr) : Delivery → State → State → Prop where
  | operation (queued : ⟨a, .kNone, k⟩ ∈ s.ring) (live : TaskState.Live (s.task a).taskState)
      (uncancelled : (s.task a).isCancel = false) (success : 0 ≤ res)
      (handled : Runs (code .loop) (executeCompletionHandler a)
        (((s.take ⟨a, .kNone, k⟩).find ⟨a, .kNone, k⟩).deliver a res) () m)
      (finished : Runs (code .loop) (finishSuccess a k res) m () last) :
      Delivers a ⟨s.asked k, res, (m.task a).ends⟩ s
        (last.release k ((s.take ⟨a, .kNone, k⟩).liveSubmission a))
  | other (mine : e.task = a) (run : Dispatches e res s t)
      (else_ : e.flag = .kNone → TaskState.Live (s.task a).taskState → (s.task a).isCancel = false → res < 0) :
      Delivers a ⟨s.asked e.submission, res, false⟩ s t

/-- Completions of one task, with the descriptors that each of them closed. What
happens in between leaves the task its descriptor. -/
inductive Delivered (a : Addr) : List (Delivery × List Int) → State → State → Prop where
  | none : Delivered a [] s s
  | between (earlier : Delivered a ds s m) (kept : (t.task a).fd = (m.task a).fd) : Delivered a ds s t
  | next (earlier : Delivered a ds s m) (run : Delivers a d m t)
      (kept : t.tally (Event.creates a) = m.tally (Event.creates a)) (closes : t.closes = closed ++ m.closes) :
      Delivered a ((d, closed) :: ds) s t

/-- The operation is a kRead or a kWrite of at least one byte. -/
def Delivery.Requests (d : Delivery) : Prop := ∃ request, d.request = some request ∧ request.len ≠ 0

/-- Zero bytes of those that were asked for are the end of a file or of a connection. -/
def Delivery.EndOfFile (d : Delivery) : Prop := d.Requests ∧ d.res = 0

/-- Only the end of a file closes the descriptor, and only once. -/
def Confined (ds : List (Delivery × List Int)) : Prop :=
  (∀ x ∈ ds, x.2 ≠ [] → x.1.EndOfFile) ∧ (ds.map fun x => x.2.length).sum ≤ 1

variable {i : Thread} {a : Addr} {k : Nat} {e : Entry} {res : Int} {d : Delivery} {ds : List (Delivery × List Int)}
  {closed : List Int} {s t m : State} {u : Unit}

/-- Every completion that is dispatched is one of these. -/
theorem dispatches_delivers (run : Dispatches e res s t) :
    ∃ ends, Delivers e.task ⟨s.asked e.submission, res, ends⟩ s t := by
  by_cases acts : e.flag = .kNone ∧ TaskState.Live (s.task e.task).taskState ∧
      (s.task e.task).isCancel = false ∧ 0 ≤ res
  · obtain ⟨operation, live, uncancelled, success⟩ := acts
    obtain ⟨queued, dispatched⟩ := run
    obtain ⟨last, acted, rfl⟩ := (runs_dispatchCqe_acts (by exact live)).mp dispatched
    have handled := (runs_actOnCqe_handles (by exact uncancelled)).mp acted
    obtain ⟨a, flag, k⟩ := e
    cases operation
    obtain ⟨m, called, finished⟩ := (runs_handleNormalEvent_succeeds success).mp handled
    exact ⟨_, .operation queued live uncancelled success called finished⟩
  · refine ⟨false, .other rfl run fun operation live uncancelled => ?_⟩
    by_contra negative
    exact acts ⟨operation, live, uncancelled, Int.not_lt.mp negative⟩

/-! ### What leaves the descriptor alone -/

/-- Nothing was closed since, and the task has its descriptor unless its storage
was reused. -/
def Sealed (a : Addr) (base s : State) : Prop :=
  s.closes = base.closes ∧ ((s.task a).fd = (base.task a).fd ∧
    s.tally (Event.creates a) = base.tally (Event.creates a) ∨ Reused a base s)

theorem Sealed.refl (a : Addr) (s : State) : Sealed a s s := ⟨rfl, Or.inl ⟨rfl, rfl⟩⟩

theorem Sealed.move {need : Option Addr} {base : State} (sealed : Sealed a base s) (moved : Move i need s t)
    (quiet : Quiet s t) : Sealed a base t := by
  refine ⟨quiet.closes.trans sealed.1, ?_⟩
  have grows := creates_mono (a := a) moved
  rcases sealed.2 with ⟨fd, creates⟩ | reused
  · rcases quiet.fd a with same | created
    · rcases Nat.eq_or_lt_of_le grows with equal | more
      · exact Or.inl ⟨same.trans fd, equal.symm.trans creates⟩
      · exact Or.inr (Nat.lt_of_le_of_lt (Nat.le_of_eq creates.symm) more)
    · apply Or.inr
      rw [Reused, ← creates]
      simp [State.tally, created, Event.creates]
  · exact Or.inr (Nat.lt_of_lt_of_le reused grows)

theorem sealed_frame (a : Addr) (base : State) : FrameOf false i (Sealed a base) fun _ _ => True where
  step holds _ moved quiet := holds.move moved (quiet.resolve_left nofun)
  keep _ _ _ _ := trivial
  gain _ _ := trivial

theorem sealed_of_frames {α : Type} {p : Code α} {r : α} {base : State}
    (frames : FramesOf false i (Sealed a base) (fun _ _ => True) [a] p) (run : Runs (code i) p s r t)
    (sealed : Sealed a base s) : Sealed a base t :=
  (frames.sound (frame_verified (sealed_frame a base)) run ⟨sealed, fun _ _ => trivial⟩).1

theorem Sealed.fd (sealed : Sealed a s t) (kept : t.tally (Event.creates a) = s.tally (Event.creates a)) :
    (t.task a).fd = (s.task a).fd := by
  rcases sealed.2 with ⟨fd, -⟩ | reused
  · exact fd
  · exact absurd kept (Nat.ne_of_gt reused)

/-- A task is closed and deleted. -/
theorem Sealed.close {base : State} {state : TaskState} {cause : Option Nat} (sealed : Sealed a base s)
    (run : Runs (code i) (deleteTask a cause) (s.close i a state cause) u t) : Sealed a base t := by
  have frames : FramesOf false i (Sealed a base) (fun _ _ => True) [a] (deleteTask a cause) :=
    frames_call (f := .deleteTask a false cause) (Or.inr (List.mem_singleton.mpr rfl))
  refine sealed_of_frames frames run ⟨sealed.1, sealed.2.imp_left fun same => ⟨?_, same.2⟩⟩
  rw [← same.1]
  simp [State.close, State.settle]

/-- Tasks are only ever added to the history. -/
theorem grows_frame (n : Nat) : Frame i (fun s => n ≤ s.tally (Event.creates a)) fun _ _ => True where
  step holds _ moved _ := Nat.le_trans holds (creates_mono moved)
  keep _ _ _ _ := trivial
  gain _ _ := trivial

theorem finishSuccess_grows (run : Runs (code .loop) (finishSuccess a k res) s u t) :
    s.tally (Event.creates a) ≤ t.tally (Event.creates a) := by
  have frames : Frames .loop _ _ [a] (finishSuccess a k res) :=
    frames_finishSuccess (grows_frame (a := a) (s.tally (Event.creates a))) (List.mem_singleton.mpr rfl) res
  exact (frames.sound (frame_verified (grows_frame _)) run ⟨Nat.le_refl _, fun _ _ => trivial⟩).1

/-! ### One completion -/

/-- A completion that does not succeed closes nothing. -/
theorem sealed_other (mine : e.task = a) (run : Dispatches e res s t)
    (else_ : e.flag = .kNone → TaskState.Live (s.task a).taskState → (s.task a).isCancel = false → res < 0) :
    Sealed a s t := by
  subst mine
  obtain ⟨-, dispatched⟩ := run
  by_cases live : TaskState.Live (s.task e.task).taskState
  · obtain ⟨last, acted, rfl⟩ := (runs_dispatchCqe_acts (by exact live)).mp dispatched
    have sealed : Sealed e.task s last := by
      cases cancelled : (s.task e.task).isCancel with
      | true =>
        have deleted := (runs_actOnCqe_cancels (by exact cancelled)).mp acted
        have found : Sealed e.task s ((s.take e).find e) := Sealed.refl e.task s
        exact found.close deleted
      | false =>
        refine sealed_of_frames ?_ acted (Sealed.refl e.task s)
        apply frames_actOnCqe_of (sealed_frame _ s) (List.mem_singleton.mpr rfl)
        intro operation
        exact frames_handleNormalEvent_fails (sealed_frame _ s) (List.mem_singleton.mpr rfl)
          (else_ operation live cancelled)
    exact sealed
  · obtain rfl := (runs_dispatchCqe_skips (by exact live)).mp dispatched
    exact Sealed.refl e.task s

theorem handled_sealed (run : Runs (code .loop) (executeCompletionHandler a)
    (((s.take ⟨a, .kNone, k⟩).find ⟨a, .kNone, k⟩).deliver a res) () t) : Sealed a s t := by
  have delivered : Sealed a s (((s.take ⟨a, .kNone, k⟩).find ⟨a, .kNone, k⟩).deliver a res) := by
    refine ⟨rfl, Or.inl ⟨?_, rfl⟩⟩
    rw [State.deliver, setTask_task_self]
    rfl
  exact sealed_of_frames (frames_executeCompletionHandler (sealed_frame a s) (List.mem_singleton.mpr rfl)) run delivered

/-- A task that goes on, or that has transferred something, keeps its descriptor. -/
theorem finishSuccess_sealed (goesOn : res = 0 → (s.task a).repeatForever = true ∨ (s.task a).next.isSome = true)
    (run : Runs (code .loop) (finishSuccess a k res) s u t) : Sealed a s t := by
  obtain ⟨v, w, repeated, next, same⟩ := runs_finishSuccess_settles goesOn run
  have settled : Sealed a s (s.settle .loop a .kSuccess (some k) false) :=
    ⟨rfl, Or.inl ⟨by simp [State.settle], rfl⟩⟩
  have first := sealed_of_frames (frames_repeatOrDetach (sealed_frame a s) _) repeated settled
  have second := sealed_of_frames (frames_submitNext (sealed_frame a s)) next first
  obtain rfl | rfl := same
  · exact second
  · refine ⟨second.1, second.2.imp_left fun equal => ⟨?_, equal.2⟩⟩
    rw [State.detached, setTask_task_self]
    exact equal.1

/-- After the handler the descriptor is closed exactly if the task is at its end
and nothing was transferred. -/
theorem finishSuccess_closes (run : Runs (code .loop) (finishSuccess a k res) s u t)
    (kept : t.tally (Event.creates a) = s.tally (Event.creates a)) :
    if (s.task a).ends = true ∧ res = 0 then t.closes = (s.task a).fd :: s.closes ∧ (t.task a).fd = -1
    else t.closes = s.closes ∧ (t.task a).fd = (s.task a).fd := by
  by_cases ended : res = 0 ∧ (s.task a).repeatForever = false ∧ (s.task a).next = none
  · obtain ⟨rfl, once, last⟩ := ended
    obtain ⟨v, closed, deleted⟩ := runs_finishSuccess_closes once last run
    have sealed : Sealed a v t := (Sealed.refl a v).close deleted
    obtain ⟨rfl, shut⟩ | ⟨open_, rfl⟩ := closed
    · rw [if_neg (by simp [Task.ends, shut])]
      exact ⟨sealed.1, sealed.fd kept⟩
    · rw [if_pos (by simp [Task.ends, once, last, open_])]
      refine ⟨sealed.1, (sealed.fd (by exact kept)).trans ?_⟩
      rw [setTask_task_self]
  · have goesOn : res = 0 → (s.task a).repeatForever = true ∨ (s.task a).next.isSome = true := by
      intro empty
      by_contra neither
      simp only [not_or, Bool.not_eq_true, Option.isSome_eq_false_iff, Option.isNone_iff_eq_none] at neither
      exact ended ⟨empty, neither⟩
    have sealed := finishSuccess_sealed goesOn run
    rw [if_neg]
    · exact ⟨sealed.1, sealed.fd kept⟩
    · rintro ⟨ends, empty⟩
      simp only [Task.ends, Bool.and_eq_true, Bool.not_eq_true', Option.isNone_iff_eq_none] at ends
      exact ended ⟨empty, ends.1⟩

/-- The completion leaves the task at its end with nothing transferred. -/
def Delivery.Closes (d : Delivery) : Prop := d.ends = true ∧ d.res = 0

instance (d : Delivery) : Decidable d.Closes := inferInstanceAs (Decidable (_ ∧ _))

theorem Delivers.closes (run : Delivers a d s t) (kept : t.tally (Event.creates a) = s.tally (Event.creates a)) :
    if d.Closes then t.closes = (s.task a).fd :: s.closes ∧ 0 < (s.task a).fd ∧ (t.task a).fd = -1
    else t.closes = s.closes ∧ (t.task a).fd = (s.task a).fd := by
  cases run with
  | other mine run else_ =>
    have sealed := sealed_other mine run else_
    rw [if_neg (by rintro ⟨ends, -⟩; contradiction)]
    exact ⟨sealed.1, sealed.fd kept⟩
  | @operation res m k last _ queued live uncancelled success handled finished =>
    have returned := handled_sealed handled
    have grows := finishSuccess_grows finished
    -- The storage was not given to another task while the handler ran.
    have creates : m.tally (Event.creates a) = s.tally (Event.creates a) := by
      rcases returned.2 with ⟨-, same⟩ | reused
      · exact same
      · have more : s.tally (Event.creates a) < last.tally (Event.creates a) := Nat.lt_of_lt_of_le reused grows
        exact absurd kept (Nat.ne_of_gt more)
    have fd := returned.fd creates
    have outcome := finishSuccess_closes finished (Eq.trans kept creates.symm)
    rw [returned.1, fd] at outcome
    split at outcome
    · next closes =>
      rw [if_pos (by exact closes)]
      have ends := closes.1
      simp only [Task.ends, Bool.and_eq_true, decide_eq_true_eq] at ends
      exact ⟨outcome.1, fd ▸ ends.2, outcome.2⟩
    · next closes =>
      rw [if_neg (by exact closes)]
      exact outcome

/-! ### All completions of a task -/

/-- A descriptor is closed once, and exactly by a completion at the end. -/
structure Tracked (a : Addr) (ds : List (Delivery × List Int)) (t : State) : Prop where
  exact : ∀ x ∈ ds, x.2 ≠ [] ↔ x.1.Closes
  once : (ds.map fun x => x.2.length).sum = 0 ∨ (ds.map fun x => x.2.length).sum = 1 ∧ (t.task a).fd ≤ 0

theorem Delivered.tracked (run : Delivered a ds s t) : Tracked a ds t := by
  induction run with
  | none => exact ⟨nofun, Or.inl rfl⟩
  | between earlier kept ih => exact ⟨ih.exact, ih.once.imp_right fun last => ⟨last.1, kept ▸ last.2⟩⟩
  | @next ds s m d t closed earlier run kept closes ih =>
    have outcome := run.closes kept
    split at outcome
    · next closing =>
      obtain ⟨opened, positive, shut⟩ := outcome
      have one : closed = [(m.task a).fd] := List.append_cancel_right (closes.symm.trans opened)
      have none_ : (ds.map fun x => x.2.length).sum = 0 := ih.once.resolve_right fun last => by omega
      refine ⟨fun x member => ?_, Or.inr ⟨?_, by omega⟩⟩
      · rcases List.mem_cons.mp member with rfl | member
        · exact iff_of_true (by rw [one]; nofun) closing
        · exact ih.exact x member
      · simp [one, none_]
    · next open_ =>
      obtain ⟨same, fd⟩ := outcome
      have empty : closed = [] := List.append_cancel_right (closes.symm.trans same)
      refine ⟨fun x member => ?_, ?_⟩
      · rcases List.mem_cons.mp member with rfl | member
        · exact iff_of_false (by simp [empty]) open_
        · exact ih.exact x member
      · simpa [empty, fd] using ih.once

/-- The completions of a task close its descriptor only at the end of a file, and
once, exactly if no connection, accepted descriptor or empty transfer with result 0
leaves the task at its end. -/
theorem closes_confined_iff (run : Delivered a ds s t) :
    Confined ds ↔ ∀ x ∈ ds, x.1.Closes → x.1.Requests := by
  have tracked := run.tracked
  constructor
  · rintro ⟨files, -⟩ x member closes
    exact (files x member ((tracked.exact x member).mpr closes)).1
  · intro files
    refine ⟨fun x member closed => ?_, ?_⟩
    · have closes := (tracked.exact x member).mp closed
      exact ⟨files x member closes, closes.2⟩
    · rcases tracked.once with none_ | ⟨one, -⟩ <;> omega

/-- The task is accepted and its operation completes with nothing transferred. -/
def State.acceptEmpty (s : State) : State := (s.accept (.client 0) 1).dispatch ⟨1, .kNone, 0⟩ 0

theorem delivered_acceptEmpty (config : Task) (closed : List Int)
    (ready : ((single config).accept (.client 0) 1).dispatchable ⟨1, .kNone, 0⟩ 0 = true)
    (kept : (single config).acceptEmpty.tally (Event.creates 1) =
      ((single config).accept (.client 0) 1).tally (Event.creates 1))
    (closes : (single config).acceptEmpty.closes = closed ++ ((single config).accept (.client 0) 1).closes) :
    ∃ ends, Delivered 1 [(⟨((single config).accept (.client 0) 1).asked 0, 0, ends⟩, closed)]
      ((single config).accept (.client 0) 1) (single config).acceptEmpty := by
  obtain ⟨ends, delivers⟩ := dispatches_delivers (dispatches_dispatch ready)
  exact ⟨ends, .next .none delivers kept closes⟩

theorem end_of_file_confined : ∃ ends, Confined [(⟨some ⟨.IORING_OP_READ, 3, 2048⟩, 0, ends⟩, [3])] := by
  obtain ⟨ends, run⟩ := delivered_acceptEmpty (retrying 1) [3] (by decide +kernel)
    (by decide +kernel) (by decide +kernel)
  refine ⟨ends, (closes_confined_iff run).mpr fun x member _ => ?_⟩
  rw [List.mem_singleton.mp member]
  exact ⟨_, rfl, by decide⟩

/-- A task that connects descriptor 3. -/
def connectTask : Task :=
  { taskType := .kConnect, fd := 3, buffer := { sinFamily := AF_INET, sinPort := 80, sinAddr := 1 } }

/-- The connection is there, and its descriptor is closed. -/
theorem connected_closed :
    ¬ ∀ (a : Addr) (ds : List (Delivery × List Int)) (s t : State), Delivered a ds s t → Confined ds := by
  intro claimed
  obtain ⟨ends, run⟩ := delivered_acceptEmpty connectTask [3] (by decide +kernel)
    (by decide +kernel) (by decide +kernel)
  have file := (claimed _ _ _ _ run).1 _ List.mem_cons_self nofun
  obtain ⟨request, asked, -⟩ := file.1
  have connects : ((single connectTask).accept (.client 0) 1).asked 0 = none := by decide +kernel
  exact absurd (connects.symm.trans asked) nofun

end Talon.Handler
