import Talon.Handler.Accounting
import Talon.Interleaving.Constant

/-! What `inflight_count_` is in every run whatsoever: with timeouts and cancel requests,
recycled storage, full rings and any client code. A dispatch that acts takes one slot back,
whether or not its submission still has one. -/
namespace Talon.Handler.Conservation
open Interleaving

/-- A completion on which `DispatchCqe` acts. -/
def acts : Event → Bool
  | .found _ state => TaskState.Live state
  | _ => false

/-- The counter, its limit, and how often a slot was reserved and given back. -/
structure Account where
  limit : Int
  inflight : Int
  reserved : Nat
  released : Nat
  found : Nat

def account (s : State) : Account :=
  ⟨s.maxInflightOps, s.inflight, s.reserved.length, s.released.length, s.log.countP acts⟩

structure Account.Balanced (b : Account) : Prop where
  conserved : b.inflight + b.released = b.reserved
  limited : 0 < b.limit → b.inflight ≤ b.limit
  prompt : b.found = b.released ∨ b.found = b.released + 1

/-- Everybody sees the limit, and the event loop sees whether it owes a decrement. -/
structure View where
  limit : Int
  owes : Bool

def view (j : Thread) (s : State) : View :=
  ⟨s.maxInflightOps, decide (j = .loop ∧ s.log.countP acts = s.released.length + 1)⟩

def ownership : Ownership Thread State View where
  Inv s := (account s).Balanced
  view := view
  allowed _ _ := True

/-- Procedures that any thread may call at any time. -/
def Anytime : Procedure → Prop
  | .dispatchCqe _ _ | .runEventLoop => False
  | _ => True

def spec (i : Thread) : Spec Procedure Bool View where
  pre f v := Anytime f ∨ i = .loop ∧ v.owes = false
  post _ v _ v' := v' = v

abbrev Steady {α : Type} (p : Code α) : Prop := Constant account Anytime p

abbrev Ensures (i : Thread) (v : View) {α : Type} (p : Code α) (post : α → View → Prop) : Prop :=
  ownership.Ensures (spec i) i v p post

variable {i : Thread} {v : View} {a : Addr} {k : Nat} {α : Type}

theorem view_of_account {j : Thread} {s t : State} (same : account t = account s) : view j t = view j s := by
  simp only [account, Account.mk.injEq] at same
  obtain ⟨limit, -, -, released, found⟩ := same
  simp only [view, limit, released, found]

theorem ensures_steady {p : Code α} (steady : Steady p) : Ensures i v p fun _ v' => v' = v := by
  refine steady.ensures (fun s t same inv => ?_) (fun j s t same => view_of_account same)
    (fun f v called => Or.inl called) fun f v r v' _ returned => returned
  change (account t).Balanced
  rw [same]
  exact inv

/-! ### Code that leaves the account alone -/

theorem steady_storeTask (f : Task → Task) : Steady (storeTask a f) := Constant.store fun _ => rfl

theorem steady_markDetachedAndComplete (detach : Bool) : Steady (markDetachedAndComplete a detach) := by
  cases detach with
  | true => exact Constant.bind (steady_storeTask _) fun _ => steady_storeTask _
  | false => exact steady_storeTask _

theorem steady_call {f : Procedure} (called : Anytime f) : Steady (do let _ ← (.enter f : Code Bool)) :=
  Constant.bind (Constant.enter called) fun _ => Constant.pure ()

theorem steady_executeCompletionHandler : Steady (executeCompletionHandler a) :=
  Constant.bind (Constant.store fun _ => rfl) fun _ => steady_call trivial

theorem steady_autoFlush : Steady autoFlush := Constant.store fun _ => rfl

theorem steady_queueSqe (flag : EventFlag) : Steady (queueSqe a flag k) := by
  apply Constant.atomic
  intro c s t stepped
  obtain rfl := Option.some.inj stepped
  cases c.sqe <;> rfl

theorem steady_queueExtraSqe {entry : Choice → State → Entry} {event : Event} (plain : acts event = false) :
    Steady (queueExtraSqe entry event) := by
  apply Constant.atomic
  intro c s t stepped
  obtain rfl := Option.some.inj stepped
  cases c.sqe with
  | true => simp [account, State.queueExtra, plain]
  | false => rfl

theorem steady_queueFailedTask : Steady (queueFailedTask a k) := by
  apply Constant.bind (steady_queueSqe _)
  intro sqe
  cases sqe with
  | true => exact steady_autoFlush
  | false => exact steady_call trivial

theorem steady_finishSqe : Steady (finishSqe a k) := by
  refine Constant.bind (steady_storeTask _) fun _ => Constant.bind Constant.load fun task => ?_
  split
  · exact Constant.bind (steady_queueExtraSqe rfl) fun _ => Constant.pure ()
  · exact Constant.pure ()

theorem steady_submitTask : Steady (submitTask a k) := by
  apply Constant.bind Constant.load
  intro task
  split
  · apply Constant.bind (steady_queueSqe _)
    intro sqe
    cases sqe with
    | true => exact steady_finishSqe
    | false => exact steady_queueFailedTask
  · apply Constant.bind (steady_queueExtraSqe rfl)
    intro sqe
    cases sqe with
    | true =>
      refine Constant.bind (steady_storeTask _) fun _ => Constant.bind steady_queueFailedTask fun _ => ?_
      split
      · exact steady_finishSqe
      · exact Constant.pure ()
    | false => exact steady_queueFailedTask

theorem steady_submitReserved : Steady (submitReserved a k) := by
  apply Constant.bind (steady_markDetachedAndComplete false)
  intro _
  refine Constant.bind (steady_storeTask _) fun _ => Constant.bind ?_ fun _ => ?_
  · apply Constant.bind Constant.load
    intro task
    split
    · exact steady_storeTask _
    · exact Constant.pure ()
  · apply Constant.bind (steady_storeTask _)
    intro _
    exact Constant.bind steady_submitTask fun _ => steady_autoFlush

theorem steady_tryTransitionToSubmitted : Steady (tryTransitionToSubmitted i a) := by
  apply Constant.bind Constant.load
  intro task
  split
  · exact Constant.pure none
  · apply Constant.exchange
    intro s
    split <;> rfl

theorem steady_settle {state : TaskState} {cause : Option Nat} {dooms : Bool} :
    Steady (setTaskState i a state cause dooms) := Constant.store fun _ => rfl

theorem steady_finishTask {state : TaskState} {cause : Option Nat} :
    Steady (do setTaskState i a state cause true; deleteTask a cause) :=
  Constant.bind steady_settle fun _ => steady_call trivial

theorem steady_handleTimeoutTask : Steady (handleTimeoutTask a k) := by
  apply Constant.bind Constant.load
  intro task
  split
  · apply Constant.bind (steady_storeTask _)
    intro _
    exact Constant.bind (steady_markDetachedAndComplete true) fun _ => steady_finishTask
  · exact Constant.pure ()

theorem steady_handleErrorEvent (res : Int) : Steady (handleErrorEvent a k res) :=
  Constant.bind (steady_storeTask _) fun _ => steady_call trivial

theorem steady_submitNext : Steady (submitNext a) := by
  apply Constant.bind Constant.load
  intro task
  split
  · exact Constant.bind (Constant.exchange fun _ => rfl) fun _ => steady_call trivial
  · exact Constant.pure ()

theorem steady_repeatOrDetach (repeatForever : Bool) : Steady (repeatOrDetach a repeatForever) := by
  cases repeatForever with
  | true => exact steady_call trivial
  | false => exact steady_storeTask _

theorem steady_closeFd : Steady (closeFd a) := by
  apply Constant.bind Constant.load
  intro task
  split
  · exact Constant.bind (Constant.store fun _ => rfl) fun _ => steady_storeTask _
  · exact Constant.pure ()

theorem steady_finishSuccess (res : Int) : Steady (finishSuccess a k res) := by
  unfold finishSuccess
  split
  · apply Constant.bind Constant.load
    intro task
    split
    · apply Constant.bind steady_closeFd
      intro _
      exact Constant.bind (steady_markDetachedAndComplete true) fun _ => steady_finishTask
    · refine Constant.bind steady_settle fun _ => Constant.bind Constant.load fun task => ?_
      exact Constant.bind (steady_repeatOrDetach _) fun _ => steady_submitNext
  · refine Constant.bind Constant.load fun task => Constant.bind steady_settle fun _ => ?_
    refine Constant.bind (steady_repeatOrDetach _) fun _ => Constant.bind steady_submitNext fun _ => ?_
    apply Constant.bind Constant.load
    intro task
    split
    · exact steady_markDetachedAndComplete true
    · exact Constant.pure ()

theorem steady_handleNormalEvent (res : Int) : Steady (handleNormalEvent a k res) := by
  apply Constant.bind (steady_storeTask _)
  intro _
  split
  · split
    · exact steady_call trivial
    · split
      · apply Constant.bind Constant.load
        intro task
        split
        · exact steady_handleTimeoutTask
        · apply Constant.bind (steady_storeTask _)
          intro _
          exact Constant.bind (steady_markDetachedAndComplete true) fun _ => steady_finishTask
      · exact steady_call trivial
  · exact Constant.bind steady_executeCompletionHandler fun _ => steady_finishSuccess res

theorem steady_handleEvent (e : Entry) (res : Int) : Steady (handleEvent e res) := by
  unfold handleEvent
  split
  · exact steady_handleNormalEvent res
  · exact steady_handleTimeoutTask
  · exact steady_handleErrorEvent res
  · split
    · exact Constant.bind (steady_storeTask _) fun _ => steady_storeTask _
    · exact Constant.pure ()
  · exact steady_handleErrorEvent res

theorem steady_actOnCqe (e : Entry) (res : Int) : Steady (actOnCqe e res) := by
  apply Constant.bind Constant.load
  intro task
  split
  · exact Constant.bind (steady_markDetachedAndComplete true) fun _ => steady_finishTask
  · exact steady_handleEvent e res

theorem steady_handleFailedTask (cause : Option Nat) : Steady (code i (.handleFailedTask a cause)) := by
  refine Constant.bind (Constant.exchange fun _ => rfl) fun before => Constant.bind Constant.load fun task => ?_
  split
  · apply Constant.bind steady_settle
    intro _
    exact Constant.bind (Constant.enter trivial) fun _ => Constant.pure true
  · refine Constant.bind steady_executeCompletionHandler fun _ => Constant.bind (steady_storeTask _) fun _ => ?_
    refine Constant.bind (steady_storeTask _) fun _ => Constant.bind (steady_markDetachedAndComplete true) fun _ => ?_
    apply Constant.bind steady_settle
    intro _
    exact Constant.bind (steady_call trivial) fun _ => Constant.pure false

theorem steady_deleteTask (inherited : Bool) (cause : Option Nat) :
    Steady (code i (.deleteTask a inherited cause)) := by
  refine Constant.bind ?_ fun _ => Constant.bind (Constant.store fun _ => rfl) fun _ => Constant.pure true
  apply Constant.bind Constant.load
  intro task
  cases task.next with
  | none => exact Constant.pure ()
  | some next => exact steady_call trivial

theorem steady_resubmitBlocked : Steady (code i (.resubmitBlocked a)) := by
  apply Constant.bind (Constant.enter trivial)
  intro added
  cases added with
  | true => exact Constant.pure true
  | false => exact Constant.enter trivial

theorem steady_cancel (special : Option (Addr × EventFlag)) : Steady (cancel a special) := by
  refine Constant.bind (Constant.atomic fun c s t stepped => ?_) fun sqe => ?_
  · obtain rfl := Option.some.inj stepped
    cases c.sqe with
    | true => cases cancelEntry s a special <;> rfl
    | false => rfl
  · cases sqe with
    | true => exact steady_autoFlush
    | false => exact Constant.pure ()

theorem steady_setNextTask (a : Addr) (next : Option Addr) : Steady (setNextTask a next) := by
  refine Constant.bind (Constant.atomic fun c s t stepped => ?_) fun replaced => ?_
  · cases Option.some.inj stepped
    rfl
  · cases replaced with
    | none => exact Constant.pure ()
    | some old => exact steady_call trivial

theorem steady_perform (action : Action) : Steady (perform action) := by
  cases action with
  | stop => exact Constant.pure ()
  | addTask p => exact steady_call trivial
  | cancel a special => exact steady_cancel special
  | create a config =>
    apply Constant.atomic
    intro c s t stepped
    simp only [Option.ite_none_left_eq_some, Option.some.injEq] at stepped
    obtain ⟨-, rfl⟩ := stepped
    rfl
  | configure a config => exact Constant.store fun _ => rfl
  | setNextTask a next => exact steady_setNextTask a next
  | flush => exact steady_autoFlush
  | requestShutdown => exact Constant.store fun _ => rfl

theorem steady_user : Steady (code i .user) := by
  apply Constant.bind Constant.choose
  intro choice
  split
  · exact Constant.pure true
  · exact Constant.bind (steady_perform _) fun _ => Constant.enter trivial

/-! ### Slots -/

/-- A thread reserves a slot while there is room. -/
theorem moves_reserve {s : State} (seen : ownership.Holds i v s) (room : 0 < v.limit → s.inflight < v.limit) :
    ownership.Moves i s (s.reserve i a k) v := by
  obtain ⟨balanced, rfl⟩ := seen
  refine ⟨⟨?_, fun limited => ?_, balanced.prompt⟩, fun _ _ => rfl, rfl⟩
  · have conserved := balanced.conserved
    simp only [account, State.reserve, List.length_cons] at conserved ⊢
    omega
  · exact room limited

theorem ensures_reserveSlot (cur : Int) : Ensures i v (code i (.reserveSlot a k cur)) fun _ v' => v' = v := by
  refine Ownership.Ensures.bind (M := fun max v' => max = v.limit ∧ v' = v) ?_ ?_
  · refine Ownership.Ensures.load fun s seen => ⟨?_, rfl⟩
    obtain ⟨-, rfl⟩ := seen
    rfl
  rintro max v' ⟨rfl, rfl⟩
  split
  · next room =>
    refine Ownership.Ensures.bind (M := fun _ v'' => v'' = v') ?_ ?_
    · refine Ownership.Ensures.atomic fun c s t seen stepped _ => ⟨v', rfl, ?_⟩
      obtain rfl := Option.some.inj stepped
      split
      · next swaps => exact moves_reserve seen fun _ => swaps.1 ▸ room
      · exact ⟨seen.1, fun _ _ => rfl, seen.2⟩
    · rintro seen v'' rfl
      split
      · exact Ownership.Ensures.pure rfl
      · exact Ownership.Ensures.enter (Or.inl trivial) fun _ _ returned => returned
  · exact Ownership.Ensures.pure rfl

theorem ensures_reserveInflight : Ensures i v (reserveInflight i a k) fun _ v' => v' = v := by
  refine Ownership.Ensures.bind (M := fun max v' => max = v.limit ∧ v' = v) ?_ ?_
  · refine Ownership.Ensures.load fun s seen => ⟨?_, rfl⟩
    obtain ⟨-, rfl⟩ := seen
    rfl
  rintro max v' ⟨rfl, rfl⟩
  split
  · refine Ownership.Ensures.bind (ensures_steady (Constant.exchange fun _ => rfl)) ?_
    rintro cur v'' rfl
    exact Ownership.Ensures.enter (Or.inl trivial) fun _ _ returned => returned
  · next unlimited =>
    refine Ownership.Ensures.bind (M := fun _ v'' => v'' = v') ?_ ?_
    · exact Ownership.Ensures.store rfl fun s seen _ => moves_reserve seen fun limited => absurd limited unlimited
    · rintro _ v'' rfl
      exact Ownership.Ensures.pure rfl

theorem ensures_addTask : Ensures i v (addTask i a) fun _ v' => v' = v := by
  apply Ownership.Ensures.bind (ensures_steady steady_tryTransitionToSubmitted)
  rintro gate v' rfl
  cases gate with
  | none =>
    refine ensures_steady (Constant.bind (steady_storeTask _) fun _ => ?_)
    exact Constant.bind (steady_storeTask _) fun _ => Constant.pure false
  | some k =>
    apply Ownership.Ensures.bind ensures_reserveInflight
    rintro slotReserved v'' rfl
    cases slotReserved with
    | true => exact ensures_steady (Constant.bind steady_submitReserved fun _ => Constant.pure true)
    | false => exact ensures_steady (Constant.bind (Constant.store fun _ => rfl) fun _ => Constant.pure false)

/-! ### Dispatches -/

theorem moves_find {s : State} {e : Entry} (seen : ownership.Holds .loop v s) (paid : v.owes = false) :
    ownership.Moves .loop s (s.find e) { v with owes := decide (TaskState.Live (s.task e.task).taskState) } := by
  obtain ⟨balanced, rfl⟩ := seen
  have even : s.log.countP acts = s.released.length := by
    rcases balanced.prompt with even | odd
    · exact even
    · simp [ownership, view, show s.log.countP acts = s.released.length + 1 from odd] at paid
  have counted : (s.find e).log.countP acts =
      s.released.length + (decide (TaskState.Live (s.task e.task).taskState)).toNat := by
    by_cases live : TaskState.Live (s.task e.task).taskState
    · simp [State.find, acts, even, live]
    · simp [State.find, acts, even, live]
  refine ⟨⟨balanced.conserved, balanced.limited, ?_⟩, fun j different => ?_, ?_⟩
  · change (s.find e).log.countP acts = s.released.length ∨ (s.find e).log.countP acts = s.released.length + 1
    rw [counted]
    cases decide (TaskState.Live (s.task e.task).taskState) with
    | true => exact Or.inr rfl
    | false => exact Or.inl rfl
  · simp only [ownership, view, different, false_and]
    rfl
  · have same : (s.find e).released.length = s.released.length := rfl
    simp only [ownership, view, counted, same, true_and]
    cases decide (TaskState.Live (s.task e.task).taskState) with
    | true => simp [State.find]
    | false => simp [State.find]

theorem moves_release {s : State} {target : Option Nat} (seen : ownership.Holds .loop v s) (owes : v.owes = true) :
    ownership.Moves .loop s (s.release k target) { v with owes := false } := by
  obtain ⟨balanced, rfl⟩ := seen
  have odd : s.log.countP acts = s.released.length + 1 := (of_decide_eq_true owes).2
  have counted : (s.release k target).log.countP acts = (s.release k target).released.length := odd
  refine ⟨⟨?_, fun limited => ?_, Or.inl counted⟩, fun j different => ?_, ?_⟩
  · have conserved := balanced.conserved
    simp only [account, State.release, List.length_cons] at conserved ⊢
    omega
  · exact Int.le_trans (Int.sub_le_self s.inflight (by decide)) (balanced.limited limited)
  · simp only [ownership, view, different, false_and]
    rfl
  · simp only [ownership, view, counted]
    simp [State.release]

theorem ensures_dispatchCqe (e : Entry) (res : Int) (paid : v.owes = false) :
    Ensures .loop v (dispatchCqe e res) fun _ v' => v' = v := by
  refine Ownership.Ensures.bind
    (M := fun found v' => v' = { v with owes := decide (TaskState.Live found.1) }) ?_ ?_
  · exact Ownership.Ensures.exchange fun s seen _ => ⟨_, rfl, moves_find seen paid⟩
  rintro ⟨state, target⟩ v' rfl
  split
  · next live =>
    apply Ownership.Ensures.bind (ensures_steady (steady_actOnCqe e res))
    rintro _ v' rfl
    have unchanged : { v with owes := false } = v := by rw [← paid]
    apply Ownership.Ensures.store unchanged
    intro s seen _
    exact moves_release (v := { v with owes := decide (TaskState.Live state) }) seen (decide_eq_true live)
  · next stale =>
    apply Ownership.Ensures.pure
    rw [decide_eq_false stale, ← paid]

theorem ensures_runEventLoop (paid : v.owes = false) :
    Ensures .loop v (code .loop .runEventLoop) fun _ v' => v' = v := by
  apply Ownership.Ensures.bind (ensures_steady Constant.load)
  rintro shutdown v' rfl
  split
  · exact Ownership.Ensures.pure rfl
  · refine Ownership.Ensures.bind (ensures_steady (Constant.atomic fun c s t stepped => ?_)) ?_
    · obtain ⟨e, -, rfl⟩ := Option.map_eq_some_iff.mp stepped
      rfl
    · rintro cqe v'' rfl
      refine Ownership.Ensures.bind
        (Ownership.Ensures.enter (Or.inr ⟨rfl, paid⟩) fun _ _ returned => returned) ?_
      rintro _ v' rfl
      exact Ownership.Ensures.enter (Or.inr ⟨rfl, paid⟩) fun _ _ returned => returned

theorem meets (i : Thread) (f : Procedure) (v : View) (pre : (spec i).pre f v) :
    Ensures i v (code i f) ((spec i).post f v) := by
  cases f with
  | addTask p =>
    cases p with
    | none => exact Ownership.Ensures.pure rfl
    | some a => exact ensures_addTask
  | reserveSlot a k cur => exact ensures_reserveSlot cur
  | handleFailedTask a cause => exact ensures_steady (steady_handleFailedTask cause)
  | deleteTask a inherited cause => exact ensures_steady (steady_deleteTask inherited cause)
  | resubmitBlocked a => exact ensures_steady steady_resubmitBlocked
  | dispatchCqe e res =>
    obtain ⟨rfl, paid⟩ := pre.resolve_left id
    apply Ownership.Ensures.bind (ensures_dispatchCqe e res paid)
    rintro _ v' rfl
    exact Ownership.Ensures.pure rfl
  | runEventLoop =>
    obtain ⟨rfl, paid⟩ := pre.resolve_left id
    exact ensures_runEventLoop paid
  | user => exact ensures_steady steady_user

theorem start_balanced (maxInflightOps : Int) : (account (start maxInflightOps).shared).Balanced :=
  ⟨rfl, Int.le_of_lt, Or.inl rfl⟩

/-- In every run the counter is the number of slots that were reserved less the number of
completions that were acted on, up to the one being acted on, and within the limit. -/
theorem inflight_conserved {maxInflightOps : Int} {pool : Pool Thread State Choice Procedure Bool}
    (path : Pool.Reaches code (fun _ _ => True) (start maxInflightOps) pool) :
    (account pool.shared).Balanced := by
  refine Ownership.invariant (O := ownership) (K := spec) meets (start_balanced maxInflightOps) ?_ path
  intro i
  cases i with
  | loop =>
    refine Ownership.Ensures.bind (Ownership.Ensures.enter (Or.inr ⟨rfl, rfl⟩) fun _ _ returned => returned) ?_
    exact fun _ _ _ => Ownership.Ensures.pure trivial
  | client id =>
    refine Ownership.Ensures.bind (Ownership.Ensures.enter (Or.inl trivial) fun _ _ returned => returned) ?_
    exact fun _ _ _ => Ownership.Ensures.pure trivial

/-- One slot is reserved and two completions are acted on. -/
theorem cancelled_early_conserved : ∃ pool : Pool Thread State Choice Procedure Bool,
    pool.shared.inflight = -1 ∧ (account pool.shared).Balanced := by
  have executed : (Pool.run code (fun _ _ => true) cancelEarlySchedule (start 1)).map
      (fun p => p.shared.inflight) = some (-1) := by
    decide +kernel
  obtain ⟨pool, run, outcome⟩ := Option.map_eq_some_iff.mp executed
  exact ⟨pool, outcome, inflight_conserved (Pool.reaches_of_run (fun _ _ _ => trivial) run)⟩

end Talon.Handler.Conservation
