import Talon.Waiting.Steps

/-! The event loop, user code and `WaitForCompletion` keep to the disciplines. -/
namespace Talon.Waiting
open Interleaving Talon.Handler Ownership

variable {m : Mode} {i : Thread} {s t : Shared} {v : View} {h : Held} {α : Type}

/-- The task is marked complete, gets its final state and is deleted. -/
theorem ensures_close {state : TaskState} (hand : v.hand = some h) (ended : h.Over m)
    (settled : ¬ TaskState.Live state) :
    Ensures m i v (do
      markDetachedAndComplete i
      setTaskState state
      deleteTask i) fun _ v' => v' = v.drop := by
  apply Ensures.bind (ensures_markDetachedAndComplete hand ended)
  rintro _ _ rfl
  refine Ensures.bind (ensures_setTaskState rfl fun live => absurd live settled) ?_
  rintro _ _ rfl
  exact ensures_deleteTask

theorem ensures_handleTimeoutTask (hand : v.hand = some h) (ended : h.Over m) (live : TaskState.Live h.state) :
    Ensures m i v (handleTimeoutTask i) fun _ v' => v' = v.drop := by
  apply Ensures.bind (ensures_loadTask_held hand)
  rintro task _ ⟨rfl, same⟩
  rw [if_pos (same ▸ live)]
  apply Ensures.bind (ensures_setDebugStr _)
  rintro _ _ rfl
  exact ensures_close hand ended (by decide)

theorem ensures_user_call (awake : v.awaits = none) :
    Ensures m i v (do let _ ← .enter .user : Code Unit) fun _ v' => v' = v :=
  ensures_call (by exact awake) fun _ _ same => same

theorem ensures_addTask_call (awake : v.awaits = none) :
    Ensures m i v (do let _ ← .enter .addTask : Code Unit) fun _ v' => v' = v :=
  ensures_call (by exact awake) fun _ _ added => added.1

theorem ensures_handleFailedTask_call (hand : v.hand = some h) (ended : h.Over m) (fresh : h.outcome = none)
    (awake : v.awaits = none) :
    Ensures m i v (do let _ ← .enter .handleFailedTask : Code Unit) fun _ v' => v' = v.drop :=
  ensures_call ⟨awake, h, hand, ended, fresh⟩ fun _ _ dropped => dropped

theorem ensures_submitNext (awake : v.awaits = none) : Ensures m i v submitNext fun _ v' => v' = v := by
  apply Ensures.bind ensures_loadTask
  rintro task _ rfl
  split
  · refine Ensures.bind (ensures_storeTask fun _ => rfl) ?_
    rintro _ _ rfl
    exact ensures_user_call awake
  · exact Ensures.pure rfl

/-- The thread stops writing to the task, if it was. -/
theorem moves_release (valid : Valid m s) (settled : s.holder = some i → ¬ TaskState.Live s.task.taskState) :
    (ownership m).Moves i s (if s.holder = some i then s.release else s) (view m i s).drop := by
  by_cases mine : s.holder = some i
  · rw [if_pos mine]
    have kept : Valid m s.release := { valid with
      unsettled := fun live => absurd live (settled mine), delivery := { valid.delivery with } }
    have seen : view m i s.release = (view m i s).drop := view_free (s := s.release) rfl
    rw [← seen]
    exact moves_held kept mine (Or.inr rfl) ⟨rfl, Or.inl rfl, rfl, rfl⟩
  · rw [if_neg mine, View.drop_self (if_neg mine)]
    exact moves_aside valid fun _ => rfl

/-- What a thread knows after the final state of a success: that the submission has
ended, if it still writes to the task. -/
def View.Tail (v : View) (m : Mode) : Prop :=
  ∀ h, v.hand = some h → h.Over m ∧ ¬ TaskState.Live h.state

theorem View.Tail.settled (tail : View.Tail (view m i s) m) (mine : s.holder = some i) :
    ¬ TaskState.Live s.task.taskState := (tail s.held (if_pos mine)).2

theorem ensures_repeatOrDetach (tail : v.Tail m) (awake : v.awaits = none) :
    Ensures m i v (repeatOrDetach i) fun _ v' => v' = v.drop := by
  refine Ensures.bind (M := fun again w => if again then w = v.drop else w = v) ?_ ?_
  · apply Ensures.exchange
    intro s holds _
    obtain ⟨valid, rfl⟩ := holds
    cases again : s.task.repeatForever with
    | true =>
      simp only [true_and]
      exact ⟨_, rfl, moves_release valid tail.settled⟩
    | false =>
      simp only [Bool.false_eq_true, false_and, if_false]
      exact ⟨_, rfl, moves_aside valid fun _ => rfl⟩
  · rintro (_ | _) w known
    · obtain rfl : w = v := known
      cases hand : w.hand with
      | none => exact ensures_detach_free hand fun _ => rfl
      | some h => exact ensures_detach_release hand (tail h hand).1 (tail h hand).2
    · obtain rfl : w = v.drop := known
      exact ensures_addTask_call awake

theorem ensures_finishLast (tail : v.Tail m) : Ensures m i v (finishLast i) fun _ v' => v' = v.drop := by
  refine Ensures.bind (M := fun last w => if last then w = v ∧ v.hand ≠ none else w = v.drop) ?_ ?_
  · apply Ensures.exchange
    intro s holds admitted
    obtain ⟨valid, rfl⟩ := holds
    cases last : !s.task.repeatForever && s.task.next.isNone with
    | true =>
      simp only [last, if_true] at admitted ⊢
      have mine : s.holder = some i := admitted i .finishes rfl
      refine ⟨_, ⟨rfl, ?_⟩, moves_aside { valid with delivery := { valid.delivery with } } fun _ => rfl⟩
      have own : (view m i s).hand = some s.held := if_pos mine
      exact fun free => absurd (own.symm.trans free) nofun
    | false =>
      simp only [Bool.false_eq_true, if_false]
      exact ⟨_, rfl, moves_release valid tail.settled⟩
  · rintro (_ | _) w known
    · exact Ensures.pure known
    · obtain ⟨rfl, some_⟩ := known
      obtain ⟨h, hand⟩ := Option.ne_none_iff_exists'.mp some_
      obtain ⟨ended, settled⟩ := tail h hand
      apply Ensures.bind (ensures_signal hand ended)
      rintro _ _ rfl
      exact ensures_mark_release (h := { h with stage := .freed }) rfl { ended with } rfl settled

/-- `SetTaskState(kSuccess)` before the rest of a success. -/
theorem ensures_settle_success (hand : v.hand = some h) (ended : h.Over m) (goesOn : Bool) :
    Ensures m i v (.store (·.settle .kSuccess goesOn) : Code Unit)
      fun _ v' => View.Tail v' m ∧ v'.awaits = v.awaits ∧ v'.drop = v.drop ∧ (v'.hand = none ↔ goesOn = false) := by
  have settled : ¬ TaskState.Live .kSuccess := by decide
  apply Ensures.mono (ensures_settle hand settled goesOn)
  rintro _ _ rfl
  cases goesOn with
  | false =>
    refine ⟨?_, rfl, rfl, iff_of_true rfl rfl⟩
    rintro _ ⟨⟩
  | true =>
    refine ⟨?_, rfl, rfl, iff_of_false nofun nofun⟩
    rintro _ ⟨⟩
    exact ⟨{ ended with }, settled⟩

theorem ensures_finishClosed (hand : v.hand = some h) (ended : h.Over m) :
    Ensures m i v (finishClosed i) fun _ v' => v' = v.drop := by
  refine Ensures.bind (M := fun _ w => w = v) ?_ ?_
  · apply Ensures.bind ensures_loadTask
    rintro task _ rfl
    split
    · exact ensures_storeTask fun _ => rfl
    · exact Ensures.pure rfl
  · rintro _ _ rfl
    exact ensures_close hand ended (by decide)

theorem ensures_finishEmpty (hand : v.hand = some h) (ended : h.Over m) (awake : v.awaits = none) :
    Ensures m i v (finishEmpty i) fun _ v' => v' = v.drop := by
  apply Ensures.bind ensures_loadTask
  rintro task _ rfl
  split
  · exact ensures_finishClosed hand ended
  · apply Ensures.bind (ensures_settle_success hand ended _)
    rintro _ w ⟨tail, same, dropped, -⟩
    apply Ensures.bind (ensures_repeatOrDetach tail (same.trans awake))
    rintro _ _ rfl
    rw [dropped]
    exact ensures_submitNext awake

theorem ensures_finishTransfer (hand : v.hand = some h) (ended : h.Over m) (awake : v.awaits = none) :
    Ensures m i v (finishTransfer i) fun _ v' => v' = v.drop := by
  apply Ensures.bind ensures_loadTask
  rintro task _ rfl
  apply Ensures.bind (ensures_settle_success hand ended _)
  rintro _ w ⟨tail, same, dropped, goesOn⟩
  refine Ensures.bind (M := fun _ u => View.Tail u m ∧ u.awaits = none ∧ u.drop = w.drop) ?_ ?_
  · cases again : task.repeatForever with
    | true =>
      apply Ensures.mono (ensures_addTask_call (same.trans awake))
      rintro _ _ rfl
      exact ⟨tail, same.trans awake, rfl⟩
    | false =>
      rw [again] at goesOn
      obtain ⟨g, held⟩ := Option.ne_none_iff_exists'.mp fun none_ => nomatch goesOn.mp none_
      obtain ⟨ended, settled⟩ := tail g held
      apply Ensures.mono (ensures_detach held ended settled)
      rintro _ _ rfl
      refine ⟨?_, same.trans awake, rfl⟩
      rintro _ ⟨⟩
      exact ⟨{ ended with }, settled⟩
  · rintro _ u ⟨tail, awake, back⟩
    apply Ensures.bind (ensures_submitNext awake)
    rintro _ _ rfl
    apply Ensures.mono (ensures_finishLast tail)
    rintro _ _ rfl
    exact back.trans dropped

/-- The completion with result `res` has been acted on, and what it leaves to do is the
rest of its submission. -/
structure Held.Acted (h : Held) (m : Mode) (res : Int) : Prop where
  outcome : h.outcome = none
  unmarked : h.marked = false
  apart : m = .apart → h.outstanding = false
  waited : m = .waited → h.dispatched = some res

theorem Held.Acted.delivered {res : Int} (acted : h.Acted m res) :
    Held.Over { h with bytes := res, completion := some res } m :=
  ⟨acted.unmarked, acted.apart, fun _ _ => Option.some.inj, acted.waited⟩

theorem ensures_handleNormalEvent {res : Int} (hand : v.hand = some h) (acted : h.Acted m res)
    (live : TaskState.Live h.state) (awake : v.awaits = none) :
    Ensures m i v (handleNormalEvent i res) fun _ v' => v' = v.drop := by
  refine Ensures.bind (ensures_deliver hand acted.outcome) ?_
  rintro _ _ rfl
  have ended := acted.delivered
  split
  · split
    · refine Ensures.bind (Ensures.enter (by exact awake) fun _ _ returned => returned) ?_
      rintro _ _ ⟨-, free⟩
      contradiction
    split
    · refine Ensures.bind ensures_loadTask ?_
      rintro task _ rfl
      split
      · exact ensures_handleTimeoutTask rfl ended live
      · refine Ensures.bind (ensures_setDebugStr _) ?_
        rintro _ _ rfl
        exact ensures_close rfl ended (by decide)
    · exact ensures_handleFailedTask_call rfl ended acted.outcome awake
  · refine Ensures.bind (ensures_user_call awake) ?_
    rintro _ _ rfl
    split
    · exact ensures_finishEmpty rfl ended awake
    · exact ensures_finishTransfer rfl ended awake

theorem ensures_handleErrorEvent {res : Int} (hand : v.hand = some h) (acted : h.Acted m res)
    (awake : v.awaits = none) :
    Ensures m i v (handleErrorEvent res) fun _ v' => v' = v.drop := by
  apply Ensures.bind (ensures_deliver hand acted.outcome)
  rintro _ _ rfl
  exact ensures_handleFailedTask_call rfl acted.delivered acted.outcome awake

/-- What is left to do once `is_cancel_` has been read: nothing about a cancel
request, and otherwise the rest of the submission. A completion whose result is not
stored is acted on in the second mode only. -/
def Acts (m : Mode) (v : View) (state : TaskState) (flag : EventFlag) (res : Int) (cancelled : Bool) (v' : View) : Prop :=
  if cancelled = false ∧ flag = .kCancel then v' = v.drop
  else ∃ g, v' = v.hold g ∧ g.Acted m res ∧ g.state = state ∧ (cancelled = true ∨ flag = .kTimeout → m = .apart)

theorem Held.Acted.ended {res : Int} (acted : h.Acted m res) (mode : m = .apart) : h.Over m := by
  subst mode
  exact ⟨acted.unmarked, acted.apart, nofun, nofun⟩

theorem act_accesses {cqe : Cqe} {res : Int} :
    (s.act i cqe res).accesses = (i, .acts cqe s.task.isCancel) :: s.accesses := by
  unfold Shared.act
  split
  · rfl
  split <;> rfl

/-- Every completion that is acted on leaves a valid state, with the task not yet detached. -/
theorem Valid.complete (valid : Valid m s) (fresh : s.outcome = none) (cqe : Cqe) (res : Int)
    (completion : Option Int) (kept : m = .apart ∨ completion = s.completion) (a : Access) :
    Valid m ({ s.complete cqe res with completion := completion }.access i a) := by
  refine { valid with
    signaled := fun mode detached => ?_
    apart := fun mode out => valid.apart mode (Bool.and_eq_true_iff.mp out).1
    outcome := fun _ known => absurd (known.symm.trans fresh) nofun
    delivery := { valid.delivery with } }
  rw [kept.resolve_left (by rw [mode]; nofun)]
  exact valid.signaled mode detached

/-- What the completion of the last submission leaves behind. -/
theorem acted_complete {cqe : Cqe} {res : Int} {completion : Option Int}
    (own : m ≠ .signaled → cqe.submission = some s.submission) (fresh : s.outcome = none) (unmarked : s.marked = false) :
    ({ s.complete cqe res with completion := completion } : Shared).held.Acted m res := by
  refine ⟨fresh, unmarked, fun mode => ?_, fun mode => if_pos (own (by simp [mode]))⟩
  simp only [Shared.held, Shared.complete, own (by simp [mode]), ne_eq, not_true_eq_false, decide_false, Bool.and_false]

theorem moves_complete {cqe : Cqe} {res : Int} {completion : Option Int} (valid : Valid m s) (mine : s.holder = some i)
    (fresh : s.outcome = none) (kept : m = .apart ∨ completion = s.completion) (a : Access) :
    (ownership m).Moves i s ({ s.complete cqe res with completion := completion }.access i a)
      ((view m i s).hold { s.complete cqe res with completion := completion }.held) := by
  have after := valid.complete fresh cqe res completion kept a (i := i)
  have seen : view m i ({ s.complete cqe res with completion := completion }.access i a) =
      (view m i s).hold { s.complete cqe res with completion := completion }.held := View.ext (if_pos mine) rfl rfl
  rw [← seen]
  exact moves_held after mine (Or.inl mine) ⟨rfl, Or.inl rfl, rfl, rfl⟩

theorem ensures_act {cqe : Cqe} {res : Int} (hand : v.hand = some h) (fresh : h.outcome = none)
    (unmarked : h.marked = false) :
    Ensures m i v (.exchange (·.task.isCancel) (·.act i cqe res) : Code Bool) (Acts m v h.state cqe.flag res) := by
  apply Ensures.exchange
  intro s holds admitted
  obtain ⟨valid, rfl⟩ := holds
  obtain ⟨mine, rfl⟩ := hand_some hand
  obtain ⟨stored, own⟩ := admitted i (.acts cqe s.task.isCancel) act_accesses
  unfold Shared.act Acts
  by_cases request : s.task.isCancel = false ∧ cqe.flag = .kCancel
  · obtain ⟨uncancelled, request⟩ := request
    rw [if_neg (by rw [uncancelled, request]; simp), if_pos request]
    have kept : Valid m ({ s with holder := none }.access i (.acts cqe s.task.isCancel)) :=
      { valid with unsettled := fun _ _ => fresh, delivery := { valid.delivery with } }
    refine ⟨_, ?_, moves_held kept mine (Or.inr rfl) ⟨rfl, Or.inl rfl, rfl, rfl⟩⟩
    rw [if_pos ⟨uncancelled, request⟩]
    exact view_free rfl
  have ours (mode : m ≠ .signaled) : cqe.submission = some s.submission :=
    (own mode).resolve_right fun ⟨flag, uncancelled⟩ => request ⟨uncancelled, flag⟩
  by_cases unstored : s.task.isCancel ∨ cqe.flag = .kTimeout
  · have mode : m = .apart := by
      by_contra other
      obtain ⟨untimed, uncancelled⟩ := stored other
      rcases unstored with cancelled | timeout
      · exact absurd (cancelled.symm.trans uncancelled) nofun
      · exact untimed timeout
    rw [if_pos unstored]
    refine ⟨_, ?_, moves_complete valid mine fresh (Or.inl mode) _⟩
    rw [if_neg request]
    exact ⟨_, rfl, acted_complete ours fresh unmarked, rfl, fun _ => mode⟩
  · rw [if_neg unstored, if_neg fun flag => request ⟨Bool.eq_false_iff.mpr fun c => unstored (Or.inl c), flag⟩]
    refine ⟨_, ?_, moves_complete valid mine fresh (Or.inr rfl) _⟩
    rw [if_neg request]
    exact ⟨_, rfl, acted_complete ours fresh unmarked, rfl, fun ended => absurd ended unstored⟩

theorem ensures_handleCancelEvent : Ensures m i v handleCancelEvent fun _ v' => v' = v := by
  refine Ensures.bind (ensures_storeTask fun _ => rfl) ?_
  rintro _ _ rfl
  exact ensures_setDebugStr _

theorem ensures_handleEvent {w : View} {state : TaskState} {flag : EventFlag} {res : Int}
    (acts : Acts m v state flag res false w) (live : TaskState.Live state) (awake : v.awaits = none) :
    Ensures m i w (handleEvent i flag res) fun _ v' => v' = v.drop := by
  by_cases request : false = false ∧ flag = .kCancel
  · rw [Acts, if_pos request] at acts
    obtain ⟨-, rfl⟩ := request
    subst acts
    change Ensures m i v.drop (if 0 ≤ res then handleCancelEvent else pure ()) _
    split
    · exact ensures_handleCancelEvent
    · exact Ensures.pure rfl
  · rw [Acts, if_neg request] at acts
    obtain ⟨g, rfl, acted, rfl, unstored⟩ := acts
    cases flag with
    | kNone => exact ensures_handleNormalEvent rfl acted live awake
    | kTimeout => exact ensures_handleTimeoutTask rfl (acted.ended (unstored (Or.inr rfl))) live
    | kError => exact ensures_handleErrorEvent rfl acted awake
    | kCancel => exact absurd ⟨rfl, rfl⟩ request
    | kMask => exact ensures_handleErrorEvent rfl acted awake

theorem ensures_actOnCqe {cqe : Cqe} {res : Int} (hand : v.hand = some h) (fresh : h.outcome = none)
    (unmarked : h.marked = false) (live : TaskState.Live h.state) (awake : v.awaits = none) :
    Ensures m i v (actOnCqe i cqe res) fun _ v' => v' = v.drop := by
  apply Ensures.bind (ensures_act hand fresh unmarked)
  rintro (_ | _) w acts
  · exact ensures_handleEvent acts live awake
  · rw [Acts, if_neg (by simp)] at acts
    obtain ⟨g, rfl, acted, -, unstored⟩ := acts
    exact ensures_close rfl (acted.ended (unstored (Or.inl rfl))) (by decide)

/-- A completion is found: the thread is the one that writes to the task until it
is done with the completion. -/
def Finds (v : View) (found : Bool) (v' : View) : Prop :=
  if found then ∃ h, v' = v.hold h ∧ h.outcome = none ∧ h.marked = false ∧ TaskState.Live h.state else v' = v

theorem ensures_find :
    Ensures m i v (.exchange (fun s => decide (TaskState.Live s.task.taskState))
      (fun s => if TaskState.Live s.task.taskState then s.find i else s) : Code Bool) (Finds v) := by
  apply Ensures.exchange
  intro s holds admitted
  obtain ⟨valid, rfl⟩ := holds
  by_cases live : TaskState.Live s.task.taskState
  · simp only [if_pos live] at admitted ⊢
    have unheld : s.holder = none := admitted i .finds rfl
    have fresh : s.outcome = none := valid.unsettled live unheld
    have unmarked : s.marked = false := Bool.eq_false_iff.mpr fun marked => (valid.marked marked).2 fresh
    have kept : Valid m (s.find i) := { valid with unsettled := fun _ => nofun, delivery := { valid.delivery with } }
    refine ⟨view m i (s.find i), ?_, moves_takes kept unheld rfl ⟨rfl, Or.inl rfl, rfl, rfl⟩⟩
    simp only [Finds, live, decide_true, if_true]
    exact ⟨_, view_held (s := s.find i) rfl, fresh, unmarked, live⟩
  · simp only [if_neg live]
    refine ⟨_, ?_, moves_aside valid fun _ => rfl⟩
    simp only [Finds, live, decide_false, Bool.false_eq_true, if_false]
    rfl

theorem ensures_dispatchCqe {cqe : Cqe} {res : Int} (free : v.hand = none) (awake : v.awaits = none) :
    Ensures m i v (dispatchCqe i cqe res) fun _ v' => v' = v := by
  refine Ensures.bind ensures_find ?_
  rintro (_ | _) w found
  · exact Ensures.pure found
  · obtain ⟨h, rfl, fresh, unmarked, live⟩ := found
    refine Ensures.mono (ensures_actOnCqe rfl fresh unmarked live awake) ?_
    rintro _ _ rfl
    exact View.drop_hold free

/-! ### `WaitForCompletion` -/

def View.await (v : View) (b : Int) : View := { v with awaits := some b }

/-- A step by which a thread enters or leaves `WaitForCompletion`. -/
theorem moves_waiting {w : View} (valid : Valid m t) (hand : ∀ j, (view m j t).hand = (view m j s).hand)
    (lock : ∀ j, (view m j t).lock = (view m j s).lock) (outcome : t.outcome = s.outcome)
    (others : ∀ j, j ≠ i → (j ∈ t.waiting ↔ j ∈ s.waiting)) (mine : view m i t = w) :
    (ownership m).Moves i s t w := by
  refine ⟨valid, fun j other => View.ext (hand j) ?_ (lock j), mine⟩
  simp only [ownership, view, others j other, outcome]

/-- In the second mode nothing is known of those who wait. -/
theorem awaits_apart (mode : m = .apart) : (view m i s).awaits = none := if_neg fun both => both.1 mode

/-- The load of `detach_` at the start of `WaitForCompletion`. -/
theorem ensures_reads :
    Ensures m i v (.exchange (·.task) fun s =>
      { s with waiting := if s.task.detach then i :: s.waiting else s.waiting }.access i .reads : Code Task)
      fun task v' => (task.detach = true ∧ ∃ b, v' = v.await b) ∨
        (m ≠ .waited ∧ v' = v ∧ (m = .signaled → task.detach = false)) := by
  apply Ensures.exchange
  intro s holds admitted
  obtain ⟨valid, rfl⟩ := holds
  have permitted := admitted i .reads rfl
  by_cases mode : m = .apart
  · refine ⟨view m i s, Or.inr ⟨by rw [mode]; nofun, rfl, by rw [mode]; nofun⟩, moves_aside ?_ fun j => ?_⟩
    · exact { valid with waiting := fun other => absurd mode other, delivery := { valid.delivery with } }
    · exact View.ext rfl ((awaits_apart mode).trans (awaits_apart mode).symm) rfl
  obtain ⟨waited, found⟩ := permitted mode
  cases detached : s.task.detach with
  | true =>
    obtain ⟨b, outcome⟩ := Option.ne_none_iff_exists'.mp (found detached).1
    refine ⟨(view m i s).await b, Or.inl ⟨rfl, b, rfl⟩, moves_waiting ?_ (fun _ => rfl) (fun _ => rfl) rfl
      (fun j other => ?_) (View.ext rfl ?_ rfl)⟩
    · refine { valid with waiting := fun other j waits => ?_, delivery := { valid.delivery with } }
      rcases List.mem_cons.mp waits with rfl | before
      · exact ⟨(found detached).1, (found detached).2, fun same => (valid.signaled same detached).1⟩
      · exact valid.waiting other j before
    · exact List.mem_cons.trans (or_iff_right other)
    · exact (if_pos ⟨mode, List.mem_cons_self ..⟩).trans outcome
  | false =>
    refine ⟨view m i s, Or.inr ⟨fun same => ?_, rfl, fun _ => rfl⟩,
      moves_aside { valid with delivery := { valid.delivery with } } fun _ => rfl⟩
    exact absurd (detached.symm.trans (waited same)) nofun

/-- What a thread inside `WaitForCompletion` finds in the buffer. -/
theorem ensures_loadTask_awaits {b : Int} :
    Ensures m i (v.await b) loadTask fun task v' => v' = v.await b ∧ task.buffer.bytesTransferred = b := by
  refine Ensures.load fun s holds => ⟨rfl, ?_⟩
  obtain ⟨valid, seen⟩ := holds
  have awaits : (view m i s).awaits = some b := congrArg View.awaits seen
  exact (valid.outcome b (awaits_some awaits).2).1

/-- In the first mode whoever waits finds the flag signaled. -/
def View.Calm (v : View) (m : Mode) : Prop := m = .signaled → v.awaits ≠ none

theorem ensures_loadTask_calm (calm : v.Calm m) :
    Ensures m i v loadTask fun task v' => v' = v ∧ (m = .signaled → task.doneState = .kSignaled) := by
  refine Ensures.load fun s holds => ⟨rfl, fun mode => ?_⟩
  obtain ⟨valid, rfl⟩ := holds
  obtain ⟨b, awaits⟩ := Option.ne_none_iff_exists'.mp (calm mode)
  obtain ⟨⟨other, waits⟩, -⟩ := awaits_some awaits
  exact (valid.waiting other i waits).2.2 mode

/-- `Wait` once it holds the mutex. -/
theorem ensures_waitLocked {timeoutMs : Int} (mode : m ≠ .signaled) (locked : v.lock = some []) :
    Ensures m i v (waitLocked i timeoutMs) fun ready v' => v' = v ∧ (timeoutMs < 0 → ready = true) := by
  refine Ensures.bind (ensures_storeState mode nofun) ?_
  rintro _ _ rfl
  split
  · refine Ensures.bind (Ensures.enter (by exact locked) fun _ _ returned => returned) ?_
    rintro _ _ rfl
    exact Ensures.pure ⟨rfl, fun _ => rfl⟩
  · next limited =>
    refine Ensures.bind (Ensures.enter (by exact locked) fun _ _ returned => returned) ?_
    rintro ready _ rfl
    split
    · exact Ensures.pure ⟨rfl, fun _ => rfl⟩
    · refine Ensures.bind (ensures_storeState mode nofun) ?_
      rintro _ _ rfl
      exact Ensures.pure ⟨rfl, fun unlimited => absurd unlimited limited⟩

/-- `DoneState::Wait` without a deadline comes back only with the signal. -/
theorem ensures_wait {timeoutMs : Int} (calm : v.Calm m) :
    Ensures m i v (wait i timeoutMs) fun ready v' => v' = v ∧ (timeoutMs < 0 → ready = true) := by
  apply Ensures.bind (ensures_loadTask_calm calm)
  rintro task _ ⟨rfl, signaled⟩
  split
  · exact Ensures.pure ⟨rfl, fun _ => rfl⟩
  next unsignaled =>
  have mode : m ≠ .signaled := fun mode => unsignaled (signaled mode)
  split
  · next poll =>
    apply Ensures.bind ensures_loadTask
    rintro task _ rfl
    exact Ensures.pure ⟨rfl, fun unlimited => absurd poll (Int.ne_of_lt unlimited)⟩
  apply Ensures.bind ensures_lock
  rintro _ _ ⟨free, rfl⟩
  apply Ensures.bind ensures_loadTask
  rintro task _ rfl
  split
  · apply Ensures.bind (ensures_unlock rfl)
    rintro _ _ rfl
    exact Ensures.pure ⟨View.unlocked_locked free, fun _ => rfl⟩
  · apply Ensures.bind (ensures_waitLocked mode rfl)
    rintro ready _ ⟨rfl, came⟩
    apply Ensures.bind (ensures_unlock rfl)
    rintro _ _ rfl
    exact Ensures.pure ⟨View.unlocked_locked free, came⟩

theorem ensures_cvWait (locked : v.lock = some []) : Ensures m i v (code i .cvWait) fun _ v' => v' = v := by
  apply Ensures.bind (ensures_predicate locked)
  rintro state _ rfl
  split
  · exact Ensures.pure rfl
  · apply Ensures.bind (ensures_block rfl)
    rintro _ _ rfl
    apply Ensures.bind ensures_wakeUntimed
    rintro _ _ rfl
    apply Ensures.bind ensures_lock
    rintro _ _ ⟨-, rfl⟩
    refine Ensures.enter (by rfl) fun _ _ returned => returned.trans ?_
    exact View.ext rfl rfl locked.symm

theorem ensures_cvWaitFor (locked : v.lock = some []) : Ensures m i v (code i .cvWaitFor) fun _ v' => v' = v := by
  apply Ensures.bind (ensures_predicate locked)
  rintro state _ rfl
  split
  · exact Ensures.pure rfl
  · apply Ensures.bind (ensures_block rfl)
    rintro _ _ rfl
    apply Ensures.bind ensures_wake
    rintro timedOut _ rfl
    apply Ensures.bind ensures_lock
    rintro _ _ ⟨-, rfl⟩
    split
    · apply Ensures.bind ensures_loadTask
      rintro task _ rfl
      exact Ensures.pure (View.ext rfl rfl locked.symm)
    · refine Ensures.enter (by rfl) fun _ _ returned => returned.trans ?_
      exact View.ext rfl rfl locked.symm

/-- What a call of `WaitForCompletion` returns to a thread that saw `v`. -/
def Returned (m : Mode) (v : View) (timeoutMs : Int) (r : IOResult) (v' : View) : Prop :=
  (r.iodone = true ∧ ∃ b, v' = v.await b ∧ (timeoutMs < 0 → r.ioRet = b)) ∨ (m ≠ .waited ∧ v' = v)

theorem ensures_waitForCompletion {timeoutMs : Int} :
    Ensures m i v (waitForCompletion i timeoutMs) (Returned m v timeoutMs) := by
  apply Ensures.bind ensures_reads
  rintro task w (⟨detached, b, rfl⟩ | ⟨mode, rfl, attached⟩)
  · rw [if_neg (not_not_intro detached)]
    refine Ensures.bind (ensures_wait fun _ => nofun) ?_
    rintro (_ | _) _ ⟨rfl, came⟩
    · have limited : ¬ timeoutMs < 0 := fun unlimited => absurd (came unlimited) nofun
      have done : ∀ message, Returned m v timeoutMs
          ⟨-1, task.buffer.activeFileDescriptor, true, message⟩ (v.await b) :=
        fun _ => Or.inl ⟨rfl, b, rfl, fun unlimited => absurd unlimited limited⟩
      rw [if_neg nofun]
      split <;> exact Ensures.pure (done _)
    · rw [if_pos rfl]
      apply Ensures.bind ensures_loadTask_awaits
      rintro done _ ⟨rfl, rfl⟩
      exact Ensures.pure (Or.inl ⟨rfl, _, rfl, fun _ => rfl⟩)
  · split
    · exact Ensures.pure (Or.inr ⟨mode, rfl⟩)
    next detached =>
    have calm : w.Calm m := fun same => absurd (attached same) (by simpa using detached)
    apply Ensures.bind (ensures_wait calm)
    rintro (_ | _) _ ⟨rfl, -⟩
    · rw [if_neg nofun]
      split <;> exact Ensures.pure (Or.inr ⟨mode, rfl⟩)
    · rw [if_pos rfl]
      apply Ensures.bind ensures_loadTask
      rintro done _ rfl
      exact Ensures.pure (Or.inr ⟨mode, rfl⟩)

theorem ensures_record {timeoutMs : Int} {r : IOResult} {w : View} (awake : v.awaits = none)
    (returned : Returned m v timeoutMs r w) :
    Ensures m i w (.store fun s => { s with
      results := (timeoutMs, r, s.dispatched) :: s.results, waiting := s.waiting.filter (· ≠ i) } : Code Unit)
      fun _ v' => v' = v := by
  apply Ensures.exchange
  intro s holds _
  obtain ⟨valid, seen⟩ := holds
  have good (mode : m = .waited) : r.iodone = true ∧ (timeoutMs < 0 → s.dispatched = some r.ioRet) := by
    obtain ⟨done, b, rfl, same⟩ := returned.resolve_right fun other => other.1 mode
    have awaits : (view m i s).awaits = some b := congrArg View.awaits seen
    refine ⟨done, fun unlimited => ?_⟩
    rw [same unlimited]
    exact (valid.outcome b (awaits_some awaits).2).2 mode
  have back : v.hand = (view m i s).hand ∧ v.lock = (view m i s).lock := by
    have hand : w.hand = (view m i s).hand := congrArg View.hand seen.symm
    have lock : w.lock = (view m i s).lock := congrArg View.lock seen.symm
    rcases returned with ⟨-, b, rfl, -⟩ | ⟨-, rfl⟩ <;> exact ⟨hand, lock⟩
  have left : i ∉ s.waiting.filter (· ≠ i) := by simp
  refine ⟨v, rfl, moves_waiting ?_ (fun _ => rfl) (fun _ => rfl) rfl (fun j other => ?_)
    (View.ext back.1.symm ((if_neg fun both => left both.2).trans awake.symm) back.2.symm)⟩
  · refine { valid with
      waiting := fun mode j waits => valid.waiting mode j (List.mem_filter.mp waits).1
      results := fun mode r' member => ?_
      delivery := { valid.delivery with } }
    rcases List.mem_cons.mp member with rfl | before
    · exact good mode
    · exact valid.results mode r' before
  · simp [List.mem_filter, other]

/-! ### User code and the procedures -/

theorem ensures_cancel : Ensures m i v cancel fun _ v' => v' = v := by
  apply Ensures.bind ensures_loadTask
  rintro task _ rfl
  apply Ensures.bind (ensures_queueExtraSqe _)
  rintro _ _ rfl
  exact Ensures.pure rfl

theorem ensures_setRepeatForever (value : Bool) : Ensures m i v (setRepeatForever value) fun _ v' => v' = v := by
  cases value with
  | true =>
    apply Ensures.bind ensures_undetach
    rintro _ _ rfl
    exact ensures_storeTask fun _ => rfl
  | false => exact ensures_storeTask fun _ => rfl

theorem ensures_perform (action : Action) (awake : v.awaits = none) :
    Ensures m i v (perform i action) fun _ v' => v' = v := by
  cases action with
  | stop => exact Ensures.pure rfl
  | addTask => exact ensures_addTask_call awake
  | cancel => exact ensures_cancel
  | configure config => exact ensures_storeTask fun _ => rfl
  | setRepeatForever value => exact ensures_setRepeatForever value
  | wait timeoutMs =>
    apply Ensures.bind ensures_waitForCompletion
    rintro result w returned
    exact ensures_record awake returned

theorem ensures_user (awake : v.awaits = none) : Ensures m i v (code i .user) fun _ v' => v' = v := by
  refine Ensures.bind (M := fun _ w => w = v) (Ensures.choose fun _ => rfl) ?_
  rintro choice _ rfl
  split
  · exact Ensures.pure rfl
  · apply Ensures.bind (ensures_perform choice.action awake)
    rintro _ _ rfl
    exact Ensures.enter (by exact awake) fun _ _ same => same

theorem ensures_handleFailedTask (hand : v.hand = some h) (ended : h.Over m) (fresh : h.outcome = none)
    (awake : v.awaits = none) :
    Ensures m i v (code i .handleFailedTask) fun _ v' => v' = v.drop := by
  refine Ensures.bind (M := fun _ w => w = v) ?_ ?_
  · refine Ensures.exchange fun s holds _ => ?_
    obtain ⟨valid, rfl⟩ := holds
    exact ⟨_, rfl, moves_aside (valid.set rfl) fun _ => rfl⟩
  rintro before _ rfl
  refine Ensures.bind ensures_loadTask ?_
  rintro task _ rfl
  split
  · refine Ensures.bind (ensures_setTaskState hand fun _ => fresh) ?_
    rintro _ _ rfl
    refine Ensures.bind (ensures_addTask_call awake) ?_
    rintro _ _ rfl
    exact Ensures.pure rfl
  · refine Ensures.bind (ensures_user_call awake) ?_
    rintro _ _ rfl
    refine Ensures.bind (ensures_setDebugStr _) ?_
    rintro _ _ rfl
    refine Ensures.bind (ensures_storeTask fun _ => rfl) ?_
    rintro _ _ rfl
    have settled : ¬ TaskState.Live .kFailed := by decide
    refine Ensures.bind (ensures_markDetachedAndComplete hand ended) ?_
    rintro _ _ rfl
    refine Ensures.bind (ensures_setTaskState rfl fun live => absurd live settled) ?_
    rintro _ _ rfl
    refine Ensures.bind ensures_deleteTask ?_
    rintro _ _ rfl
    exact Ensures.pure rfl

theorem ensures_resubmitBlocked (awake : v.awaits = none) :
    Ensures m i v (code i .resubmitBlocked) fun _ v' => v' = v ∧ v.hand = none := by
  refine Ensures.bind (Ensures.enter (by exact awake) fun _ _ added => added) ?_
  rintro (_ | _) _ ⟨rfl, passed⟩
  · exact Ensures.enter (by exact awake) fun _ _ returned => returned
  · exact Ensures.pure ⟨rfl, passed rfl⟩

theorem ensures_takeCqe : Ensures m i v takeCqe fun _ v' => v' = v := by
  apply Ensures.atomic
  intro c s t holds stepped _
  cases Option.some.inj stepped
  obtain ⟨valid, rfl⟩ := holds
  exact ⟨_, rfl, moves_aside { valid with delivery := { valid.delivery with } } fun _ => rfl⟩

theorem ensures_runEventLoop (free : v.hand = none) (awake : v.awaits = none) :
    Ensures m i v (code i .runEventLoop) fun _ _ => True := by
  refine Ensures.bind ensures_takeCqe ?_
  rintro (_ | ⟨cqe, res⟩) _ rfl
  · refine Ensures.bind (ensures_user_call awake) ?_
    rintro _ _ rfl
    exact Ensures.enter ⟨awake, free⟩ fun _ _ _ => trivial
  · refine Ensures.bind (ensures_dispatchCqe free awake) ?_
    rintro _ _ rfl
    exact Ensures.enter ⟨awake, free⟩ fun _ _ _ => trivial

theorem meets (f : Procedure) (pre : (spec m).pre f v) : Ensures m i v (code i f) ((spec m).post f v) := by
  cases f with
  | addTask => exact ensures_addTask pre
  | handleFailedTask =>
    obtain ⟨awake, h, hand, ended, fresh⟩ := pre
    exact ensures_handleFailedTask hand ended fresh awake
  | resubmitBlocked => exact ensures_resubmitBlocked pre
  | cvWait => exact ensures_cvWait pre
  | cvWaitFor => exact ensures_cvWaitFor pre
  | runEventLoop => exact ensures_runEventLoop pre.2 pre.1
  | user => exact ensures_user pre

/-- The task of a fresh run. -/
theorem valid_start (config : Task) : Valid m (start config).shared where
  cleared := nofun
  signaled _ := nofun
  apart _ := nofun
  outcome := nofun
  marked := nofun
  unsettled _ _ := rfl
  waiting _ := nofun
  results _ := nofun
  delivery :=
    { exchanged := nofun, kept := fun _ late => absurd rfl late, parked := Or.inl rfl, flushed := fun _ _ => rfl
      freed := fun _ _ => rfl }

/-- The disciplines' invariant holds in every state that a run reaches. -/
theorem reaches_valid {config : Task} {last : Pool Thread Shared Choice Procedure Bool}
    (path : Pool.Reaches code m.Admits (start config) last) : Valid m last.shared := by
  refine invariant (O := ownership m) (K := fun _ => spec m) (fun i f v pre => meets f pre) (valid_start config)
    (fun i => ?_) path
  have awake : ((ownership m).view i (start config).shared).awaits = none := if_neg fun both => absurd both.2 nofun
  cases i with
  | loop =>
    refine Ensures.bind (Ensures.enter ⟨awake, rfl⟩ fun _ _ _ => trivial) ?_
    exact fun _ _ _ => Ensures.pure trivial
  | client n =>
    refine Ensures.bind (Ensures.enter (by exact awake) fun _ _ _ => trivial) ?_
    exact fun _ _ _ => Ensures.pure trivial

end Talon.Waiting
