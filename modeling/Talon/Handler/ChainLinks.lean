import Talon.Handler.Chain

/-! Where a run is in a chain, and what the completion of the current link does
there. -/
namespace Talon.Handler
open Interleaving

variable {i : Thread} {chain rest before : List Addr} {a b : Addr} {k : Nat} {res : Int} {e : Entry}
  {s t m origin : State} {trace : List Observation}

theorem Emits.unique {other : List Observation} (emits : Emits chain s t trace)
    (emitted : t.story chain = other.reverse ++ s.story chain) : trace = other := by
  have same : trace.reverse = other.reverse := List.append_cancel_right (emits.symm.trans emitted)
  exact List.reverse_inj.mp same

/-! ### What single steps record -/

theorem story_fill (member : a ∈ chain) : (s.fill a k).story chain = .submitted a :: s.story chain := by
  unfold State.fill
  split <;> simp [State.story, State.queueExtra, State.queue, State.setTask, List.filterMap_cons,
    Event.observed, member]

theorem story_accept (member : a ∈ chain) : (s.accept i a).story chain = .submitted a :: s.story chain := by
  change (State.fill _ a s.submissions).story chain = _
  rw [story_fill member]
  simp [State.story, State.setTask, State.reserve, State.gate, List.filterMap_cons, Event.observed]

theorem story_destroy {inherited : Bool} {cause : Option Nat} (member : a ∈ chain) :
    (s.destroy i a inherited cause).story chain = .destroyed a :: s.story chain := by
  simp [State.story, State.destroy, Event.observed, member]

theorem story_handled (member : a ∈ chain) : (s.handled a).story chain = .called a :: s.story chain := by
  simp [State.story, State.handled, State.record, Event.observed, member]

theorem entries_fill (member : a ∈ chain) (untimed : (s.task a).timeoutMs ≤ 0) :
    (s.fill a k).entries chain = s.entries chain ++ [⟨a, .kNone, k⟩] := by
  simp [State.fill, Int.not_lt.mpr untimed, State.entries, State.outstanding, State.queue, State.setTask, member]

theorem entries_submit : s.submit.entries chain = s.entries chain := by
  simp [State.entries, State.outstanding, State.submit]

theorem entries_accept (member : a ∈ chain) (untimed : (s.task a).timeoutMs ≤ 0) :
    (s.accept i a).entries chain = s.entries chain ++ [⟨a, .kNone, s.submissions⟩] := by
  rw [State.accept, entries_submit, entries_fill member]
  · rfl
  · simpa [State.gate, State.reserve, Task.readied] using untimed

theorem limit_accept : (s.accept i a).maxInflightOps = s.maxInflightOps := by
  unfold State.accept State.fill
  split <;> rfl

/-- The completion that is dispatched is the only one of the chain. -/
theorem entries_find (alone : s.entries chain = [e]) (queued : e ∈ s.ring) (member : e.task ∈ chain) :
    ((s.take e).find e).entries chain = [] := by
  have kept : e ∈ s.ring.filter fun e => decide (e.task ∈ chain) :=
    List.mem_filter.mpr ⟨queued, decide_eq_true member⟩
  obtain ⟨l, r, split⟩ := List.append_of_mem kept
  simp only [State.entries, State.outstanding, List.filter_append, split] at alone
  have lengths := congrArg List.length alone
  simp only [List.length_append, List.length_cons, List.length_nil] at lengths
  have noSq : s.sq.filter (fun e => decide (e.task ∈ chain)) = [] := List.length_eq_zero_iff.mp (by omega)
  have left : l = [] := List.length_eq_zero_iff.mp (by omega)
  have right : r = [] := List.length_eq_zero_iff.mp (by omega)
  subst left right
  simp only [State.entries, State.outstanding, State.find, State.take, Option.toList_none, List.nil_append,
    List.filter_append, ← List.erase_filter, split, List.erase_cons_head, noSq, List.append_nil]

/-! ### Deletion -/

theorem Chained.congr (same : ∀ b ∈ chain, (t.task b).next = (s.task b).next) (chained : Chained s chain) :
    Chained t chain := by
  induction chain with
  | nil => trivial
  | cons a rest ih =>
    refine ⟨(same a List.mem_cons_self).trans chained.1, ?_⟩
    exact ih (fun b inside => same b (List.mem_cons_of_mem a inside)) chained.2

/-- `delete` of a task destroys what is left of its chain. -/
theorem story_deleteTask {inherited : Bool} {cause : Option Nat} {r : Bool}
    (chained : Chained s (a :: rest)) (inside : ∀ b ∈ a :: rest, b ∈ chain)
    (run : Runs (code i) (code i (.deleteTask a inherited cause)) s r t) :
    t.story chain = (a :: rest).map .destroyed ++ s.story chain := by
  induction rest generalizing a s t inherited r with
  | nil =>
    obtain ⟨m, deleted, run⟩ := runs_unit_bind.mp run
    simp only [runs_store_bind, runs_pure] at run
    obtain ⟨-, rfl⟩ := run
    have last : (s.task a).next = none := chained.1
    simp only [deleteNext, loadTask, runs_load_bind, last, runs_pure] at deleted
    obtain ⟨-, rfl⟩ := deleted
    exact story_destroy (inside a List.mem_cons_self)
  | cons b rest ih =>
    obtain ⟨m, deleted, run⟩ := runs_unit_bind.mp run
    simp only [runs_store_bind, runs_pure] at run
    obtain ⟨-, rfl⟩ := run
    have next : (s.task a).next = some b := chained.1
    simp only [deleteNext, loadTask, runs_load_bind, next, runs_enter_bind, runs_pure] at deleted
    obtain ⟨r', _, deleted, -, rfl⟩ := deleted
    rw [story_destroy (inside a List.mem_cons_self),
      ih chained.2 (fun c later => inside c (List.mem_cons_of_mem a later)) deleted]
    rfl

/-! ### The links -/

/-- The task at `a` is the next one to be submitted. -/
structure Due (origin : State) (chain before : List Addr) (a : Addr) (rest : List Addr) (s : State) : Prop where
  distinct : chain.Nodup
  split : chain = before ++ a :: rest
  chained : Chained s (a :: rest)
  waits : ∀ b ∈ a :: rest, Waits (s.task b)
  retries : ∀ b ∈ a :: rest, (s.task b).maxRetryCount = (origin.task b).maxRetryCount
  clear : s.entries chain = []
  unlimited : s.maxInflightOps = 0

/-- The operation of the task at `a` is under way. -/
structure At (origin : State) (chain before : List Addr) (a : Addr) (rest : List Addr) (s : State) : Prop where
  distinct : chain.Nodup
  split : chain = before ++ a :: rest
  chained : Chained s (a :: rest)
  waits : ∀ b ∈ rest, Waits (s.task b)
  retries : ∀ b ∈ a :: rest, (s.task b).maxRetryCount = (origin.task b).maxRetryCount
  submitted : (s.task a).taskState = .kSubmitted
  uncancelled : (s.task a).isCancel = false
  supported : (s.task a).supported
  once : (s.task a).repeatForever = false
  untimed : (s.task a).timeoutMs ≤ 0
  tries : 0 ≤ (s.task a).tryCount
  counted : 0 < (s.task a).maxRetryCount → (s.task a).tryCount = 0
  entries : ∃ k, s.entries chain = [⟨a, .kNone, k⟩]
  unlimited : s.maxInflightOps = 0

theorem At.congr (here : At origin chain before a rest s) (task : ∀ b ∈ a :: rest, t.task b = s.task b)
    (entries : t.entries chain = s.entries chain) (limit : t.maxInflightOps = s.maxInflightOps) :
    At origin chain before a rest t := by
  have own := task a List.mem_cons_self
  refine ⟨here.distinct, here.split, here.chained.congr fun b inside => ?_, fun b inside => ?_,
    fun b inside => ?_, ?_, ?_, ?_, ?_, ?_, ?_, ?_, entries ▸ here.entries, limit.trans here.unlimited⟩
  · rw [task b inside]
  · rw [task b (List.mem_cons_of_mem a inside)]
    exact here.waits b inside
  · rw [task b inside]
    exact here.retries b inside
  all_goals rw [own]
  · exact here.submitted
  · exact here.uncancelled
  · exact here.supported
  · exact here.once
  · exact here.untimed
  · exact here.tries
  · exact here.counted

theorem mem_split (split : chain = before ++ a :: rest) (inside : b ∈ a :: rest) : b ∈ chain := by
  rw [split]
  exact List.mem_append_right before inside

theorem ne_of_split (distinct : chain.Nodup) (split : chain = before ++ a :: rest) (inside : b ∈ rest) : b ≠ a := by
  rw [split, List.nodup_append] at distinct
  rintro rfl
  exact (List.nodup_cons.mp distinct.2.1).1 inside

theorem At.spares (here : At origin chain before a rest s) (spares : Spares chain s t) :
    At origin chain before a rest t :=
  here.congr (fun b inside => spares.task b (mem_split here.split inside)) spares.entries spares.limit

/-- A step that only writes to the first of the tasks, and not to its link. -/
theorem links_of_head
    (own : (t.task a).next = (s.task a).next ∧ (t.task a).maxRetryCount = (s.task a).maxRetryCount)
    (others : ∀ b ∈ rest, t.task b = s.task b) :
    ∀ b ∈ a :: rest, (t.task b).next = (s.task b).next ∧
      (t.task b).maxRetryCount = (s.task b).maxRetryCount := by
  intro b inside
  rcases List.mem_cons.mp inside with rfl | later
  · exact own
  · rw [others b later]
    exact ⟨rfl, rfl⟩

/-- `AddTask` without a limit submits the task. -/
theorem Due.adds {r : Bool} (due : Due origin chain before a rest s)
    (run : Runs (code i) (addTask i a) s r t) (sqes : t.refused = s.refused) :
    At origin chain before a rest t ∧ t.story chain = .submitted a :: s.story chain := by
  have waits := due.waits a List.mem_cons_self
  have member : a ∈ chain := mem_split due.split List.mem_cons_self
  have room : s.Room := by
    intro limited
    rw [due.unlimited] at limited
    contradiction
  obtain ⟨-, rfl⟩ := (runs_addTask_accepts waits.idle room waits.supported).mp ⟨run, sqes⟩
  have others : ∀ b ∈ rest, (s.accept i a).task b = s.task b := fun b inside =>
    accept_task_of_ne (ne_of_split due.distinct due.split inside)
  have own : (s.accept i a).task a = { (s.task a).readied with taskState := .kSubmitted, userData := some a } :=
    accept_task_self
  have links := links_of_head (by rw [own]; exact ⟨rfl, rfl⟩) others
  refine ⟨⟨due.distinct, due.split, due.chained.congr fun b inside => (links b inside).1, fun b inside => ?_,
    fun b inside => (links b inside).2.trans (due.retries b inside), by rw [own], ?_, ?_, ?_, ?_, ?_, ?_,
    ⟨s.submissions, ?_⟩, limit_accept.trans due.unlimited⟩, story_accept member⟩
  · rw [others b inside]
    exact due.waits b (List.mem_cons_of_mem a inside)
  · rw [own]
    rfl
  · rw [own]
    exact waits.supported
  · rw [own]
    exact waits.once
  · rw [own]
    exact waits.untimed
  · rw [own, Task.readied]
    dsimp only
    split
    · exact Int.le_refl 0
    · exact waits.tries
  · rw [own, Task.readied]
    exact fun retries => if_pos retries
  · rw [entries_accept member waits.untimed, due.clear]
    rfl

theorem mem_entries (queued : e ∈ s.ring) (member : e.task ∈ chain) : e ∈ s.entries chain := by
  refine List.mem_filter.mpr ⟨?_, decide_eq_true member⟩
  exact List.mem_append_left _ (List.mem_append_right _ queued)

/-- The only completion that can come is that of the task at `a`. -/
theorem At.only (here : At origin chain before a rest s) (queued : e ∈ s.ring) (member : e.task ∈ chain) :
    ∃ k, e = ⟨a, .kNone, k⟩ ∧ s.entries chain = [⟨a, .kNone, k⟩] := by
  obtain ⟨k, alone⟩ := here.entries
  have found := mem_entries queued member
  rw [alone, List.mem_singleton] at found
  exact ⟨k, found, alone⟩

/-- The dispatch of the completion has begun: so far it has only written to the
task at `a`. -/
structure Opens (chain : List Addr) (a : Addr) (s m : State) : Prop where
  others : ∀ b ∈ chain, b ≠ a → m.task b = s.task b
  story : m.story chain = s.story chain
  clear : m.entries chain = []
  limit : m.maxInflightOps = s.maxInflightOps

theorem Opens.setTask (opens : Opens chain a s m) (f : Task → Task) : Opens chain a s (m.setTask a f) :=
  { opens with others := fun b inside other => (setTask_task_of_ne other).trans (opens.others b inside other) }

theorem opens_delivered (alone : s.entries chain = [⟨a, .kNone, k⟩]) (queued : ⟨a, .kNone, k⟩ ∈ s.ring)
    (member : a ∈ chain) : Opens chain a s (s.delivered a k res) := by
  have found : Opens chain a s ((s.take ⟨a, .kNone, k⟩).find ⟨a, .kNone, k⟩) :=
    ⟨fun _ _ _ => rfl, rfl, entries_find alone queued member, rfl⟩
  rw [State.delivered, State.deliver]
  exact found.setTask _

theorem delivered_task : (s.delivered a k res).task a = { s.task a with
    buffer := { (s.task a).buffer with bytesTransferred := res, activeFileDescriptor := (s.task a).fd } } := by
  rw [State.delivered, State.deliver, setTask_task_self]
  rfl

/-- The handler has returned. -/
structure Handled (chain : List Addr) (a : Addr) (s called m : State) : Prop where
  own : m.task a = called.task a
  others : ∀ b ∈ chain, b ≠ a → m.task b = s.task b
  story : m.story chain = .called a :: s.story chain
  clear : m.entries chain = []
  limit : m.maxInflightOps = s.maxInflightOps

theorem Opens.handled {called : State} (opens : Opens chain a s called) (member : a ∈ chain)
    (handler : Spares chain (called.handled a) m) : Handled chain a s called m where
  own := handler.task a member
  others b inside other := (handler.task b inside).trans (opens.others b inside other)
  story := handler.story.trans ((story_handled member).trans (congrArg _ opens.story))
  clear := handler.entries.trans opens.clear
  limit := handler.limit.trans opens.limit

theorem refused_handler {called : State} (run : Runs (code i) (executeCompletionHandler a) called () m) :
    called.refused ≤ m.refused :=
  runs_refused [a] (frames_executeCompletionHandler (refused_frame _) List.mem_cons_self) run

theorem refused_finishSuccess (run : Runs (code .loop) (finishSuccess a k res) m () t) :
    m.refused ≤ t.refused :=
  runs_refused [a] (frames_finishSuccess (refused_frame _) List.mem_cons_self res) run

/-- The success of a link submits its successor. -/
theorem At.finishes_next {called : State} (here : At origin chain before a (b :: rest) s)
    (handled : Handled chain a s called m) (next : (m.task a).next = some b)
    (once : (m.task a).repeatForever = false) (run : Runs (code .loop) (finishSuccess a k res) m () t)
    (sqes : t.refused = m.refused) :
    At origin chain (before ++ [a]) b rest t ∧ t.story chain = .submitted b :: m.story chain := by
  obtain ⟨v, w, repeated, submits, ended⟩ := runs_finishSuccess_settles (fun _ => Or.inr (by rw [next]; rfl)) run
  rw [once, runs_repeatOrDetach_once] at repeated
  have links : (v.task a).next = some b := by
    rw [repeated, setTask_task_self]
    simpa [State.settle] using next
  obtain ⟨none_, -⟩ | ⟨n, r, chained, added⟩ := runs_submitNext submits
  · rw [links] at none_
    contradiction
  obtain rfl := Option.some.inj (links.symm.trans chained)
  have later : ∀ c ∈ b :: rest, c ≠ a ∧ c ∈ chain := fun c inside =>
    ⟨ne_of_split here.distinct here.split inside, mem_split here.split (List.mem_cons_of_mem a inside)⟩
  have kept : ∀ c ∈ b :: rest, (v.setTask a fun task => { task with next := none }).task c = s.task c := by
    intro c inside
    obtain ⟨other, member⟩ := later c inside
    rw [repeated]
    simp [State.settle, other, handled.others c member other]
  have due : Due origin chain (before ++ [a]) b rest (v.setTask a fun task => { task with next := none }) := by
    refine ⟨here.distinct, ?_, here.chained.2.congr fun c inside => ?_, fun c inside => ?_, fun c inside => ?_,
      ?_, ?_⟩
    · rw [here.split, List.append_assoc]
      rfl
    · rw [kept c inside]
    · rw [kept c inside]
      exact here.waits c inside
    · rw [kept c inside]
      exact here.retries c (List.mem_cons_of_mem a inside)
    · rw [repeated]
      exact handled.clear
    · rw [repeated]
      exact handled.limit.trans here.unlimited
  have same : w.refused = m.refused := by
    rcases ended with rfl | rfl <;> exact sqes
  obtain ⟨reached, told⟩ := due.adds added (by rw [same, repeated]; rfl)
  have story : t.story chain = w.story chain := by
    rcases ended with rfl | rfl <;> rfl
  refine ⟨?_, story.trans (told.trans ?_)⟩
  · refine reached.congr (fun c inside => ?_) ?_ ?_
    · rcases ended with rfl | rfl
      · rfl
      · exact setTask_task_of_ne (later c inside).1
    · rcases ended with rfl | rfl <;> rfl
    · rcases ended with rfl | rfl <;> rfl
  · rw [repeated]
    rfl

/-- A task is closed and deleted with the rest of its chain. -/
theorem story_close {state : TaskState} {cause : Option Nat} {u : Unit} (chained : Chained s (a :: rest))
    (inside : ∀ b ∈ a :: rest, b ∈ chain)
    (run : Runs (code i) (deleteTask a cause) (s.close i a state cause) u t) :
    t.story chain = (a :: rest).map .destroyed ++ s.story chain ∧ t.entries chain = s.entries chain := by
  have entries := congrArg (List.filter fun e : Entry => decide (e.task ∈ chain))
    (deletes_of_deleteTask run).outstanding
  have kept : Chained (s.close i a state cause) (a :: rest) := by
    refine chained.congr fun b inside => ?_
    by_cases own : b = a
    · subst own
      simp [State.close, State.settle]
    · simp [State.close, State.settle, own]
  simp only [deleteTask, runs_enter_bind, runs_pure] at run
  obtain ⟨r, m, deleted, -, rfl⟩ := run
  have told := story_deleteTask kept inside deleted
  exact ⟨told, entries⟩

/-- The success of the last link ends the chain. Only an empty result deletes the task. -/
theorem finishes_last (member : a ∈ chain) (last : (m.task a).next = none)
    (once : (m.task a).repeatForever = false) (run : Runs (code .loop) (finishSuccess a k res) m () t) :
    t.entries chain = m.entries chain ∧
    (t.story chain = m.story chain ∨ t.story chain = .destroyed a :: m.story chain) := by
  by_cases empty : res = 0
  · subst empty
    obtain ⟨v, closed, deleted⟩ := runs_finishSuccess_closes once last run
    have chained : Chained v [a] := by
      refine ⟨?_, trivial⟩
      rcases closed with ⟨rfl, -⟩ | ⟨-, rfl⟩
      · exact last
      · rw [setTask_task_self]
        exact last
    have same : v.entries chain = m.entries chain ∧ v.story chain = m.story chain := by
      rcases closed with ⟨rfl, -⟩ | ⟨-, rfl⟩ <;> exact ⟨rfl, rfl⟩
    have inside : ∀ b ∈ [a], b ∈ chain := by simpa using member
    obtain ⟨told, entries⟩ := story_close chained inside deleted
    exact ⟨entries.trans same.1, Or.inr (told.trans (congrArg _ same.2))⟩
  · obtain ⟨v, w, repeated, submits, ended⟩ := runs_finishSuccess_settles (fun zero => absurd zero empty) run
    rw [once, runs_repeatOrDetach_once] at repeated
    have unchained : (v.task a).next = none := by
      rw [repeated, setTask_task_self]
      simpa [State.settle] using last
    obtain ⟨-, rfl⟩ | ⟨n, r, chained, -⟩ := runs_submitNext submits
    · rw [repeated] at ended
      rcases ended with rfl | rfl <;> exact ⟨rfl, Or.inl rfl⟩
    · rw [unchained] at chained
      contradiction

/-- The completion reaches `HandleNormalEvent`. -/
theorem At.acts (here : At origin chain before a rest s) (run : Dispatches ⟨a, .kNone, k⟩ res s t) :
    ∃ last, Runs (code .loop) (handleNormalEvent a k res)
      ((s.take ⟨a, .kNone, k⟩).find ⟨a, .kNone, k⟩) () last ∧
        t = last.release k ((s.take ⟨a, .kNone, k⟩).liveSubmission a) := by
  have live : TaskState.Live ((s.take ⟨a, .kNone, k⟩).task a).taskState := Or.inl here.submitted
  obtain ⟨last, acted, rfl⟩ := (runs_dispatchCqe_acts (e := ⟨a, .kNone, k⟩) live).mp run.2
  exact ⟨last, (runs_actOnCqe_handles here.uncancelled).mp acted, rfl⟩

theorem Opens.chained (opens : Opens chain a s m) (here : At origin chain before a rest s)
    (own : (m.task a).next = (s.task a).next) : Chained m (a :: rest) := by
  refine here.chained.congr fun b inside => ?_
  rcases List.mem_cons.mp inside with rfl | later
  · exact own
  · rw [opens.others b (mem_split here.split inside) (ne_of_split here.distinct here.split later)]

/-- An operation that the kernel cancelled takes the rest of the chain with it. -/
theorem At.canceled (here : At origin chain before a rest s) (alone : s.entries chain = [⟨a, .kNone, k⟩])
    (run : Dispatches ⟨a, .kNone, k⟩ (-ECANCELED) s t) :
    t.story chain = (a :: rest).map .destroyed ++ s.story chain ∧ t.entries chain = [] := by
  obtain ⟨last, handled, rfl⟩ := here.acts run
  have live : TaskState.Live (((s.take ⟨a, .kNone, k⟩).find ⟨a, .kNone, k⟩).task a).taskState :=
    Or.inl here.submitted
  have untimed : ¬ 0 < (((s.take ⟨a, .kNone, k⟩).find ⟨a, .kNone, k⟩).task a).timeoutMs :=
    Int.not_lt.mpr here.untimed
  have deleted := (runs_handleNormalEvent_canceled live).mp handled
  rw [if_neg untimed] at deleted
  have opens : Opens chain a s ((s.delivered a k (-ECANCELED)).setTask a fun task =>
      { task with debugStr := "cancelled by kernel" }) :=
    (opens_delivered alone run.1 (mem_split here.split List.mem_cons_self)).setTask _
  have chained := opens.chained here (by rw [setTask_task_self, delivered_task])
  obtain ⟨told, entries⟩ := story_close chained (fun b => mem_split here.split) deleted
  exact ⟨told.trans (congrArg _ opens.story), entries.trans opens.clear⟩

theorem At.exhausted (here : At origin chain before a rest s) (retries : (origin.task a).maxRetryCount ≤ 1) :
    (s.task a).maxRetryCount ≤ (s.task a).tryCount + 1 := by
  have same := here.retries a List.mem_cons_self
  have tries := here.tries
  omega

theorem At.dispatches_fails (here : At origin chain before a rest s) (failure : res < 0)
    (again : res ≠ -EAGAIN) (uncanceled : res ≠ -ECANCELED) (retries : (origin.task a).maxRetryCount ≤ 1)
    (run : Dispatches ⟨a, .kNone, k⟩ res s t) : ∃ m, GivesUp a k res s m t := by
  obtain ⟨last, handled, rfl⟩ := here.acts run
  obtain ⟨r, failed⟩ := (runs_handleNormalEvent_fails failure again uncanceled).mp handled
  have last := here.exhausted retries
  have exhausted : ((s.delivered a k res).task a).maxRetryCount ≤ ((s.delivered a k res).task a).tryCount + 1 := by
    rw [delivered_task]
    exact last
  obtain ⟨m, handled, deleted⟩ := runs_handleFailedTask_fails exhausted failed
  exact ⟨m, failure, uncanceled, last, handled, _, _, deleted, rfl⟩

/-- So does a failure that is not retried. -/
theorem At.fails {called : State} (here : At origin chain before a rest s)
    (handled : Handled chain a s called m) (own : (m.task a).next = (s.task a).next)
    (fails : GivesUp a k res s m t) :
    t.story chain = (a :: rest).map .destroyed ++ m.story chain ∧ t.entries chain = [] := by
  obtain ⟨text, last, deleted, rfl⟩ := fails.finished
  have chained : Chained (m.setTask a fun task => { task with debugStr := text, tryCount := 0 }) (a :: rest) := by
    refine here.chained.congr fun b inside => ?_
    rcases List.mem_cons.mp inside with rfl | later
    · rw [setTask_task_self]
      exact own
    · have other := ne_of_split here.distinct here.split later
      rw [setTask_task_of_ne other, handled.others b (mem_split here.split inside) other]
  obtain ⟨told, entries⟩ := story_close chained (fun b => mem_split here.split) deleted
  exact ⟨told, entries.trans handled.clear⟩

/-- A failure that is retried submits the same task again. -/
theorem At.retried (here : At origin chain before a rest s) (alone : s.entries chain = [⟨a, .kNone, k⟩])
    (failure : res < 0) (again : res ≠ -EAGAIN) (uncanceled : res ≠ -ECANCELED)
    (retries : 1 < (origin.task a).maxRetryCount) (run : Dispatches ⟨a, .kNone, k⟩ res s t)
    (sqes : t.refused = s.refused) :
    At origin chain before a rest t ∧ t.story chain = .submitted a :: s.story chain := by
  obtain ⟨last, handled, rfl⟩ := here.acts run
  obtain ⟨r, failed⟩ := (runs_handleNormalEvent_fails failure again uncanceled).mp handled
  have same := here.retries a List.mem_cons_self
  have counted : (s.task a).tryCount = 0 := here.counted (by omega)
  have more : ((s.delivered a k res).task a).tryCount + 1 < ((s.delivered a k res).task a).maxRetryCount := by
    rw [delivered_task]
    dsimp only
    omega
  obtain ⟨r', added⟩ := runs_handleFailedTask_retries more failed
  have opens : Opens chain a s ((s.delivered a k res).retried a) :=
    (opens_delivered alone run.1 (mem_split here.split List.mem_cons_self)).setTask _
  have own : (((s.delivered a k res).retried a).settle .loop a .kReady (some k) false).task a =
      { (s.delivered a k res).task a with
        taskState := .kReady, tryCount := ((s.delivered a k res).task a).tryCount + 1 } := by
    simp [State.settle, State.retried]
  rw [delivered_task] at own
  have others : ∀ b ∈ rest,
      (((s.delivered a k res).retried a).settle .loop a .kReady (some k) false).task b = s.task b := by
    intro b inside
    have other := ne_of_split here.distinct here.split inside
    have kept := opens.others b (mem_split here.split (List.mem_cons_of_mem a inside)) other
    simpa [State.settle, other] using kept
  have links := links_of_head (by rw [own]; exact ⟨rfl, rfl⟩) others
  have due : Due origin chain before a rest
      (((s.delivered a k res).retried a).settle .loop a .kReady (some k) false) := by
    refine ⟨here.distinct, here.split, here.chained.congr fun b inside => (links b inside).1,
      fun b inside => ?_, fun b inside => (links b inside).2.trans (here.retries b inside), opens.clear,
      opens.limit.trans here.unlimited⟩
    rcases List.mem_cons.mp inside with rfl | later
    · rw [own]
      refine ⟨?_, here.supported, here.once, here.untimed, ?_⟩
      · dsimp only
        decide
      · dsimp only
        omega
    · rw [others b later]
      exact here.waits b later
  obtain ⟨reached, told⟩ := due.adds added sqes
  exact ⟨reached.congr (fun _ _ => rfl) rfl rfl, told.trans (congrArg _ opens.story)⟩

end Talon.Handler
