import Talon.Handler.Parts

/-! Every move of the handler keeps the invariant and the views of the threads
that do not make it. -/
namespace Talon.Handler
open Interleaving Ownership

variable {m : Mode} {i : Thread} {v : View} {s : State} {a : Addr} {k : Nat}

abbrev Holds (m : Mode) (i : Thread) (v : View) (s : State) : Prop := (ownership m).Holds i v s

abbrev Moves (m : Mode) (i : Thread) (s t : State) (v : View) : Prop := (ownership m).Moves i s t v

@[simp] theorem grip_free (j : Thread) (current : Option Nat) : grip j .free current = none := rfl

@[simp] theorem grip_queued (j : Thread) (current : Option Nat) : grip j .queued current = none := rfl

@[simp] theorem grip_gated (j : Thread) (current : Option Nat) :
    grip j (.gated j) current = some (false, current) := if_pos rfl

@[simp] theorem grip_owned (j : Thread) (current : Option Nat) :
    grip j (.owned j) current = some (true, current) := if_pos rfl

/-- In these phases nobody but `i` holds the task. -/
def Phase.Spares (i : Thread) (phase : Phase) : Prop :=
  ∀ j, j ≠ i → ∀ current, grip j phase current = none

@[simp] theorem spares_free : Phase.Spares i .free := fun _ _ _ => rfl

@[simp] theorem spares_queued : Phase.Spares i .queued := fun _ _ _ => rfl

@[simp] theorem spares_gated : Phase.Spares i (.gated i) :=
  fun _ different _ => if_neg (Ne.symm different)

@[simp] theorem spares_owned : Phase.Spares i (.owned i) :=
  fun _ different _ => if_neg (Ne.symm different)

theorem grip_eq_gated {j : Thread} {phase : Phase} {current : Option Nat} {c : Option Nat}
    (held : grip j phase current = some (false, c)) : phase = .gated j ∧ current = c := by
  cases phase with
  | free => contradiction
  | gated l =>
    simp only [grip, Option.ite_none_right_eq_some, Option.some.injEq, Prod.mk.injEq, true_and] at held
    exact ⟨by rw [held.1], held.2⟩
  | owned l => simp [grip] at held
  | queued => contradiction

theorem grip_eq_owned {j : Thread} {phase : Phase} {current : Option Nat} {c : Option Nat}
    (held : grip j phase current = some (true, c)) : phase = .owned j ∧ current = c := by
  cases phase with
  | free => contradiction
  | gated l => simp [grip] at held
  | owned l =>
    simp only [grip, Option.ite_none_right_eq_some, Option.some.injEq, Prod.mk.injEq, true_and] at held
    exact ⟨by rw [held.1], held.2⟩
  | queued => contradiction

namespace Holds

theorem gated (holds : Holds m i v s) (held : v.hand a = some (false, some k)) :
    s.phase a = .gated i ∧ s.current a = some k := by
  obtain ⟨_, rfl⟩ := holds
  exact grip_eq_gated held

theorem owned (holds : Holds m i v s) (held : v.hand a = some (true, some k)) :
    s.phase a = .owned i ∧ s.current a = some k := by
  obtain ⟨_, rfl⟩ := holds
  exact grip_eq_owned held

theorem submitted (holds : Holds m i v s) (held : v.hand a ≠ none) :
    (s.task a).taskState = .kSubmitted := by
  obtain ⟨valid, rfl⟩ := holds
  have busy : s.phase a ≠ .free := fun idle => held (by simp [ownership, view, idle])
  by_contra other
  exact busy ((valid.tokens.standing a).token.mpr other)

end Holds

/-- A step that changes what thread `i` holds of `a`, and no other holding. -/
theorem moves_at {t : State} (held : Option (Bool × Option Nat)) (valid : Valid m t)
    (phase : ∀ b, b ≠ a → t.phase b = s.phase b) (current : ∀ b, b ≠ a → t.current b = s.current b)
    (limit : t.maxInflightOps = s.maxInflightOps)
    (loop : i ≠ .loop → t.active = s.active ∧ t.taken = s.taken)
    (doomed : ∀ j, j ≠ i → t.doomed.filter (fun d => d.thread = j) = s.doomed.filter fun d => d.thread = j)
    (before : (s.phase a).Spares i) (after : (t.phase a).Spares i)
    (grasp : grip i (t.phase a) (t.current a) = held) :
    Moves m i s t { view i t with hand := Function.update (view i s).hand a held } := by
  have hand (j : Thread) : (fun b => grip j (t.phase b) (t.current b)) =
      Function.update (fun b => grip j (s.phase b) (s.current b)) a
        (grip j (t.phase a) (t.current a)) := by
    funext b
    by_cases same : b = a
    · subst same
      rw [Function.update_self]
    · rw [Function.update_of_ne same, phase b same, current b same]
  refine ⟨valid, fun j different => ?_, ?_⟩
  · simp only [ownership, view, hand, limit, doomed j different, View.mk.injEq, and_true, true_and]
    constructor
    · rw [after j different, ← before j different (s.current a)]
      exact Function.update_eq_self a _
    · by_cases reader : j = .loop
      · obtain ⟨active, taken⟩ := loop fun mover => different (reader.trans mover.symm)
        simp only [active, taken, and_self]
      · simp only [if_neg reader, and_self]
  · simp only [ownership, view, hand i, grasp]

theorem moves_hold {t : State} (held : Option (Bool × Option Nat)) (valid : Valid m t)
    (seen : view i s = v) (phase : ∀ b, b ≠ a → t.phase b = s.phase b)
    (current : ∀ b, b ≠ a → t.current b = s.current b) (limit : t.maxInflightOps = s.maxInflightOps)
    (active : t.active = s.active) (taken : t.taken = s.taken) (doomed : t.doomed = s.doomed)
    (before : (s.phase a).Spares i) (after : (t.phase a).Spares i)
    (grasp : grip i (t.phase a) (t.current a) = held) : Moves m i s t (v.hold a held) := by
  have moves := moves_at (i := i) held valid phase current limit (fun _ => ⟨active, taken⟩)
    (fun _ _ => by rw [doomed]) before after grasp
  subst seen
  simpa only [view, View.hold, limit, active, taken, doomed] using moves

@[simp] theorem states_setTask (s : State) (a : Addr) (f : Task → Task) :
    (s.setTask a f).states = Function.update s.states a (f (s.task a)).taskState := by
  funext b
  by_cases same : b = a
  · subst same
    simp [State.states, State.setTask]
  · simp [State.states, State.setTask, same]

theorem states_setTask_same {f : Task → Task} (kept : (f (s.task a)).taskState = (s.task a).taskState) :
    (s.setTask a f).states = s.states := by
  rw [states_setTask, kept]
  exact Function.update_eq_self a s.states

/-- Fields of a task that the gate does not read. -/
theorem moves_setTask (holds : Holds m i v s) {f : Task → Task}
    (state : (f (s.task a)).taskState = (s.task a).taskState) : Moves m i s (s.setTask a f) v where
  inv := by
    obtain ⟨valid, _⟩ := holds
    refine ⟨valid.ledger, ?_, ?_, valid.logged⟩
    · rw [states_setTask_same state]
      exact valid.tokens
    · rw [states_setTask_same state]
      exact valid.rings
  others _ _ := rfl
  mine := holds.2

theorem moves_record (holds : Holds m i v s) {event : Event} (plain : ∀ e st, event ≠ .found e st)
    (own : event.isolated) : Moves m i s (s.record event) v where
  inv := by
    obtain ⟨valid, _⟩ := holds
    refine ⟨valid.ledger, valid.tokens, valid.rings, ?_⟩
    exact valid.logged.record plain fun _ => own
  others _ _ := rfl
  mine := holds.2

theorem moves_refuse (holds : Holds m i v s) : Moves m i s s.refuse v :=
  ⟨⟨holds.1.ledger, holds.1.tokens, holds.1.rings, holds.1.logged⟩,
    fun _ _ => rfl, holds.2⟩

theorem moves_see (holds : Holds m i v s) : Moves m i s (s.see a) v :=
  ⟨⟨holds.1.ledger, holds.1.tokens, holds.1.rings, holds.1.logged⟩, fun _ _ => rfl, holds.2⟩

theorem outstanding_submit (s : State) : s.submit.outstanding = s.outstanding := by
  simp [State.submit, State.outstanding]

theorem moves_submit (holds : Holds m i v s) : Moves m i s s.submit v where
  inv := by
    obtain ⟨valid, _⟩ := holds
    refine ⟨valid.ledger, valid.tokens, ?_, valid.logged⟩
    rw [outstanding_submit]
    exact valid.rings
  others _ _ := rfl
  mine := holds.2

theorem moves_shutdown (holds : Holds m i v s) :
    Moves m i s { s with shutdownRequested := true } v :=
  ⟨⟨holds.1.ledger, holds.1.tokens, holds.1.rings, holds.1.logged⟩,
    fun _ _ => rfl, holds.2⟩

theorem clear_spec {e : Entry} (clear : s.clear a = true) (member : e ∈ s.outstanding)
    (tracked : Mode.drained.tracks e) : e.task ≠ a := by
  intro same
  have spared := List.all_eq_true.mp clear e member
  simp [same, tracked] at spared

theorem spared_spec (spared : s.spared a = true) (d : Doom) (member : d ∈ s.doomed) : d.task ≠ a := by
  have kept := List.all_eq_true.mp spared d member
  simpa using kept

/-- An idle task has no completions outstanding, by discipline if it is `drained`. -/
theorem Valid.idle_clear (valid : Valid m s) (idle : s.phase a = .free)
    (clear : m = .drained → s.clear a = true) {e : Entry} (member : e ∈ s.outstanding)
    (tracked : m.tracks e) : e.task ≠ a := by
  by_cases drained : m = .drained
  · subst drained
    exact clear_spec (clear rfl) member tracked
  · intro same
    have ring := (valid.rings.entries e member tracked).2
    rw [same, idle] at ring
    simp [Mode.InRing, drained] at ring

theorem moves_gate (holds : Holds m i v s) (open_ : (s.task a).taskState ≠ .kSubmitted)
    (admitted : m.Admits s (s.gate i a)) :
    (∀ b, v.active ≠ some (b, s.submissions)) ∧
      Moves m i s (s.gate i a) (v.hold a (some (false, some s.submissions))) := by
  obtain ⟨valid, rfl⟩ := holds
  have idle : s.phase a = .free := (valid.tokens.standing a).token.mpr open_
  have permitted := admitted (.gated a s.submissions) rfl
  constructor
  · intro b dispatched
    have same : s.active = some (b, s.submissions) := by
      by_cases loop : i = .loop
      · simpa [ownership, view, loop] using dispatched
      · simp [ownership, view, loop] at dispatched
    exact Nat.lt_irrefl _ (valid.ledger.bounded _ (valid.tokens.dispatching b _ same).1)
  · have kept : Valid m (s.gate i a) := by
      refine ⟨valid.ledger.gate, ?_, ?_, ?_⟩
      · rw [show (s.gate i a).states = Function.update s.states a .kSubmitted from
          states_setTask s a fun task => { task with taskState := .kSubmitted }]
        exact valid.tokens.gate valid.ledger.bounded
      · refine valid.rings.relocate (a := a) (fun b different => ?_) fun e member tracked same => ?_
        · simp [State.gate, State.states, State.setTask, different]
        · refine absurd same (valid.idle_clear idle (fun drained => ?_) member tracked)
          subst drained
          simp only [Mode.permits, Bool.and_eq_true] at permitted
          exact permitted.1
      · refine (valid.logged.relocate (a := a) (fun b different => ?_) fun drained => ?_).record (by simp) fun _ => rfl
        · simp [State.gate, different]
        · subst drained
          simp only [Mode.permits, Bool.and_eq_true] at permitted
          exact spared_spec permitted.2
    exact moves_hold _ kept rfl (fun b different => by simp [State.gate, different])
      (fun b different => by simp [State.gate, different]) rfl rfl rfl rfl
      (by simp [idle]) (by simp [State.gate]) (by simp [State.gate])

theorem moves_reserve (holds : Holds m i v s) (held : v.hand a = some (false, some k))
    (room : 0 < v.limit → s.inflight < v.limit) :
    Moves m i s (s.reserve i a k) (v.hold a (some (true, some k))) := by
  obtain ⟨gated, number⟩ := Holds.gated holds held
  obtain ⟨valid, rfl⟩ := holds
  have unused := (valid.tokens.standing a).unreserved k i gated number
  have kept : Valid m (s.reserve i a k) := by
    refine ⟨valid.ledger.reserve ((valid.tokens.standing a).fresh k number) unused room,
      valid.tokens.reserve valid.ledger.given gated number, ?_, ?_⟩
    · refine valid.rings.relocate (a := a) (fun b different => ?_) fun e member tracked same => ?_
      · simp [State.reserve, State.states, different]
      · exact (valid.rings.none_of_held (by simp [Mode.InRing, gated]) member tracked same).elim
    · exact valid.logged.rephase fun drained => Or.inr (valid.logged.undoomed (by simp [gated]) drained)
  exact moves_hold _ kept rfl (fun b different => by simp [State.reserve, different])
    (fun _ _ => rfl) rfl rfl rfl rfl (by simp [gated]) (by simp [State.reserve])
    (by simp [State.reserve, number])

theorem moves_reject (holds : Holds m i v s) (held : v.hand a = some (false, some k)) :
    Moves m i s (s.reject a) (v.hold a none) := by
  obtain ⟨gated, -⟩ := Holds.gated holds held
  obtain ⟨valid, rfl⟩ := holds
  have kept : Valid m (s.reject a) := by
    refine ⟨valid.ledger, ?_, ?_, ?_⟩
    · rw [show (s.reject a).states = Function.update s.states a .kReady from
        states_setTask s a fun task => { task with taskState := .kReady }]
      exact valid.tokens.free (by simp)
    · refine valid.rings.relocate (a := a) (fun b different => ?_) fun e member tracked same => ?_
      · simp [State.reject, State.states, State.setTask, different]
      · exact (valid.rings.none_of_held (by simp [Mode.InRing, gated]) member tracked same).elim
    · exact valid.logged.rephase fun _ => Or.inl rfl
  exact moves_hold _ kept rfl (fun b different => by simp [State.reject, different])
    (fun _ _ => rfl) rfl rfl rfl rfl (by simp [gated]) (by simp [State.reject])
    (by simp [State.reject])

theorem outstanding_queue (s : State) (a : Addr) (flag : EventFlag) (k : Nat) :
    (s.queue a flag k).outstanding = s.outstanding ++ [⟨a, flag, k⟩] := by
  simp [State.queue, State.outstanding]

theorem moves_queue (holds : Holds m i v s) (held : v.hand a = some (true, some k))
    (apart : ∀ b, v.active ≠ some (b, k)) {flag : EventFlag} (completes : flag = .kNone ∨ flag = .kError) :
    Moves m i s (s.queue a flag k) (v.hold a none) := by
  obtain ⟨owned, number⟩ := Holds.owned holds held
  obtain ⟨valid, rfl⟩ := holds
  have kept : Valid m (s.queue a flag k) := by
    refine ⟨valid.ledger, ?_, ?_, ?_⟩
    · apply valid.tokens.queue owned number
      intro loop
      simpa [ownership, view, loop] using apart
    · rw [outstanding_queue]
      have moved : Rings m s.states (Function.update s.phase a .queued) s.current s.outstanding := by
        refine valid.rings.relocate (a := a) (fun b different => ?_) fun e member tracked same => ?_
        · simp [different]
        · subst same
          exact ⟨(valid.rings.entries e member tracked).1, Or.inl (Function.update_self ..)⟩
      refine moved.push (fun _ => ⟨number, Or.inl (Function.update_self ..)⟩) ?_
        fun _ => by simpa [Entry.principal] using completes
      intro opFirst _ other member principal same
      refine valid.rings.none_of_held (a := a) ?_ member (Mode.tracks_of_principal principal) same
      simp [Mode.InRing, opFirst, owned]
    · exact (valid.logged.rephase fun drained => Or.inr (valid.logged.undoomed (by simp [owned]) drained)).record
        (by simp) fun _ => rfl
  exact moves_hold _ kept rfl (fun b different => by simp [State.queue, different])
    (fun _ _ => rfl) rfl rfl rfl rfl (by simp [owned]) (by simp [State.queue])
    (by simp [State.queue])

/-- A further entry completes no submission. -/
theorem moves_queueExtra (holds : Holds m i v s) {e : Entry} {event : Event}
    (mixed : m ≠ .plain) (plain : ∀ e st, event ≠ .found e st) (own : event.isolated)
    (secondary : e.principal = false)
    (fits : m.tracks e → s.current e.task = some e.submission ∧
      m.InRing (s.phase e.task) (s.states e.task)) :
    Moves m i s (s.queueExtra e event) v where
  inv := by
    obtain ⟨valid, _⟩ := holds
    refine ⟨valid.ledger, valid.tokens, ?_, ?_⟩
    · rw [show (s.queueExtra e event).outstanding = s.outstanding ++ [e] by
        simp [State.queueExtra, State.outstanding]]
      exact valid.rings.push fits (fun _ principal => by simp [secondary] at principal)
        fun plain => absurd plain mixed
    · exact valid.logged.record plain fun _ => own
  others _ _ := rfl
  mine := holds.2

theorem moves_settle (holds : Holds m i v s) (held : v.hand a = some (true, some k))
    {state : TaskState} (final : state ≠ .kSubmitted) {cause : Option Nat} {dooms : Bool}
    (mine : cause = none ∨ cause = some k) (admitted : m.Admits s (s.settle i a state cause dooms)) :
    Moves m i s (s.settle i a state cause dooms)
      { v.hold a none with doomed := if dooms then ⟨i, a, some k⟩ :: v.doomed else v.doomed } := by
  obtain ⟨owned, number⟩ := Holds.owned holds held
  obtain ⟨valid, rfl⟩ := holds
  have target : s.liveSubmission a = some k := by simp [State.liveSubmission, owned, number]
  have kept : Valid m (s.settle i a state cause dooms) := by
    refine ⟨valid.ledger, ?_, ?_, ?_⟩
    · rw [show (s.settle i a state cause dooms).states = Function.update s.states a state from
        states_setTask s a fun task => { task with taskState := state }]
      exact valid.tokens.free final
    · refine valid.rings.relocate (a := a) (fun b different => ?_) fun e member tracked same => ?_
      · simp [State.settle, State.states, State.setTask, different]
      · -- Left-over completions of this submission will find the final state.
        subst same
        obtain ⟨number, ring⟩ := valid.rings.entries e member tracked
        refine ⟨number, Or.inr ?_⟩
        rcases ring with queued | ⟨rfl, -⟩
        · rw [owned] at queued
          contradiction
        · refine ⟨rfl, Or.inr ⟨Function.update_self .., ?_⟩⟩
          have permitted := admitted _ rfl
          cases state with
          | kReady => exact absurd rfl (clear_spec permitted member tracked)
          | kSubmitted => contradiction
          | _ => simp [State.settle, State.states, State.setTask, TaskState.Live]
    · refine Logged.record (Logged.dooming (valid.logged.rephase fun _ => Or.inl rfl) ?_) (by simp) ?_
      · intro d member
        cases dooms with
        | false => exact Or.inl member
        | true =>
          rcases List.mem_cons.mp member with rfl | member
          · exact Or.inr ⟨Function.update_self .., number.trans target.symm⟩
          · exact Or.inl member
      · intro _
        rw [target]
        rcases mine with rfl | rfl <;> simp [Event.isolated]
  have moves := moves_at (i := i) (a := a) (s := s) none kept
    (fun b different => by simp [State.settle, different]) (fun _ _ => rfl) rfl
    (fun _ => ⟨rfl, rfl⟩) (fun j different => ?_) (by simp [owned]) (by simp [State.settle])
    (by simp [State.settle])
  · cases dooms with
    | false => exact moves
    | true =>
      have doomed : (⟨i, a, s.liveSubmission a⟩ :: s.doomed).filter (fun d => d.thread = i) =
          ⟨i, a, some k⟩ :: s.doomed.filter fun d => d.thread = i := by
        rw [target]
        exact List.filter_cons_of_pos (by simp)
      rwa [show ({ view i (s.settle i a state cause true) with
          hand := Function.update (view i s).hand a none } : View) =
            { (view i s).hold a none with doomed := ⟨i, a, some k⟩ :: (view i s).doomed } from
        congrArg (View.mk _ _ _ _) doomed] at moves
  · cases dooms with
    | false => rfl
    | true => exact List.filter_cons_of_neg (by simpa using Ne.symm different)

theorem moves_take (holds : Holds m .loop v s) (idle : v.taken = none) {e : Entry}
    (posted : e ∈ s.ring) : Moves m .loop s (s.take e) { v with taken := some e } := by
  obtain ⟨valid, rfl⟩ := holds
  have empty : s.taken = none := by simpa [ownership, view] using idle
  have kept : Valid m (s.take e) := by
    refine ⟨valid.ledger, valid.tokens, valid.rings.perm ?_, valid.logged⟩
    simp only [State.outstanding, State.take, empty, Option.toList_none, Option.toList_some,
      List.nil_append, List.singleton_append]
    exact (List.perm_cons_erase posted).symm.append_right s.sq
  refine ⟨kept, fun j different => ?_, ?_⟩
  · simp [ownership, view, State.take, different]
  · simp [ownership, view, State.take]

theorem outstanding_find {e : Entry} (taken : s.taken = some e) :
    e ∈ s.outstanding ∧ (s.find e).outstanding.Sublist s.outstanding := by
  simp [State.outstanding, State.find, taken]

/-- The completion finds its task finished. -/
theorem moves_find_skip (holds : Holds m .loop v s) {e : Entry} (taken : v.taken = some e)
    (idle : v.active = none) (skipped : ¬ TaskState.Live (s.task e.task).taskState) :
    Moves m .loop s (s.find e) { v with taken := none } := by
  obtain ⟨valid, rfl⟩ := holds
  replace taken : s.taken = some e := by simpa [ownership, view] using taken
  replace idle : s.active = none := by simpa [ownership, view] using idle
  have finished : (s.task e.task).taskState ≠ .kSubmitted := fun same => skipped (Or.inl same)
  obtain ⟨member, fewer⟩ := outstanding_find taken
  have same : s.find e = { s with
      taken := none, log := .found e (s.task e.task).taskState :: s.log } := by
    simp only [State.find, if_neg finished, if_neg skipped]
  have kept : Valid m (s.find e) := by
    have rings := valid.rings.drop fewer
    rw [same] at rings ⊢
    refine ⟨valid.ledger, valid.tokens, rings, ?_⟩
    have logged := valid.logged
    rw [idle] at logged
    change Logged m s.phase s.current s.active s.released s.doomed (.found e _ :: s.log)
    rw [idle]
    apply logged.find
    intro opFirst principal
    have ring := (valid.rings.entries e member (Mode.tracks_of_principal principal)).2
    have queued : s.phase e.task = .queued := by simpa [Mode.InRing, opFirst] using ring
    have known := (valid.tokens.standing e.task).token.mpr finished
    rw [queued] at known
    contradiction
  refine ⟨kept, fun j different => ?_, ?_⟩
  · rw [same]
    simp [ownership, view, different]
  · rw [same]
    simp [ownership, view]

/-- A completion that acts belongs to the submission its task is in. -/
theorem moves_find (holds : Holds m .loop v s) {e : Entry} (taken : v.taken = some e)
    (idle : v.active = none) (unheld : v.hand e.task = none) (tracked : m.tracks e)
    (acts : TaskState.Live (s.task e.task).taskState) :
    s.liveSubmission e.task = some e.submission ∧
      Moves m .loop s (s.find e) { v.hold e.task (some (true, some e.submission)) with
        active := some (e.task, e.submission), taken := none } := by
  obtain ⟨valid, rfl⟩ := holds
  replace taken : s.taken = some e := by simpa [ownership, view] using taken
  replace idle : s.active = none := by simpa [ownership, view] using idle
  obtain ⟨member, fewer⟩ := outstanding_find taken
  obtain ⟨number, ring⟩ := valid.rings.entries e member tracked
  have queued : s.phase e.task = .queued := by
    rcases ring with queued | ⟨_, owned | ⟨_, finished⟩⟩
    · exact queued
    · simp [ownership, view, owned] at unheld
    · exact absurd acts finished
  have submitted : (s.task e.task).taskState = .kSubmitted := by
    by_contra other
    have free := (valid.tokens.standing e.task).token.mpr other
    rw [queued] at free
    contradiction
  have same : s.find e = { s with
      taken := none
      phase := Function.update s.phase e.task (.owned .loop)
      active := some (e.task, e.submission)
      log := .found e .kSubmitted :: s.log } := by
    simp only [State.find, submitted, TaskState.Live, true_or, if_true]
  have kept : Valid m (s.find e) := by
    have tokens := valid.tokens
    have logged := valid.logged
    rw [idle] at tokens logged
    have rings := valid.rings.drop fewer
    rw [same] at rings ⊢
    refine ⟨valid.ledger, tokens.find queued number, ?_, ?_⟩
    · refine rings.relocate (a := e.task) (fun b different => by simp [State.states, different]) ?_
      intro other out otherTracked sameTask
      rw [← sameTask]
      refine ⟨(rings.entries other out otherTracked).1, ?_⟩
      by_cases drained : m = .drained
      · exact Or.inr ⟨drained, Or.inl (by simp [sameTask])⟩
      · -- Two principal completions of one task were never out together.
        have principals (e : Entry) : m.tracks e = e.principal := by
          cases m with
          | plain => rfl
          | opFirst => rfl
          | drained => contradiction
        rw [principals] at tracked otherTracked
        have single := valid.rings.single drained
        simp only [State.outstanding, taken, Option.toList_some,
          List.filter_cons_of_pos (show e.principal = true from tracked), List.cons_append, List.map_cons,
          List.nodup_cons, List.mem_map, List.mem_filter, not_exists] at single
        exact absurd ⟨⟨by simpa [State.outstanding] using out, otherTracked⟩, sameTask⟩ (single.1 other)
    · exact (logged.rephase fun drained => Or.inr (valid.logged.undoomed (by simp [queued]) drained)).find
        fun _ _ => ⟨rfl, rfl⟩
  refine ⟨by simp [State.liveSubmission, queued, number], ?_⟩
  have moves := moves_at (i := .loop) (a := e.task) (s := s) (some (true, some e.submission)) kept
    (fun b different => by simp [same, different]) (fun _ _ => by simp [same]) (by simp [same])
    (by simp) (fun _ _ => by simp [same]) (by simp [queued]) (by simp [same]) (by simp [same, number])
  rwa [show ({ view .loop (s.find e) with
      hand := Function.update (view .loop s).hand e.task (some (true, some e.submission)) } : View) =
        { (view .loop s).hold e.task (some (true, some e.submission)) with
          active := some (e.task, e.submission), taken := none } by
    simp [view, View.hold, same]] at moves

theorem moves_release (holds : Holds m .loop v s) (dispatched : v.active = some (a, k))
    (settled : v.hand a = none) {target : Option Nat} (own : target = some k) :
    Moves m .loop s (s.release k target) { v with active := none } := by
  obtain ⟨valid, rfl⟩ := holds
  replace dispatched : s.active = some (a, k) := by simpa [ownership, view] using dispatched
  have tokens := valid.tokens
  have logged := valid.logged
  rw [dispatched] at tokens logged
  obtain ⟨taken, unreleased, -⟩ := tokens.dispatching a k rfl
  have kept : Valid m (s.release k target) := by
    refine ⟨valid.ledger.release taken unreleased, tokens.release fun owned => ?_, valid.rings,
      logged.release.record (by simp) ?_⟩
    · simp [ownership, view, owned] at settled
    · subst own
      intro _
      simp [Event.isolated]
  refine ⟨kept, fun j different => ?_, ?_⟩
  · simp [ownership, view, State.release, different]
  · simp [ownership, view, State.release]

theorem moves_create (holds : Holds m i v s) {config : Task}
    (admitted : m.Admits s (s.create a config)) : Moves m i s (s.create a config) v := by
  obtain ⟨valid, rfl⟩ := holds
  have permitted := admitted (.created a) rfl
  have idle : s.phase a = .free := by
    cases m with
    | plain => simpa [Mode.permits] using permitted
    | opFirst => simpa [Mode.permits] using permitted
    | drained =>
      simp only [Mode.permits, Bool.and_eq_true, decide_eq_true_eq] at permitted
      exact permitted.2
  have states : (s.create a config).states = Function.update s.states a .kReady := by
    funext b
    by_cases same : b = a
    · subst same
      simp [State.states, State.create]
    · simp [State.states, State.create, same]
  have kept : Valid m (s.create a config) := by
    refine ⟨valid.ledger, ?_, ?_, ?_⟩
    · rw [states]
      exact valid.tokens.create idle
    · rw [states]
      refine valid.rings.relocate (a := a) (fun b different => ?_) fun e member tracked same => ?_
      · simp [State.create, different]
      · refine absurd same (valid.idle_clear idle (fun drained => ?_) member tracked)
        subst drained
        simp only [Mode.permits, Bool.and_eq_true] at permitted
        exact permitted.1.1
    · refine (valid.logged.relocate (a := a) (fun b different => ?_) fun drained => ?_).record (by simp) fun _ => rfl
      · simp [State.create, different]
      · subst drained
        simp only [Mode.permits, Bool.and_eq_true] at permitted
        exact spared_spec permitted.1.2
  have moves := moves_hold (i := i) (a := a) (s := s) none kept rfl (fun _ _ => rfl)
    (fun b different => by simp [State.create, different]) rfl rfl rfl rfl (by simp [idle])
    (by simp [State.create, idle]) (by simp [State.create, idle])
  have unheld : (view i s).hand a = none := by simp [view, idle]
  have same : (view i s).hold a none = view i s := by
    simp only [View.hold, ← unheld, Function.update_eq_self]
  rwa [same] at moves

/-- Taking one thread's doomed task off the list takes nothing off another's. -/
theorem filter_eraseP (doomed : List Doom) (i j : Thread) (a : Addr) :
    (doomed.eraseP fun d => d.thread = i ∧ d.task = a).filter (fun d => d.thread = j) =
      (doomed.filter fun d => d.thread = j).eraseP fun d => d.thread = i ∧ d.task = a := by
  induction doomed with
  | nil => rfl
  | cons d rest ih =>
    by_cases here : d.thread = i ∧ d.task = a
    · by_cases own : d.thread = j
      · simp [here, ← own]
      · have absent : ∀ c ∈ rest.filter (fun d => d.thread = j), ¬ (c.thread = i ∧ c.task = a) := by
          rintro c member ⟨other, -⟩
          have mine := (List.mem_filter.mp member).2
          simp only [decide_eq_true_eq] at mine
          exact own (here.1.trans (other.symm.trans mine))
        rw [List.eraseP_cons_of_pos (by simpa using here), List.filter_cons_of_neg (by simpa using own),
          List.eraseP_of_forall_not (by simpa using absent)]
    · rw [List.eraseP_cons_of_neg (by simpa using here)]
      by_cases own : d.thread = j
      · rw [List.filter_cons_of_pos (by simpa using own), List.filter_cons_of_pos (by simpa using own),
          List.eraseP_cons_of_neg (by simpa using here), ih]
      · rw [List.filter_cons_of_neg (by simpa using own), List.filter_cons_of_neg (by simpa using own), ih]

/-- The task is either deleted with its predecessor or the one that the thread doomed last. -/
theorem moves_destroy (holds : Holds m i v s) {inherited : Bool} {cause : Option Nat}
    (doomed : inherited = true ∨
      ∃ k rest, v.doomed = ⟨i, a, some k⟩ :: rest ∧ (cause = none ∨ cause = some k))
    (admitted : m.Admits s (s.destroy i a inherited cause)) :
    Moves m i s (s.destroy i a inherited cause)
      { v with doomed := if inherited then v.doomed else v.doomed.tail } := by
  obtain ⟨valid, rfl⟩ := holds
  have permitted := admitted _ rfl
  have kept : Valid m (s.destroy i a inherited cause) := by
    refine ⟨valid.ledger, ?_, ?_, ?_⟩
    · rw [show (s.destroy i a inherited cause).states = s.states from
        states_setTask_same (f := fun task => { task with alive := false }) rfl]
      exact valid.tokens
    · rw [show (s.destroy i a inherited cause).states = s.states from
        states_setTask_same (f := fun task => { task with alive := false }) rfl]
      exact valid.rings
    · refine Logged.record (valid.logged.dooming fun d remains => Or.inl ?_) (by simp) fun drained => ?_
      · cases inherited with
        | true => exact remains
        | false => exact List.mem_of_mem_eraseP remains
      · subst drained
        cases inherited with
        | true =>
          have idle : s.phase a = .free := by simpa [Mode.permits] using permitted
          cases cause <;> simp [State.liveSubmission, idle, Event.isolated]
        | false =>
          obtain ⟨k, rest, first, mine⟩ := doomed.resolve_left (by simp)
          have listed : (⟨i, a, some k⟩ : Doom) ∈ (view i s).doomed := by
            rw [show (view i s).doomed = _ from first]
            exact List.mem_cons_self
          have ended : s.current a = some k := (valid.logged.doom rfl _ (List.mem_filter.mp listed).1).2
          rcases mine with rfl | rfl <;> simp [Event.isolated, ended]
  cases inherited with
  | true => exact ⟨kept, fun _ _ => rfl, rfl⟩
  | false =>
    obtain ⟨k, rest, first, -⟩ := doomed.resolve_left (by simp)
    replace first : s.doomed.filter (fun d => d.thread = i) = ⟨i, a, some k⟩ :: rest := first
    refine ⟨kept, fun j different => ?_, ?_⟩
    · have spared : (s.doomed.eraseP fun d => d.thread = i ∧ d.task = a).filter (fun d => d.thread = j) =
          s.doomed.filter fun d => d.thread = j := by
        rw [filter_eraseP, List.eraseP_of_forall_not]
        intro d member
        have mine := (List.mem_filter.mp member).2
        simp only [decide_eq_true_eq] at mine
        simp [mine, different]
      exact congrArg (View.mk _ _ _ _) spared
    · have spared : (s.doomed.eraseP fun d => d.thread = i ∧ d.task = a).filter (fun d => d.thread = i) =
          rest := by
        rw [filter_eraseP, first, List.eraseP_cons_of_pos (by simp)]
      have tail : (view i s).doomed.tail = rest := by
        rw [show (view i s).doomed = _ from first, List.tail_cons]
      exact congrArg (View.mk _ _ _ _) (spared.trans tail.symm)

end Talon.Handler
