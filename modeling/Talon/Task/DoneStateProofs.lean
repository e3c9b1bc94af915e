import Talon.Task.DoneState

/-! When a `DoneState` delivers. `Wait` publishes with plain stores and `Signal`
notifies one waiter, so delivery needs three things of the schedule: no exchange
inside a check-then-store window, no exchange that misses a committed waiter,
and no notification that finds two. -/
namespace Talon.Task.DoneState
open Interleaving
variable {ι : Type}

/-- The schedules considered: an exchange of `Signal` executes while no `Wait`
is between its check of `state_` and the store that follows, and finds `kWaiting`
if some waiter is blocked or about to block; a notification finds at most one
blocked waiter. All three speak of the state before the step. -/
def Undisturbed (s t : Shared ι) : Prop :=
  (t.exchanges = s.exchanges + 1 →
    s.checked = [] ∧ (s.state = .kWaiting ∨ s.parking = [] ∧ s.blocked = [])) ∧
  (t.notifies = s.notifies + 1 → s.blocked.length ≤ 1)

structure Valid (s : Shared ι) : Prop where
  signaled : 0 < s.exchanges → s.state = .kSignaled
  unsignaled : s.checked ≠ [] → s.exchanges = 0
  parked : s.parking = [] ∨ ∃ i, s.parking = [i] ∧ s.mutex = some i
  ready : ∀ call ∈ s.results, call.1 = true → call.2 = true
  freed : 0 < s.returned → 0 < s.exchanges ∧ s.parking = [] ∧ s.blocked = []

/-- After an exchange and one passage through the mutex nobody starts to block. -/
def Unparked (s : Shared ι) : Prop := 0 < s.exchanges ∧ s.parking = []

/-- Nobody is blocked and nobody will be. -/
def Quiet (s : Shared ι) : Prop := 0 < s.exchanges ∧ s.parking = [] ∧ s.blocked = []

structure Advances (s t : Shared ι) : Prop where
  valid : Valid s → Valid t
  exchanged : 0 < s.exchanges → 0 < t.exchanges
  unparked : Valid s → Unparked s → Unparked t
  quiet : Valid s → Quiet s → Quiet t

/-- What the steps of other threads leave to thread `i`. -/
structure Keeps (i : ι) (s t : Shared ι) : Prop where
  checked : i ∈ s.checked → i ∈ t.checked
  mutex : s.mutex = some i → t.mutex = some i ∧ t.parking = s.parking

theorem Advances.refl (s : Shared ι) : Advances s s := ⟨id, id, fun _ => id, fun _ => id⟩

theorem Advances.trans {s t u : Shared ι} (first : Advances s t) (second : Advances t u) :
    Advances s u :=
  ⟨second.valid ∘ first.valid, second.exchanged ∘ first.exchanged,
    fun valid => second.unparked (first.valid valid) ∘ first.unparked valid,
    fun valid => second.quiet (first.valid valid) ∘ first.quiet valid⟩

theorem Keeps.refl (i : ι) (s : Shared ι) : Keeps i s s := ⟨id, fun held => ⟨held, rfl⟩⟩

theorem Keeps.trans {i : ι} {s t u : Shared ι} (first : Keeps i s t) (second : Keeps i t u) :
    Keeps i s u := by
  refine ⟨second.checked ∘ first.checked, fun held => ?_⟩
  obtain ⟨held₁, same₁⟩ := first.mutex held
  obtain ⟨held₂, same₂⟩ := second.mutex held₁
  exact ⟨held₂, same₂.trans same₁⟩

def discipline (i : ι) : Discipline (Shared ι) where
  rely s t := Advances s t ∧ Keeps i s t
  guar s t := Advances s t ∧ ∀ j, j ≠ i → Keeps j s t
  allowed := Undisturbed
  rely_refl s := ⟨.refl s, .refl i s⟩
  rely_trans := fun first second => ⟨first.1.trans second.1, first.2.trans second.2⟩

/-- Thread `i` holds `mtx_` and is not about to block. -/
def Holds (i : ι) (s : Shared ι) : Prop := s.mutex = some i ∧ s.parking = []

theorem Holds.stable {i : ι} {s t : Shared ι} (held : Holds i s)
    (moved : (discipline i).rely s t) : Holds i t := by
  obtain ⟨mutex, same⟩ := moved.2.mutex held.1
  exact ⟨mutex, same.trans held.2⟩

/-- `late` says that a `Signal` came before the call. -/
def contract (i : ι) : Contract (Shared ι) Procedure Bool where
  A _ := Bool
  pre
    | .wait _, late, s | .isReady, late, s => Valid s ∧ (late = true → 0 < s.exchanges)
    | .cvWait, _, s | .cvWaitFor, _, s => Valid s ∧ Holds i s
    | .signal, _, s | .client, _, s => Valid s
  post
    | .wait _, late, result, s | .isReady, late, result, s =>
        Valid s ∧ (late = true → result = true)
    | .cvWait, _, _, s => Valid s ∧ Holds i s
    | .cvWaitFor, _, result, s => Valid s ∧ Holds i s ∧ (result = false → i ∈ s.checked)
    | .signal, _, _, s => Valid s ∧ Quiet s
    | .client, _, _, s => Valid s

/-- A step that leaves the protocol's fields alone. -/
theorem guar_refl (i : ι) (s : Shared ι) : (discipline i).guar s s :=
  ⟨.refl s, fun j _ => .refl j s⟩

variable [DecidableEq ι]

omit [DecidableEq ι] in
theorem wp_loadState {i : ι} {post : Flag → Shared ι → Prop} {s : Shared ι}
    (holds : ∀ t u, (discipline i).rely s t → (discipline i).rely t u → post t.state u) :
    wp (discipline i) (contract i) loadState post s := by
  apply wp_atomic
  intro t moved c u stepped _
  cases Option.some.inj stepped
  exact ⟨guar_refl i t, fun v later => holds t v moved later⟩

omit [DecidableEq ι] in
theorem wp_lock {i : ι} {post : Unit → Shared ι → Prop} {s : Shared ι} (valid : Valid s)
    (holds : ∀ t, (0 < s.exchanges → 0 < t.exchanges) → Valid t → Holds i t → post () t) :
    wp (discipline i) (contract i) (lock i) post s := by
  apply wp_atomic
  intro t moved c u stepped _
  simp only [Option.isNone_iff_eq_none, Option.ite_none_right_eq_some, Option.some.injEq] at stepped
  obtain ⟨free, rfl⟩ := stepped
  have validT := moved.1.valid valid
  have empty : t.parking = [] := by
    rcases validT.parked with none | ⟨j, _, held⟩
    · exact none
    · rw [free] at held
      contradiction
  have validU : Valid { t with mutex := some i } :=
    ⟨validT.signaled, validT.unsignaled, Or.inl empty, validT.ready, validT.freed⟩
  refine ⟨⟨⟨fun _ => validU, id, fun _ => id, fun _ => id⟩, fun j other => ⟨id, fun held => ?_⟩⟩, ?_⟩
  · rw [free] at held
    contradiction
  · intro v later
    have held : Holds i { t with mutex := some i } := ⟨rfl, empty⟩
    exact holds v (later.1.exchanged ∘ moved.1.exchanged) (later.1.valid validU) (held.stable later)

omit [DecidableEq ι] in
theorem wp_unlock {i : ι} {post : Unit → Shared ι → Prop} {s : Shared ι} (valid : Valid s)
    (held : Holds i s)
    (holds : ∀ t u, (discipline i).rely s t → (discipline i).rely { t with mutex := none } u →
      Valid u → post () u) :
    wp (discipline i) (contract i) unlock post s := by
  apply wp_atomic
  intro t moved c u stepped _
  cases Option.some.inj stepped
  have validT := moved.1.valid valid
  have heldT := held.stable moved
  have validU : Valid { t with mutex := none } :=
    ⟨validT.signaled, validT.unsignaled, Or.inl heldT.2, validT.ready, validT.freed⟩
  refine ⟨⟨⟨fun _ => validU, id, fun _ => id, fun _ => id⟩, fun j other => ⟨id, fun theirs => ?_⟩⟩, ?_⟩
  · rw [heldT.1] at theirs
    exact absurd (Option.some.inj theirs).symm other
  · exact fun v later => holds t v moved later (later.1.valid validU)

omit [DecidableEq ι] in
/-- The deciding load: a waiter that goes on to store is recorded, and no
exchange has happened yet. -/
theorem wp_checkState {i : ι} {post : Flag → Shared ι → Prop} {s : Shared ι} (valid : Valid s)
    (held : Holds i s)
    (holds : ∀ t flag, Valid t → Holds i t → (flag ≠ .kSignaled → i ∈ t.checked) → post flag t) :
    wp (discipline i) (contract i) (checkState i) post s := by
  apply wp_atomic
  intro t moved c u stepped _
  cases Option.some.inj stepped
  have validT := moved.1.valid valid
  have heldT := held.stable moved
  by_cases done : t.state = .kSignaled
  · simp only [if_pos done]
    refine ⟨guar_refl i t, fun v later => ?_⟩
    exact holds v _ (later.1.valid validT) (heldT.stable later) fun open_ => absurd done open_
  · simp only [if_neg done]
    have early : t.exchanges = 0 := by
      by_contra late
      exact done (validT.signaled (Nat.pos_of_ne_zero late))
    have validU : Valid { t with checked := i :: t.checked } :=
      ⟨validT.signaled, fun _ => early, validT.parked, validT.ready, validT.freed⟩
    refine ⟨⟨⟨fun _ => validU, id, fun _ => id, fun _ => id⟩,
      fun j _ => ⟨List.mem_cons_of_mem _, fun theirs => ⟨theirs, rfl⟩⟩⟩, fun v later => ?_⟩
    have heldU : Holds i { t with checked := i :: t.checked } := heldT
    exact holds v _ (later.1.valid validU) (heldU.stable later)
      fun _ => later.2.checked List.mem_cons_self

/-- A recorded waiter stores while no exchange has happened. -/
theorem wp_storeState {i : ι} {flag : Flag} {post : Unit → Shared ι → Prop} {s : Shared ι}
    (valid : Valid s) (held : Holds i s) (mine : i ∈ s.checked)
    (holds : ∀ t, Valid t → Holds i t → post () t) :
    wp (discipline i) (contract i) (storeState i flag) post s := by
  apply wp_atomic
  intro t moved c u stepped _
  cases Option.some.inj stepped
  have validT := moved.1.valid valid
  have heldT := held.stable moved
  have early := validT.unsignaled (List.ne_nil_of_mem (moved.2.checked mine))
  have validU : Valid { t with state := flag, checked := t.checked.erase i } :=
    ⟨fun late => absurd late (by simp only [early]; omega), fun _ => early, validT.parked,
      validT.ready, validT.freed⟩
  refine ⟨⟨⟨fun _ => validU, id, fun _ => id, fun _ => id⟩,
    fun j other => ⟨fun theirs => ?_, fun theirs => ⟨theirs, rfl⟩⟩⟩, fun v later => ?_⟩
  · exact (List.mem_erase_of_ne other).mpr theirs
  · have heldU : Holds i { t with state := flag, checked := t.checked.erase i } := heldT
    exact holds v (later.1.valid validU) (heldU.stable later)

omit [DecidableEq ι] in
/-- The predicate of a wait: where it fails the waiter blocks, and after an
exchange it cannot fail. -/
theorem wp_predicate {i : ι} {post : Flag → Shared ι → Prop} {s : Shared ι} (valid : Valid s)
    (held : Holds i s)
    (passes : ∀ t, Valid t → Holds i t → post .kSignaled t)
    (fails : ∀ t flag, flag ≠ .kSignaled → Valid t → t.mutex = some i → t.parking = [i] →
      post flag t) :
    wp (discipline i) (contract i) (predicate i) post s := by
  apply wp_atomic
  intro t moved c u stepped _
  cases Option.some.inj stepped
  have validT := moved.1.valid valid
  have heldT := held.stable moved
  by_cases done : t.state = .kSignaled
  · simp only [if_pos done]
    refine ⟨guar_refl i t, fun v later => ?_⟩
    rw [done]
    exact passes v (later.1.valid validT) (heldT.stable later)
  · simp only [if_neg done]
    have early : t.exchanges = 0 := by
      by_contra late
      exact done (validT.signaled (Nat.pos_of_ne_zero late))
    have alone : i :: t.parking = [i] := by rw [heldT.2]
    have validU : Valid { t with parking := i :: t.parking } := by
      refine ⟨validT.signaled, validT.unsignaled, Or.inr ⟨i, alone, heldT.1⟩, validT.ready, ?_⟩
      intro returned
      have late := (validT.freed returned).1
      omega
    refine ⟨⟨⟨fun _ => validU, id, ?_, ?_⟩, fun j other => ⟨id, fun theirs => ?_⟩⟩, ?_⟩
    · exact fun _ unparked => absurd unparked.1 (by omega)
    · exact fun _ quiet => absurd quiet.1 (by omega)
    · rw [heldT.1] at theirs
      exact absurd (Option.some.inj theirs).symm other
    · intro v later
      obtain ⟨mutex, same⟩ := later.2.mutex heldT.1
      exact fails v _ done (later.1.valid validU) mutex (same.trans alone)

theorem wp_block {i : ι} {post : Unit → Shared ι → Prop} {s : Shared ι} (valid : Valid s)
    (mutex : s.mutex = some i) (parking : s.parking = [i])
    (holds : ∀ t, Valid t → post () t) :
    wp (discipline i) (contract i) (block i) post s := by
  apply wp_atomic
  intro t moved c u stepped _
  cases Option.some.inj stepped
  have validT := moved.1.valid valid
  obtain ⟨mutexT, same⟩ := moved.2.mutex mutex
  have parkingT : t.parking = [i] := same.trans parking
  have empty : t.parking.erase i = [] := by simp [parkingT]
  -- A waiter that is about to block contradicts both quiet states.
  have occupied : t.parking ≠ [] := by simp [parkingT]
  have validU : Valid { t with
      mutex := none, blocked := i :: t.blocked, parking := t.parking.erase i } :=
    ⟨validT.signaled, validT.unsignaled, Or.inl empty, validT.ready,
      fun returned => absurd (validT.freed returned).2.1 occupied⟩
  refine ⟨⟨⟨fun _ => validU, id, ?_, ?_⟩, fun j other => ⟨id, fun theirs => ?_⟩⟩, ?_⟩
  · exact fun _ unparked => absurd unparked.2 occupied
  · exact fun _ quiet => absurd quiet.2.1 occupied
  · rw [mutexT] at theirs
    exact absurd (Option.some.inj theirs).symm other
  · exact fun v later => holds v (later.1.valid validU)

omit [DecidableEq ι] in
/-- Freeing blocked waiters, by a wake-up or a notification. -/
theorem guar_free (i : ι) {s : Shared ι} {blocked : List ι} {notifies : Nat}
    (fewer : s.blocked = [] → blocked = []) :
    (discipline i).guar s { s with blocked := blocked, notifies := notifies } := by
  refine ⟨⟨fun valid => ⟨valid.signaled, valid.unsignaled, valid.parked, valid.ready, ?_⟩,
    id, fun _ => id, ?_⟩, fun j _ => ⟨id, fun theirs => ⟨theirs, rfl⟩⟩⟩
  · intro returned
    obtain ⟨late, unparked, free⟩ := valid.freed returned
    exact ⟨late, unparked, fewer free⟩
  · exact fun _ quiet => ⟨quiet.1, quiet.2.1, fewer quiet.2.2⟩

theorem wp_wake {i : ι} {post : Bool → Shared ι → Prop} {s : Shared ι} (valid : Valid s)
    (holds : ∀ t timedOut, Valid t → post timedOut t) :
    wp (discipline i) (contract i) (wake i) post s := by
  apply wp_atomic
  intro t moved c u stepped _
  simp only [Option.ite_none_left_eq_some, Option.some.injEq] at stepped
  obtain ⟨_, rfl⟩ := stepped
  have promised : (discipline i).guar t { t with blocked := t.blocked.erase i } :=
    guar_free i fun none => by simp [none]
  exact ⟨promised, fun v later =>
    holds v _ (later.1.valid (promised.1.valid (moved.1.valid valid)))⟩

theorem wp_wakeUntimed {i : ι} {post : Unit → Shared ι → Prop} {s : Shared ι} (valid : Valid s)
    (holds : ∀ t, Valid t → post () t) :
    wp (discipline i) (contract i) (wakeUntimed i) post s := by
  apply wp_atomic
  intro t moved c u stepped _
  simp only [Option.ite_none_left_eq_some, Option.some.injEq] at stepped
  obtain ⟨_, rfl⟩ := stepped
  have promised : (discipline i).guar t { t with blocked := t.blocked.erase i } :=
    guar_free i fun none => by simp [none]
  exact ⟨promised, fun v later => holds v (later.1.valid (promised.1.valid (moved.1.valid valid)))⟩

omit [DecidableEq ι] in
/-- The exchange: either a notification is due, or nobody needs one. -/
theorem wp_exchangeSignaled {i : ι} {post : Flag → Shared ι → Prop} {s : Shared ι}
    (valid : Valid s)
    (holds : ∀ t prev, Valid t → 0 < t.exchanges → (prev ≠ .kWaiting → Quiet t) → post prev t) :
    wp (discipline i) (contract i) exchangeSignaled post s := by
  apply wp_atomic
  intro t moved c u stepped undisturbed
  cases Option.some.inj stepped
  have validT := moved.1.valid valid
  obtain ⟨closed, met⟩ := undisturbed.1 rfl
  have validU : Valid { t with state := .kSignaled, exchanges := t.exchanges + 1 } :=
    ⟨fun _ => rfl, fun window => absurd closed window, validT.parked, validT.ready,
      fun returned => ⟨Nat.succ_pos _, (validT.freed returned).2⟩⟩
  refine ⟨⟨⟨fun _ => validU, fun _ => Nat.succ_pos _, ?_, ?_⟩, fun j _ => ⟨id, fun theirs => ⟨theirs, rfl⟩⟩⟩, ?_⟩
  · exact fun _ unparked => ⟨Nat.succ_pos _, unparked.2⟩
  · exact fun _ quiet => ⟨Nat.succ_pos _, quiet.2⟩
  · intro v later
    refine holds v _ (later.1.valid validU) (later.1.exchanged (Nat.succ_pos _)) fun missed => ?_
    rcases met with waiting | none
    · exact absurd waiting missed
    · exact later.1.quiet validU ⟨Nat.succ_pos _, none⟩

omit [DecidableEq ι] in
theorem wp_notifyOne {i : ι} {post : Unit → Shared ι → Prop} {s : Shared ι} (valid : Valid s)
    (unparked : Unparked s) (holds : ∀ t, Valid t → Quiet t → post () t) :
    wp (discipline i) (contract i) notifyOne post s := by
  apply wp_atomic
  intro t moved c u stepped undisturbed
  cases Option.some.inj stepped
  have single := undisturbed.2 rfl
  have unparkedT := moved.1.unparked valid unparked
  have emptied : t.blocked.eraseIdx (c.target % t.blocked.length) = [] := by
    match blocked : t.blocked, single with
    | [], _ => rfl
    | [j], _ => simp [Nat.mod_one]
  have promised : (discipline i).guar t { t with
      blocked := t.blocked.eraseIdx (c.target % t.blocked.length), notifies := t.notifies + 1 } :=
    guar_free i fun _ => emptied
  have validU := promised.1.valid (moved.1.valid valid)
  refine ⟨promised, fun v later => holds v (later.1.valid validU) (later.1.quiet validU ?_)⟩
  exact ⟨unparkedT.1, unparkedT.2, emptied⟩

theorem signal_verified (i : ι) (s : Shared ι) (valid : Valid s) :
    wp (discipline i) (contract i) (code i .signal) (fun _ t => Valid t ∧ Quiet t) s := by
  apply wp_bind
  refine wp_exchangeSignaled valid fun t prev validT late quiet => ?_
  by_cases waiting : prev = .kWaiting
  · simp only [waiting, if_true]
    apply wp_bind
    refine wp_lock validT fun u later validU held => ?_
    apply wp_bind
    refine wp_unlock validU held fun v w moved released validW => ?_
    -- The passage through the mutex flushed out the waiters about to block.
    have unparked : Unparked u := ⟨later late, held.2⟩
    have unparkedV := moved.1.unparked validU unparked
    have validV : Valid { v with mutex := none } :=
      have known := moved.1.valid validU
      ⟨known.signaled, known.unsignaled, Or.inl unparkedV.2, known.ready, known.freed⟩
    apply wp_bind
    refine wp_notifyOne validW (released.1.unparked validV unparkedV) fun x validX quietX => ?_
    exact wp_ret fun y moved => ⟨moved.1.valid validX, moved.1.quiet validX quietX⟩
  · simp only [waiting, if_false]
    exact wp_ret fun u moved => ⟨moved.1.valid validT, moved.1.quiet validT (quiet waiting)⟩

theorem cvWait_verified (i : ι) (s : Shared ι) (valid : Valid s) (held : Holds i s) :
    wp (discipline i) (contract i) (code i .cvWait) (fun _ t => Valid t ∧ Holds i t) s := by
  apply wp_bind
  refine wp_predicate valid held (fun t validT heldT => ?_) fun t flag missed validT mutex parking => ?_
  · simp only [if_true]
    exact wp_ret fun u moved => ⟨moved.1.valid validT, heldT.stable moved⟩
  · simp only [missed, if_false]
    apply wp_bind
    refine wp_block validT mutex parking fun u validU => ?_
    apply wp_bind
    refine wp_wakeUntimed validU fun v validV => ?_
    apply wp_bind
    refine wp_lock validV fun w _ validW heldW => ?_
    refine wp_enter fun x moved => ⟨false, ⟨moved.1.valid validW, heldW.stable moved⟩, ?_⟩
    exact fun r y post z later => ⟨later.1.valid post.1, post.2.stable later⟩

theorem cvWaitFor_verified (i : ι) (s : Shared ι) (valid : Valid s) (held : Holds i s) :
    wp (discipline i) (contract i) (code i .cvWaitFor)
      (fun result t => Valid t ∧ Holds i t ∧ (result = false → i ∈ t.checked)) s := by
  apply wp_bind
  refine wp_predicate valid held (fun t validT heldT => ?_) fun t flag missed validT mutex parking => ?_
  · simp only [if_true]
    exact wp_ret fun u moved => ⟨moved.1.valid validT, heldT.stable moved, fun no => by contradiction⟩
  · simp only [missed, if_false]
    apply wp_bind
    refine wp_block validT mutex parking fun u validU => ?_
    apply wp_bind
    refine wp_wake validU fun v timedOut validV => ?_
    apply wp_bind
    refine wp_lock validV fun w _ validW heldW => ?_
    cases timedOut with
    | true =>
      simp only [if_true]
      apply wp_bind
      refine wp_checkState validW heldW fun x flag validX heldX recorded => ?_
      refine wp_ret fun y moved => ⟨moved.1.valid validX, heldX.stable moved, fun open_ => ?_⟩
      exact moved.2.checked (recorded (of_decide_eq_false open_))
    | false =>
      simp only [Bool.false_eq_true, if_false]
      refine wp_enter fun x moved => ⟨false, ⟨moved.1.valid validW, heldW.stable moved⟩, ?_⟩
      exact fun r y post z later => ⟨later.1.valid post.1, post.2.1.stable later,
        fun no => later.2.checked (post.2.2 no)⟩

theorem wait_verified (i : ι) (timeoutMs : Int) (late : Bool) (s : Shared ι) (valid : Valid s)
    (signaled : late = true → 0 < s.exchanges) :
    wp (discipline i) (contract i) (code i (.wait timeoutMs))
      (fun result t => Valid t ∧ (late = true → result = true)) s := by
  apply wp_bind
  refine wp_loadState fun t u moved later => ?_
  have validU := later.1.valid (moved.1.valid valid)
  by_cases done : t.state = .kSignaled
  · simp only [done, if_true]
    exact wp_ret fun v after => ⟨after.1.valid validU, fun _ => rfl⟩
  -- A call made after a Signal has returned by now.
  have early : late = false := by
    by_contra after
    have after : late = true := by simpa using after
    exact done ((moved.1.valid valid).signaled (moved.1.exchanged (signaled after)))
  subst early
  simp only [done, if_false]
  by_cases poll : timeoutMs = 0
  · simp only [poll, if_true]
    apply wp_bind
    refine wp_loadState fun v w moved later => ?_
    exact wp_ret fun x after =>
      ⟨after.1.valid (later.1.valid (moved.1.valid validU)), fun no => by contradiction⟩
  simp only [poll, if_false]
  have finish : ∀ result v, Valid v → Holds i v → wp (discipline i) (contract i)
      (do unlock; return result : Code ι Bool)
      (fun r x => Valid x ∧ (false = true → r = true)) v := by
    intro result v validV held
    apply wp_bind
    refine wp_unlock validV held fun w x _ _ validX => ?_
    exact wp_ret fun y after => ⟨after.1.valid validX, fun no => by contradiction⟩
  apply wp_bind
  refine wp_lock validU fun v _ validV held => ?_
  apply wp_bind
  refine wp_checkState validV held fun w flag validW heldW recorded => ?_
  by_cases seen : flag = .kSignaled
  · simp only [seen, if_true]
    exact finish true w validW heldW
  simp only [seen, if_false]
  apply wp_bind
  refine wp_storeState validW heldW (recorded seen) fun x validX heldX => ?_
  by_cases forever : timeoutMs < 0
  · simp only [forever, if_true]
    apply wp_bind
    refine wp_enter fun y moved => ⟨false, ⟨moved.1.valid validX, heldX.stable moved⟩, ?_⟩
    exact fun r z post a later => finish true a (later.1.valid post.1) (post.2.stable later)
  simp only [forever, if_false]
  apply wp_bind
  refine wp_enter fun y moved => ⟨false, ⟨moved.1.valid validX, heldX.stable moved⟩, ?_⟩
  rintro ready z ⟨validZ, heldZ, expired⟩ a later
  cases ready with
  | true => exact finish true a (later.1.valid validZ) (heldZ.stable later)
  | false =>
    simp only [Bool.not_false, if_true]
    apply wp_bind
    refine wp_storeState (later.1.valid validZ) (heldZ.stable later)
      (later.2.checked (expired rfl)) fun b validB heldB => ?_
    exact finish false b validB heldB

omit [DecidableEq ι] in
theorem Valid.record {s : Shared ι} (valid : Valid s) {late result : Bool}
    (kept : late = true → result = true) :
    Valid { s with results := (late, result) :: s.results } := by
  refine ⟨valid.signaled, valid.unsignaled, valid.parked, ?_, valid.freed⟩
  intro call member
  rcases List.mem_cons.mp member with rfl | older
  · exact kept
  · exact valid.ready call older

omit [DecidableEq ι] in
theorem wp_record {i : ι} {late result : Bool} {post : Unit → Shared ι → Prop} {s : Shared ι}
    (valid : Valid s) (kept : late = true → result = true) (holds : ∀ t, Valid t → post () t) :
    wp (discipline i) (contract i)
      (.store fun s => { s with results := (late, result) :: s.results } : Code ι Unit) post s := by
  apply wp_atomic
  intro t moved c u stepped _
  cases Option.some.inj stepped
  refine ⟨⟨⟨fun valid => valid.record kept, id, fun _ => id, fun _ => id⟩,
    fun j _ => ⟨id, fun theirs => ⟨theirs, rfl⟩⟩⟩, fun v later => ?_⟩
  exact holds v (later.1.valid ((moved.1.valid valid).record kept))

theorem client_verified (i : ι) (s : Shared ι) (valid : Valid s) :
    wp (discipline i) (contract i) (code i .client) (fun _ t => Valid t) s := by
  have again : ∀ t : Shared ι, Valid t →
      wp (discipline i) (contract i) (.enter .client : Code ι Bool) (fun _ u => Valid u) t :=
    fun t validT => wp_enter fun u moved => ⟨false, moved.1.valid validT,
      fun r v validV w later => later.1.valid validV⟩
  apply wp_bind
  apply wp_atomic
  intro t moved c u stepped _
  cases Option.some.inj stepped
  have validT := moved.1.valid valid
  refine ⟨guar_refl i t, fun v later => ?_⟩
  have validV := later.1.valid validT
  have past : decide (0 < t.exchanges) = true → 0 < v.exchanges :=
    fun yes => later.1.exchanged (of_decide_eq_true yes)
  cases call : c.call with
  | wait timeoutMs =>
    apply wp_bind
    refine wp_enter fun w moved => ⟨decide (0 < t.exchanges),
      ⟨moved.1.valid validV, moved.1.exchanged ∘ past⟩, fun r x post y later => ?_⟩
    apply wp_bind
    exact wp_record (later.1.valid post.1) post.2 again
  | signal =>
    apply wp_bind
    refine wp_enter fun w moved => ⟨false, moved.1.valid validV, fun r x post y later => ?_⟩
    obtain ⟨validX, quiet⟩ := post
    apply wp_bind
    apply wp_atomic
    intro z moved d a stepped _
    cases Option.some.inj stepped
    have quietZ := moved.1.quiet (later.1.valid validX) (later.1.quiet validX quiet)
    have validA : Valid { z with returned := z.returned + 1 } :=
      have known := moved.1.valid (later.1.valid validX)
      ⟨known.signaled, known.unsignaled, known.parked, known.ready, fun _ => quietZ⟩
    exact ⟨⟨⟨fun _ => validA, id, fun _ => id, fun _ => id⟩,
      fun j _ => ⟨id, fun theirs => ⟨theirs, rfl⟩⟩⟩, fun b later => again b (later.1.valid validA)⟩
  | isReady =>
    apply wp_bind
    refine wp_enter fun w moved => ⟨decide (0 < t.exchanges),
      ⟨moved.1.valid validV, moved.1.exchanged ∘ past⟩, fun r x post y later => ?_⟩
    apply wp_bind
    exact wp_record (later.1.valid post.1) post.2 again

theorem verified (i : ι) : Verified (discipline i) (contract i) (code i) := by
  intro f late s pre
  cases f with
  | signal => exact signal_verified i s pre
  | wait timeoutMs => exact wait_verified i timeoutMs late s pre.1 pre.2
  | isReady =>
    apply wp_bind
    refine wp_loadState fun t u moved later => ?_
    have validT := moved.1.valid pre.1
    refine wp_ret fun v after => ⟨after.1.valid (later.1.valid validT), fun signaled => ?_⟩
    exact decide_eq_true (validT.signaled (moved.1.exchanged (pre.2 signaled)))
  | cvWait => exact cvWait_verified i s pre.1 pre.2
  | cvWaitFor => exact cvWaitFor_verified i s pre.1 pre.2
  | client => exact client_verified i s pre

/-- Every run of any number of callers whose exchanges and notifications are
undisturbed delivers, in every state it reaches. -/
theorem undisturbed_delivers {pool : Pool ι (Shared ι) Choice Procedure Bool}
    (path : Pool.Reaches code Undisturbed start pool) : Delivered pool.shared := by
  have begun : Valid ({} : Shared ι) :=
    ⟨fun late => absurd late (Nat.lt_irrefl 0), fun _ => rfl, Or.inl rfl, fun _ member => by simp at member,
      fun late => absurd late (Nat.lt_irrefl 0)⟩
  have valid : Valid pool.shared := by
    refine (reaches_invariant discipline contract Valid
      ?_ ?_ verified ?_ ?_ begun path).2
    · exact fun _ _ _ undisturbed => undisturbed
    · exact fun i j s t different _ promised => ⟨promised.1, promised.2 j (Ne.symm different)⟩
    · exact fun _ _ _ promised => promised.1.valid
    · intro i
      apply wp_bind
      refine wp_enter fun t moved => ⟨false, moved.1.valid begun, fun r u _ v _ => ?_⟩
      exact wp_ret fun _ _ => trivial
  exact ⟨valid.signaled, valid.ready, fun returned => (valid.freed returned).2.2⟩

instance (s t : Shared ι) : Decidable (Undisturbed s t) :=
  inferInstanceAs (Decidable ((_ → _ ∧ (_ ∨ _ ∧ _)) ∧ (_ → _)))

/-- Thread 0 blocks in `Wait(-1)`, thread 1 signals, thread 0 returns true. -/
def deliveredSchedule : List (Nat × Choice) :=
  List.replicate 10 (0, ⟨.wait (-1), .notified, 0⟩) ++
    List.replicate 8 (1, ⟨.signal, .notified, 0⟩) ++
    List.replicate 6 (0, ⟨.wait (-1), .notified, 0⟩)

theorem deliveredSchedule_delivers :
    ∃ pool : Pool Nat (Shared Nat) Choice Procedure Bool,
      Pool.Reaches code Undisturbed start pool ∧ pool.shared.returned = 1 ∧
      pool.shared.results = [(false, true)] ∧ Delivered pool.shared := by
  have executed : (Pool.run code (fun s t => decide (Undisturbed s t)) deliveredSchedule
      (start (ι := Nat))).map (fun p => (p.shared.returned, p.shared.results)) =
        some (1, [(false, true)]) := by
    decide +kernel
  obtain ⟨pool, run, outcome⟩ := Option.map_eq_some_iff.mp executed
  have path := Pool.reaches_of_run (fun _ _ => of_decide_eq_true) run
  obtain ⟨returned, results⟩ := Prod.mk.inj outcome
  exact ⟨pool, path, returned, results, undisturbed_delivers path⟩

/-- Thread 0 has found the flag idle under the mutex when thread 1 signals and
returns; the store of `kWaiting` then overwrites the signal. -/
def lostSchedule : List (Nat × Choice) :=
  List.replicate 6 (0, ⟨.wait (-1), .notified, 0⟩) ++
    List.replicate 5 (1, ⟨.signal, .notified, 0⟩) ++
    List.replicate 4 (0, ⟨.wait (-1), .notified, 0⟩)

theorem signal_lost_between_check_and_store :
    ¬ ∀ pool : Pool Nat (Shared Nat) Choice Procedure Bool,
      Pool.Reaches code (fun _ _ => True) start pool → Delivered pool.shared := by
  intro claimed
  have executed : (Pool.run code (fun _ _ => true) lostSchedule (start (ι := Nat))).map
      (fun p => (p.shared.exchanges, p.shared.returned, p.shared.state, p.shared.blocked)) =
        some (1, 1, .kWaiting, [0]) := by
    decide +kernel
  obtain ⟨pool, run, outcome⟩ := Option.map_eq_some_iff.mp executed
  have delivered := claimed pool (Pool.reaches_of_run (fun _ _ _ => trivial) run)
  simp only [Prod.mk.injEq] at outcome
  obtain ⟨exchanged, _, lost, _⟩ := outcome
  have signaled := delivered.signaled (by omega)
  rw [lost] at signaled
  contradiction

end Talon.Task.DoneState
