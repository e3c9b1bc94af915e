import Mathlib.Data.List.Basic
import Talon.Handler.ChainLinks

/-! A chain is worked off in order, link by link, up to its end or its first
failure. -/
namespace Talon.Handler
open Interleaving

variable {i : Thread} {chain rest before : List Addr} {a b : Addr} {k : Nat} {res : Int} {e : Entry}
  {s t m origin : State} {trace new : List Observation}

theorem callees_append : callees (trace ++ new) = callees trace ++ callees new := List.filterMap_append

theorem callees_destroyed (tasks : List Addr) : callees (tasks.map .destroyed).reverse = [] := by
  rw [callees, ← List.map_reverse, List.filterMap_map, List.filterMap_eq_nil_iff]
  exact fun _ _ => rfl

/-- A task occurs once in a chain. -/
theorem split_unique {left right : List Addr} (distinct : chain.Nodup) (split : chain = before ++ a :: rest)
    (other : chain = left ++ a :: right) : before = left ∧ rest = right := by
  have apart := split ▸ distinct
  rw [List.nodup_append] at apart
  obtain ⟨-, tail, disjoint⟩ := apart
  have outside : a ∉ before := fun inside => disjoint a inside a List.mem_cons_self rfl
  have once : a ∉ rest := (List.nodup_cons.mp tail).1
  obtain ⟨left, -, right⟩ := (List.append_cons_inj_of_notMem outside once).mp (split.symm.trans other)
  exact ⟨left, right⟩

theorem Precedes.mem (precedes : Precedes chain a b) (distinct : chain.Nodup)
    (split : chain = before ++ b :: rest) : a ∈ before := by
  obtain ⟨left, right, around⟩ := precedes
  have other : chain = (left ++ [a]) ++ b :: right := by
    rw [around, List.append_assoc]
    rfl
  rw [(split_unique distinct split other).1]
  exact List.mem_append_right left List.mem_cons_self

theorem After.quiet (after : After chain trace) (quiet : ∀ b, .submitted b ∉ new) :
    After chain (trace ++ new) := by
  intro earlier b later a split precedes
  rcases List.append_eq_append_iff.mp split with ⟨l, -, tail⟩ | ⟨l, head, tail⟩
  · refine absurd ?_ (quiet b)
    rw [tail]
    exact List.mem_append_right l List.mem_cons_self
  · cases l with
    | nil =>
      refine absurd ?_ (quiet b)
      rw [← List.nil_append new, ← tail]
      exact List.mem_cons_self
    | cons first l =>
      obtain ⟨rfl, -⟩ := List.cons.inj tail
      exact after earlier b l a head precedes

theorem After.submit (after : After chain trace) (turn : ∀ a, Precedes chain a b → .returned a ∈ trace) :
    After chain (trace ++ [Observation.submitted b]) := by
  intro earlier c later a split precedes
  rcases List.append_eq_append_iff.mp split with ⟨l, rfl, tail⟩ | ⟨l, head, tail⟩
  · cases l with
    | nil =>
      cases tail
      rw [List.append_nil]
      exact turn a precedes
    | cons first l =>
      obtain ⟨-, rest⟩ := List.cons.inj tail
      simp at rest
  · cases l with
    | nil =>
      cases tail
      rw [List.append_nil] at head
      rw [← head]
      exact turn a precedes
    | cons first l =>
      obtain ⟨rfl, -⟩ := List.cons.inj tail
      exact after earlier c l a head precedes

/-- What has been seen when the links up to `a` have been submitted and the ones
before it have succeeded. -/
structure Told (origin : State) (chain before : List Addr) (a : Addr) (trace : List Observation) : Prop where
  callees : callees trace = before
  submitted : ∀ b, .submitted b ∈ trace ↔ b ∈ before ++ [a]
  returned : ∀ b ∈ before, .returned b ∈ trace
  after : After chain trace
  passed : ∀ b res, .completed b res ∈ trace → Passes origin b res

/-- The chain is under way, has succeeded, or has failed at the task at `a`. -/
inductive Progress (origin : State) (chain : List Addr) (trace : List Observation) (t : State) : Prop where
  | working {before rest : List Addr} {a : Addr} (here : At origin chain before a rest t)
      (told : Told origin chain before a trace)
  | done (clear : t.entries chain = []) (callees : callees trace = chain) (after : After chain trace)
      (passed : ∀ b res, .completed b res ∈ trace → Passes origin b res)
  | broken {before rest : List Addr} {a : Addr} {res : Int} (distinct : chain.Nodup)
      (split : chain = before ++ a :: rest) (clear : t.entries chain = [])
      (callees : callees trace <+: chain) (after : After chain trace)
      (submitted : ∀ b, .submitted b ∈ trace ↔ b ∈ before ++ [a])
      (destroyed : ∀ b ∈ rest, .destroyed b ∈ trace) (failed : .completed a res ∈ trace)
      (fails : ¬ Passes origin a res)
      (only : ∀ b r, .completed b r ∈ trace → ¬ Passes origin b r → b = a)

theorem not_passes (failure : res < 0) (retries : (s.task a).maxRetryCount ≤ 1) : ¬ Passes s a res := by
  rintro (success | ⟨-, more⟩)
  · omega
  · omega

theorem Progress.inOrder (progress : Progress origin chain trace t) : InOrder chain origin t trace := by
  cases progress with
  | working here told =>
    refine ⟨?_, told.after, fun _ clear => ?_, fun _ a _ res _ completed failure retries => ?_⟩
    · rw [told.callees, here.split]
      exact List.prefix_append _ _
    · obtain ⟨k, alone⟩ := here.entries
      rw [alone] at clear
      contradiction
    · exact absurd (told.passed a res completed) (not_passes failure retries)
  | done clear callees after passed =>
    refine ⟨?_, after, fun _ _ => callees, fun _ a _ res _ completed failure retries => ?_⟩
    · simp only [callees, List.prefix_refl]
    · exact absurd (passed a res completed) (not_passes failure retries)
  | @broken before c rest _ distinct split clear callees after submitted destroyed failed fails only =>
    refine ⟨callees, after, fun passed _ => absurd (passed _ _ failed) fails,
      fun left a right res other completed failure retries => ?_⟩
    obtain rfl := only a res completed (not_passes failure retries)
    obtain ⟨rfl, rfl⟩ := split_unique distinct split other
    exact ⟨submitted, destroyed⟩

section Steps
variable (told : Told origin chain before a trace)
include told

/-- More has been seen, but nothing submitted. -/
theorem Told.submitted_quiet (quiet : ∀ b, .submitted b ∉ new) (b : Addr) :
    .submitted b ∈ trace ++ new ↔ b ∈ before ++ [a] := by
  rw [List.mem_append, told.submitted b]
  exact or_iff_left (quiet b)

/-- The link has succeeded and its successor has been submitted. -/
theorem Told.next (distinct : chain.Nodup) (split : chain = before ++ a :: b :: rest) (success : 0 ≤ res) :
    Told origin chain (before ++ [a]) b
      (trace ++ ([.completed a res, .called a, .returned a, .submitted b] : List Observation)) := by
  have around : chain = (before ++ [a]) ++ b :: rest := by
    rw [split, List.append_assoc]
    rfl
  have returned : ∀ c ∈ before ++ [a],
      Observation.returned c ∈ trace ++ ([.completed a res, .called a, .returned a] : List Observation) := by
    intro c inside
    rcases List.mem_append.mp inside with earlier | own
    · exact List.mem_append_left _ (told.returned c earlier)
    · rw [List.mem_singleton.mp own]
      exact List.mem_append_right trace (by simp)
  have after : After chain
      ((trace ++ ([.completed a res, .called a, .returned a] : List Observation)) ++ [Observation.submitted b]) :=
    (told.after.quiet (by simp)).submit fun c precedes => returned c (precedes.mem distinct around)
  refine ⟨?_, fun c => ?_, fun c inside => ?_, ?_, fun c r completed => ?_⟩
  · rw [callees_append, told.callees]
    rfl
  · simp [told.submitted c, or_assoc]
  · have earlier := returned c inside
    simp only [List.mem_append] at earlier ⊢
    rcases earlier with old | new
    · exact Or.inl old
    · exact Or.inr (by simpa using new)
  · simpa using after
  · rcases List.mem_append.mp completed with old | new
    · exact told.passed c r old
    · simp at new
      obtain ⟨-, rfl⟩ := new
      exact Or.inl success

/-- The attempt has failed and the link has been submitted again. -/
theorem Told.again (distinct : chain.Nodup) (split : chain = before ++ a :: rest) (passes : Passes origin a res) :
    Told origin chain before a (trace ++ ([.completed a res, .submitted a] : List Observation)) := by
  have after : After chain ((trace ++ [Observation.completed a res]) ++ [Observation.submitted a]) := by
    refine (told.after.quiet (by simp)).submit fun c precedes => ?_
    exact List.mem_append_left _ (told.returned c (precedes.mem distinct split))
  refine ⟨?_, fun c => ?_, fun c inside => ?_, ?_, fun c r completed => ?_⟩
  · rw [callees_append, told.callees]
    exact List.append_nil before
  · simp [told.submitted c]
  · exact List.mem_append_left _ (told.returned c inside)
  · simpa using after
  · rcases List.mem_append.mp completed with old | new
    · exact told.passed c r old
    · simp at new
      obtain ⟨rfl, rfl⟩ := new
      exact passes

/-- The last link has succeeded. -/
theorem Told.done (split : chain = before ++ [a]) (success : 0 ≤ res) (clear : t.entries chain = [])
    (quiet : new = [] ∨ new = [.destroyed a]) :
    Progress origin chain (trace ++ .completed a res :: .called a :: .returned a :: new) t := by
  refine .done clear ?_ (told.after.quiet ?_) fun c r completed => ?_
  · rw [callees_append, told.callees, split]
    rcases quiet with rfl | rfl <;> rfl
  · rcases quiet with rfl | rfl <;> simp
  · rcases List.mem_append.mp completed with old | last
    · exact told.passed c r old
    · rcases quiet with rfl | rfl <;> simp at last <;> exact last.2 ▸ Or.inl success

/-- The link has failed for good. Its handler may have been called. -/
theorem Told.broken (distinct : chain.Nodup) (split : chain = before ++ a :: rest) (clear : t.entries chain = [])
    (fails : ¬ Passes origin a res) (handled : new = [] ∨ new = [.called a, .returned a]) :
    Progress origin chain
      (trace ++ .completed a res :: new ++ ((a :: rest).map .destroyed).reverse) t := by
  have quiet : ∀ b, .submitted b ∉ .completed a res :: new ++ ((a :: rest).map .destroyed).reverse := by
    rcases handled with rfl | rfl <;> simp
  rw [List.append_assoc]
  refine .broken distinct split clear ?_ (told.after.quiet quiet) (told.submitted_quiet quiet)
    (fun b inside => ?_) ?_ fails fun b r completed failed => ?_
  · rw [callees_append, told.callees, split]
    refine (List.prefix_append_right_inj before).mpr ?_
    rcases handled with rfl | rfl
    · exact (callees_destroyed (a :: rest)).symm ▸ List.nil_prefix
    · have once : Handler.callees
          (([.completed a res, .called a, .returned a] : List Observation) ++
            ((a :: rest).map .destroyed).reverse) = [a] := by
        rw [callees_append, callees_destroyed]
        rfl
      exact once.symm ▸ List.prefix_append [a] rest
  · refine List.mem_append_right trace (List.mem_append_right _ ?_)
    rw [List.mem_reverse]
    exact List.mem_map_of_mem (List.mem_cons_of_mem a inside)
  · exact List.mem_append_right trace List.mem_cons_self
  · rcases List.mem_append.mp completed with old | last
    · exact absurd (told.passed b r old) failed
    · rcases handled with rfl | rfl <;> simp at last <;> exact last.1

end Steps

/-- The handler has returned in state `m`. -/
theorem Opens.started {called : State} {started : List Observation} (opens : Opens chain a s called)
    (member : a ∈ chain) (same : (called.task a).next = (s.task a).next)
    (handler : Spares chain (called.handled a) m) (first : Emits chain s m started) :
    Handled chain a s called m ∧ (m.task a).next = (s.task a).next ∧ started = [.called a] := by
  have handled := opens.handled member handler
  exact ⟨handled, (congrArg Task.next handled.own).trans same, first.unique handled.story⟩

theorem At.succeeds {started finished : List Observation} (here : At origin chain before a rest s)
    (told : Told origin chain before a trace) (alone : s.entries chain = [⟨a, .kNone, k⟩])
    (run : Succeeds a k res s m t) (handler : Spares chain ((s.delivered a k res).handled a) m)
    (first : Emits chain s m started) (second : Emits chain m t finished) (sqes : t.refused = s.refused) :
    Progress origin chain (trace ++ (.completed a res :: started ++ .returned a :: finished)) t := by
  have inside : a ∈ chain := mem_split here.split List.mem_cons_self
  obtain ⟨handled, next, rfl⟩ := (opens_delivered alone run.queued inside).started inside
    (by rw [delivered_task]) handler first
  have once : (m.task a).repeatForever = false := by
    rw [handled.own, delivered_task]
    exact here.once
  obtain ⟨last, finishes, rfl⟩ := run.finished
  have same : last.refused = m.refused := by
    have before := refused_handler run.handled
    have after := refused_finishSuccess finishes
    have total : last.refused = s.refused := sqes
    exact Nat.le_antisymm (total ▸ before) after
  cases rest with
  | nil =>
    have none_ : (m.task a).next = none := next.trans here.chained.1
    obtain ⟨entries, story⟩ := finishes_last inside none_ once finishes
    refine told.done here.split run.success (entries.trans handled.clear) ?_
    rcases story with story | story
    · exact Or.inl (second.unique story)
    · exact Or.inr (second.unique story)
  | cons b rest =>
    obtain ⟨reached, story⟩ := here.finishes_next handled (next.trans here.chained.1) once finishes same
    obtain rfl : finished = [.submitted b] := second.unique story
    have later : At origin chain (before ++ [a]) b rest
        (last.release k ((s.take ⟨a, .kNone, k⟩).liveSubmission a)) :=
      reached.congr (fun _ _ => rfl) rfl rfl
    exact .working later (told.next here.distinct here.split run.success)

theorem At.failed {started finished : List Observation} (here : At origin chain before a rest s)
    (told : Told origin chain before a trace) (alone : s.entries chain = [⟨a, .kNone, k⟩])
    (queued : ⟨a, .kNone, k⟩ ∈ s.ring) (run : GivesUp a k res s m t)
    (handler : Spares chain (((s.delivered a k res).retried a).handled a) m)
    (first : Emits chain s m started) (second : Emits chain m t finished) :
    Progress origin chain (trace ++ (.completed a res :: started ++ .returned a :: finished)) t := by
  have inside : a ∈ chain := mem_split here.split List.mem_cons_self
  have opens : Opens chain a s ((s.delivered a k res).retried a) :=
    (opens_delivered alone queued inside).setTask _
  obtain ⟨handled, next, rfl⟩ := opens.started inside
    (by rw [State.retried, setTask_task_self, delivered_task]) handler first
  obtain ⟨story, clear⟩ := here.fails handled next run
  obtain rfl : finished = ((a :: rest).map .destroyed).reverse := by
    refine second.unique ?_
    rw [List.reverse_reverse]
    exact story
  have once : (origin.task a).maxRetryCount ≤ 1 := by
    have last := run.last
    have counted := here.counted
    rw [here.retries a List.mem_cons_self] at last counted
    by_cases retries : 0 < (origin.task a).maxRetryCount
    · rw [counted retries] at last
      exact last
    · omega
  have broken := told.broken here.distinct here.split clear (not_passes run.failure once) (Or.inr rfl)
  simpa using broken

/-- A completion moves the chain on by one attempt. -/
theorem At.answers (here : At origin chain before a rest s) (told : Told origin chain before a trace)
    (member : e.task ∈ chain) (result : res ≠ -EAGAIN) (answers : Answers chain e res s new t)
    (sqes : t.refused = s.refused) : Progress origin chain (trace ++ new) t := by
  cases answers with
  | calls dispatches returns handler first second =>
    obtain ⟨k, rfl, alone⟩ := here.only dispatches.1 member
    cases returns with
    | succeeds run => exact here.succeeds told alone run handler first second sqes
    | fails run => exact here.failed told alone dispatches.1 run handler first second
  | @passes _ seen dispatches silent emits =>
    obtain ⟨k, rfl, alone⟩ := here.only dispatches.1 member
    by_cases success : 0 ≤ res
    · obtain ⟨m, run⟩ := (dispatches_iff_succeeds here.submitted here.uncancelled success).mp dispatches
      exact absurd (Returns.succeeds run) (silent _ m)
    have failure : res < 0 := Int.not_le.mp success
    by_cases canceled : res = -ECANCELED
    · subst canceled
      obtain ⟨story, clear⟩ := here.canceled alone dispatches
      rw [← List.reverse_reverse ((a :: rest).map Observation.destroyed)] at story
      obtain rfl := emits.unique story
      have fails : ¬ Passes origin a (-ECANCELED) := by
        rintro (success | ⟨other, -⟩)
        · contradiction
        · exact other rfl
      have broken := told.broken here.distinct here.split clear fails (Or.inl rfl)
      simpa using broken
    by_cases retries : (origin.task a).maxRetryCount ≤ 1
    · obtain ⟨m, run⟩ := here.dispatches_fails failure result canceled retries dispatches
      exact absurd (Returns.fails run) (silent _ m)
    · obtain ⟨reached, story⟩ := here.retried alone failure result canceled (by omega) dispatches sqes
      obtain rfl : seen = [.submitted a] := emits.unique story
      exact .working reached (told.again here.distinct here.split (Or.inr ⟨canceled, by omega⟩))

theorem Answers.queued (answers : Answers chain e res s new t) : e ∈ s.ring := by
  cases answers with
  | calls dispatches => exact dispatches.1
  | passes dispatches => exact dispatches.1

theorem ChainRun.progress (built : Built chain s) (run : ChainRun chain s trace t) :
    Progress s chain trace t := by
  induction run with
  | @adds a i r t trace head run sqes emits =>
    obtain ⟨rest, rfl⟩ : ∃ rest, chain = a :: rest := by
      cases chain with
      | nil => contradiction
      | cons first rest => exact ⟨rest, by rw [Option.some.inj head]⟩
    have due : Due s (a :: rest) [] a rest s :=
      ⟨built.distinct, rfl, built.chained, built.waits, fun _ _ => rfl, built.clear, built.unlimited⟩
    obtain ⟨here, story⟩ := due.adds run sqes
    obtain rfl : trace = [.submitted a] := emits.unique story
    refine .working here ⟨rfl, fun b => ?_, nofun, ?_, nofun⟩
    · simp
    · have nothing : After (a :: rest) [] := fun _ _ _ _ split => by simp at split
      refine nothing.submit fun c precedes => ?_
      exact absurd (precedes.mem built.distinct (List.nil_append _).symm) nofun
  | elsewhere _ apart ih =>
    cases ih with
    | working here told => exact .working (here.spares apart) told
    | done clear callees after passed => exact .done (apart.entries.trans clear) callees after passed
    | broken distinct split clear callees after submitted destroyed failed fails only =>
      exact .broken distinct split (apart.entries.trans clear) callees after submitted destroyed failed fails
        only
  | completes _ member result answers sqes ih =>
    have queued := mem_entries answers.queued member
    cases ih with
    | working here told => exact here.answers told member result answers sqes
    | done clear =>
      rw [clear] at queued
      contradiction
    | broken _ _ clear =>
      rw [clear] at queued
      contradiction

/-- The handlers of a chain are called in its order, each at most once and before
the next task is submitted. All of them are called if no link fails; the failure
of a link destroys the tasks after it, which have not been submitted. -/
theorem chain_inOrder (built : Built chain s) (run : ChainRun chain s trace t) : InOrder chain s t trace :=
  (run.progress built).inOrder

theorem Spares.refl (chain : List Addr) (s : State) : Spares chain s s := ⟨fun _ _ => rfl, rfl, rfl, rfl⟩

/-- The rest of a successful dispatch whose handler has returned at once. -/
def State.succeed (s : State) (a : Addr) (k : Nat) (res : Int) : State :=
  ((((finishSuccess a k res).eval (code .loop) 64 ((s.delivered a k res).handled a)).map Prod.snd).getD s).release
    k ((s.take ⟨a, .kNone, k⟩).liveSubmission a)

/-- The task is submitted and its completion dispatched within 64 nested steps. -/
def State.succeedable (s : State) (a : Addr) (k : Nat) (res : Int) : Bool :=
  decide (⟨a, .kNone, k⟩ ∈ s.ring) && decide ((s.task a).taskState = .kSubmitted) && !(s.task a).isCancel &&
    decide (0 ≤ res) &&
    ((finishSuccess a k res).eval (code .loop) 64 ((s.delivered a k res).handled a)).isSome

theorem answers_succeed {started finished : List Observation} (ready : s.succeedable a k res = true)
    (first : Emits chain s ((s.delivered a k res).handled a) started)
    (second : Emits chain ((s.delivered a k res).handled a) (s.succeed a k res) finished) :
    Answers chain ⟨a, .kNone, k⟩ res s (.completed a res :: started ++ .returned a :: finished)
      (s.succeed a k res) := by
  simp only [State.succeedable, Bool.and_eq_true, decide_eq_true_eq, Bool.not_eq_true'] at ready
  obtain ⟨⟨⟨⟨queued, submitted⟩, uncancelled⟩, success⟩, ends⟩ := ready
  obtain ⟨⟨u, last⟩, evaluated⟩ := Option.isSome_iff_exists.mp ends
  have run : Succeeds a k res s ((s.delivered a k res).handled a) (s.succeed a k res) := by
    refine ⟨queued, submitted, uncancelled, success, runs_executeCompletionHandler_silent _ a, last,
      runs_of_eval evaluated, ?_⟩
    simp only [State.succeed, evaluated, Option.map_some, Option.getD_some]
  have dispatches := (dispatches_iff_succeeds submitted uncancelled success).mpr ⟨_, run⟩
  exact .calls dispatches (.succeeds run) (Spares.refl chain _) first second

/-- A read and the write after it. -/
def readThenWrite : State :=
  ((start 0).shared.create 2 { taskType := .kWrite, fd := 4 }).create 1 { taskType := .kRead, fd := 3, next := some 2 }

theorem readThenWrite_built : Built [1, 2] readThenWrite where
  distinct := by decide
  chained := ⟨rfl, rfl, trivial⟩
  waits a inside := by
    simp only [List.mem_cons, List.not_mem_nil, or_false] at inside
    rcases inside with rfl | rfl
    · exact ⟨nofun, rfl, rfl, Int.le_refl 0, Int.le_refl 0⟩
    · exact ⟨nofun, rfl, rfl, Int.le_refl 0, Int.le_refl 0⟩
  clear := rfl
  unlimited := rfl

def readUnderWay : State := readThenWrite.accept (.client 0) 1

def writeUnderWay : State := readUnderWay.succeed 1 0 5

/-- The read transfers five bytes and the write seven. -/
theorem readThenWrite_inOrder : ∃ trace t, ChainRun [1, 2] readThenWrite trace t ∧
    callees trace = [1, 2] ∧ InOrder [1, 2] readThenWrite t trace := by
  have waits := readThenWrite_built.waits 1 List.mem_cons_self
  have room : readThenWrite.Room := fun limited => absurd limited (Int.lt_irrefl 0)
  have added := (runs_addTask_accepts (i := .client 0) waits.idle room waits.supported).mpr ⟨rfl, rfl⟩
  have adds : ChainRun [1, 2] readThenWrite [.submitted 1] readUnderWay :=
    .adds rfl added.1 added.2 (by unfold Emits; decide +kernel)
  have reads : Emits [1, 2] readUnderWay ((readUnderWay.delivered 1 0 5).handled 1) [.called 1] := by
    unfold Emits
    decide +kernel
  have submits : Emits [1, 2] ((readUnderWay.delivered 1 0 5).handled 1) writeUnderWay [.submitted 2] := by
    unfold Emits
    decide +kernel
  have writes : Emits [1, 2] writeUnderWay ((writeUnderWay.delivered 2 1 7).handled 2) [.called 2] := by
    unfold Emits
    decide +kernel
  have ends : Emits [1, 2] ((writeUnderWay.delivered 2 1 7).handled 2) (writeUnderWay.succeed 2 1 7) [] := by
    unfold Emits
    decide +kernel
  have read := answers_succeed (by decide +kernel) reads submits
  have write := answers_succeed (by decide +kernel) writes ends
  have half := adds.completes (by decide) (by decide) read (by decide +kernel)
  have full := half.completes (by decide) (by decide) write (by decide +kernel)
  exact ⟨_, _, full, rfl, chain_inOrder readThenWrite_built full⟩

end Talon.Handler
