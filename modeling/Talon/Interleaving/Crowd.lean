import Talon.Interleaving.Program
import Mathlib.Data.List.Nodup

/-! Threads that start and exit. A crowd is a pool of threads of which some are
running. Nothing here fixes the state, the procedures or the number of threads. -/
namespace Interleaving

variable {ι S C F R α β : Type}

/-- The `running` threads have started and not exited. A thread that has `ended`
does not start again: another thread has another name. -/
structure Crowd (ι S C F R : Type) where
  pool : Pool ι S C F R
  running : List ι
  ended : List ι

inductive Event (ι C : Type) where
  | start (i : ι)
  | work (i : ι) (c : C)
  | exit (i : ι)

/-- A thread exits when it would enter a procedure that is a `rest`; `leave` is
what becomes of the shared state. -/
structure Exit (ι S F : Type) where
  rest : F → Bool
  leave : ι → S → S

def Prog.resting (rest : F → Bool) : Prog S C F R α → Bool
  | .call f _ => rest f
  | _ => false

namespace Crowd

abbrev shared (crowd : Crowd ι S C F R) : S := crowd.pool.shared

def gather (pool : Pool ι S C F R) : Crowd ι S C F R := ⟨pool, [], []⟩

section Steps
variable [DecidableEq ι] (code : ι → F → Prog S C F R R) (exit : Exit ι S F)

def step (crowd : Crowd ι S C F R) : Event ι C → Option (Crowd ι S C F R)
  | .start i => if i ∈ crowd.running ∨ i ∈ crowd.ended then none
      else some { crowd with running := i :: crowd.running }
  | .work i c => if i ∈ crowd.running then (crowd.pool.step code i c).map fun pool => { crowd with pool := pool }
      else none
  | .exit i => if i ∈ crowd.running ∧ (crowd.pool.thread i).resting exit.rest = true then
      some ⟨⟨exit.leave i crowd.shared, crowd.pool.thread⟩, crowd.running.erase i, i :: crowd.ended⟩
      else none

/-- Every crowd that `start` can become when each event meets `allowed`. -/
inductive Reaches (allowed : Crowd ι S C F R → Event ι C → Crowd ι S C F R → Prop) (start : Crowd ι S C F R) :
    Crowd ι S C F R → Prop where
  | refl : Reaches allowed start start
  | next {before after : Crowd ι S C F R} {event : Event ι C} (path : Reaches allowed start before)
      (stepped : step code exit before event = some after) (admitted : allowed before event after) :
      Reaches allowed start after

/-- Execute a schedule. Every event has to pass `check`. -/
def run (check : Crowd ι S C F R → Event ι C → Crowd ι S C F R → Bool) : List (Event ι C) → Crowd ι S C F R →
    Option (Crowd ι S C F R)
  | [], crowd => some crowd
  | event :: rest, crowd => (step code exit crowd event).bind fun after =>
      if check crowd event after then run check rest after else none

end Steps

section Runs
variable [DecidableEq ι] {code : ι → F → Prog S C F R R} {exit : Exit ι S F}
  {allowed : Crowd ι S C F R → Event ι C → Crowd ι S C F R → Prop} {start middle crowd before after : Crowd ι S C F R}

theorem Reaches.trans (first : Reaches code exit allowed start middle)
    (second : Reaches code exit allowed middle crowd) : Reaches code exit allowed start crowd := by
  induction second with
  | refl => exact first
  | next _ stepped admitted ih => exact .next ih stepped admitted

theorem Reaches.mono {wider : Crowd ι S C F R → Event ι C → Crowd ι S C F R → Prop}
    (weaker : ∀ before event after, allowed before event after → wider before event after)
    (path : Reaches code exit allowed start crowd) : Reaches code exit wider start crowd := by
  induction path with
  | refl => exact .refl
  | next _ stepped admitted ih => exact .next ih stepped (weaker _ _ _ admitted)

theorem reaches_of_run {check : Crowd ι S C F R → Event ι C → Crowd ι S C F R → Bool}
    (sound : ∀ before event after, check before event after = true → allowed before event after)
    {schedule : List (Event ι C)} (executed : run code exit check schedule start = some crowd) :
    Reaches code exit allowed start crowd := by
  induction schedule generalizing start with
  | nil =>
    cases executed
    exact .refl
  | cons event rest ih =>
    simp only [run, Option.bind_eq_some_iff, Option.ite_none_right_eq_some] at executed
    obtain ⟨after, stepped, checked, executed⟩ := executed
    exact (Reaches.next .refl stepped (sound _ _ _ checked)).trans (ih executed)

theorem step_cases {event : Event ι C} (stepped : step code exit before event = some after) :
    (∃ i, event = .start i ∧ i ∉ before.running ∧ after = { before with running := i :: before.running }) ∨
    (∃ i c pool, event = .work i c ∧ i ∈ before.running ∧ before.pool.step code i c = some pool ∧
      after = { before with pool := pool }) ∨
    (∃ i, event = .exit i ∧ i ∈ before.running ∧ (before.pool.thread i).resting exit.rest = true ∧
      after = ⟨⟨exit.leave i before.shared, before.pool.thread⟩, before.running.erase i, i :: before.ended⟩) := by
  cases event with
  | start i =>
    simp only [step, Option.ite_none_left_eq_some, Option.some.injEq, not_or] at stepped
    exact Or.inl ⟨i, rfl, stepped.1.1, stepped.2.symm⟩
  | work i c =>
    simp only [step, Option.ite_none_right_eq_some, Option.map_eq_some_iff] at stepped
    obtain ⟨runs, pool, moved, rfl⟩ := stepped
    exact Or.inr (Or.inl ⟨i, c, pool, rfl, runs, moved, rfl⟩)
  | exit i =>
    simp only [step, Option.ite_none_right_eq_some, Option.some.injEq] at stepped
    exact Or.inr (Or.inr ⟨i, rfl, stepped.1.1, stepped.1.2, stepped.2.symm⟩)

/-- A thread is counted once. -/
theorem Reaches.nodup (initially : start.running.Nodup) (path : Reaches code exit allowed start crowd) :
    crowd.running.Nodup := by
  induction path with
  | refl => exact initially
  | next _ stepped _ ih =>
    obtain ⟨i, -, absent, rfl⟩ | ⟨i, c, pool, -, -, -, rfl⟩ | ⟨i, -, -, -, rfl⟩ := step_cases stepped
    · exact List.nodup_cons.mpr ⟨absent, ih⟩
    · exact ih
    · exact ih.erase i

/-- Exits that change nothing. -/
def Quiet (exit : Exit ι S F) (allowed : Crowd ι S C F R → Event ι C → Crowd ι S C F R → Prop) : Prop :=
  ∀ before i after, allowed before (.exit i) after → exit.leave i before.shared = before.shared

/-- Then the threads that have exited may as well wait for ever. -/
theorem Reaches.pool (quiet : Quiet exit allowed) (path : Reaches code exit allowed start crowd) :
    Pool.Reaches code (fun _ _ => True) start.pool crowd.pool := by
  induction path with
  | refl => exact .refl
  | @next before after event _ stepped admitted ih =>
    obtain ⟨i, rfl, -, rfl⟩ | ⟨i, c, pool, -, -, moved, rfl⟩ | ⟨i, rfl, -, -, rfl⟩ := step_cases stepped
    · exact ih
    · exact ih.next moved trivial
    · rw [quiet _ _ _ admitted]
      exact ih

/-- What holds of every thread that has not started, and of one that exits, and
is left alone by other threads' steps, holds of all threads that do not run. -/
theorem Reaches.absent {P : ι → S → Prop} (quiet : Quiet exit allowed) (initially : ∀ i, P i start.shared)
    (kept : ∀ {before : Crowd ι S C F R} {pool i j c}, Reaches code exit allowed start before →
      before.pool.step code i c = some pool → j ≠ i → P j before.shared → P j pool.shared)
    (left : ∀ {before after : Crowd ι S C F R} {i}, Reaches code exit allowed start before →
      (before.pool.thread i).resting exit.rest = true → allowed before (.exit i) after → P i before.shared)
    (path : Reaches code exit allowed start crowd) : ∀ i, i ∉ crowd.running → P i crowd.shared := by
  induction path with
  | refl => exact fun i _ => initially i
  | next path stepped admitted ih =>
    obtain ⟨i, rfl, absent, rfl⟩ | ⟨i, c, pool, rfl, runs, moved, rfl⟩ | ⟨i, rfl, runs, resting, rfl⟩ :=
      step_cases stepped
    · exact fun j outside => ih j fun inside => outside (List.mem_cons_of_mem _ inside)
    · intro j outside
      refine kept path moved ?_ (ih j outside)
      rintro rfl
      exact outside runs
    · intro j outside
      change P j (exit.leave i _)
      rw [quiet _ _ _ admitted]
      by_cases same : j = i
      · subst same
        exact left path resting admitted
      · exact ih j fun inside => outside ((List.mem_erase_of_ne same).mpr inside)

end Runs
end Crowd

end Interleaving
