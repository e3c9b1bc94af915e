import Mathlib.Logic.Function.Basic

/-! Programs of atomic steps over a shared state, and their two semantics: any
interleaving of a pool of threads, and the uninterrupted run of one thread.
Nothing here fixes the state, the procedures or the number of threads. -/
namespace Interleaving

/-- A thread's remaining program. `act` is one atomic step: the scheduler's
choice `c` enables it where `effect c s` is defined, and the continuation sees
the choice and the state before the step. `call` enters a procedure, so loops
and recursion need no fuel. -/
inductive Prog (S C F R α : Type) where
  | ret (value : α)
  | act (effect : C → S → Option S) (next : C → S → Prog S C F R α)
  | call (procedure : F) (next : R → Prog S C F R α)

variable {ι S C F R α β : Type}

namespace Prog

def bind : Prog S C F R α → (α → Prog S C F R β) → Prog S C F R β
  | .ret value, k => k value
  | .act effect next, k => .act effect fun c s => (next c s).bind k
  | .call procedure next, k => .call procedure fun r => (next r).bind k

instance : Monad (Prog S C F R) where
  pure := .ret
  bind := bind

theorem bind_assoc {γ : Type} (p : Prog S C F R α) (f : α → Prog S C F R β)
    (g : β → Prog S C F R γ) : (p.bind f).bind g = p.bind fun a => (f a).bind g := by
  induction p with
  | ret value => rfl
  | act effect next ih => simp only [bind, ih]
  | call procedure next ih => simp only [bind, ih]

/-- The general atomic step that returns what it saw. -/
def atomic (effect : C → S → Option S) (result : C → S → α) : Prog S C F R α :=
  .act effect fun c s => .ret (result c s)

def load (read : S → α) : Prog S C F R α := atomic (fun _ s => some s) fun _ s => read s

def store (write : S → S) : Prog S C F R Unit :=
  atomic (fun _ s => some (write s)) fun _ _ => ()

/-- Read-modify-write: the returned value is the one before the update. -/
def exchange (read : S → α) (write : S → S) : Prog S C F R α :=
  atomic (fun _ s => some (write s)) fun _ s => read s

/-- Blocks until `ready`, then updates in the same atomic step. -/
def await (ready : S → Bool) (write : S → S) : Prog S C F R Unit :=
  atomic (fun _ s => if ready s then some (write s) else none) fun _ _ => ()

/-- An unconstrained choice of the environment. -/
def choose : Prog S C F R C := atomic (fun _ s => some s) fun c _ => c

def enter (procedure : F) : Prog S C F R R := .call procedure .ret

end Prog

/-- A pool of threads over one shared state. -/
structure Pool (ι S C F R : Type) where
  shared : S
  thread : ι → Prog S C F R Unit

namespace Pool
variable [DecidableEq ι]

/-- One scheduled step of thread `i`. A finished or blocked thread has none. -/
def step (code : ι → F → Prog S C F R R) (i : ι) (c : C) (pool : Pool ι S C F R) :
    Option (Pool ι S C F R) :=
  match pool.thread i with
  | .ret _ => none
  | .act effect next => (effect c pool.shared).map fun s =>
      ⟨s, Function.update pool.thread i (next c pool.shared)⟩
  | .call procedure next =>
      some ⟨pool.shared, Function.update pool.thread i ((code i procedure).bind next)⟩

/-- What a step can be. -/
theorem step_cases {code : ι → F → Prog S C F R R} {i : ι} {c : C} {pool after : Pool ι S C F R}
    (stepped : step code i c pool = some after) :
    (∃ effect next s, pool.thread i = .act effect next ∧ effect c pool.shared = some s ∧
      after = ⟨s, Function.update pool.thread i (next c pool.shared)⟩) ∨
    ∃ f next, pool.thread i = .call f next ∧
      after = ⟨pool.shared, Function.update pool.thread i ((code i f).bind next)⟩ := by
  unfold step at stepped
  cases program : pool.thread i with
  | ret value =>
    simp only [program] at stepped
    contradiction
  | act effect next =>
    simp only [program, Option.map_eq_some_iff] at stepped
    obtain ⟨s, moved, rfl⟩ := stepped
    exact Or.inl ⟨effect, next, s, rfl, moved, rfl⟩
  | call f next =>
    simp only [program, Option.some.injEq] at stepped
    exact Or.inr ⟨f, next, rfl, stepped.symm⟩

/-- Every state reached from `start` when each step of the shared state meets
`allowed`. Unrestricted interleaving is `allowed = fun _ _ => True`. -/
inductive Reaches (code : ι → F → Prog S C F R R) (allowed : S → S → Prop)
    (start : Pool ι S C F R) : Pool ι S C F R → Prop where
  | refl : Reaches code allowed start start
  | next : Reaches code allowed start before → step code i c before = some after →
      allowed before.shared after.shared → Reaches code allowed start after

/-- Execute a schedule: which thread moves, and with which choice. Every step
of the shared state has to pass `check`. -/
def run (code : ι → F → Prog S C F R R) (check : S → S → Bool) : List (ι × C) →
    Pool ι S C F R → Option (Pool ι S C F R)
  | [], pool => some pool
  | (i, c) :: rest, pool => (step code i c pool).bind fun after =>
      if check pool.shared after.shared then run code check rest after else none

theorem Reaches.trans {code : ι → F → Prog S C F R R} {allowed : S → S → Prop}
    {start middle last : Pool ι S C F R} (first : Reaches code allowed start middle)
    (second : Reaches code allowed middle last) : Reaches code allowed start last := by
  induction second with
  | refl => exact first
  | next _ stepped admitted ih => exact .next ih stepped admitted

theorem Reaches.mono {code : ι → F → Prog S C F R R} {allowed wider : S → S → Prop}
    {start last : Pool ι S C F R} (weaker : ∀ s t, allowed s t → wider s t)
    (path : Reaches code allowed start last) : Reaches code wider start last := by
  induction path with
  | refl => exact .refl
  | next _ stepped admitted ih => exact .next ih stepped (weaker _ _ admitted)

/-- An executed schedule is an admitted interleaving. -/
theorem reaches_of_run {code : ι → F → Prog S C F R R} {check : S → S → Bool}
    {allowed : S → S → Prop} (sound : ∀ s t, check s t = true → allowed s t)
    {schedule : List (ι × C)} {start last : Pool ι S C F R}
    (executed : run code check schedule start = some last) :
    Reaches code allowed start last := by
  induction schedule generalizing start with
  | nil => cases executed; exact .refl
  | cons head rest ih =>
    obtain ⟨i, c⟩ := head
    simp only [run, Option.bind_eq_some_iff, Option.ite_none_right_eq_some] at executed
    obtain ⟨middle, stepped, checked, executed⟩ := executed
    exact (Reaches.next .refl stepped (sound _ _ checked)).trans (ih executed)

end Pool

/-- The uninterrupted run of one thread: `Runs code p s a t` takes program `p`
from state `s` to result `a` in state `t`. A diverging program has no run. -/
inductive Runs (code : F → Prog S C F R R) : {α : Type} → Prog S C F R α → S → α → S → Prop where
  | ret {α : Type} {a : α} {s : S} : Runs code (.ret a) s a s
  | act {α : Type} {effect : C → S → Option S} {next : C → S → Prog S C F R α} {c : C}
      {s middle t : S} {a : α} (stepped : effect c s = some middle)
      (rest : Runs code (next c s) middle a t) : Runs code (.act effect next) s a t
  | call {α : Type} {f : F} {next : R → Prog S C F R α} {s middle t : S} {r : R} {a : α}
      (body : Runs code (code f) s r middle) (rest : Runs code (next r) middle a t) :
      Runs code (.call f next) s a t

namespace Runs
variable {code : F → Prog S C F R R} {s t : S} {a : α}

theorem bind {p : Prog S C F R α} {k : α → Prog S C F R β} {middle : S} {b : β}
    (first : Runs code p s a middle) (second : Runs code (k a) middle b t) :
    Runs code (p.bind k) s b t := by
  induction first with
  | ret => exact second
  | act stepped _ ih => exact .act stepped (ih second)
  | call body _ _ ih => exact .call body (ih second)

theorem unbind {p : Prog S C F R α} {k : α → Prog S C F R β} {b : β}
    (run : Runs code (p.bind k) s b t) :
    ∃ a middle, Runs code p s a middle ∧ Runs code (k a) middle b t := by
  induction p generalizing s with
  | ret value => exact ⟨value, s, .ret, run⟩
  | act effect next ih =>
    cases run with
    | act stepped rest =>
      obtain ⟨a, middle, first, second⟩ := ih _ _ rest
      exact ⟨a, middle, .act stepped first, second⟩
  | call procedure next ih =>
    cases run with
    | call body rest =>
      obtain ⟨a, middle, first, second⟩ := ih _ rest
      exact ⟨a, middle, .call body first, second⟩

/-- What a thread does alone is one of the interleavings. -/
theorem reaches [DecidableEq ι] [Inhabited C] {code : ι → F → Prog S C F R R} {i : ι}
    {p : Prog S C F R α} (run : Runs (code i) p s a t) (thread : ι → Prog S C F R Unit)
    (k : α → Prog S C F R Unit) :
    Pool.Reaches code (fun _ _ => True) ⟨s, Function.update thread i (p.bind k)⟩
      ⟨t, Function.update thread i (k a)⟩ := by
  induction run with
  | ret => exact .refl
  | @act _ effect next c s middle t a stepped rest ih =>
    have moved : Pool.step code i c ⟨s, Function.update thread i ((Prog.act effect next).bind k)⟩ =
        some ⟨middle, Function.update thread i ((next c s).bind k)⟩ := by
      simp only [Pool.step, Function.update_self, Prog.bind, stepped, Option.map_some,
        Function.update_idem]
    exact (Pool.Reaches.next .refl moved trivial).trans (ih k)
  | @call _ f next s middle t r a body rest ihBody ihRest =>
    have entered : Pool.step code i default ⟨s, Function.update thread i ((Prog.call f next).bind k)⟩ =
        some ⟨s, Function.update thread i ((code i f).bind fun r => (next r).bind k)⟩ := by
      simp only [Pool.step, Function.update_self, Prog.bind, Function.update_idem]
    exact (Pool.Reaches.next .refl entered trivial).trans ((ihBody _).trans (ihRest k))

end Runs

@[simp] theorem runs_ret {code : F → Prog S C F R R} {value a : α} {s t : S} :
    Runs code (.ret value) s a t ↔ a = value ∧ t = s := by
  constructor
  · intro run
    cases run
    exact ⟨rfl, rfl⟩
  · rintro ⟨rfl, rfl⟩
    exact .ret

@[simp] theorem runs_pure {code : F → Prog S C F R R} {value a : α} {s t : S} :
    Runs code (pure value) s a t ↔ a = value ∧ t = s := runs_ret

theorem runs_bind {code : F → Prog S C F R R} {p : Prog S C F R α}
    {k : α → Prog S C F R β} {s t : S} {b : β} :
    Runs code (p >>= k) s b t ↔
      ∃ a middle, Runs code p s a middle ∧ Runs code (k a) middle b t :=
  ⟨Runs.unbind, fun ⟨_, _, first, second⟩ => first.bind second⟩

/-- The intermediate value of a program that returns nothing is known. -/
theorem runs_unit_bind {code : F → Prog S C F R R} {p : Prog S C F R Unit}
    {k : Unit → Prog S C F R β} {s t : S} {b : β} :
    Runs code (p >>= k) s b t ↔ ∃ middle, Runs code p s () middle ∧ Runs code (k ()) middle b t := by
  rw [runs_bind]
  constructor
  · rintro ⟨_, middle, first, second⟩
    exact ⟨middle, first, second⟩
  · rintro ⟨middle, first, second⟩
    exact ⟨(), middle, first, second⟩

@[simp] theorem runs_atomic {code : F → Prog S C F R R} {effect : C → S → Option S}
    {result : C → S → α} {s t : S} {a : α} :
    Runs code (.atomic effect result) s a t ↔ ∃ c, effect c s = some t ∧ a = result c s := by
  constructor
  · intro run
    cases run with
    | act stepped rest =>
      obtain ⟨rfl, rfl⟩ := runs_ret.mp rest
      exact ⟨_, stepped, rfl⟩
  · rintro ⟨c, stepped, rfl⟩
    exact .act stepped .ret

@[simp] theorem runs_enter {code : F → Prog S C F R R} {f : F} {s t : S} {r : R} :
    Runs code (.enter f) s r t ↔ Runs code (code f) s r t := by
  constructor
  · intro run
    cases run with
    | call body rest =>
      obtain ⟨rfl, rfl⟩ := runs_ret.mp rest
      exact body
  · intro body
    exact .call body .ret

/-- Execute a program alone, with the default choice at every step. -/
def Prog.eval [Inhabited C] (code : F → Prog S C F R R) : Nat → {α : Type} → Prog S C F R α → S → Option (α × S)
  | _, _, .ret value, s => some (value, s)
  | 0, _, _, _ => none
  | n + 1, _, .act effect next, s => (effect default s).bind fun t => (next default s).eval code n t
  | n + 1, _, .call f next, s => ((code f).eval code n s).bind fun (r, t) => (next r).eval code n t

theorem runs_of_eval [Inhabited C] {code : F → Prog S C F R R} {n : Nat} {α : Type}
    {p : Prog S C F R α} {s t : S} {a : α} (evaluated : p.eval code n s = some (a, t)) :
    Runs code p s a t := by
  induction n generalizing α s t with
  | zero =>
    cases p with
    | ret value =>
      cases evaluated
      exact .ret
    | act effect next => contradiction
    | call f next => contradiction
  | succ n ih =>
    cases p with
    | ret value =>
      cases evaluated
      exact .ret
    | act effect next =>
      simp only [Prog.eval, Option.bind_eq_some_iff] at evaluated
      obtain ⟨middle, stepped, rest⟩ := evaluated
      exact .act stepped (ih rest)
    | call f next =>
      simp only [Prog.eval, Option.bind_eq_some_iff] at evaluated
      obtain ⟨⟨r, middle⟩, body, rest⟩ := evaluated
      exact .call (ih body) (ih rest)

section Deterministic
variable [Inhabited C] {code : F → Prog S C F R R} {s t : S} {a : α}

@[simp] theorem runs_load {read : S → α} :
    Runs code (.load read) s a t ↔ t = s ∧ a = read s := by
  simp only [Prog.load, runs_atomic, Option.some.injEq, exists_const, eq_comm]

@[simp] theorem runs_store {write : S → S} {u : Unit} :
    Runs code (.store write) s u t ↔ t = write s := by
  simp only [Prog.store, runs_atomic, Option.some.injEq, exists_const, and_true, eq_comm]

@[simp] theorem runs_exchange {read : S → α} {write : S → S} :
    Runs code (.exchange read write) s a t ↔ t = write s ∧ a = read s := by
  simp only [Prog.exchange, runs_atomic, Option.some.injEq, exists_const, eq_comm]

@[simp] theorem runs_load_bind {read : S → α} {k : α → Prog S C F R β} {b : β} :
    Runs code (.load read >>= k) s b t ↔ Runs code (k (read s)) s b t := by
  rw [runs_bind]
  constructor
  · rintro ⟨a, middle, first, second⟩
    obtain ⟨rfl, rfl⟩ := runs_load.mp first
    exact second
  · exact fun second => ⟨_, _, runs_load.mpr ⟨rfl, rfl⟩, second⟩

@[simp] theorem runs_exchange_bind {read : S → α} {write : S → S} {k : α → Prog S C F R β} {b : β} :
    Runs code (.exchange read write >>= k) s b t ↔ Runs code (k (read s)) (write s) b t := by
  rw [runs_bind]
  constructor
  · rintro ⟨a, middle, first, second⟩
    obtain ⟨rfl, rfl⟩ := runs_exchange.mp first
    exact second
  · exact fun second => ⟨_, _, runs_exchange.mpr ⟨rfl, rfl⟩, second⟩

@[simp] theorem runs_store_bind {write : S → S} {k : Unit → Prog S C F R β} {b : β} :
    Runs code (.store write >>= k) s b t ↔ Runs code (k ()) (write s) b t := runs_exchange_bind

end Deterministic

@[simp] theorem runs_bind_assoc {code : F → Prog S C F R R} {γ : Type} {p : Prog S C F R α}
    {k : α → Prog S C F R β} {l : β → Prog S C F R γ} {s t : S} {c : γ} :
    Runs code (p >>= k >>= l) s c t ↔ Runs code (p >>= fun a => k a >>= l) s c t := by
  change Runs code ((p.bind k).bind l) s c t ↔ Runs code (p.bind fun a => (k a).bind l) s c t
  rw [Prog.bind_assoc]

/-- A program with one outcome goes before its continuation like a store. -/
theorem runs_bind_of_iff {code : F → Prog S C F R R} {p : Prog S C F R Unit} {middle s t : S}
    {k : Unit → Prog S C F R β} {b : β} (outcome : ∀ u v, Runs code p s u v ↔ v = middle) :
    Runs code (p >>= k) s b t ↔ Runs code (k ()) middle b t := by
  rw [runs_bind]
  constructor
  · rintro ⟨u, v, first, second⟩
    obtain rfl := (outcome u v).mp first
    exact second
  · exact fun second => ⟨(), middle, (outcome () middle).mpr rfl, second⟩

@[simp] theorem runs_pure_bind {code : F → Prog S C F R R} {value : α} {k : α → Prog S C F R β}
    {s t : S} {b : β} : Runs code (pure value >>= k) s b t ↔ Runs code (k value) s b t := Iff.rfl

@[simp] theorem runs_enter_bind {code : F → Prog S C F R R} {f : F} {k : R → Prog S C F R β}
    {s t : S} {b : β} :
    Runs code (.enter f >>= k) s b t ↔
      ∃ r middle, Runs code (code f) s r middle ∧ Runs code (k r) middle b t := by
  simp only [runs_bind, runs_enter]

@[simp] theorem runs_atomic_bind {code : F → Prog S C F R R} {effect : C → S → Option S}
    {result : C → S → α} {k : α → Prog S C F R β} {s t : S} {b : β} :
    Runs code (.atomic effect result >>= k) s b t ↔
      ∃ c middle, effect c s = some middle ∧ Runs code (k (result c s)) middle b t := by
  rw [runs_bind]
  constructor
  · rintro ⟨a, middle, first, second⟩
    obtain ⟨c, stepped, rfl⟩ := runs_atomic.mp first
    exact ⟨c, middle, stepped, second⟩
  · rintro ⟨c, middle, stepped, second⟩
    exact ⟨_, middle, runs_atomic.mpr ⟨c, stepped, rfl⟩, second⟩

end Interleaving
