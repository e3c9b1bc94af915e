import Mathlib.Logic.Function.Basic

/-! `InstallSignalHandlers` and `UninstallSignalHandlers` of async_io_handler.hpp: any
number of handlers in one process, with two dispositions and one registration between
them. The actions that a signal can have are values of an arbitrary type `D`. -/
namespace Talon.Handler.Signals

/-- The address of an `IOHandler`. -/
abbrev Object := Nat

inductive Signal where
  | SIGINT
  | SIGTERM
  deriving DecidableEq

/-- The members of one `IOHandler` that have to do with signals. -/
structure Instance (D : Type) where
  signalsInstalled : Bool := false
  savedSigint : D
  savedSigterm : D
  alive : Bool := true

/-- The process's dispositions, `active_instance_` and the handlers. -/
structure State (D : Type) where
  disposition : Signal → D
  activeInstance : Option Object := none
  handler : Object → Instance D

/-- Which of the calls of `sigaction` succeed. -/
structure Environment where
  sigint : Bool := true
  sigterm : Bool := true
  deriving DecidableEq

namespace State
variable {D : Type}

def set (s : State D) (this : Object) (f : Instance D → Instance D) : State D :=
  { s with handler := Function.update s.handler this (f (s.handler this)) }

def register (s : State D) (instance_ : Option Object) : State D := { s with activeInstance := instance_ }

/-- `sigaction(signal, &action, &old)`: the old action, or none on failure. -/
def sigaction (s : State D) (succeeds : Bool) (signal : Signal) (action : D) : Option (D × State D) :=
  if succeeds then
    some (s.disposition signal, { s with disposition := Function.update s.disposition signal action })
  else none

/-- `InstallSignalHandlers()`, with `onSignal` for the action that it installs. -/
def installSignalHandlers (s : State D) (onSignal : D) (this : Object) (env : Environment) : Bool × State D :=
  if s.activeInstance ≠ none then (false, s)
  else
    let registered := s.register (some this)
    match registered.sigaction env.sigint .SIGINT onSignal with
    | none => (false, registered.register none)
    | some (old, first) =>
        let saved := first.set this fun handler => { handler with savedSigint := old }
        match saved.sigaction env.sigterm .SIGTERM onSignal with
        | none => (false, saved.register none)
        | some (old, second) =>
            (true, second.set this fun handler => { handler with savedSigterm := old, signalsInstalled := true })

/-- `sigaction(signal, &saved, nullptr)` -/
def restore (s : State D) (signal : Signal) (action : D) : State D :=
  { s with disposition := Function.update s.disposition signal action }

def uninstallSignalHandlers (s : State D) (this : Object) : State D :=
  if (s.handler this).signalsInstalled then
    let restored := (s.restore .SIGINT (s.handler this).savedSigint).restore .SIGTERM (s.handler this).savedSigterm
    (restored.register none).set this fun handler => { handler with signalsInstalled := false }
  else s

/-- `~IOHandler()`, which after this has nothing more to do with signals. -/
def destruct (s : State D) (this : Object) : State D :=
  (s.uninstallSignalHandlers this).set this fun handler => { handler with alive := false }

end State

inductive Operation (D : Type) where
  | construct (this : Object) (zero : D)
  | install (this : Object) (env : Environment)
  | uninstall (this : Object)
  | destruct (this : Object)

section
variable {D : Type}

def Permitted (s : State D) : Operation D → Prop
  | .construct this _ => (s.handler this).alive = false
  | .install this _ | .uninstall this | .destruct this => (s.handler this).alive = true

/-- A new handler's saved actions are whatever a zeroed `struct sigaction` stands for. -/
def perform (onSignal : D) (s : State D) : Operation D → State D
  | .construct this zero => s.set this fun _ => { savedSigint := zero, savedSigterm := zero }
  | .install this env => (s.installSignalHandlers onSignal this env).2
  | .uninstall this => s.uninstallSignalHandlers this
  | .destruct this => s.destruct this

/-- Before any handler exists. -/
def start (before : Signal → D) : State D where
  disposition := before
  handler _ := { savedSigint := before .SIGINT, savedSigterm := before .SIGTERM, alive := false }

/-- The states that operations with `allowed` lead to. -/
inductive Reaches (onSignal : D) (before : Signal → D) (allowed : State D → Operation D → Prop) : State D → Prop where
  | start : Reaches onSignal before allowed (start before)
  | step (op : Operation D) (earlier : Reaches onSignal before allowed s) (permitted : Permitted s op)
      (admitted : allowed s op) : Reaches onSignal before allowed (perform onSignal s op)

/-- An install does not fail at `SIGTERM` after it has changed the action of `SIGINT`. -/
def Undivided (onSignal : D) (s : State D) : Operation D → Prop
  | .install _ env =>
      s.activeInstance = none → env.sigint = true → env.sigterm = false → s.disposition .SIGINT = onSignal
  | .construct _ _ | .uninstall _ | .destruct _ => True

/-- What holds between the calls. -/
structure Registered (before : Signal → D) (s : State D) : Prop where
  installed : ∀ h, s.activeInstance = some h ↔ (s.handler h).signalsInstalled = true
  alive : ∀ h, s.activeInstance = some h → (s.handler h).alive = true
  restored : s.activeInstance = none → s.disposition = before

/-- The registration and the dispositions are as before. -/
def Unaffected (s t : State D) : Prop := t.activeInstance = s.activeInstance ∧ t.disposition = s.disposition

/-! ### One call -/

variable {onSignal : D} {before : Signal → D} {s : State D} {this : Object} {env : Environment}

/-- Everything that `InstallSignalHandlers` can do. -/
theorem install_cases (s : State D) (onSignal : D) (this : Object) (env : Environment) :
    (s.activeInstance ≠ none ∧ s.installSignalHandlers onSignal this env = (false, s)) ∨
    (s.activeInstance = none ∧ env.sigint = false ∧ s.installSignalHandlers onSignal this env = (false, s)) ∨
    (s.activeInstance = none ∧ env.sigint = true ∧ env.sigterm = false ∧
      s.installSignalHandlers onSignal this env = (false, (s.restore .SIGINT onSignal).set this fun handler =>
        { handler with savedSigint := s.disposition .SIGINT })) ∨
    (s.activeInstance = none ∧ env.sigint = true ∧ env.sigterm = true ∧
      s.installSignalHandlers onSignal this env =
        (true, (((s.restore .SIGINT onSignal).restore .SIGTERM onSignal).register (some this)).set this fun handler =>
          { handler with
            savedSigint := s.disposition .SIGINT, savedSigterm := s.disposition .SIGTERM, signalsInstalled := true })) := by
  obtain ⟨disposition, activeInstance, handler⟩ := s
  obtain ⟨sigint, sigterm⟩ := env
  cases activeInstance with
  | some h => exact Or.inl ⟨nofun, rfl⟩
  | none =>
    cases sigint with
    | false => exact Or.inr (Or.inl ⟨rfl, rfl, rfl⟩)
    | true =>
      cases sigterm with
      | false => exact Or.inr (Or.inr (Or.inl ⟨rfl, rfl, rfl, rfl⟩))
      | true =>
        refine Or.inr (Or.inr (Or.inr ⟨rfl, rfl, rfl, ?_⟩))
        simp [State.installSignalHandlers, State.sigaction, State.set, State.register, State.restore]

/-- A call that returns false has no effect exactly if it is not divided. -/
theorem install_false_unaffected_iff (failed : (s.installSignalHandlers onSignal this env).1 = false) :
    Unaffected s (s.installSignalHandlers onSignal this env).2 ↔ Undivided onSignal s (.install this env) := by
  obtain ⟨taken, same⟩ | ⟨free, sigint, same⟩ | ⟨free, sigint, sigterm, same⟩ | ⟨free, sigint, sigterm, same⟩ :=
    install_cases s onSignal this env
  · rw [same]
    exact iff_of_true ⟨rfl, rfl⟩ fun free => absurd free taken
  · rw [same]
    refine iff_of_true ⟨rfl, rfl⟩ fun _ succeeded => ?_
    rw [sigint] at succeeded
    contradiction
  · rw [same]
    constructor
    · rintro ⟨-, disposition⟩ _ _ _
      have changed : Function.update s.disposition .SIGINT onSignal .SIGINT = s.disposition .SIGINT :=
        congrFun disposition .SIGINT
      rw [Function.update_self] at changed
      exact changed.symm
    · intro undivided
      refine ⟨rfl, ?_⟩
      have already := undivided free sigint sigterm
      change Function.update s.disposition .SIGINT onSignal = s.disposition
      rw [← already, Function.update_eq_self]
  · rw [same] at failed
    contradiction

/-! ### Whole runs -/

/-- The registered handler has saved the dispositions that were in force before. -/
structure Kept (before : Signal → D) (s : State D) : Prop where
  registered : Registered before s
  saved : ∀ h, s.activeInstance = some h →
    (s.handler h).savedSigint = before .SIGINT ∧ (s.handler h).savedSigterm = before .SIGTERM

@[simp] theorem set_handler_self {f : Instance D → Instance D} : (s.set this f).handler this = f (s.handler this) :=
  Function.update_self _ _ _

theorem set_handler_of_ne {f : Instance D → Instance D} {h : Object} (different : h ≠ this) :
    (s.set this f).handler h = s.handler h := Function.update_of_ne different _ _

/-- A change to a handler that is not registered. -/
theorem Kept.set {f : Instance D → Instance D} (kept : Kept before s) (unregistered : s.activeInstance ≠ some this)
    (uninstalled : (f (s.handler this)).signalsInstalled = false) : Kept before (s.set this f) := by
  have other : ∀ h, s.activeInstance = some h → h ≠ this := by
    rintro h active rfl
    exact unregistered active
  refine ⟨⟨fun h => ?_, fun h active => ?_, kept.registered.restored⟩, fun h active => ?_⟩
  · by_cases here : h = this
    · subst here
      rw [set_handler_self, uninstalled]
      exact iff_of_false unregistered nofun
    · rw [set_handler_of_ne here]
      exact kept.registered.installed h
  · rw [set_handler_of_ne (other h active)]
    exact kept.registered.alive h active
  · rw [set_handler_of_ne (other h active)]
    exact kept.saved h active

/-- After it the handler is not registered. -/
theorem Kept.uninstall (kept : Kept before s) (this : Object) :
    Kept before (s.uninstallSignalHandlers this) ∧
      (s.uninstallSignalHandlers this).activeInstance ≠ some this ∧
      ((s.uninstallSignalHandlers this).handler this).signalsInstalled = false := by
  unfold State.uninstallSignalHandlers
  split
  · next installed =>
    have active := (kept.registered.installed this).mpr installed
    obtain ⟨sigint, sigterm⟩ := kept.saved this active
    have restored : ((s.restore .SIGINT (s.handler this).savedSigint).restore .SIGTERM
        (s.handler this).savedSigterm).disposition = before := by
      funext signal
      cases signal with
      | SIGINT => exact sigint
      | SIGTERM => exact sigterm
    refine ⟨⟨⟨fun h => ?_, nofun, fun _ => restored⟩, nofun⟩, nofun, by rw [set_handler_self]⟩
    refine iff_of_false nofun ?_
    by_cases here : h = this
    · subst here
      rw [set_handler_self]
      nofun
    · rw [set_handler_of_ne here]
      intro alsoInstalled
      have same := ((kept.registered.installed h).mpr alsoInstalled).symm.trans active
      exact here (Option.some.inj same)
  · next uninstalled =>
    exact ⟨kept, fun active => uninstalled ((kept.registered.installed this).mp active), by simpa using uninstalled⟩

theorem Kept.install (kept : Kept before s) (existing : (s.handler this).alive = true)
    (undivided : Undivided onSignal s (.install this env)) :
    Kept before (s.installSignalHandlers onSignal this env).2 := by
  obtain ⟨taken, same⟩ | ⟨free, sigint, same⟩ | ⟨free, sigint, sigterm, same⟩ | ⟨free, sigint, sigterm, same⟩ :=
    install_cases s onSignal this env
  · rw [same]
    exact kept
  · rw [same]
    exact kept
  · have already := undivided free sigint sigterm
    have unchanged : s.restore .SIGINT onSignal = s := by
      rw [State.restore, ← already, Function.update_eq_self]
    rw [same, unchanged]
    have unregistered : s.activeInstance ≠ some this := by
      rw [free]
      nofun
    have uninstalled : ¬ (s.handler this).signalsInstalled = true := fun installed =>
      unregistered ((kept.registered.installed this).mpr installed)
    change Kept before (s.set this fun handler => _)
    refine Kept.set kept unregistered ?_
    simpa using uninstalled
  · have disposition := kept.registered.restored free
    have uninstalled : ∀ h, ¬ (s.handler h).signalsInstalled = true := by
      intro h installed
      have active := (kept.registered.installed h).mpr installed
      rw [free] at active
      contradiction
    rw [same]
    refine ⟨⟨fun h => ?_, fun h active => ?_, nofun⟩, fun h active => ?_⟩
    · by_cases here : h = this
      · subst here
        rw [set_handler_self]
        exact iff_of_true rfl rfl
      · rw [set_handler_of_ne here]
        exact iff_of_false (fun active => here (Option.some.inj active).symm) (uninstalled h)
    · cases Option.some.inj active
      rw [set_handler_self]
      exact existing
    · cases Option.some.inj active
      rw [set_handler_self, disposition]
      exact ⟨rfl, rfl⟩

theorem Reaches.kept (run : Reaches onSignal before (Undivided onSignal) s) : Kept before s := by
  induction run with
  | start => exact ⟨⟨fun _ => iff_of_false nofun nofun, nofun, fun _ => rfl⟩, nofun⟩
  | @step s op earlier permitted undivided ih =>
    cases op with
    | construct this zero =>
      rw [perform]
      refine Kept.set ih (fun active => ?_) rfl
      have alive := ih.registered.alive this active
      rw [permitted] at alive
      contradiction
    | install this env => exact ih.install permitted undivided
    | uninstall this => exact (ih.uninstall this).1
    | destruct this =>
      obtain ⟨kept, unregistered, uninstalled⟩ := ih.uninstall this
      rw [perform, State.destruct]
      exact Kept.set kept unregistered uninstalled

/-- In every run without a divided install, and for every further call. -/
theorem undivided_registered (run : Reaches onSignal before (Undivided onSignal) s) :
    Registered before s ∧ ∀ this env, (s.installSignalHandlers onSignal this env).1 = false →
      (Unaffected s (s.installSignalHandlers onSignal this env).2 ↔ Undivided onSignal s (.install this env)) :=
  ⟨run.kept.registered, fun _ _ => install_false_unaffected_iff⟩

end

/-- The default actions are 0, and the one that is installed is 1. -/
def defaults : Signal → Nat := fun _ => 0

/-- A handler is registered, another is turned away, and the first one is destroyed. -/
theorem turned_away_registered : ∃ s : State Nat, Reaches 1 defaults (Undivided 1) s ∧ s.activeInstance = some 1 ∧
    (s.installSignalHandlers 1 2 {}).1 = false ∧ Unaffected s (s.installSignalHandlers 1 2 {}).2 ∧
    Registered defaults (s.destruct 1) := by
  have first : Reaches 1 defaults (Undivided 1) _ := .step (.construct 1 0) .start rfl trivial
  have second : Reaches 1 defaults (Undivided 1) _ := .step (.construct 2 0) first rfl trivial
  have third : Reaches 1 defaults (Undivided 1) _ := .step (.install 1 {}) second rfl (fun _ _ => nofun)
  have last : Reaches 1 defaults (Undivided 1) _ := .step (.destruct 1) third rfl trivial
  refine ⟨_, third, rfl, rfl, ?_, (undivided_registered last).1⟩
  exact ((undivided_registered third).2 2 {} rfl).mpr fun free => nomatch free

/-- `sigaction` fails for `SIGTERM`: the handler is not registered, and gets `SIGINT` all
the same. -/
theorem divided_install_leaks : ¬ ∀ (onSignal : Nat) (before : Signal → Nat) (s : State Nat),
    Reaches onSignal before (fun _ _ => True) s →
      Registered before s ∧ ∀ this env, (s.installSignalHandlers onSignal this env).1 = false →
        Unaffected s (s.installSignalHandlers onSignal this env).2 := by
  intro always
  have first : Reaches 1 defaults (fun _ _ => True) _ := .step (.construct 1 0) .start rfl trivial
  have second : Reaches 1 defaults (fun _ _ => True) _ := .step (.install 1 { sigterm := false }) first rfl trivial
  have restored := (always 1 defaults _ second).1.restored rfl
  exact absurd (congrFun restored .SIGINT) (by decide)

end Talon.Handler.Signals
