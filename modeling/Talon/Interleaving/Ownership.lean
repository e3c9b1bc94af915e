import Talon.Interleaving.Logic

/-! Ownership proofs: every thread sees a part of the shared state that the
other threads leave alone, next to an invariant that all of them keep. A
procedure is specified by what it does to its caller's view. -/
namespace Interleaving

variable {ι S C F R V α β : Type}

/-- An invariant of the shared state, each thread's view of it, and the steps
that the considered runs admit. -/
structure Ownership (ι S V : Type) where
  Inv : S → Prop
  view : ι → S → V
  allowed : S → S → Prop

/-- What a procedure needs of its caller's view and how it leaves it. -/
structure Spec (F R V : Type) where
  pre : F → V → Prop
  post : F → V → R → V → Prop

namespace Ownership
variable (O : Ownership ι S V)

/-- The invariant holds and thread `i` sees `v`. -/
def Holds (i : ι) (v : V) (s : S) : Prop := O.Inv s ∧ O.view i s = v

def discipline (i : ι) : Discipline S where
  rely s t := O.Inv s → O.Holds i (O.view i s) t
  guar s t := O.Inv s → O.Inv t ∧ ∀ j, j ≠ i → O.view j t = O.view j s
  allowed := O.allowed
  rely_refl _ inv := ⟨inv, rfl⟩
  rely_trans first second inv := by
    obtain ⟨inv, same⟩ := first inv
    obtain ⟨inv, same'⟩ := second inv
    exact ⟨inv, same'.trans same⟩

def contract (K : Spec F R V) (i : ι) : Contract S F R where
  A _ := V
  pre f v s := K.pre f v ∧ O.Holds i v s
  post f v r s := ∃ v', K.post f v r v' ∧ O.Holds i v' s

/-- A step of thread `i` from `s` to `t`, after which it sees `v`. -/
structure Moves (i : ι) (s t : S) (v : V) : Prop where
  inv : O.Inv t
  others : ∀ j, j ≠ i → O.view j t = O.view j s
  mine : O.view i t = v

/-- Run by thread `i` from view `v`, the program ends in a view that `post`
admits, and keeps the invariant and the other threads' views all the way. -/
def Ensures (K : Spec F R V) (i : ι) (v : V) (p : Prog S C F R α) (post : α → V → Prop) : Prop :=
  ∀ s, O.Holds i v s →
    wp (O.discipline i) (O.contract K i) p (fun a t => ∃ v', post a v' ∧ O.Holds i v' t) s

variable {O} {K : Spec F R V} {i : ι} {v : V}

theorem Holds.stable {s t : S} (holds : O.Holds i v s) (moved : (O.discipline i).rely s t) :
    O.Holds i v t := by
  obtain ⟨inv, rfl⟩ := holds
  exact moved inv

theorem Ensures.pure {a : α} {post : α → V → Prop} (holds : post a v) :
    O.Ensures K i v (Pure.pure a : Prog S C F R α) post :=
  fun _ seen => wp_ret fun _ moved => ⟨v, holds, seen.stable moved⟩

theorem Ensures.bind {p : Prog S C F R α} {k : α → Prog S C F R β} {M : α → V → Prop}
    {post : β → V → Prop} (first : O.Ensures K i v p M)
    (second : ∀ a v', M a v' → O.Ensures K i v' (k a) post) :
    O.Ensures K i v (p >>= k) post := by
  intro s seen
  apply wp_bind
  refine wp_mono (fun a t reached => ?_) (first s seen)
  obtain ⟨v', holds, seen'⟩ := reached
  exact second a v' holds t seen'

theorem Ensures.mono {p : Prog S C F R α} {post wider : α → V → Prop}
    (ensures : O.Ensures K i v p post) (weaker : ∀ a v', post a v' → wider a v') :
    O.Ensures K i v p wider := by
  intro s seen
  refine wp_mono (fun a t reached => ?_) (ensures s seen)
  obtain ⟨v', holds, seen'⟩ := reached
  exact ⟨v', weaker a v' holds, seen'⟩

theorem Ensures.atomic {effect : C → S → Option S} {result : C → S → α} {post : α → V → Prop}
    (moves : ∀ c s t, O.Holds i v s → effect c s = some t → O.allowed s t →
      ∃ v', post (result c s) v' ∧ O.Moves i s t v') :
    O.Ensures K i v (.atomic effect result : Prog S C F R α) post := by
  intro s seen
  refine wp_atomic fun t moved c u stepped admitted => ?_
  obtain ⟨v', holds, move⟩ := moves c t u (seen.stable moved) stepped admitted
  refine ⟨fun _ => ⟨move.inv, move.others⟩, fun w later => ⟨v', holds, ?_⟩⟩
  exact Holds.stable ⟨move.inv, move.mine⟩ later

theorem Ensures.enter {f : F} {post : R → V → Prop} (pre : K.pre f v)
    (returns : ∀ r v', K.post f v r v' → post r v') :
    O.Ensures K i v (.enter f : Prog S C F R R) post := by
  intro s seen
  refine wp_enter fun t moved => ⟨v, ⟨pre, seen.stable moved⟩, fun r u reached w later => ?_⟩
  obtain ⟨v', holds, seen'⟩ := reached
  exact ⟨v', returns r v' holds, seen'.stable later⟩

theorem Ensures.store {write : S → S} {post : Unit → V → Prop} {v' : V} (holds : post () v')
    (moves : ∀ s, O.Holds i v s → O.allowed s (write s) → O.Moves i s (write s) v') :
    O.Ensures K i v (.store write : Prog S C F R Unit) post := by
  refine Ensures.atomic fun c s t seen stepped admitted => ⟨v', holds, ?_⟩
  cases Option.some.inj stepped
  exact moves s seen admitted

theorem Ensures.load {read : S → α} {post : α → V → Prop}
    (holds : ∀ s, O.Holds i v s → post (read s) v) :
    O.Ensures K i v (.load read : Prog S C F R α) post := by
  refine Ensures.atomic fun c s t seen stepped _ => ⟨v, holds s seen, ?_⟩
  cases Option.some.inj stepped
  exact ⟨seen.1, fun _ _ => rfl, seen.2⟩

theorem Ensures.choose {post : C → V → Prop} (holds : ∀ c, post c v) :
    O.Ensures K i v (.choose : Prog S C F R C) post := by
  refine Ensures.atomic fun c s t seen stepped _ => ⟨v, holds c, ?_⟩
  cases Option.some.inj stepped
  exact ⟨seen.1, fun _ _ => rfl, seen.2⟩

/-- What every state with this view has in common may be used. -/
theorem Ensures.known {p : Prog S C F R α} {post : α → V → Prop} {P : Prop}
    (fact : ∀ s, O.Holds i v s → P) (rest : P → O.Ensures K i v p post) : O.Ensures K i v p post :=
  fun s seen => rest (fact s seen) s seen

theorem Ensures.exchange {read : S → α} {write : S → S} {post : α → V → Prop}
    (moves : ∀ s, O.Holds i v s → O.allowed s (write s) →
      ∃ v', post (read s) v' ∧ O.Moves i s (write s) v') :
    O.Ensures K i v (.exchange read write : Prog S C F R α) post := by
  refine Ensures.atomic fun c s t seen stepped admitted => ?_
  cases Option.some.inj stepped
  exact moves s seen admitted

section Runs
variable [DecidableEq ι] {K : ι → Spec F R V} {code : ι → F → Prog S C F R R}
  {start last : Pool ι S C F R}

/-- If every thread's procedures meet their specifications, the invariant and
the threads' obligations hold in every state that an admitted interleaving
reaches. -/
theorem reaches_proved
    (meets : ∀ i f v, (K i).pre f v → O.Ensures (K i) i v (code i f) ((K i).post f v))
    (initial : O.Inv start.shared)
    (entered : ∀ i, O.Ensures (K i) i (O.view i start.shared) (start.thread i) fun _ _ => True)
    (path : Pool.Reaches code O.allowed start last) :
    Proved O.discipline (fun i => O.contract (K i) i) last ∧ O.Inv last.shared := by
  refine reaches_invariant O.discipline (fun i => O.contract (K i) i) O.Inv ?_ ?_ ?_ ?_ ?_ initial path
  · exact fun _ _ _ admitted => admitted
  · intro i j s t different _ promised inv
    obtain ⟨inv, same⟩ := promised inv
    exact ⟨inv, same j (Ne.symm different)⟩
  · intro i f v s pre
    exact meets i f v pre.1 s pre.2
  · exact fun _ _ _ promised inv => (promised inv).1
  · intro i
    exact wp_mono (fun _ _ _ => trivial) (entered i _ ⟨initial, rfl⟩)

theorem invariant
    (meets : ∀ i f v, (K i).pre f v → O.Ensures (K i) i v (code i f) ((K i).post f v))
    (initial : O.Inv start.shared)
    (entered : ∀ i, O.Ensures (K i) i (O.view i start.shared) (start.thread i) fun _ _ => True)
    (path : Pool.Reaches code O.allowed start last) : O.Inv last.shared :=
  (reaches_proved meets initial entered path).2

omit [DecidableEq ι] in
/-- A thread that is about to enter a procedure meets its precondition. -/
theorem entered_pre {f : F} {next : R → Prog S C F R Unit}
    (proved : Proved O.discipline (fun i => O.contract (K i) i) last)
    (calls : last.thread i = .call f next) : (K i).pre f (O.view i last.shared) := by
  have obligation := proved i
  rw [calls] at obligation
  obtain ⟨v, ⟨pre, _, seen⟩, _⟩ := obligation _ ((O.discipline i).rely_refl _)
  exact seen ▸ pre

/-- A step leaves the other threads' views alone. -/
theorem step_others {pool after : Pool ι S C F R} {c : C} {j : ι}
    (proved : Proved O.discipline (fun i => O.contract (K i) i) pool) (inv : O.Inv pool.shared)
    (stepped : pool.step code i c = some after) (admitted : O.allowed pool.shared after.shared) (other : j ≠ i) :
    O.view j after.shared = O.view j pool.shared := by
  have obligation := proved i
  obtain ⟨effect, next, t, program, moved, rfl⟩ | ⟨f, next, program, rfl⟩ := Pool.step_cases stepped
  · rw [program] at obligation
    obtain ⟨promised, -⟩ := obligation _ ((O.discipline i).rely_refl _) c t moved admitted
    exact (promised inv).2 j other
  · rfl

end Runs

end Ownership
end Interleaving
