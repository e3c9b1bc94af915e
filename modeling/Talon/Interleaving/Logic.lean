import Talon.Interleaving.Program

/-! Rely-guarantee reasoning for programs of atomic steps. Loops and recursion
enter through procedure specifications; a precondition computed by `wp` is
stable under the rely by construction, so no separate stability proof is due. -/
namespace Interleaving

variable {ι S C F R α β : Type}

/-- A procedure's contract. The auxiliary value `A` carries whatever the caller
wants to keep across the call. -/
structure Contract (S F R : Type) where
  A : F → Type
  pre : (f : F) → A f → S → Prop
  post : (f : F) → A f → R → S → Prop

/-- What a thread assumes of the others, promises to them, and which steps the
considered runs admit at all. -/
structure Discipline (S : Type) where
  rely : S → S → Prop
  guar : S → S → Prop
  allowed : S → S → Prop
  rely_refl : ∀ s, rely s s
  rely_trans : ∀ {s t u}, rely s t → rely t u → rely s u

variable (D : Discipline S) (K : Contract S F R)

/-- Interference is admitted before every step and after the last one. -/
def wp : Prog S C F R α → (α → S → Prop) → S → Prop
  | .ret value, post, s => ∀ t, D.rely s t → post value t
  | .act effect next, post, s => ∀ t, D.rely s t → ∀ c u, effect c t = some u →
      D.allowed t u → D.guar t u ∧ wp (next c t) post u
  | .call f next, post, s => ∀ t, D.rely s t → ∃ x, K.pre f x t ∧
      ∀ r u, K.post f x r u → wp (next r) post u

variable {D K}

theorem wp_stable {p : Prog S C F R α} {post : α → S → Prop} {s t : S}
    (holds : wp D K p post s) (moved : D.rely s t) : wp D K p post t := by
  cases p with
  | ret value => exact fun u later => holds u (D.rely_trans moved later)
  | act effect next => exact fun u later => holds u (D.rely_trans moved later)
  | call f next => exact fun u later => holds u (D.rely_trans moved later)

theorem wp_ret {value : α} {post : α → S → Prop} {s : S}
    (holds : ∀ t, D.rely s t → post value t) :
    wp D K (.ret value : Prog S C F R α) post s := holds

theorem wp_mono {p : Prog S C F R α} {post wider : α → S → Prop} {s : S}
    (weaker : ∀ a t, post a t → wider a t) (holds : wp D K p post s) :
    wp D K p wider s := by
  induction p generalizing s with
  | ret value => exact fun t moved => weaker value t (holds t moved)
  | act effect next ih =>
    intro t moved c u stepped admitted
    obtain ⟨promised, rest⟩ := holds t moved c u stepped admitted
    exact ⟨promised, ih c t rest⟩
  | call f next ih =>
    intro t moved
    obtain ⟨x, pre, rest⟩ := holds t moved
    exact ⟨x, pre, fun r u post => ih r (rest r u post)⟩

theorem wp_bind {p : Prog S C F R α} {k : α → Prog S C F R β} {post : β → S → Prop} {s : S}
    (holds : wp D K p (fun a => wp D K (k a) post) s) : wp D K (p >>= k) post s := by
  change wp D K (p.bind k) post s
  induction p generalizing s with
  | ret value => exact holds s (D.rely_refl s)
  | act effect next ih =>
    intro t moved c u stepped admitted
    obtain ⟨promised, rest⟩ := holds t moved c u stepped admitted
    exact ⟨promised, ih c t rest⟩
  | call f next ih =>
    intro t moved
    obtain ⟨x, pre, rest⟩ := holds t moved
    exact ⟨x, pre, fun r u post => ih r (rest r u post)⟩

theorem wp_atomic {effect : C → S → Option S} {result : C → S → α} {post : α → S → Prop} {s : S}
    (holds : ∀ t, D.rely s t → ∀ c u, effect c t = some u → D.allowed t u →
      D.guar t u ∧ ∀ v, D.rely u v → post (result c t) v) :
    wp D K (.atomic effect result : Prog S C F R α) post s := holds

theorem wp_enter {f : F} {post : R → S → Prop} {s : S}
    (holds : ∀ t, D.rely s t → ∃ x, K.pre f x t ∧
      ∀ r u, K.post f x r u → ∀ v, D.rely u v → post r v) :
    wp D K (.enter f : Prog S C F R R) post s := holds

/-- Every procedure body meets its contract, given the contracts of all calls. -/
def Verified (D : Discipline S) (K : Contract S F R) (code : F → Prog S C F R R) : Prop :=
  ∀ f x s, K.pre f x s → wp D K (code f) (K.post f x) s

section Pool
variable [DecidableEq ι] {discipline : ι → Discipline S} {contract : ι → Contract S F R}
  {code : ι → F → Prog S C F R R} {allowed : S → S → Prop}

/-- The threads' obligations in one state of the pool. -/
def Proved (discipline : ι → Discipline S) (contract : ι → Contract S F R)
    (pool : Pool ι S C F R) : Prop :=
  ∀ i, wp (discipline i) (contract i) (pool.thread i) (fun _ _ => True) pool.shared

/-- One scheduled step keeps every thread's obligation. The mover's guarantee
is what the others rely on. -/
theorem proved_step
    (admits : ∀ i s t, allowed s t → (discipline i).allowed s t)
    (compatible : ∀ i j s t, i ≠ j → allowed s t → (discipline i).guar s t → (discipline j).rely s t)
    (verified : ∀ i, Verified (discipline i) (contract i) (code i))
    {before after : Pool ι S C F R} {i : ι} {c : C}
    (proved : Proved discipline contract before)
    (stepped : before.step code i c = some after)
    (admitted : allowed before.shared after.shared) :
    Proved discipline contract after ∧
      (after.shared = before.shared ∨ (discipline i).guar before.shared after.shared) := by
  have mine := proved i
  obtain ⟨effect, next, s, program, moved, rfl⟩ | ⟨f, next, program, rfl⟩ := Pool.step_cases stepped
  · rw [program] at mine
    obtain ⟨promised, rest⟩ := mine _ ((discipline i).rely_refl _) c s moved (admits i _ _ admitted)
    refine ⟨fun j => ?_, Or.inr promised⟩
    by_cases same : j = i
    · subst same
      simpa only [Function.update_self] using rest
    · simpa only [Function.update_of_ne same] using
        wp_stable (proved j) (compatible i j _ _ (Ne.symm same) admitted promised)
  · refine ⟨fun j => ?_, Or.inl rfl⟩
    by_cases same : j = i
    · subst same
      rw [program] at mine
      obtain ⟨x, pre, rest⟩ := mine _ ((discipline j).rely_refl _)
      simp only [Function.update_self]
      exact wp_bind (wp_mono rest (verified j f x _ pre))
    · simpa only [Function.update_of_ne same] using proved j

/-- Whole runs: a property that every thread's guarantee keeps holds in every
state that an admitted interleaving reaches. -/
theorem reaches_invariant (discipline : ι → Discipline S) (contract : ι → Contract S F R)
    (Inv : S → Prop)
    (admits : ∀ i s t, allowed s t → (discipline i).allowed s t)
    (compatible : ∀ i j s t, i ≠ j → allowed s t → (discipline i).guar s t → (discipline j).rely s t)
    (verified : ∀ i, Verified (discipline i) (contract i) (code i))
    (kept : ∀ i s t, (discipline i).guar s t → Inv s → Inv t)
    {start last : Pool ι S C F R}
    (proved : Proved discipline contract start) (initial : Inv start.shared)
    (path : Pool.Reaches code allowed start last) :
    Proved discipline contract last ∧ Inv last.shared := by
  induction path with
  | refl => exact ⟨proved, initial⟩
  | next _ stepped admitted ih =>
    obtain ⟨proved', moved⟩ :=
      proved_step admits compatible verified ih.1 stepped admitted
    refine ⟨proved', ?_⟩
    rcases moved with same | promised
    · rw [same]
      exact ih.2
    · exact kept _ _ _ promised ih.2

end Pool

/-- Without interference the logic is ordinary partial correctness. -/
theorem Runs.sound {code : F → Prog S C F R R} (verified : Verified D K code)
    (unrestricted : ∀ s t, D.allowed s t) {p : Prog S C F R α} {post : α → S → Prop}
    {s t : S} {a : α} (run : Runs code p s a t) (holds : wp D K p post s) : post a t := by
  induction run with
  | ret => exact holds _ (D.rely_refl _)
  | act stepped _ ih => exact ih (holds _ (D.rely_refl _) _ _ stepped (unrestricted _ _)).2
  | call body _ ihBody ihRest =>
    obtain ⟨x, pre, rest⟩ := holds _ (D.rely_refl _)
    exact ihRest (rest _ _ (ihBody (verified _ x _ pre)))

/-- One thread alone. -/
def sequential : Discipline S where
  rely := Eq
  guar _ _ := True
  allowed _ _ := True
  rely_refl _ := rfl
  rely_trans first second := first.trans second

/-- The program leaves `A` as it found it, given the contracts of its calls. -/
def Leaves (K : Contract S F R) (A : S → Prop) (p : Prog S C F R α) : Prop :=
  ∀ s, A s → wp sequential K p (fun _ => A) s

namespace Leaves
variable {A : S → Prop}

theorem pure (a : α) : Leaves K A (Pure.pure a : Prog S C F R α) := by
  rintro s holds _ rfl
  exact holds

theorem bind {p : Prog S C F R α} {k : α → Prog S C F R β} (first : Leaves K A p)
    (rest : ∀ a, Leaves K A (k a)) : Leaves K A (p >>= k) :=
  fun s holds => wp_bind (wp_mono (fun a t reached => rest a t reached) (first s holds))

theorem atomic {effect : C → S → Option S} {result : C → S → α}
    (moves : ∀ c s t, A s → effect c s = some t → A t) :
    Leaves K A (.atomic effect result : Prog S C F R α) := by
  rintro s holds _ rfl c u stepped _
  refine ⟨trivial, ?_⟩
  rintro _ rfl
  exact moves c s u holds stepped

theorem store {write : S → S} (moves : ∀ s, A s → A (write s)) :
    Leaves K A (.store write : Prog S C F R Unit) :=
  atomic fun _ s _ holds stepped => Option.some.inj stepped ▸ moves s holds

theorem load {read : S → α} : Leaves K A (.load read : Prog S C F R α) :=
  atomic fun _ _ _ holds stepped => Option.some.inj stepped ▸ holds

theorem enter {f : F} (x : K.A f) (pre : ∀ s, A s → K.pre f x s)
    (returns : ∀ r s, K.post f x r s → A s) : Leaves K A (.enter f : Prog S C F R R) := by
  rintro s holds _ rfl
  refine ⟨x, pre s holds, fun r u reached => ?_⟩
  rintro _ rfl
  exact returns r u reached

theorem sound {code : F → Prog S C F R R} (verified : Verified sequential K code)
    {p : Prog S C F R α} (leaves : Leaves K A p) {s t : S} {a : α} (run : Runs code p s a t)
    (holds : A s) : A t :=
  run.sound verified (fun _ _ => trivial) (leaves s holds)

end Leaves

end Interleaving
