import Talon.Interleaving.Logic

/-! The run of one thread among others. The others are known only by what they may do to the
shared state between two steps of the thread. -/
namespace Interleaving

variable {ι S C F R α β : Type}

/-- From program `p` in state `s` the thread has come to what is left of it, `q`, in state
`t`. Its own steps meet `allowed`; in between the others move the state as `other` says. -/
inductive Advances (allowed other : S → S → Prop) (code : F → Prog S C F R R) (p : Prog S C F R α) (s : S) :
    Prog S C F R α → S → Prop where
  | refl : Advances allowed other code p s p s
  | other (earlier : Advances allowed other code p s q t) (moved : other t u) : Advances allowed other code p s q u
  | act (earlier : Advances allowed other code p s (.act effect next) t) (stepped : effect c t = some u)
      (admitted : allowed t u) : Advances allowed other code p s (next c t) u
  | call (earlier : Advances allowed other code p s (.call f next) t) :
      Advances allowed other code p s ((code f).bind next) t

variable {allowed other : S → S → Prop} {code : F → Prog S C F R R} {p q r : Prog S C F R α} {s t u : S}

theorem Advances.trans (first : Advances allowed other code p s q t) (second : Advances allowed other code q t r u) :
    Advances allowed other code p s r u := by
  induction second with
  | refl => exact first
  | other _ moved ih => exact .other ih moved
  | act _ stepped admitted ih => exact .act ih stepped admitted
  | call _ ih => exact .call ih

/-- What the thread still has to establish, it still has to establish. -/
theorem Advances.wp {D : Discipline S} {K : Contract S F R} (verified : Verified D K code)
    (admits : ∀ s t, allowed s t → D.allowed s t) (relied : ∀ s t, other s t → D.rely s t)
    (run : Advances allowed other code p s q t) {post : α → S → Prop} (holds : wp D K p post s) :
    Interleaving.wp D K q post t := by
  induction run with
  | refl => exact holds
  | other _ moved ih => exact wp_stable ih (relied _ _ moved)
  | act _ stepped admitted ih => exact (ih _ (D.rely_refl _) _ _ stepped (admits _ _ admitted)).2
  | call _ ih =>
    obtain ⟨x, pre, rest⟩ := ih _ (D.rely_refl _)
    exact wp_bind (wp_mono (fun r u post => rest r u post) (verified _ x _ pre))

/-- A thread that has returned has established its postcondition. -/
theorem Advances.sound {D : Discipline S} {K : Contract S F R} (verified : Verified D K code)
    (admits : ∀ s t, allowed s t → D.allowed s t) (relied : ∀ s t, other s t → D.rely s t) {a : α}
    (run : Advances allowed other code p s (.ret a) t) {post : α → S → Prop} (holds : Interleaving.wp D K p post s) :
    post a t :=
  run.wp verified admits relied holds t (D.rely_refl t)

/-- What a thread does alone is one of the ways. -/
theorem Runs.advances {p : Prog S C F R β} {b : β} (run : Runs code p s b t)
    (admits : ∀ s t, allowed s t) (k : β → Prog S C F R α) :
    Advances allowed other code (p.bind k) s (k b) t := by
  induction run generalizing α with
  | ret => exact .refl
  | act stepped _ ih => exact (Advances.act .refl stepped (admits _ _)).trans (ih k)
  | @call _ f next s m t r b body rest ihBody ihRest =>
    have entered : Advances allowed other code ((Prog.call f next).bind k) s
        ((code f).bind fun r => (next r).bind k) s := .call .refl
    exact entered.trans ((ihBody fun r => (next r).bind k).trans (ihRest k))

/-- The value with which a program is at its end. -/
def Prog.returned : Prog S C F R α → Option α
  | .ret value => some value
  | _ => none

theorem Prog.returned_eq_some {value : α} : p.returned = some value ↔ p = .ret value := by
  cases p <;> simp [Prog.returned]

namespace Pool
variable [DecidableEq ι] {code : ι → F → Prog S C F R R} {i : ι}

/-- An executed schedule, seen from one of its threads. `check` judges each step of the
shared state by who makes it. -/
def runAs (code : ι → F → Prog S C F R R) (check : ι → S → S → Bool) : List (ι × C) →
    Pool ι S C F R → Option (Pool ι S C F R)
  | [], pool => some pool
  | (i, c) :: rest, pool => (step code i c pool).bind fun after =>
      if check i pool.shared after.shared then runAs code check rest after else none

theorem advances_of_runAs {check : ι → S → S → Bool} (own : ∀ s t, check i s t = true → allowed s t)
    (others : ∀ j, j ≠ i → ∀ s t, check j s t = true → other s t) {schedule : List (ι × C)} {start last : Pool ι S C F R}
    (executed : runAs code check schedule start = some last) :
    Advances allowed other (code i) (start.thread i) start.shared (last.thread i) last.shared := by
  induction schedule generalizing start with
  | nil =>
    cases executed
    exact .refl
  | cons head rest ih =>
    obtain ⟨j, c⟩ := head
    simp only [runAs, Option.bind_eq_some_iff, Option.ite_none_right_eq_some] at executed
    obtain ⟨middle, stepped, checked, executed⟩ := executed
    refine Advances.trans ?_ (ih executed)
    obtain ⟨effect, next, s, program, moved, rfl⟩ | ⟨f, next, program, rfl⟩ := step_cases stepped
    · by_cases mine : j = i
      · subst mine
        simp only [program, Function.update_self]
        exact .act .refl moved (own _ _ checked)
      · simp only [Function.update_of_ne (Ne.symm mine)]
        exact .other .refl (others j mine _ _ checked)
    · by_cases mine : j = i
      · subst mine
        simp only [program, Function.update_self]
        exact .call .refl
      · simp only [Function.update_of_ne (Ne.symm mine)]
        exact .refl

end Pool
end Interleaving
