/-! Machines with labelled partial steps. What every step keeps holds in every state that
a run reaches, and a rank that the steps of one party use up bounds how many of them a run
can have. Nothing here fixes the states or the labels. -/
namespace Interleaving.Machine

variable {S A : Type}

/-- The states that a run from `start` reaches. -/
inductive Reaches (step : S → A → Option S) (start : S) : S → Prop where
  | refl : Reaches step start start
  | next (label : A) (earlier : Reaches step start s) (stepped : step s label = some t) : Reaches step start t

/-- Likewise, with the number of steps whose label is `own`. -/
inductive Takes (step : S → A → Option S) (own : A → Bool) (start : S) : Nat → S → Prop where
  | refl : Takes step own start 0 start
  | next (label : A) (earlier : Takes step own start n s) (stepped : step s label = some t) :
      Takes step own start (n + (own label).toNat) t

variable {step : S → A → Option S} {own : A → Bool} {s t u : S} {P : S → Prop} {n : Nat}

theorem Reaches.trans (first : Reaches step s t) (second : Reaches step t u) : Reaches step s u := by
  induction second with
  | refl => exact first
  | next label _ stepped ih => exact .next label ih stepped

theorem Takes.reaches (run : Takes step own s n t) : Reaches step s t := by
  induction run with
  | refl => exact .refl
  | next label _ stepped ih => exact .next label ih stepped

theorem Reaches.invariant (run : Reaches step s t) (kept : ∀ s label t, P s → step s label = some t → P t)
    (initial : P s) : P t := by
  induction run with
  | refl => exact initial
  | next label _ stepped ih => exact kept _ label _ ih stepped

/-- Every own step uses up some of the rank, and no step adds to it. -/
theorem Takes.bounded {rank : S → Nat} (run : Takes step own s n t)
    (kept : ∀ s label t, P s → step s label = some t → P t)
    (pays : ∀ s label t, P s → step s label = some t → rank t + (own label).toNat ≤ rank s) (initial : P s) :
    n + rank t ≤ rank s := by
  induction run with
  | refl => omega
  | next label earlier stepped ih =>
    have held := earlier.reaches.invariant kept initial
    have paid := pays _ label _ held stepped
    omega

/-- If some run always lowers the rank, one uses it up. -/
theorem ends {rank : S → Nat} (kept : ∀ s label t, P s → step s label = some t → P t)
    (lowers : ∀ s, P s → rank s ≠ 0 → ∃ t, Reaches step s t ∧ rank t < rank s) (initial : P s) :
    ∃ t, Reaches step s t ∧ rank t = 0 := by
  induction size : rank s using Nat.strongRecOn generalizing s with
  | ind n ih =>
    subst size
    by_cases done : rank s = 0
    · exact ⟨s, .refl, done⟩
    · obtain ⟨t, run, less⟩ := lowers s initial done
      obtain ⟨u, rest, last⟩ := ih (rank t) less (run.invariant kept initial) rfl
      exact ⟨u, run.trans rest, last⟩

end Interleaving.Machine
