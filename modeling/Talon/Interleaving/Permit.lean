import Talon.Interleaving.Constant

/-! What is done once: a thread does it only with a permit, and the permit goes to the thread that
raises a flag. Nothing here fixes the state, the procedures or the number of threads. -/
namespace Interleaving

variable {ι S C F R X α β : Type}

/-- The flag, and how often it was done. -/
structure Permit (S : Type) where
  flag : S → Bool
  count : S → Nat

namespace Permit
variable {P : Permit S} {has : Bool}

/-- The program does it only with a permit: its own, or the one it gets when it raises the flag. It
takes none into a procedure or out of one. -/
def Careful (P : Permit S) : Prog S C F R α → Bool → Prop
  | .ret _, _ => True
  | .act effect next, has => ∀ c s t, effect c s = some t → ∃ keeps, P.Careful (next c s) keeps ∧
      P.count t + keeps.toNat + (P.flag s).toNat ≤ P.count s + has.toNat + (P.flag t).toNat
  | .call _ next, _ => ∀ r, P.Careful (next r) false

theorem Careful.grant {p : Prog S C F R α} (careful : P.Careful p false) : P.Careful p has := by
  cases p with
  | ret value => trivial
  | act effect next =>
    intro c s t stepped
    obtain ⟨keeps, rest, paid⟩ := careful c s t stepped
    refine ⟨keeps, rest, ?_⟩
    simp only [Bool.toNat_false, Nat.add_zero] at paid
    omega
  | call f next => exact careful

theorem Careful.pure {a : α} : P.Careful (Pure.pure a : Prog S C F R α) has := trivial

theorem Careful.bind {p : Prog S C F R α} {k : α → Prog S C F R β} (first : P.Careful p has)
    (rest : ∀ a, P.Careful (k a) false) : P.Careful (p >>= k) has := by
  change P.Careful (p.bind k) has
  induction p generalizing has with
  | ret value => exact (rest value).grant
  | act effect next ih =>
    intro c s t stepped
    obtain ⟨keeps, later, paid⟩ := first c s t stepped
    exact ⟨keeps, ih c s later, paid⟩
  | call f next ih => exact fun r => ih r (first r)

theorem Careful.atomic_bind {effect : C → S → Option S} {result : C → S → α} {k : α → Prog S C F R β}
    (pays : ∀ c s t, effect c s = some t → ∃ keeps, P.Careful (k (result c s)) keeps ∧
      P.count t + keeps.toNat + (P.flag s).toNat ≤ P.count s + has.toNat + (P.flag t).toNat) :
    P.Careful (.atomic effect result >>= k) has := pays

theorem Careful.enter {f : F} : P.Careful (.enter f : Prog S C F R R) has := fun _ => trivial

/-- A program that touches neither the flag nor what is counted. -/
theorem Careful.of_constant {part : S → X} {calls : F → Prop} {p : Prog S C F R α}
    (flag : ∀ s t, part t = part s → P.flag t = P.flag s) (count : ∀ s t, part t = part s → P.count t = P.count s)
    (constant : Constant part calls p) : P.Careful p has := by
  induction p generalizing has with
  | ret value => trivial
  | act effect next ih =>
    intro c s t stepped
    obtain ⟨same, rest⟩ := constant c s t stepped
    refine ⟨false, ih c s rest, ?_⟩
    rw [flag s t same, count s t same]
    simp only [Bool.toNat_false]
    omega
  | call f next ih => exact fun r => ih r (constant.2 r)

section Pool
variable [DecidableEq ι] {code : ι → F → Prog S C F R R} {start pool before after : Pool ι S C F R} {i : ι} {c : C}

/-- There is one permit: used, lapsed, or in the hands of the one thread that `has` it. -/
structure Single (P : Permit S) (pool : Pool ι S C F R) (has : ι → Bool) : Prop where
  careful : ∀ i, P.Careful (pool.thread i) (has i)
  alone : ∀ i j, has i = true → has j = true → i = j
  one : ∀ i, P.count pool.shared + (has i).toNat ≤ (P.flag pool.shared).toNat

omit [DecidableEq ι] in
theorem Single.both {has : ι → Bool} {j : ι} (single : P.Single pool has) (other : j ≠ i) :
    P.count pool.shared + (has i).toNat + (has j).toNat ≤ (P.flag pool.shared).toNat := by
  have mine := single.one i
  have theirs := single.one j
  cases hasI : has i with
  | false => simpa [hasI] using theirs
  | true =>
    cases hasJ : has j with
    | false => simpa [hasI] using mine
    | true => exact absurd (single.alone j i hasJ hasI) other

/-- The thread that moves may come by the permit, or lose it. -/
theorem Single.move {has : ι → Bool} {p : Prog S C F R Unit} {keeps : Bool} {s : S}
    (single : P.Single before has) (rest : P.Careful p keeps)
    (paid : P.count s + keeps.toNat + (P.flag before.shared).toNat ≤
      P.count before.shared + (has i).toNat + (P.flag s).toNat) :
    P.Single ⟨s, Function.update before.thread i p⟩ (Function.update has i keeps) := by
  have others : ∀ j, j ≠ i → P.count s + keeps.toNat + (has j).toNat ≤ (P.flag s).toNat := by
    intro j other
    have := single.both other
    omega
  have full : ∀ j, j ≠ i → keeps = true → has j = false := by
    rintro j other rfl
    have few := others j other
    have most := Bool.toNat_le (P.flag s)
    cases hasJ : has j with
    | false => rfl
    | true =>
      simp only [hasJ, Bool.toNat_true] at few
      omega
  refine ⟨fun j => ?_, fun j k hasJ hasK => ?_, fun j => ?_⟩
  · by_cases here : j = i
    · subst here
      simpa only [Function.update_self] using rest
    · simpa only [Function.update_of_ne here] using single.careful j
  · by_cases hereJ : j = i <;> by_cases hereK : k = i
    · exact hereJ.trans hereK.symm
    · subst hereJ
      rw [Function.update_self] at hasJ
      rw [Function.update_of_ne hereK, full k hereK hasJ] at hasK
      contradiction
    · subst hereK
      rw [Function.update_self] at hasK
      rw [Function.update_of_ne hereJ, full j hereJ hasK] at hasJ
      contradiction
    · rw [Function.update_of_ne hereJ] at hasJ
      rw [Function.update_of_ne hereK] at hasK
      exact single.alone j k hasJ hasK
  · by_cases here : j = i
    · subst here
      rw [Function.update_self]
      have := single.one j
      dsimp only
      omega
    · rw [Function.update_of_ne here]
      have := others j here
      dsimp only
      omega

theorem Single.step {has : ι → Bool} (careful : ∀ i f, P.Careful (code i f) false) (single : P.Single before has)
    (stepped : Pool.step code i c before = some after) : ∃ has, P.Single after has := by
  have mine := single.careful i
  obtain ⟨effect, next, t, program, moved, rfl⟩ | ⟨f, next, program, rfl⟩ := Pool.step_cases stepped
  · rw [program] at mine
    obtain ⟨keeps, rest, paid⟩ := mine c _ t moved
    exact ⟨_, single.move rest paid⟩
  · rw [program] at mine
    have rest : P.Careful ((code i f).bind next) false := (careful i f).bind mine
    refine ⟨_, single.move rest ?_⟩
    simp only [Bool.toNat_false]
    omega

/-- In no state of any interleaving it was done twice, or before the flag was raised. -/
theorem once (careful : ∀ i f, P.Careful (code i f) false) (enters : ∀ i, P.Careful (start.thread i) false)
    (never : P.count start.shared = 0) (path : Pool.Reaches code (fun _ _ => True) start pool) :
    P.count pool.shared ≤ (P.flag pool.shared).toNat := by
  have single : (∃ has, P.Single pool has) ∧ P.count pool.shared ≤ (P.flag pool.shared).toNat := by
    induction path with
    | refl =>
      have none_ : P.count start.shared ≤ (P.flag start.shared).toNat := never ▸ Nat.zero_le _
      exact ⟨⟨fun _ => false, enters, fun _ _ absent => absurd absent (by simp), fun _ => none_⟩, none_⟩
    | @next before i c after _ stepped _ ih =>
      obtain ⟨has, single⟩ := ih.1
      obtain ⟨has', single'⟩ := single.step careful stepped
      exact ⟨⟨has', single'⟩, Nat.le_trans (Nat.le_add_right _ _) (single'.one i)⟩
  exact single.2

end Pool
end Permit
end Interleaving
