import Talon.Interleaving.Crowd
import Mathlib.Algebra.Order.BigOperators.Group.List
import Mathlib.Algebra.Order.Ring.Nat

/-! Budgets: how much a crowd adds to a shared state if each thread adds to it
only after it has seen that there is need. -/
namespace Interleaving

variable {ι S C F R α β : Type}

/-- A budget for the `cost` of a shared state. A thread that sees a state that
`grants` may then add up to `limit`. Of the states that are met `Inv` is known,
and `Side` is kept along the way. -/
structure Budget (S : Type) where
  Inv : S → Prop
  Side : S → Prop
  cost : S → Nat
  limit : Nat
  grants : S → Prop

namespace Budget
variable {B : Budget S} {n m : Nat}

/-- With a credit of `n` the program keeps to the budget. Credit is not carried
into or out of a procedure. -/
def Frugal (B : Budget S) : Prog S C F R α → Nat → Prop
  | .ret _, _ => True
  | .act effect next, n => ∀ c s t, B.Inv s → effect c s = some t → B.Inv t → (B.Side s → B.Side t) ∧
      ∃ m ≤ B.limit, B.Frugal (next c s) m ∧
        (B.cost t + m ≤ B.cost s + n ∨ B.grants s ∧ B.cost t ≤ B.cost s)
  | .call _ next, _ => ∀ r, B.Frugal (next r) 0

theorem Frugal.mono {p : Prog S C F R α} (frugal : B.Frugal p n) (more : n ≤ m) : B.Frugal p m := by
  cases p with
  | ret value => trivial
  | act effect next =>
    intro c s t before stepped after
    obtain ⟨side, k, small, rest, spent | granted⟩ := frugal c s t before stepped after
    · exact ⟨side, k, small, rest, Or.inl (by omega)⟩
    · exact ⟨side, k, small, rest, Or.inr granted⟩
  | call f next => exact frugal

theorem Frugal.pure {a : α} : B.Frugal (Pure.pure a : Prog S C F R α) n := trivial

theorem Frugal.bind {p : Prog S C F R α} {k : α → Prog S C F R β} (first : B.Frugal p n)
    (rest : ∀ a, B.Frugal (k a) 0) : B.Frugal (p >>= k) n := by
  change B.Frugal (p.bind k) n
  induction p generalizing n with
  | ret value => exact (rest value).mono (Nat.zero_le n)
  | act effect next ih =>
    intro c s t before stepped after
    obtain ⟨side, m, small, later, paid⟩ := first c s t before stepped after
    exact ⟨side, m, small, ih c s later, paid⟩
  | call f next ih => exact fun r => ih r (first r)

/-- A step, and what it leaves or is granted to the rest. -/
theorem Frugal.atomic_bind {effect : C → S → Option S} {result : C → S → α} {k : α → Prog S C F R β}
    (pays : ∀ c s t, B.Inv s → effect c s = some t → B.Inv t → (B.Side s → B.Side t) ∧
      ∃ m ≤ B.limit, B.Frugal (k (result c s)) m ∧
        (B.cost t + m ≤ B.cost s + n ∨ B.grants s ∧ B.cost t ≤ B.cost s)) :
    B.Frugal (.atomic effect result >>= k) n := pays

/-- A step that costs nothing. -/
theorem Frugal.atomic {effect : C → S → Option S} {result : C → S → α}
    (free : ∀ c s t, B.Inv s → effect c s = some t → B.Inv t → (B.Side s → B.Side t) ∧ B.cost t ≤ B.cost s) :
    B.Frugal (.atomic effect result : Prog S C F R α) n := by
  intro c s t before stepped after
  obtain ⟨side, cheap⟩ := free c s t before stepped after
  exact ⟨side, 0, Nat.zero_le _, trivial, Or.inl (by omega)⟩

theorem Frugal.exchange {read : S → α} {write : S → S}
    (free : ∀ s, B.Inv s → B.Inv (write s) → (B.Side s → B.Side (write s)) ∧ B.cost (write s) ≤ B.cost s) :
    B.Frugal (.exchange read write : Prog S C F R α) n := by
  refine Frugal.atomic fun c s t before stepped after => ?_
  cases Option.some.inj stepped
  exact free s before after

theorem Frugal.load {read : S → α} : B.Frugal (.load read : Prog S C F R α) n := by
  refine Frugal.atomic fun c s t before stepped after => ?_
  cases Option.some.inj stepped
  exact ⟨id, Nat.le_refl _⟩

theorem Frugal.enter {f : F} : B.Frugal (.enter f : Prog S C F R R) n := fun _ => trivial

theorem Frugal.resting {rest : F → Bool} {p : Prog S C F R α} (frugal : B.Frugal p n)
    (rests : p.resting rest = true) : B.Frugal p 0 := by
  cases p with
  | ret value => trivial
  | act effect next => contradiction
  | call f next => exact frugal

section Crowd
variable [DecidableEq ι] {code : ι → F → Prog S C F R R} {exit : Exit ι S F} {K N : Nat}
  {allowed : Crowd ι S C F R → Event ι C → Crowd ι S C F R → Prop} {start crowd before after : Crowd ι S C F R}

/-- The running threads' credits, together with the cost so far, are covered. -/
structure Covers (B : Budget S) (total : Nat) (crowd : Crowd ι S C F R) (credit : ι → Nat) : Prop where
  frugal : ∀ i, B.Frugal (crowd.pool.thread i) (credit i)
  small : ∀ i, credit i ≤ B.limit
  none : ∀ i, i ∉ crowd.running → credit i = 0
  sum : B.cost crowd.shared + (crowd.running.map credit).sum ≤ total

omit [DecidableEq ι] in
theorem sum_credits (running : List ι) {credit : ι → Nat} (small : ∀ i, credit i ≤ m) :
    (running.map credit).sum ≤ running.length * m := by
  have each : ∀ c ∈ running.map credit, c ≤ m := by
    intro c member
    obtain ⟨i, -, rfl⟩ := List.mem_map.mp member
    exact small i
  simpa only [List.length_map, Nat.nsmul_eq_mul] using List.sum_le_card_nsmul _ m each

theorem update_small {credit : ι → Nat} {i : ι} (small : ∀ i, credit i ≤ n) (new : m ≤ n) (j : ι) :
    Function.update credit i m j ≤ n := by
  by_cases same : j = i
  · subst same
    rw [Function.update_self]
    exact new
  · rw [Function.update_of_ne same]
    exact small j

theorem map_erase_update {running : List ι} {credit : ι → Nat} {i : ι} (once : running.Nodup) :
    (running.erase i).map (Function.update credit i m) = (running.erase i).map credit := by
  refine List.map_congr_left fun j inside => Function.update_of_ne ?_ _ _
  rintro rfl
  exact once.not_mem_erase inside

theorem sum_update {running : List ι} (credit : ι → Nat) {i : ι} (once : running.Nodup) (member : i ∈ running) :
    (running.map (Function.update credit i m)).sum + credit i = (running.map credit).sum + m := by
  have new := List.sum_map_erase (Function.update credit i m) member
  have old := List.sum_map_erase credit member
  rw [map_erase_update once, Function.update_self] at new
  omega

/-- One thread's step: it pays with its credit, or is granted a new one, which
there is room for as the cost is then below `K`. -/
theorem Covers.work {credit : ι → Nat} {pool : Pool ι S C F R} {i : ι} {c : C}
    (frugal : ∀ i f, B.Frugal (code i f) 0) (covers : B.Covers (K + N * B.limit) before credit)
    (once : before.running.Nodup) (few : before.running.length ≤ N) (runs : i ∈ before.running)
    (moved : before.pool.step code i c = some pool) (inv : B.Inv before.shared) (inv' : B.Inv pool.shared)
    (granted : B.grants before.shared → B.cost before.shared ≤ K) :
    (B.Side before.shared → B.Side pool.shared) ∧
      ∃ credit', B.Covers (K + N * B.limit) { before with pool := pool } credit' := by
  have mine := covers.frugal i
  -- The mover gets the credit `m`; the sum is what each case has to show.
  have assemble : ∀ m p, m ≤ B.limit → B.Frugal p m → pool.thread = Function.update before.pool.thread i p →
      B.cost pool.shared + (before.running.map (Function.update credit i m)).sum ≤ K + N * B.limit →
      B.Covers (K + N * B.limit) { before with pool := pool } (Function.update credit i m) := by
    intro m p small rest thread sum
    refine ⟨fun j => ?_, update_small covers.small small, fun j outside => ?_, sum⟩
    · by_cases same : j = i
      · subst same
        simpa only [thread, Function.update_self] using rest
      · simpa only [thread, Function.update_of_ne same] using covers.frugal j
    · have other : j ≠ i := by
        rintro rfl
        exact outside runs
      rw [Function.update_of_ne other]
      exact covers.none j outside
  obtain ⟨effect, next, t, program, stepped, rfl⟩ | ⟨f, next, program, rfl⟩ := Pool.step_cases moved
  · rw [program] at mine
    obtain ⟨side, m, small, rest, paid⟩ := mine c _ t inv stepped inv'
    refine ⟨side, _, assemble m _ small rest rfl ?_⟩
    have update := sum_update (m := m) credit once runs
    have total := covers.sum
    change B.cost t + _ ≤ _
    rcases paid with spent | ⟨grants, cheap⟩
    · omega
    · have sum := sum_credits before.running (update_small (i := i) covers.small small)
      have room := Nat.mul_le_mul_right B.limit few
      have bound := granted grants
      omega
  · rw [program] at mine
    refine ⟨id, _, assemble 0 _ (Nat.zero_le _) ((frugal i f).bind mine) rfl ?_⟩
    have update := sum_update (m := 0) credit once runs
    have total := covers.sum
    change B.cost before.shared + _ ≤ _
    omega

/-- A thread that exits loses its credit. -/
theorem Covers.leave {credit : ι → Nat} {i : ι} {rest : F → Bool} {total : Nat} {ended : List ι}
    (covers : B.Covers total before credit) (once : before.running.Nodup) (runs : i ∈ before.running)
    (resting : (before.pool.thread i).resting rest = true) :
    B.Covers total ⟨⟨before.shared, before.pool.thread⟩, before.running.erase i, ended⟩
      (Function.update credit i 0) := by
  refine ⟨fun j => ?_, update_small covers.small (Nat.zero_le _), fun j outside => ?_, ?_⟩
  · by_cases same : j = i
    · subst same
      rw [Function.update_self]
      exact (covers.frugal j).resting resting
    · rw [Function.update_of_ne same]
      exact covers.frugal j
  · by_cases same : j = i
    · subst same
      exact Function.update_self _ _ _
    · rw [Function.update_of_ne same]
      exact covers.none j fun inside => outside ((List.mem_erase_of_ne same).mpr inside)
  · have total := covers.sum
    have whole := List.sum_map_erase credit runs
    rw [map_erase_update once]
    change B.cost before.shared + _ ≤ _
    omega

/-- The cost of a crowd whose procedures are frugal, if `K` bounds it whenever
more is granted, and no more than `N` threads run at a time. -/
theorem within (quiet : Crowd.Quiet exit allowed) (frugal : ∀ i f, B.Frugal (code i f) 0)
    (enters : ∀ i, B.Frugal (start.pool.thread i) 0) (nobody : start.running = []) (side : B.Side start.shared)
    (cost : B.cost start.shared ≤ K)
    (inv : ∀ crowd, Crowd.Reaches code exit allowed start crowd → B.Inv crowd.shared)
    (few : ∀ crowd, Crowd.Reaches code exit allowed start crowd → crowd.running.length ≤ N)
    (granted : ∀ crowd, Crowd.Reaches code exit allowed start crowd → B.Side crowd.shared →
      B.grants crowd.shared → B.cost crowd.shared ≤ K)
    (path : Crowd.Reaches code exit allowed start crowd) :
    B.Side crowd.shared ∧ B.cost crowd.shared ≤ K + N * B.limit := by
  have covered : B.Side crowd.shared ∧ ∃ credit, B.Covers (K + N * B.limit) crowd credit := by
    induction path with
    | refl =>
      refine ⟨side, fun _ => 0, enters, fun _ => Nat.zero_le _, fun _ _ => rfl, ?_⟩
      rw [nobody, List.map_nil, List.sum_nil]
      omega
    | @next before after event path stepped admitted ih =>
      obtain ⟨side, credit, covers⟩ := ih
      have once := path.nodup (nobody ▸ List.nodup_nil)
      have later := inv after (path.next stepped admitted)
      obtain ⟨i, rfl, absent, rfl⟩ | ⟨i, c, pool, rfl, runs, moved, rfl⟩ | ⟨i, rfl, runs, resting, rfl⟩ :=
        Crowd.step_cases stepped
      · refine ⟨side, credit, covers.frugal, covers.small, fun j outside => ?_, ?_⟩
        · exact covers.none j fun inside => outside (List.mem_cons_of_mem _ inside)
        · have total := covers.sum
          have nothing := covers.none i absent
          simpa only [List.map_cons, List.sum_cons, nothing, Nat.zero_add] using total
      · obtain ⟨kept, credit', covers'⟩ := covers.work frugal once (few before path) runs moved
          (inv before path) later (granted before path side)
        exact ⟨kept side, credit', covers'⟩
      · simp only [Crowd.shared, quiet _ _ _ admitted]
        exact ⟨side, Function.update credit i 0, covers.leave once runs resting⟩
  obtain ⟨kept, credit, covers⟩ := covered
  exact ⟨kept, Nat.le_trans (Nat.le_add_right _ _) covers.sum⟩

end Crowd
end Budget
end Interleaving
