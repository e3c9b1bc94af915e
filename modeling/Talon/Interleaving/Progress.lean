import Talon.Interleaving.Program
import Mathlib.Algebra.Order.BigOperators.Group.Finset
import Mathlib.Algebra.Order.Ring.Nat

/-! Progress without locks: threads that take what they read of a shared word for its value, and
start again when it has changed. The credit of a program says, for each value of the word, how many
steps take it to a rest while the word keeps that value. Nothing here fixes the state, the
procedures or the number of threads. -/
namespace Interleaving

variable {ι S C F R V α β : Type}

/-- The program has ended, or is about to enter a procedure that is a `rest`. -/
def Prog.settled (rest : F → Bool) : Prog S C F R α → Bool
  | .ret _ => true
  | .act _ _ => false
  | .call f _ => rest f

@[simp] theorem Prog.settled_ret {rest : F → Bool} {a : α} : (.ret a : Prog S C F R α).settled rest = true := rfl

@[simp] theorem Prog.settled_act {rest : F → Bool} {effect : C → S → Option S} {next : C → S → Prog S C F R α} :
    (Prog.act effect next).settled rest = false := rfl

@[simp] theorem Prog.settled_call {rest : F → Bool} {f : F} {next : R → Prog S C F R α} :
    (.call f next : Prog S C F R α).settled rest = rest f := rfl

/-- A step of a run: who made it, with which choice, and whether it took the thread to a rest. -/
structure Turn (ι C : Type) where
  thread : ι
  choice : C
  rests : Bool

/-- The runs from `start`, with their steps. -/
inductive Pool.Works [DecidableEq ι] (code : ι → F → Prog S C F R R) (rest : F → Bool) (start : Pool ι S C F R) :
    List (Turn ι C) → Pool ι S C F R → Prop where
  | refl : Works code rest start [] start
  | next : Works code rest start turns before → step code i c before = some after →
      Works code rest start (turns ++ [⟨i, c, (after.thread i).settled rest⟩]) after

theorem Pool.Works.trans [DecidableEq ι] {code : ι → F → Prog S C F R R} {rest : F → Bool}
    {start middle last : Pool ι S C F R} {turns later : List (Turn ι C)} (first : Works code rest start turns middle)
    (second : Works code rest middle later last) : Works code rest start (turns ++ later) last := by
  induction second with
  | refl => simpa using first
  | next _ stepped ih =>
    rw [← List.append_assoc]
    exact .next ih stepped

/-- Execute a schedule and tell its steps. -/
def Pool.work [DecidableEq ι] (code : ι → F → Prog S C F R R) (rest : F → Bool) :
    List (ι × C) → Pool ι S C F R → Option (List (Turn ι C) × Pool ι S C F R)
  | [], pool => some ([], pool)
  | (i, c) :: schedule, pool => (step code i c pool).bind fun after =>
      (work code rest schedule after).map fun (turns, last) => (⟨i, c, (after.thread i).settled rest⟩ :: turns, last)

theorem Pool.works_of_work [DecidableEq ι] {code : ι → F → Prog S C F R R} {rest : F → Bool}
    {schedule : List (ι × C)} {turns : List (Turn ι C)} {start last : Pool ι S C F R}
    (executed : work code rest schedule start = some (turns, last)) : Works code rest start turns last := by
  induction schedule generalizing start turns with
  | nil =>
    cases executed
    exact .refl
  | cons head schedule ih =>
    obtain ⟨i, c⟩ := head
    simp only [work, Option.bind_eq_some_iff, Option.map_eq_some_iff] at executed
    obtain ⟨middle, stepped, ⟨later, last'⟩, executed, same⟩ := executed
    cases same
    exact (Works.next .refl stepped).trans (ih executed)

/-- How the threads of a pool get on. Procedure `f` has the credit `entry f`, no credit is more than
`limit`, and a new value of the `word` adds no more than `spread` to one. A choice of the scheduler
that sends a thread back has its `fee`. -/
structure Pace (S C F V : Type) where
  word : S → V
  rest : F → Bool
  entry : F → V → Nat
  limit : Nat
  spread : Nat
  fee : C → Nat

namespace Pace
variable {P : Pace S C F V} {n m : V → Nat}

/-- The credits that there can be. -/
structure Fits (P : Pace S C F V) (n : V → Nat) : Prop where
  small : ∀ v, n v ≤ P.limit
  near : ∀ v w, n v ≤ n w + P.spread

/-- With the credit `n` the program comes to a rest, which alone may change the word. It is never
blocked, and it does not go on after a call. -/
def Within (P : Pace S C F V) : Prog S C F R α → (V → Nat) → Prop
  | .ret _, _ => True
  | .act effect next, n => (∀ s, ∃ c t, P.fee c = 0 ∧ effect c s = some t) ∧
      ∀ c s t, effect c s = some t → ∃ m, P.Fits m ∧ P.Within (next c s) m ∧
        ((next c s).settled P.rest = true ∨
          P.word t = P.word s ∧ m (P.word s) + 1 ≤ n (P.word s) + P.fee c)
  | .call f next, n => (P.rest f = true ∨ ∀ v, P.entry f v + 1 ≤ n v) ∧
      ∀ r, (next r).settled P.rest = true ∧ P.Within (next r) fun _ => 0

theorem settled_bind {rest : F → Bool} {p : Prog S C F R α} {k : α → Prog S C F R β}
    (settled : p.settled rest = true) (later : ∀ a, (k a).settled rest = true) :
    (p.bind k).settled rest = true := by
  cases p with
  | ret value => exact later value
  | act effect next => contradiction
  | call f next => exact settled

theorem Within.mono {p : Prog S C F R α} (within : P.Within p n) (more : ∀ v, n v ≤ m v) : P.Within p m := by
  cases p with
  | ret value => trivial
  | act effect next =>
    obtain ⟨enabled, steps⟩ := within
    refine ⟨enabled, fun c s t stepped => ?_⟩
    obtain ⟨rest, fits, later, settled | ⟨kept, paid⟩⟩ := steps c s t stepped
    · exact ⟨rest, fits, later, Or.inl settled⟩
    · have := more (P.word s)
      exact ⟨rest, fits, later, Or.inr ⟨kept, by omega⟩⟩
  | call f next =>
    obtain ⟨resting | affordable, later⟩ := within
    · exact ⟨Or.inl resting, later⟩
    · exact ⟨Or.inr fun v => (affordable v).trans (more v), later⟩

theorem Within.bind {p : Prog S C F R α} {k : α → Prog S C F R β} (first : P.Within p n)
    (rest : ∀ a, (k a).settled P.rest = true ∧ P.Within (k a) fun _ => 0) : P.Within (p.bind k) n := by
  induction p generalizing n with
  | ret value => exact (rest value).2.mono fun _ => Nat.zero_le _
  | act effect next ih =>
    obtain ⟨enabled, steps⟩ := first
    refine ⟨enabled, fun c s t stepped => ?_⟩
    obtain ⟨m, fits, later, ends⟩ := steps c s t stepped
    refine ⟨m, fits, ih c s later, ends.imp_left fun settled => ?_⟩
    exact settled_bind settled fun a => (rest a).1
  | call f next ih =>
    refine ⟨first.1, fun r => ?_⟩
    obtain ⟨settled, later⟩ := first.2 r
    exact ⟨settled_bind settled fun a => (rest a).1, ih r later⟩

theorem Within.atomic_bind {effect : C → S → Option S} {result : C → S → α} {k : α → Prog S C F R β}
    (enabled : ∀ s, ∃ c t, P.fee c = 0 ∧ effect c s = some t)
    (steps : ∀ c s t, effect c s = some t → ∃ m, P.Fits m ∧ P.Within (k (result c s)) m ∧
      ((k (result c s)).settled P.rest = true ∨
        P.word t = P.word s ∧ m (P.word s) + 1 ≤ n (P.word s) + P.fee c)) :
    P.Within (.atomic effect result >>= k) n := ⟨enabled, steps⟩

theorem Within.exchange_bind {read : S → α} {write : S → S} {k : α → Prog S C F R β} (free : ∃ c, P.fee c = 0)
    (kept : ∀ s, P.word (write s) = P.word s)
    (pays : ∀ s, ∃ m, P.Fits m ∧ P.Within (k (read s)) m ∧ m (P.word s) + 1 ≤ n (P.word s)) :
    P.Within (.exchange read write >>= k) n := by
  refine Within.atomic_bind (fun s => ?_) fun c s t stepped => ?_
  · obtain ⟨c, none⟩ := free
    exact ⟨c, write s, none, rfl⟩
  · cases Option.some.inj stepped
    obtain ⟨m, fits, later, paid⟩ := pays s
    exact ⟨m, fits, later, Or.inr ⟨kept s, Nat.le_add_right_of_le paid⟩⟩

theorem Within.enter {f : F} (affordable : ∀ v, P.entry f v + 1 ≤ n v) : P.Within (.enter f : Prog S C F R R) n :=
  ⟨Or.inr affordable, fun _ => ⟨rfl, trivial⟩⟩

/-- What the thread may still spend: at a rest it is given the limit. -/
def funds (P : Pace S C F V) (p : Prog S C F R α) (n : V → Nat) (v : V) : Nat :=
  if p.settled P.rest = true then P.limit else n v

theorem funds_settled {p : Prog S C F R α} {v : V} (settled : p.settled P.rest = true) : P.funds p n v = P.limit :=
  if_pos settled

theorem funds_working {p : Prog S C F R α} {v : V} (works : ¬ p.settled P.rest = true) : P.funds p n v = n v :=
  if_neg works

theorem Fits.funds_le {p : Prog S C F R α} {v : V} (fits : P.Fits n) : P.funds p n v ≤ P.limit := by
  unfold funds
  split
  · exact Nat.le_refl _
  · exact fits.small v

theorem Fits.funds_near {p : Prog S C F R α} {v w : V} (fits : P.Fits n) :
    P.funds p n v ≤ P.funds p n w + P.spread := by
  unfold funds
  split
  · exact Nat.le_add_right _ _
  · exact fits.near v w

section Pool
variable [DecidableEq ι] {code : ι → F → Prog S C F R R} {before after start : Pool ι S C F R} {i : ι} {c : C}
  {credit credit' : ι → V → Nat}

/-- What is asked of the procedures. -/
structure Lawful (P : Pace S C F V) (code : ι → F → Prog S C F R R) : Prop where
  within : ∀ i f, P.Within (code i f) (P.entry f)
  fits : ∀ f, P.Fits (P.entry f)
  rested : ∀ f v, P.rest f = true → P.entry f v + 1 ≤ P.limit
  free : ∃ c, P.fee c = 0

/-- Each thread of the pool has its credit. -/
structure Paced (P : Pace S C F V) (pool : Pool ι S C F R) (credit : ι → V → Nat) : Prop where
  within : ∀ i, P.Within (pool.thread i) (credit i)
  fits : ∀ i, P.Fits (credit i)

theorem Paced.update {pool : Pool ι S C F R} {p : Prog S C F R Unit} {s : S} (paced : P.Paced pool credit)
    (within : P.Within p m) (fits : P.Fits m) :
    P.Paced ⟨s, Function.update pool.thread i p⟩ (Function.update credit i m) := by
  refine ⟨fun j => ?_, fun j => ?_⟩ <;> by_cases same : j = i
  · subst same
    simpa only [Function.update_self] using within
  · simpa only [Function.update_of_ne same] using paced.within j
  · subst same
    simpa only [Function.update_self] using fits
  · simpa only [Function.update_of_ne same] using paced.fits j

/-- A step takes the thread to a rest, or is paid for. -/
theorem Paced.step (lawful : P.Lawful code) (paced : P.Paced before credit)
    (stepped : Pool.step code i c before = some after) :
    ∃ m, P.Paced after (Function.update credit i m) ∧
      (∀ j, j ≠ i → after.thread j = before.thread j) ∧
      ((after.thread i).settled P.rest = true ∨ P.word after.shared = P.word before.shared ∧
        P.funds (after.thread i) m (P.word before.shared) + 1 ≤
          P.funds (before.thread i) (credit i) (P.word before.shared) + P.fee c) := by
  have mine := paced.within i
  obtain ⟨effect, next, t, program, moved, rfl⟩ | ⟨f, next, program, rfl⟩ := Pool.step_cases stepped
  · rw [program] at mine
    obtain ⟨m, fits, later, ends⟩ := mine.2 c _ t moved
    refine ⟨m, paced.update later fits, fun j other => Function.update_of_ne other _ _, ?_⟩
    dsimp only
    rw [program, Function.update_self]
    by_cases settled : (next c before.shared).settled P.rest = true
    · exact Or.inl settled
    · obtain ⟨kept, paid⟩ := ends.resolve_left settled
      rw [funds_working settled, funds_working (by simp)]
      exact Or.inr ⟨kept, paid⟩
  · rw [program] at mine
    obtain ⟨affordable, later⟩ := mine
    refine ⟨P.entry f, paced.update ((lawful.within i f).bind later) (lawful.fits f),
      fun j other => Function.update_of_ne other _ _, ?_⟩
    dsimp only
    rw [program, Function.update_self]
    by_cases settled : ((code i f).bind next).settled P.rest = true
    · exact Or.inl settled
    · refine Or.inr ⟨rfl, ?_⟩
      rw [funds_working settled]
      by_cases rests : P.rest f = true
      · have := lawful.rested f (P.word before.shared) rests
        rw [funds_settled (by simpa using rests)]
        omega
      · have := affordable.resolve_left rests (P.word before.shared)
        rw [funds_working (by simpa using rests)]
        omega

theorem Paced.reaches (lawful : P.Lawful code) (paced : P.Paced start credit)
    (path : Pool.Reaches code (fun _ _ => True) start before) : ∃ credit', P.Paced before credit' := by
  induction path with
  | refl => exact ⟨credit, paced⟩
  | next _ stepped _ ih =>
    obtain ⟨earlier, paced⟩ := ih
    obtain ⟨m, paced', -⟩ := paced.step lawful stepped
    exact ⟨_, paced'⟩

/-- What all the `threads` may still spend. -/
def total (P : Pace S C F V) (threads : Finset ι) (pool : Pool ι S C F R) (credit : ι → V → Nat) : Nat :=
  ∑ i ∈ threads, P.funds (pool.thread i) (credit i) (P.word pool.shared)

omit [DecidableEq ι] in
theorem Paced.total_le {threads : Finset ι} {pool : Pool ι S C F R} (paced : P.Paced pool credit) :
    P.total threads pool credit ≤ threads.card * P.limit :=
  Finset.sum_le_card_nsmul _ _ _ fun i _ => (paced.fits i).funds_le

/-- What a step that takes a thread to a rest brings in: the thread's new funds and the step itself,
and one more attempt for each of the others. -/
def gain (P : Pace S C F V) (threads : Finset ι) : Nat := P.limit + 1 + P.spread * (threads.card - 1)

theorem total_step {threads : Finset ι} {m : V → Nat} (member : i ∈ threads) (paced : P.Paced before credit)
    (others : ∀ j, j ≠ i → after.thread j = before.thread j)
    (pays : (after.thread i).settled P.rest = true ∨ P.word after.shared = P.word before.shared ∧
        P.funds (after.thread i) m (P.word before.shared) + 1 ≤
          P.funds (before.thread i) (credit i) (P.word before.shared) + P.fee c) :
    P.total threads after (Function.update credit i m) + 1 ≤
      P.total threads before credit + P.gain threads * ((after.thread i).settled P.rest).toNat + P.fee c := by
  simp only [total, ← Finset.add_sum_erase threads _ member, Function.update_self]
  have rest : ∀ j ∈ threads.erase i,
      P.funds (after.thread j) (Function.update credit i m j) (P.word after.shared) =
        P.funds (before.thread j) (credit j) (P.word after.shared) := by
    intro j inside
    have other := Finset.ne_of_mem_erase inside
    rw [others j other, Function.update_of_ne other]
  rw [Finset.sum_congr rfl rest]
  rcases pays with settled | ⟨kept, paid⟩
  · have spread : ∑ j ∈ threads.erase i, P.funds (before.thread j) (credit j) (P.word after.shared) ≤
        ∑ j ∈ threads.erase i, P.funds (before.thread j) (credit j) (P.word before.shared) +
          P.spread * (threads.card - 1) := by
      calc _ ≤ ∑ j ∈ threads.erase i,
              (P.funds (before.thread j) (credit j) (P.word before.shared) + P.spread) :=
            Finset.sum_le_sum fun j _ => (paced.fits j).funds_near
        _ = _ := by
            rw [Finset.sum_add_distrib, Finset.sum_const, Finset.card_erase_of_mem member, Nat.nsmul_eq_mul,
              Nat.mul_comm P.spread]
    simp only [funds_settled settled, settled, gain, Bool.toNat_true]
    omega
  · rw [kept]
    omega

/-- How far a run can get. -/
theorem Paced.bounded {threads : Finset ι} {turns : List (Turn ι C)} (lawful : P.Lawful code)
    (paced : P.Paced start credit) (run : Pool.Works code P.rest start turns after)
    (members : ∀ turn ∈ turns, turn.thread ∈ threads) :
    ∃ credit', P.Paced after credit' ∧ turns.length + P.total threads after credit' ≤
      P.total threads start credit + P.gain threads * turns.countP (·.rests) +
        (turns.map fun turn => P.fee turn.choice).sum := by
  induction run with
  | refl => exact ⟨credit, paced, by simp⟩
  | @next turns before i c after run stepped ih =>
    obtain ⟨earlier, paced, bound⟩ := ih fun turn inside => members turn (List.mem_append_left _ inside)
    have member : i ∈ threads := members _ (List.mem_append_right _ (List.mem_singleton_self _))
    obtain ⟨m, paced', others, pays⟩ := paced.step lawful stepped
    have step := total_step member paced others pays
    refine ⟨_, paced', ?_⟩
    have counted : P.gain threads * (turns ++ [(⟨i, c, (after.thread i).settled P.rest⟩ : Turn ι C)]).countP (·.rests) =
        P.gain threads * turns.countP (·.rests) + P.gain threads * ((after.thread i).settled P.rest).toNat := by
      rw [List.countP_append, Nat.mul_add]
      cases (after.thread i).settled P.rest <;> rfl
    rw [counted]
    simp only [List.length_append, List.length_singleton, List.map_append, List.map_singleton, List.sum_append,
      List.sum_singleton]
    omega

theorem Paced.enabled (lawful : P.Lawful code) (paced : P.Paced before credit)
    (works : ¬ (before.thread i).settled P.rest = true) :
    ∃ c after, P.fee c = 0 ∧ Pool.step code i c before = some after := by
  have mine := paced.within i
  cases program : before.thread i with
  | ret value => simp [program] at works
  | act effect next =>
    rw [program] at mine
    obtain ⟨c, t, free, enabled⟩ := mine.1 before.shared
    refine ⟨c, ⟨t, Function.update before.thread i (next c before.shared)⟩, free, ?_⟩
    simp only [Pool.step, program, enabled, Option.map_some]
  | call f next =>
    obtain ⟨c, free⟩ := lawful.free
    refine ⟨c, ⟨before.shared, Function.update before.thread i ((code i f).bind next)⟩, free, ?_⟩
    simp only [Pool.step, program]

/-- A thread that is left alone, and not sent back, comes to its next rest. -/
theorem Paced.alone (lawful : P.Lawful code) (paced : P.Paced before credit)
    (works : ¬ (before.thread i).settled P.rest = true) :
    ∃ turns after, Pool.Works code P.rest before turns after ∧
      (∀ turn ∈ turns, turn.thread = i ∧ P.fee turn.choice = 0) ∧
      turns.length ≤ credit i (P.word before.shared) + 1 ∧ (after.thread i).settled P.rest = true := by
  induction size : credit i (P.word before.shared) using Nat.strongRecOn generalizing before credit with
  | ind k ih =>
    subst size
    obtain ⟨c, middle, free, stepped⟩ := paced.enabled lawful works
    obtain ⟨m, paced', -, pays⟩ := paced.step lawful stepped
    have first : Pool.Works code P.rest before [⟨i, c, (middle.thread i).settled P.rest⟩] middle := .next .refl stepped
    by_cases settled : (middle.thread i).settled P.rest = true
    · refine ⟨_, middle, first, fun turn member => ?_, by simp, settled⟩
      rw [List.mem_singleton.mp member]
      exact ⟨rfl, free⟩
    · obtain ⟨kept, paid⟩ := pays.resolve_left settled
      rw [funds_working settled, funds_working works, free] at paid
      have credited : Function.update credit i m i (P.word middle.shared) = m (P.word before.shared) := by
        rw [Function.update_self, kept]
      obtain ⟨turns, after, run, alone, short, rests⟩ := ih _ (by omega) paced' settled credited
      refine ⟨_, after, first.trans run, fun turn member => ?_, ?_, rests⟩
      · rcases List.mem_append.mp member with here | later
        · rw [List.mem_singleton.mp here]
          exact ⟨rfl, free⟩
        · exact alone turn later
      · rw [List.length_append, List.length_singleton]
        omega

end Pool
end Pace
end Interleaving
