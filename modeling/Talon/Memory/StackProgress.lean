import Talon.Interleaving.Progress
import Talon.Memory.Stack

/-! Lock-freedom of `LockFreeStack`: an attempt that fails does so because another thread's update of
`head_` came first, or for no reason at all. So the steps of any run are bounded by the number of
calls it completes, and a thread that is left alone completes its call. -/
namespace Talon.Memory.LockFreeStack
open Interleaving

variable {ι N : Type} [DecidableEq ι] [DecidableEq N]

/-- Between two calls. -/
def Procedure.isClient : Procedure N → Bool
  | .client _ => true
  | _ => false

/-- With the head as it is now there are `n` steps to the compare-exchange that ends the call; with
another one it takes three more to fail and to start again. -/
def remaining (n : Nat) (oldHead head : TaggedPointer N) : Nat := if oldHead = head then n else n + 3

def steps : Procedure N → TaggedPointer N → Nat
  | .push _ | .pop | .pushChain .. => fun _ => 3
  | .pushLoop _ oldHead | .popLoop oldHead | .pushChainLoop _ _ _ oldHead => remaining 1 oldHead
  | .client _ => fun _ => 5

/-- A compare-exchange that fails spuriously costs an attempt. -/
def pace (ι N : Type) [DecidableEq N] : Pace (Shared ι N) (Choice N) (Procedure N) (TaggedPointer N) where
  word := Shared.head
  rest := Procedure.isClient
  entry := steps
  limit := 6
  spread := 3
  fee c := if c.spurious then 3 else 0

section Procedures
variable {α : Type} {self : ι} {n : Nat}

omit [DecidableEq ι] in
theorem fits_const (small : n ≤ 6) : (pace ι N).Fits fun _ => n :=
  ⟨fun _ => small, fun _ _ => Nat.le_add_right _ _⟩

omit [DecidableEq ι] in
theorem fits_remaining (oldHead : TaggedPointer N) (small : n ≤ 3) : (pace ι N).Fits (remaining n oldHead) := by
  refine ⟨fun v => ?_, fun v w => ?_⟩
  · change remaining n oldHead v ≤ 6
    unfold remaining
    split <;> omega
  · change remaining n oldHead v ≤ remaining n oldHead w + 3
    unfold remaining
    split <;> split <;> omega

omit [DecidableEq ι] in
theorem free_choice : ∃ c : Choice N, (pace ι N).fee c = 0 := ⟨⟨false, .pop⟩, rfl⟩

/-- `head_.load` in front of a loop. -/
theorem within_loadHead {k : TaggedPointer N → Code ι N α}
    (loops : ∀ oldHead, (pace ι N).Within (k oldHead) (remaining 2 oldHead)) :
    (pace ι N).Within (loadHead self >>= k) fun _ => 3 := by
  refine Pace.Within.exchange_bind free_choice (fun _ => rfl) fun s => ?_
  refine ⟨_, fits_remaining s.head (by decide), loops s.head, ?_⟩
  change remaining 2 s.head s.head + 1 ≤ 3
  rw [remaining, if_pos rfl]

/-- The compare-exchange at the end of an attempt. -/
theorem within_compareExchangeWeak {oldHead newHead : TaggedPointer N} {operation : Operation N}
    {k : Option (TaggedPointer N) → Code ι N α} (ends : ∃ value, k none = .ret value)
    (again : ∀ found, (pace ι N).Within (k (some found)) (remaining 2 found)) :
    (pace ι N).Within (compareExchangeWeak self oldHead newHead operation >>= k) (remaining 0 oldHead) := by
  refine Pace.Within.atomic_bind (fun s => ⟨⟨false, .pop⟩, _, rfl, rfl⟩) fun c s t stepped => ?_
  by_cases succeeds : s.head = oldHead ∧ c.spurious = false
  · obtain ⟨value, ends⟩ := ends
    refine ⟨_, fits_const (Nat.zero_le 6), ?_⟩
    rw [if_pos succeeds, ends]
    exact ⟨trivial, Or.inl rfl⟩
  · refine ⟨remaining 2 s.head, fits_remaining s.head (by decide), ?_⟩
    rw [if_neg succeeds] at stepped ⊢
    cases Option.some.inj stepped
    refine ⟨again s.head, Or.inr ⟨rfl, ?_⟩⟩
    change remaining 2 s.head s.head + 1 ≤ remaining 0 oldHead s.head + if c.spurious then 3 else 0
    rw [remaining, if_pos rfl, remaining]
    split
    · next same =>
      have spurious : c.spurious = true := by simpa [same] using succeeds
      rw [if_pos spurious]
    · omega

omit [DecidableEq ι] in
/-- The step before it, which reads or writes a `next`. -/
theorem within_next {β : Type} {read : Shared ι N → β} {write : Shared ι N → Shared ι N} {oldHead : TaggedPointer N}
    {k : β → Code ι N α} (kept : ∀ s, (write s).head = s.head)
    (rest : ∀ found, (pace ι N).Within (k found) (remaining 0 oldHead)) :
    (pace ι N).Within (.exchange read write >>= k) (remaining 1 oldHead) := by
  apply Pace.Within.exchange_bind free_choice kept
  intro s
  refine ⟨_, fits_remaining oldHead (by decide), rest _, ?_⟩
  change remaining 0 oldHead s.head + 1 ≤ remaining 1 oldHead s.head
  unfold remaining
  split <;> omega

omit [DecidableEq ι] in
/-- The loop again, with the head it has just read. -/
theorem within_again {f : Procedure N} {oldHead : TaggedPointer N} (loop : steps f = remaining 1 oldHead) :
    (pace ι N).Within (.enter f : Code ι N (Option N)) (remaining 2 oldHead) := by
  apply Pace.Within.enter
  intro v
  change steps f v + 1 ≤ remaining 2 oldHead v
  rw [loop]
  unfold remaining
  split <;> omega

omit [DecidableEq ι] in
/-- A call, after which the caller comes to its next one. -/
theorem within_call {f : Procedure N} {last : Option N → Option (Action N × Option N)} (call : steps f = fun _ => 3) :
    (pace ι N).Within (.enter f >>= fun value => .enter (.client (last value)) : Code ι N (Option N)) fun _ => 4 := by
  refine ⟨Or.inr fun v => ?_, fun r => ⟨rfl, Or.inl rfl, fun _ => ⟨rfl, trivial⟩⟩⟩
  change steps f v + 1 ≤ 4
  rw [call]

omit [DecidableEq ι] [DecidableEq N] in
theorem perform_head [DecidableEq N] (s : Shared ι N) (action : Action N) : (s.perform action).head = s.head := by
  cases action <;> rfl

theorem within_client (last : Option (Action N × Option N)) :
    (pace ι N).Within (code self (.client last) : Code ι N (Option N)) fun _ => 5 := by
  refine Pace.Within.atomic_bind (fun s => ⟨⟨false, .pop⟩, s.receive self last, rfl, ?_⟩) fun c s t stepped => ?_
  · rw [if_pos (show Permitted self s .pop from trivial)]
    rfl
  · obtain ⟨-, same⟩ := Option.ite_none_right_eq_some.mp stepped
    cases Option.some.inj same
    have kept : ((s.receive self last).perform c.action).head = s.head := perform_head _ c.action
    have paid : 4 + 1 ≤ 5 + (pace ι N).fee c := Nat.le_add_right 5 _
    have rests (last) : (pace ι N).Within (.enter (.client last) : Code ι N (Option N)) fun _ => 0 :=
      ⟨Or.inl rfl, fun _ => ⟨rfl, trivial⟩⟩
    cases action : c.action with
    | push node => exact ⟨_, fits_const (by decide), within_call rfl, Or.inr ⟨action ▸ kept, paid⟩⟩
    | pop => exact ⟨_, fits_const (by decide), within_call rfl, Or.inr ⟨action ▸ kept, paid⟩⟩
    | pushChain nodes =>
      cases nodes with
      | nil => exact ⟨_, fits_const (Nat.zero_le 6), rests _, Or.inl rfl⟩
      | cons chainHead rest => exact ⟨_, fits_const (by decide), within_call rfl, Or.inr ⟨action ▸ kept, paid⟩⟩
    | scribble node value => exact ⟨_, fits_const (Nat.zero_le 6), rests _, Or.inl rfl⟩

theorem lawful : (pace ι N).Lawful (code : ι → Procedure N → Code ι N (Option N)) where
  within self f := by
    cases f with
    | push node => exact within_loadHead fun oldHead => within_again rfl
    | pushLoop node oldHead =>
      refine within_next (fun _ => rfl) fun _ => ?_
      exact within_compareExchangeWeak ⟨none, rfl⟩ fun found => within_again rfl
    | pop => exact within_loadHead fun oldHead => within_again rfl
    | popLoop oldHead =>
      cases top : oldHead.ptr with
      | none =>
        simp only [code, top]
        trivial
      | some node =>
        simp only [code, top]
        refine within_next (fun _ => rfl) fun next => ?_
        exact within_compareExchangeWeak ⟨some node, rfl⟩ fun found => within_again rfl
    | pushChain nodes chainHead chainTail => exact within_loadHead fun oldHead => within_again rfl
    | pushChainLoop nodes chainHead chainTail oldHead =>
      refine within_next (fun _ => rfl) fun _ => ?_
      exact within_compareExchangeWeak ⟨none, rfl⟩ fun found => within_again rfl
    | client last => exact within_client last
  fits f := by
    cases f with
    | push node => exact fits_const (by decide)
    | pushLoop node oldHead => exact fits_remaining oldHead (by decide)
    | pop => exact fits_const (by decide)
    | popLoop oldHead => exact fits_remaining oldHead (by decide)
    | pushChain nodes chainHead chainTail => exact fits_const (by decide)
    | pushChainLoop nodes chainHead chainTail oldHead => exact fits_remaining oldHead (by decide)
    | client last => exact fits_const (by decide)
  rested f v resting := by
    cases f with
    | client last => exact Nat.le_refl 6
    | _ => contradiction
  free := free_choice

end Procedures

section Runs
variable {next : N → Option N} {owner : N → ι}
  {before after : Pool ι (Shared ι N) (Choice N) (Procedure N) (Option N)}

theorem reaches_paced (path : Pool.Reaches code (fun _ _ => True) (start next owner) before) :
    ∃ credit, (pace ι N).Paced before credit := by
  have begun : (pace ι N).Paced (start next owner) fun _ _ => 0 :=
    ⟨fun _ => ⟨Or.inl rfl, fun _ => ⟨rfl, trivial⟩⟩, fun _ => fits_const (Nat.zero_le 6)⟩
  exact begun.reaches lawful path

omit [DecidableEq ι] in
theorem sum_fees (turns : List (Turn ι (Choice N))) :
    (turns.map fun turn => (pace ι N).fee turn.choice).sum = 3 * turns.countP (·.choice.spurious) := by
  induction turns with
  | nil => rfl
  | cons turn turns ih =>
    rw [List.map_cons, List.sum_cons, ih, List.countP_cons]
    change (if turn.choice.spurious then 3 else 0) + _ = _
    split <;> omega

/-- From every state of every interleaving: a call that completes has cost its thread seven steps at
most and each other thread one attempt, a spurious failure costs one attempt, and a thread in the
middle of a call always completes it if it is left alone. -/
theorem lock_free (path : Pool.Reaches code (fun _ _ => True) (start next owner) before) :
    (∀ (threads : Finset ι) turns after, Pool.Works code Procedure.isClient before turns after →
      (∀ turn ∈ turns, turn.thread ∈ threads) →
      turns.length ≤ 6 * threads.card + (7 + 3 * (threads.card - 1)) * turns.countP (·.rests) +
        3 * turns.countP (·.choice.spurious)) ∧
    ∀ i, (before.thread i).settled Procedure.isClient = false →
      ∃ turns after, Pool.Works code Procedure.isClient before turns after ∧
        (∀ turn ∈ turns, turn.thread = i ∧ turn.choice.spurious = false) ∧ turns.length ≤ 7 ∧
        (after.thread i).settled Procedure.isClient = true := by
  obtain ⟨credit, paced⟩ := reaches_paced path
  refine ⟨fun threads turns after run members => ?_, fun i works => ?_⟩
  · obtain ⟨credit', -, bound⟩ := paced.bounded lawful run members
    have most : (pace ι N).total threads before credit ≤ threads.card * 6 := paced.total_le
    have gains : (pace ι N).gain threads = 7 + 3 * (threads.card - 1) := rfl
    rw [sum_fees, gains] at bound
    omega
  · obtain ⟨turns, after, run, alone, short, rests⟩ := paced.alone lawful (i := i) (by simpa [pace] using works)
    refine ⟨turns, after, run, fun turn member => ?_, ?_, rests⟩
    · obtain ⟨own, free⟩ := alone turn member
      exact ⟨own, by simpa [pace] using free⟩
    · have most : credit i before.shared.head ≤ 6 := (paced.fits i).small _
      exact short.trans (Nat.add_le_add_right most 1)

end Runs

/-- Two threads have read the empty head and are about to push. -/
def racing : List (Nat × Choice Nat) :=
  List.replicate 5 (0, ⟨false, .push 7⟩) ++ List.replicate 5 (1, ⟨false, .push 8⟩)

/-- Thread 0 comes first. Thread 1 has to start again twice, the second time for no reason. -/
def contended : List (Nat × Choice Nat) :=
  List.replicate 2 (0, ⟨false, .pop⟩) ++ List.replicate 4 (1, ⟨false, .pop⟩) ++ [(1, ⟨true, .pop⟩)] ++
    List.replicate 3 (1, ⟨false, .pop⟩)

theorem contended_lock_free :
    ∃ before turns after, Pool.Reaches code (fun _ _ => True) (start (fun _ => none) fun n : Nat => n - 7) before ∧
      Pool.Works code Procedure.isClient before turns after ∧
      (turns.length, turns.countP (·.rests), turns.countP (·.choice.spurious)) = (10, 2, 1) ∧
      turns.length ≤ 6 * 2 + (7 + 3 * (2 - 1)) * 2 + 3 * 1 ∧
      ∃ turns after, Pool.Works code Procedure.isClient before turns after ∧
        (∀ turn ∈ turns, turn.thread = 1 ∧ turn.choice.spurious = false) ∧ turns.length ≤ 7 ∧
        (after.thread 1).settled Procedure.isClient = true := by
  have executed : ((Pool.run code (fun _ _ => true) racing (start (fun _ => none) fun n : Nat => n - 7)).bind
      fun before => (Pool.work code Procedure.isClient contended before).map fun (turns, _) =>
        (((before.thread 1).settled Procedure.isClient, turns.all fun turn => turn.thread < 2),
          turns.length, turns.countP (·.rests), turns.countP (·.choice.spurious))) =
      some ((false, true), 10, 2, 1) := by
    decide +kernel
  simp only [Option.bind_eq_some_iff, Option.map_eq_some_iff] at executed
  obtain ⟨before, reached, ⟨turns, after⟩, worked, told⟩ := executed
  simp only [Prod.mk.injEq] at told
  obtain ⟨⟨works, members⟩, length, rests, spurious⟩ := told
  have path : Pool.Reaches code (fun _ _ => True) (start (fun _ => none) fun n : Nat => n - 7) before :=
    Pool.reaches_of_run (fun _ _ _ => trivial) reached
  have run := Pool.works_of_work worked
  obtain ⟨bound, alone⟩ := lock_free path
  refine ⟨before, turns, after, path, run, by rw [length, rests, spurious], ?_, alone 1 works⟩
  have few := bound (Finset.range 2) turns after run fun turn member =>
    Finset.mem_range.mpr (of_decide_eq_true (List.all_eq_true.mp members turn member))
  rwa [Finset.card_range, rests, spurious] at few

end Talon.Memory.LockFreeStack
