import Talon.Interleaving.Ownership
import Talon.Ring.Submission

/-! When the callers take turns as `Serialized` says, everything that
`io_uring_submit` hands to the kernel is ready and linked operations precede
their timeouts. -/
namespace Talon.Ring.Submission
open Interleaving Ownership

variable {ι T : Type}

/-- The SQE that a thread is filling. -/
def Stage.index : Stage T → Option Nat
  | .idle => none
  | .filling k | .linking k | .timing k _ => some k

/-- `timeout` is ready, as the link timeout of task `t`. -/
structure Times (timeout : Sqe T) (t : T) : Prop where
  final : timeout.final = true
  opcode : ∃ timeoutMs, timeout.opcode = .linkTimeout timeoutMs
  userData : timeout.userData = .timeout t

/-- An SQE is ready, or one thread is filling it. After a linked operation comes
its timeout, ready or being filled. -/
structure Valid (s : Shared ι T) : Prop where
  ready : ∀ (k : Nat) (sqe : Sqe T), s.ring[k]? = some sqe → sqe.final = true →
    sqe.prepared = true ∧ sqe.named = true
  linked : ∀ (k : Nat) (sqe : Sqe T), s.ring[k]? = some sqe → sqe.final = true → sqe.link = true →
    ∃ t, sqe.userData = .task t ∧ ((∃ i, s.stage i = .timing (k + 1) t) ∨
      ∃ timeout, s.ring[k + 1]? = some timeout ∧ Times timeout t)
  owned : ∀ (k : Nat) (sqe : Sqe T), s.ring[k]? = some sqe → sqe.final = false → ∃ i, (s.stage i).index = some k
  unfinished : ∀ i (k : Nat), (s.stage i).index = some k → ∃ sqe, s.ring[k]? = some sqe ∧ sqe.final = false
  alone : ∀ i j k, (s.stage i).index = some k → (s.stage j).index = some k → i = j
  last : ∀ i k, s.stage i = .linking k → k + 1 = s.ring.length
  handed : WellFormed s.handed
  bounded : s.handed.length ≤ s.ring.length

section Writes
variable {s : Shared ι T} {i : ι} {k : Nat} {sqe : Sqe T} {f : Sqe T → Sqe T}

theorem ring_setSqe_self (here : s.ring[k]? = some sqe) : (s.setSqe k f).ring[k]? = some (f sqe) := by
  simp only [Shared.setSqe, List.getElem?_modify_eq, here, Option.map_eq_map, Option.map_some]

theorem ring_setSqe_ne {j : Nat} (other : j ≠ k) : (s.setSqe k f).ring[j]? = s.ring[j]? := by
  simp only [Shared.setSqe, List.getElem?_modify_ne _ _ (Ne.symm other)]

/-- What is in the ring after a write is what was there, or the written SQE. -/
theorem ring_setSqe {j : Nat} {found : Sqe T} (here : s.ring[k]? = some sqe)
    (present : (s.setSqe k f).ring[j]? = some found) :
    j = k ∧ found = f sqe ∨ j ≠ k ∧ s.ring[j]? = some found := by
  by_cases same : j = k
  · subst same
    rw [ring_setSqe_self here, Option.some.injEq] at present
    exact Or.inl ⟨rfl, present.symm⟩
  · rw [ring_setSqe_ne same] at present
    exact Or.inr ⟨same, present⟩

/-- A ready timeout is not the SQE that a thread is filling. -/
theorem Times.elsewhere {timeout : Sqe T} {t : T} {j : Nat} (times : Times timeout t)
    (next : s.ring[j]? = some timeout) (here : s.ring[k]? = some sqe) (more : sqe.final = false) : j ≠ k := by
  rintro rfl
  rw [here, Option.some.injEq] at next
  subst next
  exact absurd (more.symm.trans times.final) nofun

/-- A write to the SQE that a thread is filling, with more to come. -/
theorem Valid.write (valid : Valid s) (here : s.ring[k]? = some sqe) (more : sqe.final = false)
    (keeps : (f sqe).final = false) : Valid (s.setSqe k f) := by
  have unready : ∀ {P : Prop}, (f sqe).final = true → P := fun final =>
    absurd (keeps.symm.trans final) nofun
  refine { valid with ready := ?_, linked := ?_, owned := ?_, unfinished := ?_, last := ?_, bounded := ?_ }
  · intro j found present final
    rcases ring_setSqe here present with ⟨rfl, rfl⟩ | ⟨_, before⟩
    · exact unready final
    · exact valid.ready j found before final
  · intro j found present final link
    rcases ring_setSqe here present with ⟨rfl, rfl⟩ | ⟨_, before⟩
    · exact unready final
    obtain ⟨t, userData, filling | ⟨timeout, next, times⟩⟩ := valid.linked j found before final link
    · exact ⟨t, userData, Or.inl filling⟩
    · have other : j + 1 ≠ k := times.elsewhere next here more
      exact ⟨t, userData, Or.inr ⟨timeout, (ring_setSqe_ne other).trans next, times⟩⟩
  · intro j found present unfinished
    rcases ring_setSqe here present with ⟨rfl, rfl⟩ | ⟨_, before⟩
    · exact valid.owned j sqe here more
    · exact valid.owned j found before unfinished
  · intro j m fills
    obtain ⟨found, present, unfinished⟩ := valid.unfinished j m fills
    by_cases same : m = k
    · subst same
      exact ⟨f sqe, ring_setSqe_self here, keeps⟩
    · exact ⟨found, (ring_setSqe_ne same).trans present, unfinished⟩
  · intro j m linking
    simp only [Shared.setSqe, List.length_modify]
    exact valid.last j m linking
  · simp only [Shared.setSqe, List.length_modify]
    exact valid.bounded

variable [DecidableEq ι]

theorem stage_setStage {j : ι} {stage : Stage T} (other : j ≠ i) :
    (s.setStage i stage).stage j = s.stage j := Function.update_of_ne other _ _

theorem index_setStage_idle {j : ι} {m : Nat} (fills : ((s.setStage i .idle).stage j).index = some m) :
    j ≠ i ∧ (s.stage j).index = some m := by
  by_cases mine : j = i
  · subst mine
    simp only [Shared.setStage, Function.update_self, Stage.index, reduceCtorEq] at fills
  · rw [stage_setStage mine] at fills
    exact ⟨mine, fills⟩

/-- The last write to an SQE. A timeout's SQE is by then what its operation is
linked to. -/
theorem Valid.finish (valid : Valid s) (fills : (s.stage i).index = some k) (here : s.ring[k]? = some sqe)
    (final : (f sqe).final = true) (prepared : (f sqe).prepared = true) (named : (f sqe).named = true)
    (unlinked : (f sqe).link = false)
    (times : ∀ t, s.stage i = .timing k t → Times (f sqe) t) :
    Valid ((s.setSqe k f).setStage i .idle) := by
  obtain ⟨_, present, unfinished⟩ := valid.unfinished i k fills
  rw [here, Option.some.injEq] at present
  subst present
  have others : ∀ j m, (((s.setSqe k f).setStage i .idle).stage j).index = some m →
      j ≠ i ∧ m ≠ k ∧ (s.stage j).index = some m := by
    intro j m theirs
    obtain ⟨other, theirs⟩ := index_setStage_idle (s := s.setSqe k f) theirs
    refine ⟨other, ?_, theirs⟩
    rintro rfl
    exact other (valid.alone j i m theirs fills)
  refine ⟨?_, ?_, ?_, ?_, ?_, ?_, valid.handed, ?_⟩
  · intro j found present final
    rcases ring_setSqe here present with ⟨rfl, rfl⟩ | ⟨_, before⟩
    · exact ⟨prepared, named⟩
    · exact valid.ready j found before final
  · intro j found present final link
    rcases ring_setSqe here present with ⟨rfl, rfl⟩ | ⟨_, before⟩
    · exact absurd (unlinked.symm.trans link) nofun
    obtain ⟨t, userData, ⟨m, filling⟩ | ⟨timeout, next, timed⟩⟩ := valid.linked j found before final link
    · refine ⟨t, userData, ?_⟩
      by_cases mine : m = i
      · subst mine
        have same : j + 1 = k := by
          rw [filling] at fills
          exact Option.some.inj fills
        subst same
        exact Or.inr ⟨f sqe, ring_setSqe_self here, times t filling⟩
      · exact Or.inl ⟨m, (stage_setStage mine).trans filling⟩
    · have other : j + 1 ≠ k := timed.elsewhere next here unfinished
      exact ⟨t, userData, Or.inr ⟨timeout, (ring_setSqe_ne other).trans next, timed⟩⟩
  · intro j found present open_
    rcases ring_setSqe here present with ⟨rfl, rfl⟩ | ⟨different, before⟩
    · exact absurd (open_.symm.trans final) nofun
    · obtain ⟨m, theirs⟩ := valid.owned j found before open_
      have other : m ≠ i := by
        rintro rfl
        rw [fills, Option.some.injEq] at theirs
        exact different theirs.symm
      exact ⟨m, by rw [stage_setStage other]; exact theirs⟩
  · intro j m theirs
    obtain ⟨_, different, theirs⟩ := others j m theirs
    obtain ⟨found, present, open_⟩ := valid.unfinished j m theirs
    exact ⟨found, (ring_setSqe_ne different).trans present, open_⟩
  · intro a b m first second
    exact valid.alone a b m (others a m first).2.2 (others b m second).2.2
  · intro j m linking
    have other : j ≠ i := (others j m (by rw [linking]; rfl)).1
    rw [stage_setStage other] at linking
    simp only [Shared.setStage, Shared.setSqe, List.length_modify]
    exact valid.last j m linking
  · simp only [Shared.setStage, Shared.setSqe, List.length_modify]
    exact valid.bounded

end Writes

section Obtaining
variable [DecidableEq ι] {s : Shared ι T} {i : ι} {stale : Sqe T} {stage : Stage T}

theorem ring_obtain_lt {j : Nat} {found : Sqe T} (before : s.ring[j]? = some found) :
    (s.obtain i stale stage).ring[j]? = some found := by
  obtain ⟨bound, _⟩ := List.getElem?_eq_some_iff.mp before
  exact (List.getElem?_append_left bound).trans before

/-- What is in the ring after `io_uring_get_sqe` is what was there, or the new SQE. -/
theorem ring_obtain {j : Nat} {found : Sqe T} (present : (s.obtain i stale stage).ring[j]? = some found) :
    j = s.ring.length ∧ found.final = false ∨ s.ring[j]? = some found := by
  by_cases old : j < s.ring.length
  · exact Or.inr ((List.getElem?_append_left old).symm.trans present)
  · have last := (List.getElem?_append_right (Nat.le_of_not_lt old)).symm.trans present
    rw [List.getElem?_singleton] at last
    split at last
    · cases last
      exact Or.inl ⟨by omega, rfl⟩
    · contradiction

theorem ring_obtain_last : ∃ sqe, (s.obtain i stale stage).ring[s.ring.length]? = some sqe ∧ sqe.final = false :=
  ⟨_, List.getElem?_concat_length, rfl⟩

theorem stage_obtain_self : (s.obtain i stale stage).stage i = stage := Function.update_self _ _ _

theorem stage_obtain {j : ι} (other : j ≠ i) : (s.obtain i stale stage).stage j = s.stage j :=
  Function.update_of_ne other _ _

/-- The ring when thread `i` is filling no SQE in it, and the one that it takes
next, with `stage`, may be the timeout of the last. -/
structure Ready (i : ι) (stage : Stage T) (s : Shared ι T) : Prop where
  ready : ∀ (k : Nat) (sqe : Sqe T), s.ring[k]? = some sqe → sqe.final = true →
    sqe.prepared = true ∧ sqe.named = true
  linked : ∀ (k : Nat) (sqe : Sqe T), s.ring[k]? = some sqe → sqe.final = true → sqe.link = true →
    ∃ t, sqe.userData = .task t ∧ (stage = .timing (k + 1) t ∨
      (∃ j, j ≠ i ∧ s.stage j = .timing (k + 1) t) ∨
      ∃ timeout, s.ring[k + 1]? = some timeout ∧ Times timeout t)
  owned : ∀ (k : Nat) (sqe : Sqe T), s.ring[k]? = some sqe → sqe.final = false →
    ∃ j, j ≠ i ∧ (s.stage j).index = some k
  unfinished : ∀ j, j ≠ i → ∀ (k : Nat), (s.stage j).index = some k →
    ∃ sqe, s.ring[k]? = some sqe ∧ sqe.final = false
  alone : ∀ j m k, (s.stage j).index = some k → (s.stage m).index = some k → j = m
  turns : ∀ j, j ≠ i → ∀ k, s.stage j ≠ .linking k
  handed : WellFormed s.handed
  bounded : s.handed.length ≤ s.ring.length

theorem Ready.obtain (ready : Ready i stage s) (new : stage.index = some s.ring.length) :
    Valid (s.obtain i stale stage) := by
  have length : (s.obtain i stale stage).ring.length = s.ring.length + 1 := by
    simp only [Shared.obtain, Shared.access, Shared.setStage, List.length_append, List.length_singleton]
  have fillers : ∀ j m, ((s.obtain i stale stage).stage j).index = some m →
      j = i ∧ m = s.ring.length ∨ j ≠ i ∧ m < s.ring.length ∧ (s.stage j).index = some m := by
    intro j m fills
    by_cases mine : j = i
    · subst mine
      rw [stage_obtain_self, new, Option.some.injEq] at fills
      exact Or.inl ⟨rfl, fills.symm⟩
    · rw [stage_obtain mine] at fills
      obtain ⟨_, present, _⟩ := ready.unfinished j mine m fills
      obtain ⟨bound, _⟩ := List.getElem?_eq_some_iff.mp present
      exact Or.inr ⟨mine, bound, fills⟩
  refine ⟨?_, ?_, ?_, ?_, ?_, ?_, ready.handed, ?_⟩
  · intro k sqe present final
    rcases ring_obtain present with ⟨_, fresh⟩ | before
    · exact absurd (fresh.symm.trans final) nofun
    · exact ready.ready k sqe before final
  · intro k sqe present final link
    rcases ring_obtain present with ⟨_, fresh⟩ | before
    · exact absurd (fresh.symm.trans final) nofun
    obtain ⟨t, userData, mine | ⟨j, other, filling⟩ | ⟨timeout, next, times⟩⟩ :=
      ready.linked k sqe before final link
    · exact ⟨t, userData, Or.inl ⟨i, stage_obtain_self.trans mine⟩⟩
    · exact ⟨t, userData, Or.inl ⟨j, (stage_obtain other).trans filling⟩⟩
    · exact ⟨t, userData, Or.inr ⟨timeout, ring_obtain_lt next, times⟩⟩
  · intro k sqe present more
    rcases ring_obtain present with ⟨rfl, _⟩ | before
    · exact ⟨i, by rw [stage_obtain_self]; exact new⟩
    · obtain ⟨j, other, fills⟩ := ready.owned k sqe before more
      exact ⟨j, by rw [stage_obtain other]; exact fills⟩
  · intro j m fills
    rcases fillers j m fills with ⟨_, rfl⟩ | ⟨other, _, theirs⟩
    · exact ring_obtain_last
    · obtain ⟨sqe, present, more⟩ := ready.unfinished j other m theirs
      exact ⟨sqe, ring_obtain_lt present, more⟩
  · intro a b m first second
    rcases fillers a m first with ⟨rfl, _⟩ | ⟨_, _, first⟩ <;>
      rcases fillers b m second with ⟨rfl, _⟩ | ⟨_, _, second⟩
    · rfl
    · omega
    · omega
    · exact ready.alone a b m first second
  · intro j m linking
    by_cases mine : j = i
    · subst mine
      rw [stage_obtain_self] at linking
      rw [linking, Stage.index, Option.some.injEq] at new
      omega
    · rw [stage_obtain mine] at linking
      exact absurd linking (ready.turns j mine m)
  · rw [length]
    exact Nat.le_succ_of_le ready.bounded

/-- The first SQE of a call. -/
theorem Valid.obtain (valid : Valid s) (idle : s.stage i = .idle)
    (turns : ∀ j, j ≠ i → ∀ k, s.stage j ≠ .linking k) (new : stage.index = some s.ring.length) :
    Valid (s.obtain i stale stage) := by
  have filler : ∀ j k, (s.stage j).index = some k → j ≠ i := by
    rintro j k fills rfl
    rw [idle] at fills
    contradiction
  refine Ready.obtain { valid with turns := turns, linked := ?_, owned := ?_, unfinished := ?_ } new
  · intro k sqe present final link
    obtain ⟨t, userData, ⟨j, filling⟩ | timeout⟩ := valid.linked k sqe present final link
    · exact ⟨t, userData, Or.inr (Or.inl ⟨j, filler j (k + 1) (by rw [filling]; rfl), filling⟩)⟩
    · exact ⟨t, userData, Or.inr (Or.inr timeout)⟩
  · intro k sqe present more
    obtain ⟨j, fills⟩ := valid.owned k sqe present more
    exact ⟨j, filler j k fills, fills⟩
  · exact fun j _ k fills => valid.unfinished j k fills

/-- The timeout's SQE. It comes right after the operation's. -/
theorem Valid.obtainTimeout {k : Nat} {sqe : Sqe T} {t : T} (valid : Valid s) (linking : s.stage i = .linking k)
    (turns : ∀ j, j ≠ i → ∀ m, s.stage j ≠ .linking m) (here : s.ring[k]? = some sqe)
    (prepared : sqe.prepared = true) (named : sqe.named = true) (userData : sqe.userData = .task t) :
    Valid ((s.setSqe k fun sqe => { sqe with final := true }).obtain i stale (.timing s.ring.length t)) := by
  have mine : (s.stage i).index = some k := by rw [linking]; rfl
  obtain ⟨_, present, more⟩ := valid.unfinished i k mine
  rw [here, Option.some.injEq] at present
  subst present
  have after : k + 1 = s.ring.length := valid.last i k linking
  have length : (s.setSqe k fun sqe => { sqe with final := true }).ring.length = s.ring.length :=
    List.length_modify _ _ _
  refine Ready.obtain ⟨?_, ?_, ?_, ?_, valid.alone, turns, valid.handed, ?_⟩ ?_
  · intro j found present final
    rcases ring_setSqe here present with ⟨rfl, rfl⟩ | ⟨_, before⟩
    · exact ⟨prepared, named⟩
    · exact valid.ready j found before final
  · intro j found present final link
    rcases ring_setSqe here present with ⟨rfl, rfl⟩ | ⟨_, before⟩
    · exact ⟨t, userData, Or.inl (by rw [after])⟩
    obtain ⟨t', userData, ⟨m, filling⟩ | ⟨timeout, next, times⟩⟩ := valid.linked j found before final link
    · have other : m ≠ i := by
        rintro rfl
        rw [linking] at filling
        contradiction
      exact ⟨t', userData, Or.inr (Or.inl ⟨m, other, filling⟩)⟩
    · have other : j + 1 ≠ k := times.elsewhere next here more
      exact ⟨t', userData, Or.inr (Or.inr ⟨timeout, (ring_setSqe_ne other).trans next, times⟩)⟩
  · intro j found present unfinished
    rcases ring_setSqe here present with ⟨rfl, rfl⟩ | ⟨different, before⟩
    · contradiction
    · obtain ⟨m, fills⟩ := valid.owned j found before unfinished
      refine ⟨m, ?_, fills⟩
      rintro rfl
      rw [mine, Option.some.injEq] at fills
      exact different fills.symm
  · intro j other m fills
    have different : m ≠ k := by
      rintro rfl
      exact other (valid.alone j i m fills mine)
    obtain ⟨found, present, more⟩ := valid.unfinished j m fills
    exact ⟨found, (ring_setSqe_ne different).trans present, more⟩
  · rw [length]
    exact valid.bounded
  · rw [length]
    rfl

end Obtaining

/-- When no call is filling an SQE, the kernel gets the rest of the ring as it should be. -/
theorem Valid.submit {s : Shared ι T} (valid : Valid s) (idle : ∀ i, s.stage i = .idle) :
    Valid { s with handed := s.handed ++ s.ring.drop s.handed.length } := by
  have final : ∀ (k : Nat) (sqe : Sqe T), s.ring[k]? = some sqe → sqe.final = true := by
    intro k sqe present
    cases final : sqe.final with
    | true => rfl
    | false =>
      obtain ⟨i, fills⟩ := valid.owned k sqe present final
      rw [idle i] at fills
      contradiction
  have new : ∀ m, s.handed.length ≤ m →
      (s.handed ++ s.ring.drop s.handed.length)[m]? = s.ring[m]? := by
    intro m beyond
    rw [List.getElem?_append_right beyond, List.getElem?_drop]
    congr 1
    omega
  refine { valid with handed := ⟨?_, ?_⟩, bounded := ?_ }
  · intro sqe present
    rcases List.mem_append.mp present with before | taken
    · exact valid.handed.ready sqe before
    · obtain ⟨k, present⟩ := List.mem_iff_getElem?.mp (List.mem_of_mem_drop taken)
      have ready := valid.ready k sqe present (final k sqe present)
      exact ⟨ready.1, ready.2, final k sqe present⟩
  · intro k sqe present link
    by_cases before : k < s.handed.length
    · rw [List.getElem?_append_left before] at present
      obtain ⟨t, timeoutMs, timeout, userData, next, times⟩ := valid.handed.linked k sqe present link
      obtain ⟨bound, _⟩ := List.getElem?_eq_some_iff.mp next
      exact ⟨t, timeoutMs, timeout, userData, (List.getElem?_append_left bound).trans next, times⟩
    · rw [new k (Nat.le_of_not_lt before)] at present
      obtain ⟨t, userData, ⟨i, timing⟩ | ⟨timeout, next, times⟩⟩ :=
        valid.linked k sqe present (final k sqe present) link
      · rw [idle i] at timing
        contradiction
      · obtain ⟨timeoutMs, opcode⟩ := times.opcode
        refine ⟨t, timeoutMs, timeout, userData, ?_, opcode, times.userData⟩
        exact (new (k + 1) (by omega)).trans next
  · have bounded := valid.bounded
    simp only [List.length_append, List.length_drop]
    omega

theorem Valid.index_lt {s : Shared ι T} (valid : Valid s) (i : ι) (k : Nat)
    (fills : (s.stage i).index = some k) : k < s.ring.length := by
  obtain ⟨_, present, _⟩ := valid.unfinished i k fills
  obtain ⟨bound, _⟩ := List.getElem?_eq_some_iff.mp present
  exact bound

/-- What a thread sees: its stage and the SQE that it is filling. -/
structure View (T : Type) where
  stage : Stage T
  cell : Option (Sqe T)

def view (i : ι) (s : Shared ι T) : View T := ⟨s.stage i, (s.stage i).index.bind (s.ring[·]?)⟩

def ownership : Ownership ι (Shared ι T) (View T) := ⟨Valid, view, Serialized⟩

def spec : Spec Procedure Unit (View T) where
  pre _ v := v.stage = .idle
  post _ _ _ v' := v'.stage = .idle

section Views
variable {s : Shared ι T} {i j : ι} {k : Nat}

/-- The other threads do not see a write to an SQE that one thread is filling. -/
theorem view_setSqe {f : Sqe T → Sqe T} (valid : Valid s) (fills : (s.stage i).index = some k) (other : j ≠ i) :
    view j (s.setSqe k f) = view j s := by
  have same : (s.stage j).index.bind ((s.setSqe k f).ring[·]?) = (s.stage j).index.bind (s.ring[·]?) := by
    cases theirs : (s.stage j).index with
    | none => rfl
    | some m =>
      have different : m ≠ k := by
        rintro rfl
        exact other (valid.alone j i m theirs fills)
      exact ring_setSqe_ne different
  exact congrArg (View.mk (s.stage j)) same

variable [DecidableEq ι]

theorem view_setStage {stage : Stage T} (other : j ≠ i) : view j (s.setStage i stage) = view j s := by
  have same : (s.setStage i stage).stage j = s.stage j := stage_setStage other
  simp only [view, same]
  rfl

theorem view_obtain {stale : Sqe T} {stage : Stage T} (other : j ≠ i)
    (old : ∀ m, (s.stage j).index = some m → m < s.ring.length) :
    view j (s.obtain i stale stage) = view j s := by
  have same : (s.obtain i stale stage).stage j = s.stage j := stage_obtain other
  simp only [view, same]
  congr 1
  cases theirs : (s.stage j).index with
  | none => rfl
  | some m => exact List.getElem?_append_left (old m theirs)

end Views

section Programs
variable {i : ι} {v : View T} {k : Nat} {sqe : Sqe T} {f : Sqe T → Sqe T}

/-- What a thread sees is in the ring and unfinished. -/
theorem cell_here {s : Shared ι T} (holds : (ownership (ι := ι)).Holds i v s) (index : v.stage.index = some k)
    (cell : v.cell = some sqe) :
    (s.stage i).index = some k ∧ s.ring[k]? = some sqe ∧ sqe.final = false := by
  obtain ⟨valid, rfl⟩ := holds
  have fills : (s.stage i).index = some k := index
  have here : s.ring[k]? = some sqe := by
    have found : (s.stage i).index.bind (s.ring[·]?) = some sqe := cell
    rwa [fills, Option.bind_some] at found
  obtain ⟨_, present, more⟩ := valid.unfinished i k fills
  rw [here, Option.some.injEq] at present
  subst present
  exact ⟨fills, here, more⟩

theorem ensures_write (index : v.stage.index = some k) (cell : v.cell = some sqe)
    (keeps : (f sqe).final = sqe.final) :
    ownership.Ensures spec i v (.store (·.setSqe k f) : Code ι T Unit)
      fun _ v' => v' = ⟨v.stage, some (f sqe)⟩ := by
  refine Ensures.exchange fun s holds _ => ?_
  obtain ⟨fills, here, more⟩ := cell_here holds index cell
  obtain ⟨valid, rfl⟩ := holds
  refine ⟨_, rfl, ?_, ?_, ?_⟩
  · exact valid.write here more (keeps.trans more)
  · exact fun j other => view_setSqe valid fills other
  · refine congrArg (View.mk (s.stage i)) ?_
    have same : ((s.setSqe k f).stage i).index = some k := fills
    rw [same, Option.bind_some, ring_setSqe_self here]

variable [DecidableEq ι]

theorem ensures_finish (index : v.stage.index = some k) (cell : v.cell = some sqe)
    (final : (f sqe).final = true) (prepared : (f sqe).prepared = true) (named : (f sqe).named = true)
    (unlinked : (f sqe).link = false) (times : ∀ t, v.stage = .timing k t → Times (f sqe) t) :
    ownership.Ensures spec i v (.store (fun s => (s.setSqe k f).setStage i .idle) : Code ι T Unit)
      fun _ v' => v'.stage = .idle := by
  refine Ensures.exchange fun s holds _ => ?_
  obtain ⟨fills, here, more⟩ := cell_here holds index cell
  obtain ⟨valid, rfl⟩ := holds
  refine ⟨_, ?_, ?_, ?_, rfl⟩
  · exact Function.update_self _ _ _
  · exact valid.finish fills here final prepared named unlinked times
  · exact fun j other => (view_setStage other).trans (view_setSqe valid fills other)

/-- What `io_uring_get_sqe` leaves behind. -/
def Obtains (stage : Nat → Stage T) (v : View T) (result : Option Nat) (v' : View T) : Prop :=
  match result with
  | none => v' = v
  | some k => v'.stage = stage k ∧ ∃ sqe, v'.cell = some sqe

/-- The caller sees the new SQE. -/
theorem view_obtain_self {s : Shared ι T} {stale : Sqe T} {stage : Stage T}
    (new : stage.index = some s.ring.length) :
    (view i (s.obtain i stale stage)).stage = stage ∧
    ∃ sqe, (view i (s.obtain i stale stage)).cell = some sqe := by
  have mine : (s.obtain i stale stage).stage i = stage := stage_obtain_self
  obtain ⟨sqe, present, _⟩ : ∃ sqe, (s.obtain i stale stage).ring[s.ring.length]? = some sqe ∧ _ :=
    ring_obtain_last
  refine ⟨mine, sqe, ?_⟩
  simp only [view, mine, new, Option.bind_some, present]

theorem ensures_getSqe (timed : Bool) (idle : v.stage = .idle) :
    ownership.Ensures spec i v (getSqe i timed : Code ι T (Option Nat))
      (Obtains (fun k => if timed then .linking k else .filling k) v) := by
  refine Ensures.atomic fun c s t holds stepped admitted => ?_
  cases Option.some.inj stepped
  obtain ⟨valid, rfl⟩ := holds
  cases found : c.sqe with
  | false => exact ⟨_, rfl, valid, fun _ _ => rfl, rfl⟩
  | true =>
    simp only [found, if_true] at admitted ⊢
    have new : (if timed then .linking s.ring.length else .filling s.ring.length : Stage T).index =
        some s.ring.length := by
      cases timed <;> rfl
    refine ⟨_, view_obtain_self new, ?_, fun j other => view_obtain other (valid.index_lt j), rfl⟩
    exact valid.obtain idle (admitted i .getSqe rfl) new

theorem ensures_getTimeoutSqe {t : T} (linking : v.stage = .linking k) (cell : v.cell = some sqe)
    (prepared : sqe.prepared = true) (named : sqe.named = true) (userData : sqe.userData = .task t) :
    ownership.Ensures spec i v (getTimeoutSqe i k t : Code ι T (Option Nat)) (Obtains (.timing · t) v) := by
  refine Ensures.atomic fun c s u holds stepped admitted => ?_
  cases Option.some.inj stepped
  obtain ⟨fills, here, more⟩ := cell_here holds (by rw [linking]; rfl) cell
  obtain ⟨valid, rfl⟩ := holds
  cases found : c.sqe with
  | false => exact ⟨_, rfl, valid, fun _ _ => rfl, rfl⟩
  | true =>
    simp only [found, if_true] at admitted ⊢
    have length : (s.setSqe k fun sqe => { sqe with final := true }).ring.length = s.ring.length :=
      List.length_modify _ _ _
    refine ⟨_, view_obtain_self (congrArg some length.symm), ?_, fun j other => ?_, rfl⟩
    · exact valid.obtainTimeout linking (admitted i .getSqe rfl) here prepared named userData
    · refine (view_obtain other fun m theirs => ?_).trans (view_setSqe valid fills other)
      rw [length]
      exact valid.index_lt j m theirs

theorem ensures_submit (idle : v.stage = .idle) :
    ownership.Ensures spec i v (submit i : Code ι T Unit) fun _ v' => v'.stage = .idle := by
  refine Ensures.atomic fun c s t holds stepped admitted => ?_
  cases Option.some.inj stepped
  obtain ⟨valid, rfl⟩ := holds
  cases taken : c.accepted with
  | false => exact ⟨_, idle, valid, fun _ _ => rfl, rfl⟩
  | true =>
    simp only [taken, if_true] at admitted ⊢
    have turns := admitted i .submit rfl
    have quiet : ∀ j, s.stage j = .idle := by
      intro j
      by_cases mine : j = i
      · rw [mine]
        exact idle
      · exact turns j mine
    exact ⟨_, idle, { valid.submit quiet with }, fun _ _ => rfl, rfl⟩

theorem ensures_fill {opcode : Opcode T} {word : Word T} (filling : v.stage = .filling k)
    (cell : v.cell = some sqe) :
    ownership.Ensures spec i v (fill i k opcode word) fun _ v' => v'.stage = .idle := by
  have index : v.stage.index = some k := by rw [filling]; rfl
  refine Ensures.bind (ensures_write index cell rfl) ?_
  rintro _ _ rfl
  refine Ensures.bind (ensures_finish index rfl rfl rfl rfl rfl fun t timing => ?_) ?_
  · rw [filling] at timing
    contradiction
  · exact fun _ _ idle => ensures_submit idle

theorem ensures_queueFailedTask (t : T) (idle : v.stage = .idle) :
    ownership.Ensures spec i v (queueFailedTask i t) fun _ v' => v'.stage = .idle := by
  refine Ensures.bind (ensures_getSqe false idle) ?_
  intro result w obtains
  cases result with
  | none =>
    cases obtains
    exact Ensures.enter idle fun _ _ idle => idle
  | some k =>
    obtain ⟨filling, sqe, cell⟩ := obtains
    exact ensures_fill filling cell

/-- A timed task's operation is linked before its timeout's SQE is obtained, and
unlinked if there is none. -/
theorem ensures_submitTask (r : Request T) (idle : v.stage = .idle) :
    ownership.Ensures spec i v (submitTask i r) fun _ v' => v'.stage = .idle := by
  refine Ensures.bind (ensures_getSqe _ idle) ?_
  intro result w obtains
  cases result with
  | none =>
    cases obtains
    exact ensures_queueFailedTask r.task idle
  | some k =>
    obtain ⟨stage, sqe, cell⟩ := obtains
    have index : w.stage.index = some k := by
      rw [stage]
      split <;> rfl
    refine Ensures.bind (ensures_write index cell rfl) ?_
    rintro _ _ rfl
    by_cases timed : 0 < r.timeoutMs
    · simp only [timed, decide_true, if_true] at stage ⊢
      refine Ensures.bind (ensures_write index rfl rfl) ?_
      rintro _ _ rfl
      refine Ensures.bind (ensures_write index rfl rfl) ?_
      rintro _ _ rfl
      refine Ensures.bind (ensures_getTimeoutSqe stage rfl rfl rfl rfl) ?_
      intro second u obtains
      cases second with
      | none =>
        cases obtains
        refine ensures_finish index rfl rfl rfl rfl rfl fun t timing => ?_
        rw [stage] at timing
        contradiction
      | some m =>
        obtain ⟨timing, other, cell⟩ := obtains
        have index : u.stage.index = some m := by rw [timing]; rfl
        refine Ensures.bind (ensures_write index cell rfl) ?_
        rintro _ _ rfl
        refine ensures_finish index rfl rfl rfl rfl rfl fun t timing' => ?_
        rw [timing] at timing'
        cases timing'
        exact ⟨rfl, ⟨_, rfl⟩, rfl⟩
    · simp only [timed, decide_false, Bool.false_eq_true, if_false] at stage ⊢
      refine ensures_finish index rfl rfl rfl rfl rfl fun t timing => ?_
      rw [stage] at timing
      contradiction

theorem ensures_perform (action : Action T) (idle : v.stage = .idle) :
    ownership.Ensures spec i v (perform i action) fun _ v' => v'.stage = .idle := by
  cases action with
  | stop => exact Ensures.pure idle
  | addTask r =>
    refine Ensures.bind (M := fun _ w => w = v) (Ensures.choose fun _ => rfl) ?_
    rintro gate _ rfl
    cases gate.accepted with
    | false => exact Ensures.pure idle
    | true => exact Ensures.bind (ensures_submitTask r idle) fun _ _ idle => ensures_submit idle
  | cancel | requestShutdown =>
    refine Ensures.bind (ensures_getSqe false idle) ?_
    intro result w obtains
    cases result with
    | none =>
      cases obtains
      exact Ensures.pure idle
    | some k =>
      obtain ⟨filling, sqe, cell⟩ := obtains
      exact ensures_fill filling cell
  | flush => exact ensures_submit idle

theorem meets (i : ι) (f : Procedure) (v : View T) (idle : v.stage = .idle) :
    ownership.Ensures spec i v (code i f) (spec.post f v) := by
  refine Ensures.bind (M := fun _ w => w = v) (Ensures.choose fun _ => rfl) ?_
  rintro c _ rfl
  cases action : c.action with
  | stop => exact Ensures.pure idle
  | addTask | cancel | requestShutdown | flush =>
    refine Ensures.bind (ensures_perform _ idle) fun _ w idle => ?_
    exact Ensures.enter idle fun _ _ idle => idle

end Programs

theorem valid_initial : Valid (start : Pool ι (Shared ι T) (Choice T) Procedure Unit).shared where
  ready := nofun
  linked := nofun
  owned := nofun
  unfinished := nofun
  alone := nofun
  last := nofun
  handed := ⟨nofun, nofun⟩
  bounded := Nat.le_refl _

/-- What the kernel gets is ready, and linked operations precede their timeouts,
in every run in which the callers take turns. -/
theorem serialized_wellFormed [DecidableEq ι] {pool : Pool ι (Shared ι T) (Choice T) Procedure Unit}
    (path : Pool.Reaches code Serialized start pool) : WellFormed pool.shared.handed := by
  have valid : Valid pool.shared := by
    refine invariant (O := ownership) (K := fun _ => spec) meets ?_ (fun i => ?_) path
    · exact valid_initial
    · exact Ensures.enter rfl fun _ _ _ => trivial
  exact valid.handed

/-- Thread `i` takes `n` steps of adding a read, and finds SQEs. -/
def steps (i : Bool) (n task : Nat) (timeoutMs : Int) : List (Bool × Choice Nat) :=
  List.replicate n (i, ⟨true, ⟨.nop, .null, false, false, false, false⟩, true,
    .addTask ⟨task, .read, timeoutMs⟩⟩)

/-- Of two threads, the one that has not made the last access is idle. -/
def aside (s t : Shared Bool Nat) : Bool :=
  t.accesses.getLast?.all fun access => (s.stage !access.1).index.isNone

theorem serialized_of_aside (s t : Shared Bool Nat) (checked : aside s t = true) : Serialized s t := by
  intro i access grown j other
  have opposite : j = !i := by
    cases i <;> cases j <;> first | rfl | contradiction
  subst opposite
  rw [aside, grown, List.getLast?_concat] at checked
  have idle : s.stage (!i) = .idle := by
    cases stage : s.stage (!i) with
    | idle => rfl
    | filling | linking | timing => simp [stage, Stage.index] at checked
  cases access with
  | submit => exact idle
  | getSqe =>
    intro k linking
    rw [idle] at linking
    contradiction

/-- One thread adds a timed read, then another a read without a timeout. -/
theorem twoCallers_wellFormed : ∃ pool : Pool Bool (Shared Bool Nat) (Choice Nat) Procedure Unit,
    Pool.Reaches code Serialized start pool ∧ pool.shared.handed.map (·.link) = [true, false, false] ∧
    WellFormed pool.shared.handed := by
  have executed : (Pool.run code aside (steps true 11 1 1000 ++ steps false 7 2 0) start).map
      (fun p => p.shared.handed.map (·.link)) = some [true, false, false] := by
    decide +kernel
  obtain ⟨pool, run, handed⟩ := Option.map_eq_some_iff.mp executed
  have path : Pool.Reaches code Serialized start pool := Pool.reaches_of_run serialized_of_aside run
  exact ⟨pool, path, handed, serialized_wellFormed path⟩

/-- One thread has obtained an SQE and not written to it when another submits: the
kernel gets what was left in it. -/
theorem unfilled_sqe_submitted :
    ¬ ∀ pool : Pool Bool (Shared Bool Nat) (Choice Nat) Procedure Unit,
      Pool.Reaches code (fun _ _ => True) start pool → WellFormed pool.shared.handed := by
  intro claimed
  have executed : (Pool.run code (fun _ _ => true) (steps true 4 1 0 ++ steps false 7 2 0) start).map
      (fun p => p.shared.handed.map (·.prepared)) = some [false, true] := by
    decide +kernel
  obtain ⟨pool, run, handed⟩ := Option.map_eq_some_iff.mp executed
  have formed := claimed pool (Pool.reaches_of_run (fun _ _ _ => trivial) run)
  have unprepared : false ∈ pool.shared.handed.map (·.prepared) := by
    rw [handed]
    exact List.mem_cons_self
  obtain ⟨sqe, present, raw⟩ := List.mem_map.mp unprepared
  exact absurd (raw.symm.trans (formed.ready sqe present).1) nofun

end Talon.Ring.Submission
