import Talon.Ring.Filling

/-! A single call of `AddTask` keeps the rules of the ring exactly if its task is
one that `SubmitTask` can prepare, or there was no SQE for it. -/
namespace Talon.Ring.Filling
open Interleaving Talon.Handler Talon.Ring.Submission

variable {I : Shared → Prop} {n lo b call k : Nat} {a : Addr} {task : Task} {s t : Shared}

/-! ### What other calls leave alone -/

/-- An assertion that calls with numbers from `lo` on keep, if they prepare only
SQEs from `n` on. -/
structure Kept (n lo : Nat) (I : Shared → Prop) : Prop where
  obtain : ∀ {s call stale}, I s → lo ≤ call → call < s.calls → I (s.obtain call stale)
  write : ∀ {s k f}, I s → (n ≤ k ∨ ∀ sqe, (f sqe).prepared = sqe.prepared) → (∀ sqe, (f sqe).call = sqe.call) →
    I (s.setSqe k f)
  submit : ∀ {s}, I s → I s.submit
  begin : ∀ {s}, I s → I s.begin
  long : ∀ {s}, I s → n ≤ s.ring.length
  low : ∀ {s}, I s → lo ≤ s.calls

def keptContract (I : Shared → Prop) : Contract Shared Procedure Unit where
  A _ := Nat
  pre _ b s := I s ∧ b ≤ s.calls
  post _ b _ s := I s ∧ b ≤ s.calls

/-- The program keeps the assertion, and the number of calls at `b` or more. -/
def Keeps (I : Shared → Prop) (b : Nat) {α : Type} (p : Code α) (Q : α → Prop) : Prop :=
  ∀ s, I s ∧ b ≤ s.calls → wp sequential (keptContract I) p (fun r t => (I t ∧ b ≤ t.calls) ∧ Q r) s

theorem Keeps.pure {α : Type} {Q : α → Prop} {r : α} (holds : Q r) : Keeps I b (Pure.pure r : Code α) Q := by
  rintro s kept _ rfl
  exact ⟨kept, holds⟩

theorem Keeps.bind {α β : Type} {p : Code α} {f : α → Code β} {Q : α → Prop} {P : β → Prop}
    (first : Keeps I b p Q) (rest : ∀ r, Q r → Keeps I b (f r) P) : Keeps I b (p >>= f) P :=
  fun s kept => wp_bind (wp_mono (fun r t reached => rest r reached.2 t reached.1) (first s kept))

theorem Keeps.atomic {α : Type} {Q : α → Prop} {effect : Choice → Shared → Option Shared}
    {result : Choice → Shared → α}
    (moves : ∀ c s t, I s → b ≤ s.calls → effect c s = some t → (I t ∧ b ≤ t.calls) ∧ Q (result c s)) :
    Keeps I b (.atomic effect result) Q := by
  rintro s kept _ rfl c t stepped -
  refine ⟨trivial, ?_⟩
  rintro _ rfl
  exact moves c s _ kept.1 kept.2 stepped

theorem Keeps.store {write : Shared → Shared} (moves : ∀ s, I s → I (write s))
    (calls : ∀ s, (write s).calls = s.calls) : Keeps I b (.store write) fun _ => True := by
  refine Keeps.atomic fun c s t holds below stepped => ?_
  cases Option.some.inj stepped
  exact ⟨⟨moves s holds, (calls s).symm ▸ below⟩, trivial⟩

theorem Keeps.client : Keeps I b (.enter .client : Code Unit) fun _ => True := by
  rintro s kept _ rfl
  refine ⟨b, kept, fun r t reached => ?_⟩
  rintro _ rfl
  exact ⟨reached, trivial⟩

theorem Keeps.choose : Keeps I b (.choose : Code Choice) fun _ => True := by
  refine Keeps.atomic fun c s t holds below stepped => ?_
  cases Option.some.inj stepped
  exact ⟨⟨holds, below⟩, trivial⟩

section Frame
variable (kept : Kept n lo I)
include kept

theorem keeps_getSqe (low : lo ≤ call) (old : call < b) :
    Keeps I b (getSqe call) fun found => ∀ k, found = some k → n ≤ k := by
  refine Keeps.atomic fun c s t holds below stepped => ?_
  cases Option.some.inj stepped
  by_cases full : s.Full
  · simp only [full, if_true]
    exact ⟨⟨holds, below⟩, nofun⟩
  · simp only [full, if_false, Option.some.injEq]
    refine ⟨⟨kept.obtain holds low (Nat.lt_of_lt_of_le old below), below⟩, ?_⟩
    rintro _ rfl
    exact kept.long holds

theorem keeps_prep {opcode : Opcode} (above : n ≤ k) : Keeps I b (prep k opcode) fun _ => True :=
  Keeps.store (fun _ holds => kept.write holds (Or.inl above) fun _ => rfl) fun _ => rfl

theorem keeps_setUserData {word : Word Addr} : Keeps I b (setUserData k word) fun _ => True :=
  Keeps.store (fun _ holds => kept.write holds (Or.inr fun _ => rfl) fun _ => rfl) fun _ => rfl

theorem keeps_setLink {link : Bool} : Keeps I b (setLink k link) fun _ => True :=
  Keeps.store (fun _ holds => kept.write holds (Or.inr fun _ => rfl) fun _ => rfl) fun _ => rfl

theorem keeps_submit : Keeps I b submit fun _ => True := Keeps.store (fun _ => kept.submit) fun _ => rfl

theorem keeps_queueFailedTask (low : lo ≤ call) (old : call < b) :
    Keeps I b (queueFailedTask call a) fun _ => True := by
  refine Keeps.bind (keeps_getSqe kept low old) fun found above => ?_
  cases found with
  | none => exact Keeps.client
  | some k =>
    refine Keeps.bind (keeps_prep kept (above k rfl)) fun _ _ => ?_
    exact Keeps.bind (keeps_setUserData kept) fun _ _ => keeps_submit kept

/-- The SQE itself may be any. -/
theorem keeps_finishSqe (low : lo ≤ call) (old : call < b) : Keeps I b (finishSqe call a task k) fun _ => True := by
  refine Keeps.bind (keeps_setUserData kept) fun _ _ => ?_
  split
  · refine Keeps.bind (keeps_setLink kept) fun _ _ => ?_
    refine Keeps.bind (keeps_getSqe kept low old) fun found above => ?_
    cases found with
    | none => exact keeps_setLink kept
    | some m => exact Keeps.bind (keeps_prep kept (above m rfl)) fun _ _ => keeps_setUserData kept
  · exact Keeps.pure trivial

theorem keeps_submitTask (low : lo ≤ call) (old : call < b) : Keeps I b (submitTask call a task) fun _ => True := by
  refine Keeps.bind (keeps_getSqe kept low old) fun found above => ?_
  cases found with
  | none => exact keeps_queueFailedTask kept low old
  | some k =>
    have prepared : ∀ opcode, Keeps I b (do prep k opcode; finishSqe call a task k) fun _ => True := fun opcode =>
      Keeps.bind (keeps_prep kept (above k rfl)) fun _ _ => keeps_finishSqe kept low old
    cases task.taskType with
    | kRead => exact prepared .read
    | kWrite => exact prepared .write
    | kAccept => exact prepared .accept
    | kConnect =>
      refine Keeps.bind (Q := fun _ => True) ?_ fun _ _ => keeps_finishSqe kept low old
      unfold handleConnect
      split
      · exact keeps_prep kept (above k rfl)
      · exact keeps_queueFailedTask kept low old
    | _ => exact keeps_queueFailedTask kept low old

/-- A new call has a number that no call had before. -/
theorem keeps_begin {p : Nat → Code Unit} (rest : ∀ call, lo ≤ call → Keeps I (call + 1) (p call) fun _ => True) :
    Keeps I b (do let call ← Prog.exchange (·.calls) (·.begin); p call) fun _ => True := by
  intro s holds
  refine wp_bind (wp_atomic ?_)
  rintro _ rfl c t stepped -
  refine ⟨trivial, ?_⟩
  rintro _ rfl
  cases Option.some.inj stepped
  refine wp_mono (fun _ u reached => ?_) (rest s.calls (kept.low holds.1) s.begin ⟨kept.begin holds.1, Nat.le_refl _⟩)
  exact ⟨⟨reached.1.1, Nat.le_trans (Nat.le_succ_of_le holds.2) reached.1.2⟩, trivial⟩

theorem keeps_addTask : Keeps I b (addTask a task) fun _ => True := by
  refine keeps_begin kept fun call low => ?_
  exact Keeps.bind (keeps_submitTask kept low (Nat.lt_succ_self call)) fun _ _ => keeps_submit kept

theorem keeps_cancel : Keeps I b (cancel a) fun _ => True := by
  refine keeps_begin kept fun call low => ?_
  refine Keeps.bind (keeps_getSqe kept low (Nat.lt_succ_self call)) fun found above => ?_
  cases found with
  | none => exact Keeps.pure trivial
  | some k =>
    refine Keeps.bind (keeps_prep kept (above k rfl)) fun _ _ => ?_
    exact Keeps.bind (keeps_setUserData kept) fun _ _ => keeps_submit kept

theorem keeps_client : Keeps I b (code .client) fun _ => True := by
  refine Keeps.bind Keeps.choose fun choice _ => ?_
  have again : ∀ action, Keeps I b (do perform action; .enter .client) fun _ => True := by
    intro action
    refine Keeps.bind (Q := fun _ => True) ?_ fun _ _ => Keeps.client
    cases action with
    | stop => exact Keeps.pure trivial
    | addTask a task =>
      refine Keeps.bind Keeps.choose fun gate _ => ?_
      split
      · exact keeps_addTask kept
      · exact Keeps.pure trivial
    | cancel a => exact keeps_cancel kept
    | flush => exact keeps_submit kept
  cases choice.action with
  | stop => exact Keeps.pure trivial
  | addTask a task => exact again (.addTask a task)
  | cancel a => exact again (.cancel a)
  | flush => exact again .flush

theorem kept_verified : Verified sequential (keptContract I) code := by
  intro f b s holds
  cases f with
  | client => exact wp_mono (fun _ _ reached => reached.1) (keeps_client kept s holds)

theorem Keeps.sound {α : Type} {p : Code α} {Q : α → Prop} {r : α} (keeps : Keeps I b p Q) (run : Runs code p s r t)
    (holds : I s) (below : b ≤ s.calls) : I t :=
  (run.sound (kept_verified kept) (fun _ _ => trivial) (keeps s ⟨holds, below⟩)).1.1

end Frame

theorem mem_modify {l : List Sqe} {f : Sqe → Sqe} {sqe : Sqe} (member : sqe ∈ l.modify k f) :
    sqe ∈ l ∨ ∃ old ∈ l, sqe = f old := by
  obtain ⟨j, found⟩ := List.getElem?_of_mem member
  rw [List.getElem?_modify] at found
  obtain ⟨old, here, rfl⟩ := Option.map_eq_some_iff.mp found
  have old_mem := List.mem_of_getElem? here
  split
  · exact Or.inr ⟨old, old_mem, rfl⟩
  · exact Or.inl old_mem

/-- Everything in the ring and with the kernel has a mark that satisfies `P`. -/
def Marked (P : Nat → Prop) (s : Shared) : Prop := (∀ sqe ∈ s.ring, P sqe.call) ∧ ∀ sqe ∈ s.handed, P sqe.call

theorem Marked.obtain {P : Nat → Prop} {stale : Sqe} (marked : Marked P s) (here : P call) :
    Marked P (s.obtain call stale) := by
  refine ⟨fun sqe member => ?_, marked.2⟩
  rcases List.mem_append.mp member with member | member
  · exact marked.1 sqe member
  · rw [List.mem_singleton.mp member]
    exact here

theorem Marked.setSqe {P : Nat → Prop} {f : Sqe → Sqe} (marked : Marked P s)
    (same : ∀ sqe, (f sqe).call = sqe.call) : Marked P (s.setSqe k f) := by
  refine ⟨fun sqe member => ?_, marked.2⟩
  rcases mem_modify member with known | ⟨old, known, rfl⟩
  · exact marked.1 sqe known
  · rw [same]
    exact marked.1 old known

theorem Marked.submit {P : Nat → Prop} (marked : Marked P s) : Marked P s.submit := by
  refine ⟨marked.1, fun sqe member => ?_⟩
  rcases List.mem_append.mp member with member | member
  · exact marked.2 sqe member
  · exact marked.1 sqe (List.mem_of_mem_drop member)

/-- The ring of one thread between two of its calls. -/
structure Sound (s : Shared) : Prop where
  bounded : s.handed.length ≤ s.ring.length
  marked : Marked (· < s.calls) s

theorem length_setSqe {f : Sqe → Sqe} : (s.setSqe k f).ring.length = s.ring.length := List.length_modify _ _ _

theorem length_submit (bounded : s.handed.length ≤ s.ring.length) : s.submit.handed.length = s.ring.length := by
  simp only [Shared.submit, List.length_append, List.length_drop]
  omega

theorem sound_kept : Kept 0 0 Sound where
  obtain {s call stale} sound _ old := by
    refine ⟨?_, sound.marked.obtain old⟩
    rw [Shared.obtain, List.length_append]
    exact Nat.le_add_right_of_le sound.bounded
  write sound _ same := ⟨Nat.le_trans sound.bounded (Nat.le_of_eq length_setSqe.symm), sound.marked.setSqe same⟩
  submit {s} sound := ⟨Nat.le_of_eq (length_submit sound.bounded), sound.marked.submit⟩
  begin {s} sound := ⟨sound.bounded, fun sqe member => Nat.lt_succ_of_lt (sound.marked.1 sqe member),
    fun sqe member => Nat.lt_succ_of_lt (sound.marked.2 sqe member)⟩
  long _ := Nat.zero_le _
  low _ := Nat.zero_le _

theorem reaches_sound {entries : Nat} {u : Unit} (reached : Runs code (code .client) (start entries) u s) : Sound s :=
  (keeps_client sound_kept).sound sound_kept reached ⟨Nat.le_refl _, nofun, nofun⟩ (Nat.zero_le _)

/-- The call has no SQE. -/
structure Absent (call : Nat) (s : Shared) : Prop where
  marked : Marked (· ≠ call) s
  old : call < s.calls

theorem absent_kept (call : Nat) : Kept 0 (call + 1) (Absent call) where
  obtain absent later _ := ⟨absent.marked.obtain (Nat.ne_of_gt later), absent.old⟩
  write absent _ same := ⟨absent.marked.setSqe same, absent.old⟩
  submit absent := ⟨absent.marked.submit, absent.old⟩
  begin absent := ⟨absent.marked, Nat.lt_succ_of_lt absent.old⟩
  long _ := Nat.zero_le _
  low absent := absent.old

/-- SQE `k` was obtained by the call and never prepared. -/
structure Unready (call k : Nat) (s : Shared) : Prop where
  here : ∃ sqe, s.ring[k]? = some sqe ∧ sqe.call = call ∧ sqe.prepared = false
  handed : ∀ sqe, s.handed[k]? = some sqe → sqe.call = call ∧ sqe.prepared = false
  bounded : s.handed.length ≤ s.ring.length

theorem unready_kept (call k : Nat) : Kept (k + 1) 0 (Unready call k) where
  obtain {s other stale} unready _ _ := by
    obtain ⟨sqe, here, marks⟩ := unready.here
    have below : k < s.ring.length := (List.getElem?_eq_some_iff.mp here).1
    refine ⟨⟨sqe, ?_, marks⟩, unready.handed, ?_⟩
    · rw [Shared.obtain, List.getElem?_append_left below]
      exact here
    · rw [Shared.obtain, List.length_append]
      exact Nat.le_add_right_of_le unready.bounded
  write {s j f} unready allowed same := by
    obtain ⟨sqe, here, mine, unprepared⟩ := unready.here
    refine ⟨?_, unready.handed, Nat.le_trans unready.bounded (Nat.le_of_eq length_setSqe.symm)⟩
    rw [Shared.setSqe, List.getElem?_modify, here]
    by_cases at_k : j = k
    · refine ⟨f sqe, by simp [at_k], (same sqe).trans mine, ?_⟩
      rcases allowed with above | keeps
      · omega
      · exact (keeps sqe).trans unprepared
    · exact ⟨sqe, by simp [at_k], mine, unprepared⟩
  submit {s} unready := by
    refine ⟨unready.here, fun sqe found => ?_, Nat.le_of_eq (length_submit unready.bounded)⟩
    by_cases before : k < s.handed.length
    · rw [Shared.submit, List.getElem?_append_left before] at found
      exact unready.handed sqe found
    · rw [Shared.submit, List.getElem?_append_right (Nat.not_lt.mp before), List.getElem?_drop,
        Nat.add_sub_cancel' (Nat.not_lt.mp before)] at found
      obtain ⟨old, here, marks⟩ := unready.here
      cases Option.some.inj (here.symm.trans found)
      exact marks
  begin unready := ⟨unready.here, unready.handed, unready.bounded⟩
  long {s} unready := by
    obtain ⟨sqe, here, -⟩ := unready.here
    exact (List.getElem?_eq_some_iff.mp here).1
  low _ := Nat.zero_le _

/-! ### The call itself -/

theorem runs_getSqe_bind {β : Type} {p : Option Nat → Code β} {r : β} :
    Runs code (getSqe call >>= p) s r t ↔ if s.Full then Runs code (p none) s r t
      else ∃ stale, Runs code (p (some s.ring.length)) (s.obtain call stale) r t := by
  simp only [getSqe, runs_atomic_bind, Option.some.injEq]
  by_cases full : s.Full
  · simp only [full, if_true]
    constructor
    · rintro ⟨_, _, rfl, run⟩
      exact run
    · intro run
      exact ⟨default, s, rfl, run⟩
  · simp only [full, if_false]
    constructor
    · rintro ⟨c, _, rfl, run⟩
      exact ⟨c.stale, run⟩
    · rintro ⟨stale, run⟩
      exact ⟨{ stale := stale }, _, rfl, run⟩

theorem runs_addTask {u : Unit} : Runs code (addTask a task) s u t ↔
    ∃ middle, Runs code (submitTask s.calls a task) s.begin () middle ∧ t = middle.submit := by
  simp only [addTask, runs_exchange_bind, runs_unit_bind, submit, runs_store]

/-- A call without an SQE breaks no rule. -/
theorem obeys_absent (absent : Absent call t) : Obeys call a t := by
  have never : ∀ sqe ∈ t.handed, sqe.call ≠ call := absent.marked.2
  refine ⟨fun sqe member mine => absurd mine (never sqe member),
    fun k sqe found mine => absurd mine (never sqe (List.mem_of_getElem? found)), ?_,
    fun k sqe found mine => absurd mine (never sqe (List.mem_of_getElem? found)),
    fun k sqe found mine => absurd mine (never sqe (List.mem_of_getElem? found))⟩
  rw [List.filter_eq_nil_iff.mpr fun sqe member => by simp [never sqe member]]
  exact Nat.zero_le _

theorem full_obeys {u : Unit} (sound : Sound s) (full : s.Full) (run : Runs code (addTask a task) s u t) :
    Obeys s.calls a t := by
  have full' : s.begin.Full := full
  obtain ⟨middle, submitted, rfl⟩ := runs_addTask.mp run
  simp only [submitTask, queueFailedTask, runs_getSqe_bind, if_pos full', runs_enter] at submitted
  have absent : Absent s.calls s.begin :=
    ⟨⟨fun sqe member => Nat.ne_of_lt (sound.marked.1 sqe member),
      fun sqe member => Nat.ne_of_lt (sound.marked.2 sqe member)⟩, Nat.lt_succ_self _⟩
  have kept := absent_kept s.calls
  have later := (keeps_client kept).sound (b := 0) kept submitted absent (Nat.zero_le _)
  exact obeys_absent (kept.submit later)

/-- The SQE that was obtained first is never prepared, and handed over in the end. -/
theorem unsupported_breaks {u : Unit} (sound : Sound s) (room : ¬ s.Full) (unsupported : task.supported = false)
    (run : Runs code (addTask a task) s u t) : ¬ Obeys s.calls a t := by
  have room' : ¬ s.begin.Full := room
  obtain ⟨middle, submitted, rfl⟩ := runs_addTask.mp run
  simp only [submitTask, runs_getSqe_bind, if_neg room'] at submitted
  obtain ⟨stale, rest⟩ := submitted
  have kept := unready_kept s.calls s.ring.length
  have obtained : Unready s.calls s.ring.length (s.begin.obtain s.calls stale) := by
    refine ⟨⟨_, List.getElem?_concat_length, rfl, rfl⟩, fun sqe found => ?_, ?_⟩
    · have inside := (List.getElem?_eq_some_iff.mp found).1
      exact absurd inside (Nat.not_lt.mpr sound.bounded)
    · rw [Shared.obtain, List.length_append]
      exact Nat.le_add_right_of_le sound.bounded
  have failed : Keeps (Unready s.calls s.ring.length) (s.calls + 1) (queueFailedTask s.calls a) fun _ => True :=
    keeps_queueFailedTask kept (Nat.zero_le _) (Nat.lt_succ_self _)
  have unready : Unready s.calls s.ring.length middle := by
    unfold Task.supported at unsupported
    split at unsupported
    case h_1 | h_2 | h_3 => contradiction
    case h_4 type =>
      simp only [type, handleConnect, unsupported, Bool.false_eq_true, if_false] at rest
      exact (Keeps.bind failed fun _ _ => keeps_finishSqe kept (Nat.zero_le _) (Nat.lt_succ_self _)).sound kept rest
        obtained (Nat.le_refl _)
    case h_5 reads writes accepts connects =>
      cases type : task.taskType with
      | kRead => exact absurd type reads
      | kWrite => exact absurd type writes
      | kAccept => exact absurd type accepts
      | kConnect => exact absurd type connects
      | _ =>
        simp only [type] at rest
        exact failed.sound kept rest obtained (Nat.le_refl _)
  intro obeys
  have last := (kept.submit unready)
  have below : s.ring.length < middle.submit.handed.length := by
    rw [length_submit unready.bounded]
    exact kept.long unready
  have found := List.getElem?_eq_getElem below
  obtain ⟨mine, unprepared⟩ := last.handed _ found
  have prepared := (obeys.ready _ (List.getElem_mem below) mine).1
  rw [unprepared] at prepared
  contradiction

/-- An SQE of the call, ready to be handed over. -/
structure Ready (call : Nat) (word : Word Addr) (link : Bool) (sqe : Sqe) : Prop where
  mine : sqe.call = call
  prepared : sqe.prepared = true
  named : sqe.named = true
  word : sqe.userData = word
  link : sqe.link = link

/-- What a call hands over for a supported task: its operation, and the timeout
that the operation is linked to. -/
inductive Proper (call : Nat) (a : Addr) : List Sqe → Prop where
  | alone {sqe : Sqe} (ready : Ready call (.task a) false sqe) (operation : sqe.opcode.isLinkTimeout = false) :
      Proper call a [sqe]
  | timed {sqe timeout : Sqe} (ready : Ready call (.task a) true sqe) (operation : sqe.opcode.isLinkTimeout = false)
      (after : Ready call (.timeout a) false timeout) (limit : timeout.opcode.isLinkTimeout = true) :
      Proper call a [sqe, timeout]

def Shared.append (s : Shared) (own : List Sqe) : Shared := { s with ring := s.ring ++ own }

theorem modify_append {l own : List Sqe} {j : Nat} {f : Sqe → Sqe} :
    (l ++ own).modify (l.length + j) f = l ++ own.modify j f := by
  induction l with
  | nil => simp
  | cons sqe l ih =>
    rw [List.length_cons, Nat.add_right_comm, List.cons_append, List.modify_succ_cons, ih, List.cons_append]

theorem setSqe_append {own : List Sqe} {j : Nat} {f : Sqe → Sqe} :
    (s.append own).setSqe (s.ring.length + j) f = s.append (own.modify j f) := by
  simp only [Shared.setSqe, Shared.append, modify_append]

theorem setSqe_append_first {sqe : Sqe} {own : List Sqe} {f : Sqe → Sqe} :
    (s.append (sqe :: own)).setSqe s.ring.length f = s.append (f sqe :: own) := setSqe_append (j := 0)

theorem setSqe_append_second {sqe timeout : Sqe} {f : Sqe → Sqe} :
    (s.append [sqe, timeout]).setSqe (s.append [sqe]).ring.length f = s.append [sqe, f timeout] := by
  have length : (s.append [sqe]).ring.length = s.ring.length + 1 := List.length_append
  rw [length, setSqe_append, List.modify_succ_cons, List.modify_zero_cons]

theorem obtain_eq {stale : Sqe} :
    s.obtain call stale = s.append [{ stale with call := call, prepared := false, named := false }] := rfl

theorem obtain_append {own : List Sqe} {stale : Sqe} : (s.append own).obtain call stale =
    s.append (own ++ [{ stale with call := call, prepared := false, named := false }]) := by
  simp only [Shared.obtain, Shared.append, List.append_assoc]

/-- From the `switch` to the end of `SubmitTask`, for an operation. -/
theorem runs_finishSqe {opcode : Opcode} {sqe : Sqe} {u : Unit} (operation : opcode.isLinkTimeout = false)
    (mine : sqe.call = call)
    (run : Runs code (do prep s.ring.length opcode; finishSqe call a task s.ring.length) (s.append [sqe]) u t) :
    ∃ own, t = s.append own ∧ Proper call a own := by
  simp only [prep, finishSqe, setUserData, setLink, runs_store_bind, setSqe_append_first] at run
  split at run
  · simp only [runs_store_bind, setSqe_append_first, runs_getSqe_bind] at run
    split at run
    · obtain rfl := runs_store.mp run
      rw [setSqe_append_first]
      exact ⟨_, rfl, .alone ⟨mine, rfl, rfl, rfl, rfl⟩ operation⟩
    · obtain ⟨stale, run⟩ := run
      rw [obtain_append, List.cons_append, List.nil_append] at run
      simp only [setSqe_append_second, runs_store] at run
      obtain rfl := run
      exact ⟨_, rfl, .timed ⟨mine, rfl, rfl, rfl, rfl⟩ operation ⟨rfl, rfl, rfl, rfl, rfl⟩ rfl⟩
  · obtain ⟨-, rfl⟩ := runs_pure.mp run
    exact ⟨_, rfl, .alone ⟨mine, rfl, rfl, rfl, rfl⟩ operation⟩

section Handed
variable {before own : List Sqe} {sqe : Sqe} (others : ∀ sqe ∈ before, sqe.call ≠ call)
include others

theorem own_of_mine (found : (before ++ own)[k]? = some sqe) (mine : sqe.call = call) :
    ∃ j, k = before.length + j ∧ own[j]? = some sqe := by
  rcases Nat.lt_or_ge k before.length with inside | after
  · rw [List.getElem?_append_left inside] at found
    exact absurd mine (others sqe (List.mem_of_getElem? found))
  · rw [List.getElem?_append_right after] at found
    exact ⟨k - before.length, (Nat.add_sub_cancel' after).symm, found⟩

theorem filter_own : (before ++ own).filter (fun sqe => decide (sqe.call = call ∧ sqe.userData = .task a)) =
    own.filter fun sqe => decide (sqe.call = call ∧ sqe.userData = .task a) := by
  rw [List.filter_append, List.filter_eq_nil_iff.mpr fun sqe member => by simp [others sqe member], List.nil_append]

end Handed

theorem Proper.ready {own : List Sqe} {sqe : Sqe} (proper : Proper call a own) (member : sqe ∈ own) :
    sqe.prepared = true ∧ sqe.named = true ∧ Names a sqe.userData := by
  cases proper with
  | alone ready =>
    obtain rfl := List.mem_singleton.mp member
    exact ⟨ready.prepared, ready.named, Or.inl ready.word⟩
  | timed ready operation after limit =>
    rcases List.mem_cons.mp member with rfl | member
    · exact ⟨ready.prepared, ready.named, Or.inl ready.word⟩
    · obtain rfl := List.mem_singleton.mp member
      exact ⟨after.prepared, after.named, Or.inr (Or.inl after.word)⟩

theorem Proper.single {own : List Sqe} (proper : Proper call a own) :
    (own.filter fun sqe => decide (sqe.call = call ∧ sqe.userData = .task a)).length ≤ 1 := by
  cases proper with
  | alone => exact List.length_filter_le _ _
  | timed ready operation after limit =>
    simp [after.word, ready.word, ready.mine]

theorem Proper.timed_at {own : List Sqe} {timeout : Sqe} {j : Nat} (proper : Proper call a own)
    (found : own[j]? = some timeout) (limit : timeout.opcode.isLinkTimeout = true) :
    ∃ (i : Nat) (sqe : Sqe), j = i + 1 ∧ own[i]? = some sqe ∧ Ready call (.task a) true sqe := by
  cases proper with
  | alone ready operation =>
    obtain rfl := List.mem_singleton.mp (List.mem_of_getElem? found)
    rw [operation] at limit
    contradiction
  | @timed sqe _ ready operation after =>
    match j with
    | 0 =>
      cases found
      rw [operation] at limit
      contradiction
    | 1 => exact ⟨0, sqe, rfl, rfl, ready⟩

theorem Proper.linked_at {own : List Sqe} {sqe : Sqe} {j : Nat} (proper : Proper call a own)
    (found : own[j]? = some sqe) (link : sqe.link = true) :
    ∃ timeout : Sqe, own[j + 1]? = some timeout ∧ timeout.call = call ∧ timeout.opcode.isLinkTimeout = true := by
  cases proper with
  | alone ready =>
    obtain rfl := List.mem_singleton.mp (List.mem_of_getElem? found)
    rw [ready.link] at link
    contradiction
  | @timed _ timeout ready operation after limit =>
    match j with
    | 0 => exact ⟨timeout, rfl, after.mine, limit⟩
    | 1 =>
      cases found
      rw [after.link] at link
      contradiction

/-- The rules hold if the call's own SQEs are the last ones, and the same in the
ring as with the kernel. -/
theorem Proper.obeys {before old own : List Sqe} (proper : Proper call a own) (handed : t.handed = before ++ own)
    (ring : t.ring = old ++ own) (same : before.length = old.length) (others : ∀ sqe ∈ before, sqe.call ≠ call) :
    Obeys call a t := by
  have shift : ∀ j, t.handed[before.length + j]? = own[j]? := by
    intro j
    rw [handed, List.getElem?_append_right (Nat.le_add_right _ _), Nat.add_sub_cancel_left]
  constructor
  · intro sqe member mine
    rcases List.mem_append.mp (handed ▸ member) with earlier | here
    · exact absurd mine (others sqe earlier)
    · exact proper.ready here
  · intro k sqe found mine
    obtain ⟨j, rfl, here⟩ := own_of_mine others (handed ▸ found) mine
    rw [ring, same, List.getElem?_append_right (Nat.le_add_right _ _), Nat.add_sub_cancel_left]
    exact here
  · rw [handed, filter_own others]
    exact proper.single
  · intro k timeout found mine limit
    obtain ⟨j, rfl, here⟩ := own_of_mine others (handed ▸ found) mine
    obtain ⟨i, sqe, rfl, first, ready⟩ := proper.timed_at here limit
    exact ⟨before.length + i, sqe, rfl, (shift i).trans first, ready.mine, ready.word, ready.link⟩
  · intro k sqe found mine link
    obtain ⟨j, rfl, here⟩ := own_of_mine others (handed ▸ found) mine
    obtain ⟨timeout, next, marks⟩ := proper.linked_at here link
    exact ⟨timeout, (shift (j + 1)).trans next, marks⟩

theorem supported_obeys {u : Unit} (sound : Sound s) (room : ¬ s.Full) (supported : task.supported = true)
    (run : Runs code (addTask a task) s u t) : Obeys s.calls a t := by
  have room' : ¬ s.begin.Full := room
  obtain ⟨middle, submitted, rfl⟩ := runs_addTask.mp run
  simp only [submitTask, runs_getSqe_bind, if_neg room', obtain_eq] at submitted
  obtain ⟨stale, rest⟩ := submitted
  obtain ⟨own, rfl, proper⟩ : ∃ own, middle = s.begin.append own ∧ Proper s.calls a own := by
    unfold Task.supported at supported
    split at supported
    case h_1 type | h_2 type | h_3 type =>
      simp only [type] at rest
      exact runs_finishSqe rfl rfl rest
    case h_4 type =>
      simp only [type, handleConnect, supported, if_true] at rest
      exact runs_finishSqe rfl rfl rest
    case h_5 => contradiction
  have handed : (s.begin.append own).submit.handed = (s.handed ++ s.ring.drop s.handed.length) ++ own := by
    have outside : s.handed.length - s.ring.length = 0 := Nat.sub_eq_zero_of_le sound.bounded
    simp only [Shared.submit, Shared.append, Shared.begin, List.drop_append, outside, List.drop_zero, List.append_assoc]
  refine proper.obeys handed rfl (length_submit sound.bounded) fun sqe member => ?_
  rcases List.mem_append.mp member with known | known
  · exact Nat.ne_of_lt (sound.marked.2 sqe known)
  · exact Nat.ne_of_lt (sound.marked.1 sqe (List.mem_of_mem_drop known))

/-- In any state that calls of one thread lead to, with any number of free SQEs:
the rules hold of a further call exactly if `SubmitTask` prepares an operation for
a task like this, or the call obtains no SQE at all. -/
theorem obeys_iff_supported {entries : Nat} {u v : Unit} (reached : Runs code (code .client) (start entries) u s)
    (run : Runs code (addTask a task) s v t) : Obeys s.calls a t ↔ task.supported = true ∨ s.Full := by
  have sound := reaches_sound reached
  by_cases full : s.Full
  · exact ⟨fun _ => Or.inr full, fun _ => full_obeys sound full run⟩
  · simp only [full, or_false]
    cases supported : task.supported with
    | true => exact ⟨fun _ => rfl, fun _ => supported_obeys sound full supported run⟩
    | false => exact ⟨fun obeys => absurd obeys (unsupported_breaks sound full supported run), nofun⟩

/-- A read with a timeout, as the first call on a ring with four entries. -/
def timedRead : Task := { taskType := .kRead, fd := 3, timeoutMs := 1000 }

theorem timed_read_obeys : ∃ t, Runs code (addTask 0 timedRead) (start 4) () t ∧ t.handed.length = 2 ∧
    Obeys (start 4).calls 0 t := by
  have idle : Runs code (code .client) (start 4) () (start 4) := runs_of_eval (n := 2) rfl
  have run : Runs code (addTask 0 timedRead) (start 4) () _ := runs_of_eval (n := 20) rfl
  exact ⟨_, run, rfl, (obeys_iff_supported idle run).mpr (Or.inl rfl)⟩

/-- The address is not `AF_INET`. `HandleConnect` has queued the error, and the
kernel has the operation, when `SubmitTask` goes on to write its `user_data`. -/
def invalidConnect : Task := { taskType := .kConnect, fd := 3 }

theorem invalid_connect_breaks : ¬ ∀ (entries : Nat) (a : Addr) (task : Task) (s t : Shared),
    Runs code (code .client) (start entries) () s → Runs code (addTask a task) s () t → Obeys s.calls a t := by
  intro always
  have idle : Runs code (code .client) (start 4) () (start 4) := runs_of_eval (n := 2) rfl
  have run : Runs code (addTask 0 invalidConnect) (start 4) () _ := runs_of_eval (n := 20) rfl
  have obeys := always 4 0 invalidConnect _ _ idle run
  have first := obeys.ready _ (List.mem_cons_self ..) rfl
  exact absurd first.1 (by decide)

end Talon.Ring.Filling
