import Talon.Handler.Verified
import Talon.Interleaving.Extension

/-! How often the completion handler is called for a submission, whatever the threads do in
between: never before its completion is dispatched, once if it ends as a success or a
failure, and not at all if it is cancelled, times out or is tried again. -/
namespace Talon.Handler.Answering
open Interleaving Ownership

/-- The events that decide what became of a submission. -/
def tells : Event → Bool
  | .handled _ _ _ | .settled _ _ _ _ => true
  | _ => false

def answers (k : Nat) : Event → Bool
  | .handled _ submission _ => decide (submission = some k)
  | _ => false

def tale (s : State) : List Event := s.log.filter tells

/-- How often the handler was called for submission `k`. -/
def calls (s : State) (k : Nat) : Nat := (tale s).countP (answers k)

/-- The calls of a submission that ends in this state. -/
def due : TaskState → Nat
  | .kSuccess | .kFailed => 1
  | _ => 0

/-- The submission has ended. -/
def Settled (s : State) (k : Nat) : Prop := ∃ a state cause, .settled a state cause (some k) ∈ tale s

/-- What is known of the calls, beside `Valid`. -/
structure Account (s : State) : Prop where
  fresh : ∀ k, s.submissions ≤ k → calls s k = 0
  waiting : ∀ a k, s.current a = some k → (s.phase a = .queued ∨ ∃ i, s.phase a = .gated i) → calls s k = 0
  once : ∀ k, calls s k ≤ 1
  ended : ∀ a state cause k, .settled a state cause (some k) ∈ tale s →
    calls s k = due state ∧ k < s.submissions ∧ ∀ b, s.current b = some k → s.phase b = .free
  /-- A submission with a slot goes on until it ends, and the slot is given back later. -/
  goesOn : ∀ k ∈ s.reserved, Settled s k ∨ ∃ a, s.current a = some k ∧ s.phase a ≠ .free
  back : ∀ k ∈ s.released, Settled s k

/-- The calls so far for the submission that a thread holds. -/
def counted (v : Handler.View) (calls : Nat → Nat) (a : Addr) : Nat :=
  match v.hand a with
  | some (_, some k) => calls k
  | _ => 0

def ownership (m : Mode) : Ownership Thread State (Handler.View × (Addr → Nat)) :=
  (Handler.ownership m).extend Account fun j s => counted (Handler.view j s) (calls s)

abbrev View := Handler.View × (Addr → Nat)

/-- What the thread holds of `a` changes, and its handler has not been called. -/
def hold (w : View) (a : Addr) (held : Option (Bool × Option Nat)) : View :=
  (w.1.hold a held, Function.update w.2 a 0)

abbrev Holds (m : Mode) (i : Thread) (w : View) (s : State) : Prop := (ownership m).Holds i w s

abbrev Moves (m : Mode) (i : Thread) (s t : State) (w : View) : Prop := (ownership m).Moves i s t w

variable {m : Mode} {i : Thread} {w : View} {v : Handler.View} {s t : State} {a : Addr} {k : Nat}

namespace Holds

theorem account (holds : Holds m i w s) : Account s := holds.1.2

theorem base (holds : Holds m i w s) : Handler.Holds m i w.1 s := Ownership.Holds.base holds

theorem seen (holds : Holds m i w s) : counted w.1 (calls s) = w.2 := by
  obtain ⟨-, rfl⟩ := holds
  rfl

theorem calls_eq {held : Bool} (holds : Holds m i w s) (grip : w.1.hand a = some (held, some k)) :
    calls s k = w.2 a := by
  rw [← holds.seen, counted, grip]

end Holds

theorem counted_hold (held : Option (Bool × Option Nat)) (c : Nat → Nat) (none_ : ∀ b k, held = some (b, some k) → c k = 0) :
    counted (v.hold a held) c = Function.update (counted v c) a 0 := by
  funext b
  by_cases here : b = a
  · subst here
    rw [Function.update_self]
    simp only [counted, View.hold, Function.update_self]
    split
    · exact none_ _ _ rfl
    · rfl
  · rw [Function.update_of_ne here]
    simp only [counted, View.hold, Function.update_of_ne here]

/-- A step without a call. -/
theorem moves_uncalled {c : Addr → Nat} (moves : Handler.Moves m i s t v) (kept : calls t = calls s)
    (account : Account t) (mine : counted v (calls s) = c) : Moves m i s t (v, c) := by
  refine Ownership.Moves.extend moves account (fun j different => ?_) ?_
  · change counted (Handler.view j t) (calls t) = counted (Handler.view j s) (calls s)
    rw [kept, show Handler.view j t = Handler.view j s from moves.others j different]
  · change counted (Handler.view i t) (calls t) = c
    rw [kept, show Handler.view i t = v from moves.mine, mine]

/-- Among them are the steps that change what the thread holds of `a`. -/
theorem moves_hold {held : Option (Bool × Option Nat)} (holds : Holds m i w s)
    (moves : Handler.Moves m i s t (w.1.hold a held)) (kept : calls t = calls s) (account : Account t)
    (uncalled : ∀ b k, held = some (b, some k) → calls s k = 0) : Moves m i s t (hold w a held) := by
  apply moves_uncalled moves kept account
  rw [← holds.seen]
  exact counted_hold held (calls s) uncalled

/-! ### What the steps do to the account -/

/-- All that the account is about. -/
def part (s : State) : (Addr → Phase) × (Addr → Option Nat) × Nat × List Nat × List Nat × List Event :=
  (s.phase, s.current, s.submissions, s.reserved, s.released, tale s)

theorem calls_congr (told : tale t = tale s) : calls t = calls s := by
  funext k
  rw [calls, told, calls]

theorem settled_congr (told : tale t = tale s) : Settled t = Settled s := by
  funext k
  rw [Settled, told, Settled]

theorem Settled.grows {event : Event} (settled : Settled s k) (told : tale t = event :: tale s) : Settled t k := by
  obtain ⟨a, state, cause, member⟩ := settled
  exact ⟨a, state, cause, by rw [told]; exact List.mem_cons_of_mem _ member⟩

theorem Account.congr (same : part t = part s) (account : Account s) : Account t := by
  simp only [part, Prod.mk.injEq] at same
  obtain ⟨phase, current, submissions, reserved, released, told⟩ := same
  refine ⟨?_, ?_, ?_, ?_, ?_, ?_⟩
  · rw [calls_congr told, submissions]
    exact account.fresh
  · rw [calls_congr told, phase, current]
    exact account.waiting
  · rw [calls_congr told]
    exact account.once
  · rw [calls_congr told, told, phase, current, submissions]
    exact account.ended
  · rw [settled_congr told, reserved, phase, current]
    exact account.goesOn
  · rw [settled_congr told, released]
    exact account.back

/-- One task changes its phase. If it is to wait, its handler has not been called, and if it
is given up it has no slot. -/
theorem Account.relocate (account : Account s) (told : tale t = tale s) (current : t.current = s.current)
    (submissions : t.submissions = s.submissions) (reserved : ∀ l ∈ t.reserved, l ∈ s.reserved ∨ l = k)
    (released : t.released = s.released) (others : ∀ b, b ≠ a → t.phase b = s.phase b)
    (busy : s.phase a ≠ .free) (number : s.current a = some k)
    (waits : t.phase a = .queued ∨ (∃ i, t.phase a = .gated i) → calls s k = 0)
    (stays : t.phase a = .free → k ∉ t.reserved) : Account t := by
  refine ⟨?_, fun b l latest wait => ?_, ?_, fun b state cause l settled => ?_, fun l slot => ?_, ?_⟩
  · rw [calls_congr told, submissions]
    exact account.fresh
  · rw [calls_congr told]
    rw [current] at latest
    by_cases here : b = a
    · subst here
      obtain rfl := Option.some.inj (number.symm.trans latest)
      exact waits wait
    · rw [others b here] at wait
      exact account.waiting b l latest wait
  · rw [calls_congr told]
    exact account.once
  · rw [told] at settled
    obtain ⟨counts, old, idle⟩ := account.ended b state cause l settled
    rw [calls_congr told, current, submissions]
    refine ⟨counts, old, fun c latest => ?_⟩
    by_cases here : c = a
    · exact absurd (idle a (here ▸ latest)) busy
    · rw [others c here]
      exact idle c latest
  · rw [settled_congr told, current]
    have own : l = k → Settled s l ∨ ∃ b, s.current b = some l ∧ t.phase b ≠ .free := by
      rintro rfl
      exact Or.inr ⟨a, number, fun free => stays free slot⟩
    rcases reserved l slot with old | same
    · obtain settled | ⟨b, latest, wait⟩ := account.goesOn l old
      · exact Or.inl settled
      · by_cases here : b = a
        · subst here
          exact own (Option.some.inj (latest.symm.trans number))
        · exact Or.inr ⟨b, latest, by rwa [others b here]⟩
    · exact own same
  · rw [settled_congr told, released]
    exact account.back

theorem moves_gate (holds : Holds m i w s) (opened : (s.task a).taskState ≠ .kSubmitted)
    (admitted : m.Admits s (s.gate i a)) :
    (∀ b, w.1.active ≠ some (b, s.submissions)) ∧
      Moves m i s (s.gate i a) (hold w a (some (false, some s.submissions))) := by
  obtain ⟨apart, moves⟩ := Handler.moves_gate holds.base opened admitted
  have account := holds.account
  have new := account.fresh s.submissions (Nat.le_refl _)
  have idle : s.phase a = .free := (holds.base.1.tokens.standing a).token.mpr opened
  refine ⟨apart, moves_hold holds moves rfl ⟨fun l later => ?_, fun b l latest wait => ?_, account.once,
    fun b state cause l settled => ?_, fun l slot => (account.goesOn l slot).imp id ?_, account.back⟩ ?_⟩
  · exact account.fresh l (Nat.le_of_succ_le later)
  · by_cases here : b = a
    · subst here
      simp only [State.gate, Function.update_self, Option.some.injEq] at latest
      exact latest ▸ new
    · simp only [State.gate, Function.update_of_ne here] at latest wait
      exact account.waiting b l latest wait
  · obtain ⟨counts, old, idle⟩ := account.ended b state cause l settled
    refine ⟨counts, Nat.lt_succ_of_lt old, fun c latest => ?_⟩
    by_cases here : c = a
    · subst here
      simp only [State.gate, Function.update_self, Option.some.injEq] at latest
      omega
    · simp only [State.gate, Function.update_of_ne here] at latest ⊢
      exact idle c latest
  · rintro ⟨b, latest, busy⟩
    have here : b ≠ a := by
      rintro rfl
      exact busy idle
    exact ⟨b, by simpa [State.gate, here] using latest, by simpa [State.gate, here] using busy⟩
  · rintro _ _ ⟨⟩
    exact new

theorem moves_reserve (holds : Holds m i w s) (held : w.1.hand a = some (false, some k)) (uncalled : w.2 a = 0)
    (room : 0 < w.1.limit → s.inflight < w.1.limit) :
    Moves m i s (s.reserve i a k) (hold w a (some (true, some k))) := by
  obtain ⟨gated, number⟩ := Handler.Holds.gated holds.base held
  have none_ := (holds.calls_eq held).trans uncalled
  refine moves_hold holds (Handler.moves_reserve holds.base held room) rfl (holds.account.relocate (a := a) rfl rfl rfl
    (fun l slot => (List.mem_cons.mp slot).symm) rfl (fun b here => ?_) (by rw [gated]; nofun) number (fun _ => none_)
    fun free => ?_) ?_
  · simp [State.reserve, here]
  · simp [State.reserve] at free
  · rintro _ _ ⟨⟩
    exact none_

theorem moves_reject (holds : Holds m i w s) (held : w.1.hand a = some (false, some k)) :
    Moves m i s (s.reject a) (hold w a none) := by
  obtain ⟨gated, number⟩ := Handler.Holds.gated holds.base held
  refine moves_hold holds (Handler.moves_reject holds.base held) rfl (holds.account.relocate (a := a) rfl rfl rfl
    (fun _ => Or.inl) rfl (fun b here => ?_) (by rw [gated]; nofun) number (fun wait => ?_)
    fun _ => (holds.base.1.tokens.standing a).unreserved k i gated number) nofun
  · simp [State.reject, here]
  · simp [State.reject] at wait

theorem moves_queue (holds : Holds m i w s) (held : w.1.hand a = some (true, some k)) (uncalled : w.2 a = 0)
    (apart : ∀ b, w.1.active ≠ some (b, k)) {flag : EventFlag} (completes : flag = .kNone ∨ flag = .kError) :
    Moves m i s (s.queue a flag k) (hold w a none) := by
  obtain ⟨owned, number⟩ := Handler.Holds.owned holds.base held
  refine moves_hold holds (Handler.moves_queue holds.base held apart completes) rfl (holds.account.relocate (a := a)
    rfl rfl rfl (fun _ => Or.inl) rfl (fun b here => ?_) (by rw [owned]; nofun) number
    (fun _ => (holds.calls_eq held).trans uncalled) fun free => ?_) nofun
  · simp [State.queue, here]
  · simp [State.queue] at free

/-- The completion that the event loop finds is of a task that waits. -/
theorem moves_find (holds : Holds m .loop w s) {e : Entry} (taken : w.1.taken = some e)
    (idle : w.1.active = none) (unheld : w.1.hand e.task = none) (tracked : m.tracks e)
    (acts : TaskState.Live (s.task e.task).taskState) :
    s.liveSubmission e.task = some e.submission ∧
      Moves m .loop s (s.find e) (w.1.dispatching e, Function.update w.2 e.task 0) := by
  obtain ⟨target, moves⟩ := Handler.moves_find holds.base taken idle unheld tracked acts
  have queued : s.phase e.task = .queued ∧ s.current e.task = some e.submission := by
    obtain ⟨valid, seen⟩ := holds.base
    rw [← seen] at taken unheld
    have out : s.taken = some e := by simpa [Handler.ownership, Handler.view] using taken
    obtain ⟨number, queued | ⟨-, owned | ⟨-, finished⟩⟩⟩ := valid.rings.entries e (outstanding_find out).1 tracked
    · exact ⟨queued, number⟩
    · simp [Handler.ownership, Handler.view, owned] at unheld
    · exact absurd acts finished
  have none_ := holds.account.waiting e.task e.submission queued.2 (Or.inl queued.1)
  refine ⟨target, moves_uncalled moves rfl (holds.account.relocate (a := e.task) rfl rfl rfl (fun _ => Or.inl) rfl
    (fun b here => ?_) (by simp [queued.1]) queued.2 (fun _ => none_) fun free => ?_) ?_⟩
  · simp only [State.find]
    split
    · exact Function.update_of_ne here _ _
    · rfl
  · simp only [State.find] at free
    split at free
    · simp at free
    · rw [queued.1] at free
      contradiction
  · rw [← holds.seen]
    apply counted_hold (some (true, some e.submission)) (calls s)
    rintro _ _ ⟨⟩
    exact none_

theorem hand_some {j : Thread} {b : Addr} {held : Bool} {l : Nat}
    (grasp : (Handler.view j s).hand b = some (held, some l)) :
    s.current b = some l ∧ (s.phase b = .gated j ∨ s.phase b = .owned j) := by
  cases held with
  | false =>
    obtain ⟨phase, number⟩ := grip_eq_gated grasp
    exact ⟨number, Or.inl phase⟩
  | true =>
    obtain ⟨phase, number⟩ := grip_eq_owned grasp
    exact ⟨number, Or.inr phase⟩

theorem counted_congr {c c' : Nat → Nat} {b : Addr}
    (same : ∀ held l, v.hand b = some (held, some l) → c l = c' l) : counted v c b = counted v c' b := by
  unfold counted
  split
  · next grasp => exact same _ _ grasp
  · rfl

/-- The handler is called while its caller holds the submission. -/
theorem moves_handled (holds : Holds m i w s) (held : w.1.hand a = some (true, some k)) (uncalled : w.2 a = 0) :
    Moves m i s (s.record (.handled a (s.current a) (s.task a).buffer.bytesTransferred))
      (w.1, Function.update w.2 a 1) := by
  obtain ⟨owned, number⟩ := Handler.Holds.owned holds.base held
  have account := holds.account
  have tokens := holds.base.1.tokens
  have none_ := (holds.calls_eq held).trans uncalled
  have moves : Handler.Moves m i s (s.record (.handled a (s.current a) (s.task a).buffer.bytesTransferred)) w.1 :=
    moves_record holds.base (by simp) rfl
  rw [number] at moves ⊢
  generalize (s.task a).buffer.bytesTransferred = bytes at moves ⊢
  have told : ∀ l, calls (s.record (.handled a (some k) bytes)) l = if l = k then 1 else calls s l := by
    intro l
    change ((.handled a (some k) bytes) :: tale s).countP (answers l) = _
    rw [List.countP_cons]
    by_cases same : l = k
    · subst same
      rw [if_pos rfl, show (tale s).countP (answers l) = 0 from none_]
      simp [answers]
    · simp [answers, same, Ne.symm same, calls]
  have others : ∀ b l, s.current b = some l → b ≠ a → l ≠ k := by
    rintro b _ latest here rfl
    exact here (tokens.distinct b a _ latest number)
  have grown (l : Nat) (settled : Settled s l) : Settled (s.record (.handled a (some k) bytes)) l := settled.grows rfl
  refine Ownership.Moves.extend moves ⟨fun l later => ?_, fun b l latest wait => ?_, fun l => ?_,
    fun b state cause l settled => ?_, fun l slot => (account.goesOn l slot).imp (grown l) id,
    fun l slot => grown l (account.back l slot)⟩ (fun j different => ?_) ?_
  · rw [told, if_neg (Nat.ne_of_gt (Nat.lt_of_lt_of_le ((tokens.standing a).fresh k number) later))]
    exact account.fresh l later
  · have here : b ≠ a := by
      rintro rfl
      simp [State.record, owned] at wait
    rw [told, if_neg (others b l latest here)]
    exact account.waiting b l latest wait
  · rw [told]
    split
    · exact Nat.le_refl 1
    · exact account.once l
  · obtain ⟨counts, old, idle⟩ := account.ended b state cause l (by
      simpa [tale, State.record, tells] using settled)
    have other : l ≠ k := by
      rintro rfl
      rw [idle a number] at owned
      contradiction
    rw [told, if_neg other]
    exact ⟨counts, old, idle⟩
  · refine funext fun b => counted_congr fun held l grasp => ?_
    obtain ⟨latest, phase⟩ := hand_some grasp
    have here : b ≠ a := by
      rintro rfl
      simp [State.record, owned, Ne.symm different] at phase
    rw [told, if_neg (others b l latest here)]
  · have seen : Handler.view i s = w.1 := holds.base.2
    rw [← holds.seen]
    funext b
    change counted (Handler.view i s) _ b = _
    rw [seen]
    by_cases here : b = a
    · subst here
      rw [Function.update_self, counted, held]
      simp only [told, if_true]
    · rw [Function.update_of_ne here]
      apply counted_congr
      intro held l grasp
      rw [← seen] at grasp
      rw [told, if_neg (others b l (hand_some grasp).1 here)]

theorem moves_settle (holds : Holds m i w s) (held : w.1.hand a = some (true, some k))
    {state : TaskState} (final : state ≠ .kSubmitted) (told : w.2 a = due state) {cause : Option Nat} {dooms : Bool}
    (mine : cause = none ∨ cause = some k) (admitted : m.Admits s (s.settle i a state cause dooms)) :
    Moves m i s (s.settle i a state cause dooms)
      ({ w.1.hold a none with doomed := if dooms then ⟨i, a, some k⟩ :: w.1.doomed else w.1.doomed },
        Function.update w.2 a 0) := by
  obtain ⟨owned, number⟩ := Handler.Holds.owned holds.base held
  have account := holds.account
  have tokens := holds.base.1.tokens
  have moves := Handler.moves_settle holds.base held final mine admitted
  have target : s.liveSubmission a = some k := by simp [State.liveSubmission, owned, number]
  have tale_eq : tale (s.settle i a state cause dooms) = .settled a state cause (some k) :: tale s := by
    rw [← target]
    rfl
  have kept : calls (s.settle i a state cause dooms) = calls s := by
    funext l
    rw [calls, tale_eq]
    rfl
  have freed : ∀ c, c ≠ a → (s.settle i a state cause dooms).phase c = s.phase c := fun c here =>
    Function.update_of_ne here _ _
  have free : (s.settle i a state cause dooms).phase a = .free := Function.update_self ..
  refine moves_uncalled moves kept ⟨?_, fun b l latest wait => ?_, ?_, fun b state' cause' l settled => ?_,
    fun l slot => ?_, fun l slot => (account.back l slot).grows tale_eq⟩ ?_
  · rw [kept]
    exact account.fresh
  · rw [kept]
    by_cases here : b = a
    · subst here
      simp [free] at wait
    · rw [freed b here] at wait
      exact account.waiting b l latest wait
  · rw [kept]
    exact account.once
  · rw [kept]
    rw [tale_eq, List.mem_cons] at settled
    rcases settled with same | settled
    · simp only [Event.settled.injEq, Option.some.injEq] at same
      obtain ⟨-, rfl, -, rfl⟩ := same
      refine ⟨(holds.calls_eq held).trans told, (tokens.standing a).fresh l number, fun c latest => ?_⟩
      rw [tokens.distinct c a l latest number]
      exact free
    · obtain ⟨counts, old, idle⟩ := account.ended b state' cause' l settled
      refine ⟨counts, old, fun c latest => ?_⟩
      by_cases here : c = a
      · rw [here]
        exact free
      · rw [freed c here]
        exact idle c latest
  · obtain settled | ⟨b, latest, busy⟩ := account.goesOn l slot
    · exact Or.inl (settled.grows tale_eq)
    · by_cases here : b = a
      · subst here
        obtain rfl := Option.some.inj (latest.symm.trans number)
        exact Or.inl ⟨b, state, cause, by rw [tale_eq]; exact List.mem_cons_self⟩
      · exact Or.inr ⟨b, latest, by rwa [freed b here]⟩
  · rw [← holds.seen]
    apply counted_hold none (calls s)
    intro _ _ absent
    contradiction

theorem moves_create (holds : Holds m i w s) {config : Task} (admitted : m.Admits s (s.create a config)) :
    Moves m i s (s.create a config) w := by
  have moves := Handler.moves_create holds.base admitted
  have account := holds.account
  have idle : s.phase a = .free := by
    have permitted := admitted (.created a) rfl
    cases m <;> simp [Mode.permits] at permitted
    · exact permitted
    · exact permitted
    · exact permitted.2
  refine moves_uncalled moves rfl ⟨account.fresh, fun b l latest wait => ?_, account.once,
    fun b state cause l settled => ?_, fun l slot => (account.goesOn l slot).imp id ?_, account.back⟩ holds.seen
  · by_cases here : b = a
    · subst here
      simp [State.create] at latest
    · simp only [State.create, Function.update_of_ne here] at latest
      exact account.waiting b l latest wait
  · obtain ⟨counts, old, idle⟩ := account.ended b state cause l settled
    refine ⟨counts, old, fun c latest => ?_⟩
    by_cases here : c = a
    · subst here
      simp [State.create] at latest
    · simp only [State.create, Function.update_of_ne here] at latest
      exact idle c latest
  · rintro ⟨b, latest, busy⟩
    have here : b ≠ a := by
      rintro rfl
      exact busy idle
    exact ⟨b, by simpa [State.create, here] using latest, busy⟩

/-- The dispatch has settled the submission when it gives the slot back. -/
theorem moves_release (holds : Holds m .loop w s) (dispatched : w.1.active = some (a, k))
    (settled : w.1.hand a = none) {target : Option Nat} (own : target = some k) :
    Moves m .loop s (s.release k target) ({ w.1 with active := none }, w.2) := by
  have moves := Handler.moves_release holds.base dispatched settled own
  have account := holds.account
  have answered : Settled s k := by
    obtain ⟨valid, seen⟩ := holds.base
    rw [← seen] at dispatched settled
    obtain ⟨slot, -, only⟩ := valid.tokens.dispatching a k (by
      simpa [Handler.ownership, Handler.view] using dispatched)
    obtain answered | ⟨b, latest, busy⟩ := account.goesOn k slot
    · exact answered
    · obtain ⟨rfl, owned | free⟩ := only b latest
      · simp [Handler.ownership, Handler.view, owned] at settled
      · exact absurd free busy
  refine moves_uncalled moves rfl ⟨account.fresh, account.waiting, account.once, account.ended, account.goesOn,
    fun l slot => ?_⟩ holds.seen
  rcases List.mem_cons.mp slot with rfl | old
  · exact answered
  · exact account.back l old

/-- All other steps. -/
theorem moves_apart (holds : Holds m i w s) (moves : Handler.Moves m i s t v) (same : part t = part s)
    (hand : v.hand = w.1.hand) : Moves m i s t (v, w.2) := by
  have told : tale t = tale s := by
    simp only [part, Prod.mk.injEq] at same
    exact same.2.2.2.2.2
  apply moves_uncalled moves (calls_congr told) (holds.account.congr same)
  · rw [← holds.seen]
    funext b
    simp only [counted, hand]

end Talon.Handler.Answering
