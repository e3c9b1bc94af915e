import Talon.Handler.Invariant

/-! What the handler's moves do to the four parts of the invariant. -/
namespace Talon.Handler
open Interleaving

variable {m : Mode} {state state' : Addr → TaskState} {phase phase' : Addr → Phase}
  {current current' : Addr → Option Nat} {active : Option (Addr × Nat)} {submissions : Nat}
  {reserved released : List Nat} {a : Addr} {k : Nat} {i : Thread}

namespace Ledger
variable {inflight max : Int}

theorem gate (ledger : Ledger submissions reserved released inflight max) :
    Ledger (submissions + 1) reserved released inflight max :=
  { ledger with bounded := fun k member => Nat.lt_succ_of_lt (ledger.bounded k member) }

theorem reserve (ledger : Ledger submissions reserved released inflight max)
    (numbered : k < submissions) (unused : k ∉ reserved) (room : 0 < max → inflight < max) :
    Ledger submissions (k :: reserved) released (inflight + 1) max where
  bounded := by
    intro j member
    rcases List.mem_cons.mp member with rfl | member
    · exact numbered
    · exact ledger.bounded j member
  reservedOnce := List.nodup_cons.mpr ⟨unused, ledger.reservedOnce⟩
  releasedOnce := ledger.releasedOnce
  given j member := List.mem_cons_of_mem k (ledger.given j member)
  counted := by
    have counted := ledger.counted
    simp only [List.length_cons]
    push_cast
    omega
  limited limit := room limit

theorem release (ledger : Ledger submissions reserved released inflight max)
    (taken : k ∈ reserved) (kept : k ∉ released) :
    Ledger submissions reserved (k :: released) (inflight - 1) max where
  bounded := ledger.bounded
  reservedOnce := ledger.reservedOnce
  releasedOnce := List.nodup_cons.mpr ⟨kept, ledger.releasedOnce⟩
  given j member := by
    rcases List.mem_cons.mp member with rfl | member
    · exact taken
    · exact ledger.given j member
  counted := by
    have counted := ledger.counted
    simp only [List.length_cons]
    push_cast
    omega
  limited limit := by
    have limited := ledger.limited limit
    omega

theorem live_length (ledger : Ledger submissions reserved released inflight max) :
    inflight = ((reserved.filter (· ∉ released)).length : Int) := by
  have split : (reserved.filter (· ∈ released)).length + (reserved.filter (· ∉ released)).length =
      reserved.length := by
    have total := List.length_eq_length_filter_add (l := reserved) (fun k => decide (k ∈ released))
    simpa using total.symm
  have same : (reserved.filter (· ∈ released)).Perm released := by
    apply (List.perm_ext_iff_of_nodup (ledger.reservedOnce.filter _) ledger.releasedOnce).mpr
    intro k
    simp only [List.mem_filter, decide_eq_true_eq, and_iff_right_iff_imp]
    exact ledger.given k
  have counted := ledger.counted
  have length := same.length_eq
  omega

end Ledger

namespace Tokens

theorem gate (tokens : Tokens state phase current active submissions reserved released)
    (bounded : ∀ k ∈ reserved, k < submissions) :
    Tokens (Function.update state a .kSubmitted) (Function.update phase a (.gated i))
      (Function.update current a (some submissions)) active (submissions + 1) reserved released where
  standing b := by
    have stands := tokens.standing b
    by_cases same : b = a
    · subst same
      simp only [Function.update_self]
      refine ⟨by simp, fun _ => ⟨_, rfl⟩, by simp, ?_, by simp⟩
      rintro k _ _ ⟨⟩ member
      exact Nat.lt_irrefl _ (bounded _ member)
    · simp only [Function.update_of_ne same]
      exact { stands with fresh := fun k known => Nat.lt_succ_of_lt (stands.fresh k known) }
  distinct b c k first second := by
    -- The new number is larger than every number in use.
    by_cases sameB : b = a <;> by_cases sameC : c = a
    · rw [sameB, sameC]
    · subst sameB
      simp only [Function.update_self, Option.some.injEq] at first
      rw [Function.update_of_ne sameC] at second
      have older := (tokens.standing c).fresh k second
      omega
    · subst sameC
      simp only [Function.update_self, Option.some.injEq] at second
      rw [Function.update_of_ne sameB] at first
      have older := (tokens.standing b).fresh k first
      omega
    · rw [Function.update_of_ne sameB] at first
      rw [Function.update_of_ne sameC] at second
      exact tokens.distinct b c k first second
  dispatching b k dispatched := by
    obtain ⟨taken, kept, only⟩ := tokens.dispatching b k dispatched
    refine ⟨taken, kept, fun c => ?_⟩
    by_cases same : c = a
    · subst same
      simp only [Function.update_self, Option.some.injEq]
      intro number
      have older := bounded k taken
      omega
    · simpa only [Function.update_of_ne same] using only c

theorem reserve (tokens : Tokens state phase current active submissions reserved released)
    (given : ∀ k ∈ released, k ∈ reserved) (held : phase a = .gated i) (number : current a = some k) :
    Tokens state (Function.update phase a (.owned i)) current active submissions (k :: reserved)
      released where
  standing b := by
    have stands := tokens.standing b
    by_cases same : b = a
    · subst same
      have unused := stands.unreserved k i held number
      have submitted := stands.token
      simp only [held, reduceCtorEq, false_iff] at submitted
      simp only [Function.update_self]
      refine ⟨by simpa using submitted, fun _ => ⟨k, number⟩, stands.fresh, by simp, ?_⟩
      intro j known _
      obtain rfl : j = k := Option.some.inj (known.symm.trans number)
      exact ⟨List.mem_cons_self, fun back => unused (given j back)⟩
    · simp only [Function.update_of_ne same]
      refine ⟨stands.token, stands.numbered, stands.fresh, ?_, ?_⟩
      · intro j l gated known member
        rcases List.mem_cons.mp member with rfl | member
        · exact same (tokens.distinct b a j known number)
        · exact stands.unreserved j l gated known member
      · intro j known owned
        obtain ⟨member, kept⟩ := stands.slot j known owned
        exact ⟨List.mem_cons_of_mem k member, kept⟩
  distinct := tokens.distinct
  dispatching b j dispatched := by
    obtain ⟨taken, kept, only⟩ := tokens.dispatching b j dispatched
    refine ⟨List.mem_cons_of_mem k taken, kept, fun c known => ?_⟩
    by_cases same : c = a
    · subst same
      have stands := (only c known).2
      simp [held] at stands
    · simpa only [Function.update_of_ne same] using only c known

theorem free (tokens : Tokens state phase current active submissions reserved released)
    {st : TaskState} (final : st ≠ .kSubmitted) :
    Tokens (Function.update state a st) (Function.update phase a .free) current active submissions
      reserved released where
  standing b := by
    have stands := tokens.standing b
    by_cases same : b = a
    · subst same
      simp only [Function.update_self]
      exact ⟨by simp [final], by simp, stands.fresh, by simp, by simp⟩
    · simpa only [Function.update_of_ne same] using stands
  distinct := tokens.distinct
  dispatching b k dispatched := by
    obtain ⟨taken, kept, only⟩ := tokens.dispatching b k dispatched
    refine ⟨taken, kept, fun c known => ?_⟩
    by_cases same : c = a
    · subst same
      exact ⟨(only c known).1, Or.inr (Function.update_self ..)⟩
    · simpa only [Function.update_of_ne same] using only c known

/-- A submission with a slot goes on to `p`, the ring or the event loop. -/
theorem standing_pass (tokens : Tokens state phase current active submissions reserved released)
    {p : Phase} (held : (∃ i, phase a = .owned i) ∨ phase a = .queued)
    (next : p = .queued ∨ p = .owned .loop) (b : Addr) :
    Standing submissions reserved released (state b) (Function.update phase a p b) (current b) := by
  have stands := tokens.standing b
  by_cases same : b = a
  · subst same
    have busy : phase b ≠ .free := by
      rcases held with ⟨i, held⟩ | held <;> simp [held]
    have moving : p ≠ .free ∧ ∀ i, p ≠ .gated i := by
      rcases next with rfl | rfl <;> simp
    rw [Function.update_self]
    refine ⟨?_, fun _ => stands.numbered busy, stands.fresh, ?_, fun k known _ => ?_⟩
    · exact iff_of_false moving.1 (fun idle => busy (stands.token.mpr idle))
    · exact fun _ i gated => absurd gated (moving.2 i)
    · exact stands.slot k known held
  · simpa only [Function.update_of_ne same] using stands

theorem queue (tokens : Tokens state phase current active submissions reserved released)
    (held : phase a = .owned i) (number : current a = some k)
    (apart : i = .loop → ∀ b, active ≠ some (b, k)) :
    Tokens state (Function.update phase a .queued) current active submissions reserved released where
  standing := tokens.standing_pass (Or.inl ⟨i, held⟩) (Or.inl rfl)
  distinct := tokens.distinct
  dispatching b j dispatched := by
    obtain ⟨taken, kept, only⟩ := tokens.dispatching b j dispatched
    refine ⟨taken, kept, fun c known => ?_⟩
    by_cases same : c = a
    · subst same
      obtain rfl : j = k := Option.some.inj (known.symm.trans number)
      have stands := (only c known).2
      simp only [held, Phase.owned.injEq, reduceCtorEq, or_false] at stands
      exact absurd dispatched (apart stands b)
    · simpa only [Function.update_of_ne same] using only c known

theorem find (tokens : Tokens state phase current none submissions reserved released)
    (held : phase a = .queued) (number : current a = some k) :
    Tokens state (Function.update phase a (.owned .loop)) current (some (a, k)) submissions reserved
      released where
  standing := tokens.standing_pass (Or.inr held) (Or.inr rfl)
  distinct := tokens.distinct
  dispatching b j dispatched := by
    obtain ⟨rfl, rfl⟩ := Prod.mk.inj (Option.some.inj dispatched)
    obtain ⟨taken, kept⟩ := (tokens.standing a).slot k number (Or.inr held)
    refine ⟨taken, kept, fun c known => ?_⟩
    obtain rfl := tokens.distinct c a k known number
    exact ⟨rfl, Or.inl (Function.update_self ..)⟩

theorem release (tokens : Tokens state phase current (some (a, k)) submissions reserved released)
    (settled : phase a ≠ .owned .loop) :
    Tokens state phase current none submissions reserved (k :: released) where
  standing b := by
    have stands := tokens.standing b
    refine { stands with slot := fun j known owned => ?_ }
    obtain ⟨taken, kept⟩ := stands.slot j known owned
    refine ⟨taken, fun back => ?_⟩
    rcases List.mem_cons.mp back with rfl | back
    · obtain ⟨rfl, loop | idle⟩ := (tokens.dispatching a j rfl).2.2 b known
      · exact settled loop
      · simp [idle] at owned
    · exact kept back
  distinct := tokens.distinct
  dispatching b j dispatched := by contradiction

theorem create (tokens : Tokens state phase current active submissions reserved released)
    (idle : phase a = .free) :
    Tokens (Function.update state a .kReady) phase (Function.update current a none) active submissions
      reserved released where
  standing b := by
    have stands := tokens.standing b
    by_cases same : b = a
    · subst same
      simp only [Function.update_self]
      exact ⟨by simp [idle], fun owned => absurd idle owned, by simp, by simp, by simp⟩
    · simpa only [Function.update_of_ne same] using stands
  distinct b c k first second := by
    by_cases sameB : b = a
    · subst sameB
      simp at first
    · by_cases sameC : c = a
      · subst sameC
        simp at second
      · rw [Function.update_of_ne sameB] at first
        rw [Function.update_of_ne sameC] at second
        exact tokens.distinct b c k first second
  dispatching b k dispatched := by
    obtain ⟨taken, kept, only⟩ := tokens.dispatching b k dispatched
    refine ⟨taken, kept, fun c => ?_⟩
    by_cases same : c = a
    · subst same
      simp
    · simpa only [Function.update_of_ne same] using only c

end Tokens

theorem Mode.tracks_of_principal {e : Entry} (principal : e.principal) : m.tracks e := by
  cases m with
  | plain => exact principal
  | opFirst => exact principal
  | drained => simp [Mode.tracks, principal]

namespace Rings
variable {outstanding outstanding' : List Entry}

/-- Only the task at `a` moves: its own entries have to fit the new standing. -/
theorem relocate (rings : Rings m state phase current outstanding)
    (off : ∀ b, b ≠ a → state' b = state b ∧ phase' b = phase b ∧ current' b = current b)
    (fits : ∀ e ∈ outstanding, m.tracks e → e.task = a →
      current' a = some e.submission ∧ m.InRing (phase' a) (state' a)) :
    Rings m state' phase' current' outstanding where
  entries e member tracked := by
    by_cases same : e.task = a
    · rw [same]
      exact fits e member tracked same
    · obtain ⟨sameState, samePhase, sameCurrent⟩ := off e.task same
      rw [sameState, samePhase, sameCurrent]
      exact rings.entries e member tracked
  single := rings.single
  pure := rings.pure

/-- While a client or the CAS gate has the task, none of its entries is out. -/
theorem none_of_held (rings : Rings m state phase current outstanding)
    (held : ¬ m.InRing (phase a) (state a)) {e : Entry} (member : e ∈ outstanding)
    (tracked : m.tracks e) (same : e.task = a) : False := by
  subst same
  exact held (rings.entries e member tracked).2

theorem perm (rings : Rings m state phase current outstanding)
    (moved : outstanding'.Perm outstanding) : Rings m state phase current outstanding' where
  entries e member := rings.entries e (moved.mem_iff.mp member)
  single opFirst :=
    ((moved.filter Entry.principal).map Entry.task).nodup_iff.mpr (rings.single opFirst)
  pure plain e member := rings.pure plain e (moved.mem_iff.mp member)

theorem drop (rings : Rings m state phase current outstanding)
    (fewer : outstanding'.Sublist outstanding) : Rings m state phase current outstanding' where
  entries e member := rings.entries e (fewer.subset member)
  single opFirst :=
    (rings.single opFirst).sublist ((fewer.filter Entry.principal).map Entry.task)
  pure plain e member := rings.pure plain e (fewer.subset member)

/-- A new principal entry needs a task that has none yet. -/
theorem push (rings : Rings m state phase current outstanding) {e : Entry}
    (fits : m.tracks e → current e.task = some e.submission ∧ m.InRing (phase e.task) (state e.task))
    (alone : m ≠ .drained → e.principal → ∀ other ∈ outstanding, other.principal → other.task ≠ e.task)
    (plain : m = .plain → e.principal) :
    Rings m state phase current (outstanding ++ [e]) where
  entries other member tracked := by
    rcases List.mem_append.mp member with member | member
    · exact rings.entries other member tracked
    · rw [List.mem_singleton] at member
      subst member
      exact fits tracked
  single opFirst := by
    have single := rings.single opFirst
    rw [List.filter_append, List.map_append, List.filter_singleton]
    cases principal : e.principal with
    | true =>
      refine List.nodup_append.mpr ⟨single, List.nodup_singleton _, ?_⟩
      intro b member c last same
      obtain ⟨other, kept, rfl⟩ := List.mem_map.mp member
      obtain ⟨out, otherPrincipal⟩ := List.mem_filter.mp kept
      rw [cond_true, List.map_singleton, List.mem_singleton] at last
      exact alone opFirst principal other out otherPrincipal (same.trans last)
    | false => simpa only [cond_false, List.map_nil, List.append_nil] using single
  pure mode other member := by
    rcases List.mem_append.mp member with member | member
    · exact rings.pure mode other member
    · rw [List.mem_singleton] at member
      subst member
      exact plain mode

end Rings

namespace Logged
variable {doomed doomed' : List Doom} {log : List Event}

theorem record (logged : Logged m phase current active released doomed log) {event : Event}
    (plain : ∀ e st, event ≠ .found e st) (own : m = .drained → event.isolated) :
    Logged m phase current active released doomed (event :: log) where
  found opFirst e st member := by
    rcases List.mem_cons.mp member with same | member
    · exact absurd same.symm (plain e st)
    · exact logged.found opFirst e st member
  doom := logged.doom
  own drained other member := by
    rcases List.mem_cons.mp member with rfl | member
    · exact own drained
    · exact logged.own drained other member

/-- Only the task at `a` moves, and nobody is about to delete it. -/
theorem relocate (logged : Logged m phase current active released doomed log)
    (off : ∀ b, b ≠ a → phase' b = phase b ∧ current' b = current b)
    (undoomed : m = .drained → ∀ d ∈ doomed, d.task ≠ a) :
    Logged m phase' current' active released doomed log where
  found := logged.found
  doom drained d member := by
    obtain ⟨samePhase, sameCurrent⟩ := off d.task (undoomed drained d member)
    rw [samePhase, sameCurrent]
    exact logged.doom drained d member
  own := logged.own

theorem rephase (logged : Logged m phase current active released doomed log) {p : Phase}
    (undoomed : m = .drained → p = .free ∨ ∀ d ∈ doomed, d.task ≠ a) :
    Logged m (Function.update phase a p) current active released doomed log where
  found := logged.found
  doom drained d member := by
    obtain ⟨idle, ended⟩ := logged.doom drained d member
    refine ⟨?_, ended⟩
    by_cases same : d.task = a
    · rw [same, Function.update_self]
      exact (undoomed drained).resolve_right fun clear => clear d member same
    · rw [Function.update_of_ne same]
      exact idle
  own := logged.own

/-- A task that is in a submission is not about to be deleted. -/
theorem undoomed (logged : Logged m phase current active released doomed log) (busy : phase a ≠ .free)
    (drained : m = .drained) (d : Doom) (member : d ∈ doomed) : d.task ≠ a := by
  rintro rfl
  exact busy (logged.doom drained d member).1

theorem dooming (logged : Logged m phase current active released doomed log)
    (idle : ∀ d ∈ doomed', d ∈ doomed ∨ phase d.task = .free ∧ current d.task = d.submission) :
    Logged m phase current active released doomed' log where
  found := logged.found
  doom drained d member := by
    rcases idle d member with member | idle
    · exact logged.doom drained d member
    · exact idle
  own := logged.own

theorem find (logged : Logged m phase current none released doomed log) {e : Entry} {st : TaskState}
    (seen : m ≠ .drained → e.principal → st = .kSubmitted ∧ active = some (e.task, e.submission)) :
    Logged m phase current active released doomed (.found e st :: log) where
  found opFirst other state member principal := by
    rcases List.mem_cons.mp member with same | member
    · obtain ⟨rfl, rfl⟩ := Event.found.inj same
      obtain ⟨submitted, dispatched⟩ := seen opFirst principal
      exact ⟨submitted, Or.inr dispatched⟩
    · obtain ⟨submitted, back | now⟩ := logged.found opFirst other state member principal
      · exact ⟨submitted, Or.inl back⟩
      · contradiction
  doom := logged.doom
  own drained event member := by
    rcases List.mem_cons.mp member with rfl | member
    · rfl
    · exact logged.own drained event member

theorem release (logged : Logged m phase current (some (a, k)) released doomed log) :
    Logged m phase current none (k :: released) doomed log where
  found opFirst e st member principal := by
    obtain ⟨submitted, back | now⟩ := logged.found opFirst e st member principal
    · exact ⟨submitted, Or.inl (List.mem_cons_of_mem k back)⟩
    · obtain ⟨-, rfl⟩ := Prod.mk.inj (Option.some.inj now)
      exact ⟨submitted, Or.inl List.mem_cons_self⟩
  doom := logged.doom
  own := logged.own

end Logged
end Talon.Handler
