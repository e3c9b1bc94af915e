import Talon.Memory.StackHistory
import Mathlib.Data.List.Infix

/-! Every interleaving of the lock-free stack refines the sequential list: the
chain in memory is the replay of the successful compare-exchanges, and these are
what the calls have returned. The tag turns "the head I read is still there" into
"nothing was published since". -/
namespace Talon.Memory.LockFreeStack
open Interleaving
variable {ι N : Type} [DecidableEq ι]

/-- The head word determined by a history. -/
def headOf (history : List (Operation N)) : TaggedPointer N :=
  ⟨(replay history).head?, BitVec.ofNat 64 history.length⟩

/-- The list was empty at some time since `first` updates, and not after `last`. -/
def Emptied (first last : Nat) (s : Shared ι N) : Prop :=
  ∃ k, first ≤ k ∧ k ≤ last ∧ last ≤ s.updates.length ∧ replay (s.history.take k) = []

/-- What thread `i` did before its latest call is what its calls have returned, and
this call has done one thing at most. A `Pop` returned null only if the list was
empty at some time of the call. -/
structure Answered (i : ι) (s : Shared ι N) : Prop where
  called : s.calledAt i ≤ s.updates.length
  returned : portion i (s.updates.take (s.calledAt i)) = (s.returned i).flatMap Returned.operations
  latest : (portion i (s.updates.drop (s.calledAt i))).length ≤ 1
  empty : ∀ call ∈ s.returned i, call.action = .pop → call.value = none → Emptied call.called call.returned s

structure Valid (s : Shared ι N) : Prop where
  head : s.head = headOf s.history
  linked : Linked s.next s.head.ptr (replay s.history)
  lawful : Lawful s.history
  owned : ∀ n, s.owner n = none ↔ n ∈ replay s.history
  answered : ∀ i, Answered i s

/-- What thread `i` keeps of a head it has read in this call: the head word at that time. -/
def Seen (i : ι) (oldHead : TaggedPointer N) (s : Shared ι N) : Prop :=
  s.calledAt i ≤ s.readAt i ∧ s.readAt i ≤ s.updates.length ∧ oldHead = headOf (s.history.take (s.readAt i))

/-- What the call of thread `i` has done so far. -/
def Made (i : ι) (operations : List (Operation N)) (s : Shared ι N) : Prop :=
  portion i (s.updates.drop (s.calledAt i)) = operations

/-- What thread `i` may be told of the call that it has made. -/
def Outcome (i : ι) (action : Action N) (value : Option N) (s : Shared ι N) : Prop :=
  Made i (action.operations value) s ∧
    (action = .pop → value = none → Emptied (s.calledAt i) s.updates.length s)

def Reports (i : ι) (s : Shared ι N) : Option (Action N × Option N) → Prop
  | none => Made i [] s
  | some (action, value) => Outcome i action value s

/-- The chain that thread `i` is about to publish. -/
structure Chain (i : ι) (nodes : List N) (chainHead chainTail : N) (s : Shared ι N) : Prop where
  begins : nodes.head? = some chainHead
  ends : nodes.getLast? = some chainTail
  unique : nodes.Nodup
  path : List.IsChain (fun a b => s.next a = some b) nodes
  owned : ∀ n ∈ nodes, s.owner n = some i

/-- Nodes of thread `i` stay its own, with their `next` untouched. -/
def Mine (i : ι) (s t : Shared ι N) : Prop :=
  ∀ n, s.owner n = some i → t.owner n = some i ∧ t.next n = s.next n

omit [DecidableEq ι] in
theorem Mine.trans {i : ι} {s t u : Shared ι N} (first : Mine i s t) (second : Mine i t u) :
    Mine i s u := by
  intro n owned
  obtain ⟨owned₁, same₁⟩ := first n owned
  obtain ⟨owned₂, same₂⟩ := second n owned₁
  exact ⟨owned₂, same₂.trans same₁⟩

/-- What the history says of thread `i`. -/
structure Same (i : ι) (s t : Shared ι N) : Prop where
  readAt : t.readAt i = s.readAt i
  calledAt : t.calledAt i = s.calledAt i
  portion : portion i t.updates = portion i s.updates

theorem Same.refl (i : ι) (s : Shared ι N) : Same i s s := ⟨rfl, rfl, rfl⟩

theorem Same.trans {i : ι} {s t u : Shared ι N} (first : Same i s t) (second : Same i t u) : Same i s u :=
  ⟨second.readAt.trans first.readAt, second.calledAt.trans first.calledAt, second.portion.trans first.portion⟩

def Keeps (i : ι) (s t : Shared ι N) : Prop := Same i s t ∧ Mine i s t

def discipline (i : ι) : Discipline (Shared ι N) where
  rely s t := (Valid s → Valid t) ∧ s.updates <+: t.updates ∧ Keeps i s t
  guar s t := (Valid s → Valid t) ∧ s.updates <+: t.updates ∧ ∀ j, j ≠ i → Keeps j s t
  allowed := TagsFresh
  rely_refl s := ⟨id, List.prefix_refl _, .refl i s, fun _ mine => ⟨mine, rfl⟩⟩
  rely_trans := by
    rintro s t u ⟨valid₁, grown₁, same₁, mine₁⟩ ⟨valid₂, grown₂, same₂, mine₂⟩
    exact ⟨valid₂ ∘ valid₁, grown₁.trans grown₂, same₁.trans same₂, mine₁.trans mine₂⟩

theorem guar_refl (i : ι) (s : Shared ι N) : (discipline i).guar s s :=
  ⟨id, List.prefix_refl _, fun j _ => ⟨.refl j s, fun _ theirs => ⟨theirs, rfl⟩⟩⟩

theorem guar_trans {i : ι} {s t u : Shared ι N} (first : (discipline i).guar s t)
    (second : (discipline i).guar t u) : (discipline i).guar s u := by
  obtain ⟨valid₁, grown₁, keeps₁⟩ := first
  obtain ⟨valid₂, grown₂, keeps₂⟩ := second
  refine ⟨valid₂ ∘ valid₁, grown₁.trans grown₂, fun j other => ?_⟩
  obtain ⟨same₁, mine₁⟩ := keeps₁ j other
  obtain ⟨same₂, mine₂⟩ := keeps₂ j other
  exact ⟨same₁.trans same₂, mine₁.trans mine₂⟩

/-- A procedure is entered before its call has done anything, and leaves what its
caller may be told. -/
def contract (i : ι) : Contract (Shared ι N) (Procedure N) (Option N) where
  A _ := Unit
  pre
    | .push node, _, s => Valid s ∧ Made i [] s ∧ s.owner node = some i
    | .pushLoop node oldHead, _, s => Valid s ∧ Made i [] s ∧ s.owner node = some i ∧ Seen i oldHead s
    | .pop, _, s => Valid s ∧ Made i [] s
    | .popLoop oldHead, _, s => Valid s ∧ Made i [] s ∧ Seen i oldHead s
    | .pushChain nodes chainHead chainTail, _, s =>
        Valid s ∧ Made i [] s ∧ Chain i nodes chainHead chainTail s
    | .pushChainLoop nodes chainHead chainTail oldHead, _, s =>
        Valid s ∧ Made i [] s ∧ Chain i nodes chainHead chainTail s ∧ Seen i oldHead s
    | .client last, _, s => Valid s ∧ Reports i s last
  post
    | .push node, _, value, s | .pushLoop node _, _, value, s => Valid s ∧ Outcome i (.push node) value s
    | .pop, _, value, s | .popLoop _, _, value, s => Valid s ∧ Outcome i .pop value s
    | .pushChain nodes _ _, _, value, s | .pushChainLoop nodes _ _ _, _, value, s =>
        Valid s ∧ Outcome i (.pushChain nodes) value s
    | .client _, _, _, s => Valid s

omit [DecidableEq ι] in
theorem take_of_grows {s t : Shared ι N} {n : Nat} (grown : s.updates <+: t.updates)
    (bound : n ≤ s.updates.length) : t.history.take n = s.history.take n := by
  obtain ⟨later, whole⟩ : s.history <+: t.history := grown.map _
  have within : n ≤ s.history.length := by
    simpa only [Shared.history, List.length_map] using bound
  rw [← whole, List.take_append_of_le_length within]

theorem Seen.stable {i : ι} {oldHead : TaggedPointer N} {s t : Shared ι N}
    (seen : Seen i oldHead s) (moved : (discipline i).rely s t) : Seen i oldHead t := by
  obtain ⟨_, grown, notes, _⟩ := moved
  obtain ⟨since, bound, same⟩ := seen
  refine ⟨by rw [notes.calledAt, notes.readAt]; exact since,
    by rw [notes.readAt]; exact bound.trans grown.length_le, ?_⟩
  rw [same, notes.readAt, take_of_grows grown bound]

theorem Made.stable {i : ι} {operations : List (Operation N)} {s t : Shared ι N} (made : Made i operations s)
    (valid : Valid s) (moved : (discipline i).rely s t) : Made i operations t := by
  obtain ⟨_, grown, notes, _⟩ := moved
  rw [Made, notes.calledAt, portion_drop_of_prefix grown notes.portion (valid.answered i).called]
  exact made

omit [DecidableEq ι] in
theorem Emptied.later {first last : Nat} {s t : Shared ι N} (emptied : Emptied first last s)
    (grown : s.updates <+: t.updates) : Emptied first t.updates.length t ∧ Emptied first last t := by
  obtain ⟨k, since, bound, within, nothing⟩ := emptied
  have still : replay (t.history.take k) = [] := by
    rw [take_of_grows grown (bound.trans within)]
    exact nothing
  have more := within.trans grown.length_le
  exact ⟨⟨k, since, bound.trans more, Nat.le_refl _, still⟩, k, since, bound, more, still⟩

theorem Outcome.stable {i : ι} {action : Action N} {value : Option N} {s t : Shared ι N}
    (outcome : Outcome i action value s) (valid : Valid s) (moved : (discipline i).rely s t) :
    Outcome i action value t := by
  refine ⟨outcome.1.stable valid moved, fun pops null => ?_⟩
  rw [moved.2.2.1.calledAt]
  exact ((outcome.2 pops null).later moved.2.1).1

theorem Reports.stable {i : ι} {last : Option (Action N × Option N)} {s t : Shared ι N}
    (reports : Reports i s last) (valid : Valid s) (moved : (discipline i).rely s t) : Reports i t last := by
  cases last with
  | none => exact Made.stable reports valid moved
  | some last => exact Outcome.stable reports valid moved

omit [DecidableEq ι] in
theorem Chain.stable {i : ι} {nodes : List N} {chainHead chainTail : N} {s t : Shared ι N}
    (chain : Chain i nodes chainHead chainTail s) (mine : Mine i s t) :
    Chain i nodes chainHead chainTail t := by
  refine ⟨chain.begins, chain.ends, chain.unique, ?_, fun n member => (mine n (chain.owned n member)).1⟩
  apply chain.path.imp_of_mem_imp
  intro a b inA inB step
  rw [(mine a (chain.owned a inA)).2]
  exact step

/-- The head a thread read is still in place only if nothing was published
since: equal tags are equal counts as long as fewer than 2^64 lie between. -/
theorem Seen.current {i : ι} {oldHead : TaggedPointer N} {s : Shared ι N} (valid : Valid s)
    (seen : Seen i oldHead s) (same : s.head = oldHead)
    (fresh : s.updates.length < s.readAt i + 2 ^ 64) : s.readAt i = s.updates.length := by
  obtain ⟨-, bound, old⟩ := seen
  have size : s.history.length = s.updates.length := List.length_map _
  have heads : headOf s.history = headOf (s.history.take (s.readAt i)) :=
    valid.head.symm.trans (same.trans old)
  have tags := congrArg (fun h => h.tag.toNat) heads
  simp only [headOf, BitVec.toNat_ofNat, List.length_take, size, Nat.min_eq_left bound] at tags
  omega

theorem Answered.of_same {i : ι} {s t : Shared ι N} (answered : Answered i s) (updates : t.updates = s.updates)
    (called : t.calledAt i = s.calledAt i) (returned : t.returned i = s.returned i) : Answered i t := by
  refine ⟨?_, ?_, ?_, fun call member pops null => ?_⟩
  · rw [called, updates]
    exact answered.called
  · rw [called, updates, returned]
    exact answered.returned
  · rw [called, updates]
    exact answered.latest
  · rw [returned] at member
    exact ((answered.empty call member pops null).later (updates ▸ List.prefix_refl _)).2

/-- The caller takes note of what its call has returned. -/
theorem Answered.receive {i : ι} {last : Option (Action N × Option N)} {s : Shared ι N}
    (answered : ∀ j, Answered j s) (reports : Reports i s last) (j : ι) : Answered j (s.receive i last) := by
  by_cases same : j = i
  · subst same
    obtain ⟨called, returned, latest, empty⟩ := answered j
    have whole : portion j s.updates =
        (s.returned j).flatMap Returned.operations ++ portion j (s.updates.drop (s.calledAt j)) := by
      rw [← returned, ← portion_append, List.take_append_drop]
    refine ⟨by simp [Shared.receive], ?_, by simp [Shared.receive, portion_nil], fun call member pops null => ?_⟩
    · simp only [Shared.receive, Function.update_self, List.take_length, List.flatMap_append, whole,
        List.append_cancel_left_eq]
      cases last with
      | none => exact reports
      | some last =>
        have made : Made j (last.1.operations last.2) s := reports.1
        simpa [Returned.operations, Made] using made
    · simp only [Shared.receive, Function.update_self, List.mem_append, Option.mem_toList, Option.map_eq_some_iff] at member
      rcases member with earlier | ⟨⟨action, value⟩, rfl, rfl⟩
      · exact empty call earlier pops null
      · exact reports.2 pops null
  · exact (answered j).of_same rfl (Function.update_of_ne same _ _) (Function.update_of_ne same _ _)

theorem Valid.read {s : Shared ι N} (valid : Valid s) (i : ι) : Valid (s.read i) :=
  ⟨valid.head, valid.linked, valid.lawful, valid.owned, fun j => (valid.answered j).of_same rfl rfl rfl⟩

theorem Valid.receive {i : ι} {last : Option (Action N × Option N)} {s : Shared ι N} (valid : Valid s)
    (reports : Reports i s last) : Valid (s.receive i last) :=
  ⟨valid.head, valid.linked, valid.lawful, valid.owned, Answered.receive valid.answered reports⟩

theorem made_receive (i : ι) (last : Option (Action N × Option N)) (s : Shared ι N) :
    Made i [] (s.receive i last) := by
  simp [Made, Shared.receive, portion_nil]

theorem guar_receive {i : ι} {last : Option (Action N × Option N)} {s : Shared ι N} (valid : Valid s)
    (reports : Reports i s last) : (discipline i).guar s (s.receive i last) := by
  refine ⟨fun _ => valid.receive reports, List.prefix_refl _, fun j other => ⟨?_, fun n mine => ⟨mine, rfl⟩⟩⟩
  exact ⟨rfl, Function.update_of_ne other _ _, rfl⟩

theorem seen_read {s : Shared ι N} (valid : Valid s) (i : ι) : Seen i s.head (s.read i) := by
  have size : s.history.length = s.updates.length := List.length_map _
  refine ⟨by simpa [Shared.read] using (valid.answered i).called, by simp [Shared.read], ?_⟩
  have whole : (s.read i).history.take ((s.read i).readAt i) = s.history := by
    simp only [Shared.read, Function.update_self]
    exact List.take_of_length_le size.le
  rw [whole]
  exact valid.head

theorem guar_read (i : ι) (s : Shared ι N) : (discipline i).guar s (s.read i) := by
  refine ⟨fun valid => valid.read i, List.prefix_refl _, fun j other => ⟨?_, fun n mine => ⟨mine, rfl⟩⟩⟩
  exact ⟨Function.update_of_ne other _ _, rfl, rfl⟩

variable [DecidableEq N]

/-- An update counts as done by the latest call. -/
theorem Answered.commit {i : ι} {newHead : TaggedPointer N} {operation : Operation N} {s : Shared ι N}
    (answered : ∀ j, Answered j s) (made : Made i [] s) (j : ι) : Answered j (s.commit i newHead operation) := by
  obtain ⟨called, returned, latest, empty⟩ := answered j
  have grown : s.updates <+: (s.commit i newHead operation).updates := List.prefix_append _ _
  refine ⟨called.trans grown.length_le, ?_, ?_, fun call member pops null => ?_⟩
  · simp only [Shared.commit, List.take_append_of_le_length called]
    exact returned
  · simp only [Shared.commit, List.drop_append_of_le_length called]
    by_cases same : i = j
    · subst same
      rw [portion_snoc, made]
      exact Nat.le_refl 1
    · rw [portion_snoc_of_ne same]
      exact latest
  · exact ((empty call member pops null).later grown).2

/-- A plain store to a node of the thread's own is invisible to the stack. -/
theorem guar_store {i : ι} {node : N} (value : Option N) {s : Shared ι N}
    (mine : s.owner node = some i) :
    (discipline i).guar s { s with next := Function.update s.next node value } := by
  refine ⟨fun valid => ?_, List.prefix_refl _, fun j other =>
    ⟨⟨rfl, rfl, rfl⟩, fun n theirs => ⟨theirs, ?_⟩⟩⟩
  · have absent : node ∉ replay s.history := by
      rw [← valid.owned node, mine]
      simp
    exact ⟨valid.head, valid.linked.update absent, valid.lawful, valid.owned,
      fun j => (valid.answered j).of_same rfl rfl rfl⟩
  · have different : n ≠ node := by
      rintro rfl
      rw [mine] at theirs
      exact other (Option.some.inj theirs).symm
    exact Function.update_of_ne different _ _

omit [DecidableEq ι] in
theorem history_commit (i : ι) (newHead : TaggedPointer N) (operation : Operation N)
    (s : Shared ι N) : (s.commit i newHead operation).history = s.history ++ [operation] := by
  simp only [Shared.history, Shared.commit, List.map_append, List.map_cons, List.map_nil]

/-- Publishing a lawful operation: the chain, the tag and the owners follow. -/
theorem Valid.commit {i : ι} {ptr : Option N} {operation : Operation N} {s : Shared ι N}
    (valid : Valid s) (made : Made i [] s) (lawful : Lawful (s.history ++ [operation]))
    (linked : Linked s.next ptr (operation.apply (replay s.history)))
    (owned : ∀ n, transfer i s.owner operation n = none ↔ n ∈ operation.apply (replay s.history)) :
    Valid (s.commit i ⟨ptr, s.head.tag + 1⟩ operation) := by
  refine ⟨?_, ?_, ?_, ?_, Answered.commit valid.answered made⟩
  · rw [history_commit, headOf, replay_snoc, ← linked.head, List.length_append]
    simp only [Shared.commit, valid.head, headOf, List.length_singleton, BitVec.ofNat_add]
    rfl
  · rw [history_commit, replay_snoc]
    exact linked
  · rw [history_commit]
    exact lawful
  · rw [history_commit, replay_snoc]
    exact owned

/-- A published operation touches no other thread's nodes. -/
theorem guar_commit {i : ι} {newHead : TaggedPointer N} {operation : Operation N}
    {s : Shared ι N} (valid : Valid (s.commit i newHead operation))
    (others : ∀ n j, j ≠ i → s.owner n = some j → transfer i s.owner operation n = some j) :
    (discipline i).guar s (s.commit i newHead operation) :=
  ⟨fun _ => valid, List.prefix_append _ _, fun j other =>
    ⟨⟨rfl, rfl, portion_snoc_of_ne (Ne.symm other)⟩, fun n theirs => ⟨others n j other theirs, rfl⟩⟩⟩

theorem push_commits {i : ι} {node : N} {s : Shared ι N} (valid : Valid s) (made : Made i [] s)
    (mine : s.owner node = some i) (joined : s.next node = s.head.ptr) :
    Valid (s.commit i ⟨some node, s.head.tag + 1⟩ (.push node)) ∧
      (discipline i).guar s (s.commit i ⟨some node, s.head.tag + 1⟩ (.push node)) := by
  have absent : node ∉ replay s.history := by
    rw [← valid.owned node, mine]
    simp
  have published : Valid (s.commit i ⟨some node, s.head.tag + 1⟩ (.push node)) := by
    refine valid.commit made (valid.lawful.push absent) ⟨rfl, joined ▸ valid.linked⟩ fun n => ?_
    by_cases same : n = node
    · simp [transfer, Operation.apply, same]
    · simp [transfer, Operation.apply, same, valid.owned n]
  refine ⟨published, guar_commit published fun n j other theirs => ?_⟩
  have different : n ≠ node := by
    rintro rfl
    rw [mine] at theirs
    exact other (Option.some.inj theirs).symm
  simpa only [transfer, Function.update_of_ne different] using theirs

theorem pop_commits {i : ι} {node : N} {next : Option N} {s : Shared ι N} (valid : Valid s)
    (made : Made i [] s)
    (top : s.head.ptr = some node) (follows : next = (replay s.history).tail.head?) :
    Valid (s.commit i ⟨next, s.head.tag + 1⟩ (.pop node)) ∧
      (discipline i).guar s (s.commit i ⟨next, s.head.tag + 1⟩ (.pop node)) := by
  have first : (replay s.history).head? = some node := valid.linked.head.symm.trans top
  have rest := valid.linked.tail first
  have unique := valid.lawful.nodup
  have member : node ∈ replay s.history := List.mem_of_head? first
  have gone : node ∉ (replay s.history).tail := by
    cases contents : replay s.history with
    | nil => simp
    | cons n tail =>
      rw [contents] at first unique
      cases Option.some.inj first
      exact (List.nodup_cons.mp unique).1
  have published : Valid (s.commit i ⟨next, s.head.tag + 1⟩ (.pop node)) := by
    refine valid.commit made (valid.lawful.pop first) ?_ fun n => ?_
    · rw [follows, ← rest.head]
      exact rest
    · by_cases same : n = node
      · simp [transfer, Operation.apply, same, gone]
      · have kept : n ∈ (replay s.history).tail ↔ n ∈ replay s.history := by
          cases contents : replay s.history with
          | nil => simp
          | cons m tail =>
            rw [contents] at first
            cases Option.some.inj first
            simp [same]
        simp only [transfer, Operation.apply, Function.update_of_ne same, valid.owned n, kept]
  refine ⟨published, guar_commit published fun n j other theirs => ?_⟩
  have different : n ≠ node := by
    rintro rfl
    rw [(valid.owned n).mpr member] at theirs
    contradiction
  simpa only [transfer, Function.update_of_ne different] using theirs

theorem pushChain_commits {i : ι} {nodes : List N} {chainHead chainTail : N} {s : Shared ι N}
    (valid : Valid s) (made : Made i [] s) (chain : Chain i nodes chainHead chainTail s)
    (joined : s.next chainTail = s.head.ptr) :
    Valid (s.commit i ⟨some chainHead, s.head.tag + 1⟩ (.pushChain nodes)) ∧
      (discipline i).guar s (s.commit i ⟨some chainHead, s.head.tag + 1⟩ (.pushChain nodes)) := by
  have absent : ∀ n ∈ nodes, n ∉ replay s.history := by
    intro n member
    rw [← valid.owned n, chain.owned n member]
    simp
  have published : Valid (s.commit i ⟨some chainHead, s.head.tag + 1⟩ (.pushChain nodes)) := by
    refine valid.commit made (valid.lawful.pushChain chain.unique absent) ?_ fun n => ?_
    · rw [← chain.begins]
      exact valid.linked.prepend chain.path chain.ends joined
    · by_cases inside : n ∈ nodes
      · simp [transfer, Operation.apply, inside]
      · simp [transfer, Operation.apply, inside, valid.owned n]
  refine ⟨published, guar_commit published fun n j other theirs => ?_⟩
  have outside : n ∉ nodes := by
    intro inside
    rw [chain.owned n inside] at theirs
    exact other (Option.some.inj theirs).symm
  simpa only [transfer, outside, if_false] using theirs

/-- The three loops share one compare-exchange rule: a win publishes in a state
where nothing happened since the read, a loss leaves a fresh reading. -/
theorem wp_compareExchangeWeak {i : ι} {oldHead newHead : TaggedPointer N}
    {operation : Operation N} (ready : Shared ι N → Prop)
    {post : Option (TaggedPointer N) → Shared ι N → Prop} {s : Shared ι N}
    (valid : Valid s) (made : Made i [] s) (seen : Seen i oldHead s)
    (stable : ∀ t, (discipline i).rely s t → ready t)
    (wins : ∀ t, ready t → Valid t → Made i [] t → t.head = oldHead → t.readAt i = t.updates.length →
      Valid (t.commit i newHead operation) ∧ (discipline i).guar t (t.commit i newHead operation))
    (won : ∀ t, Valid t → Made i [operation] t → post none t)
    (lost : ∀ t found, Valid t → Made i [] t → Seen i found t → Mine i s t → post (some found) t) :
    wp (discipline i) (contract i) (compareExchangeWeak i oldHead newHead operation) post s := by
  apply wp_atomic
  intro t moved c u stepped fresh
  have validT := moved.1 valid
  have madeT := made.stable valid moved
  by_cases hit : t.head = oldHead ∧ c.spurious = false
  · simp only [hit, and_self, if_true, Option.some.injEq] at stepped ⊢
    subst stepped
    have current := (seen.stable moved).current validT hit.1 (fresh i operation rfl)
    obtain ⟨published, promised⟩ := wins t (stable t moved) validT madeT hit.1 current
    have did : Made i [operation] (t.commit i newHead operation) := by
      have called : t.calledAt i ≤ t.updates.length := (validT.answered i).called
      simp only [Made, Shared.commit, List.drop_append_of_le_length called, portion_snoc]
      rw [madeT, List.nil_append]
    exact ⟨promised, fun v later => won v (later.1 published) (did.stable published later)⟩
  · simp only [if_neg hit, Option.some.injEq] at stepped ⊢
    subst stepped
    refine ⟨guar_read i t, fun v later => ?_⟩
    have mine : Mine i s v := moved.2.2.2.trans later.2.2.2
    have madeV : Made i [] v := Made.stable (s := t.read i) madeT (validT.read i) later
    exact lost v t.head (later.1 (validT.read i)) madeV ((seen_read validT i).stable later) mine

omit [DecidableEq N] in
theorem wp_loadHead {i : ι} {post : TaggedPointer N → Shared ι N → Prop} {s : Shared ι N}
    (valid : Valid s) (made : Made i [] s)
    (holds : ∀ t found, Valid t → Made i [] t → Seen i found t → Mine i s t → post found t) :
    wp (discipline i) (contract i) (loadHead i) post s := by
  apply wp_atomic
  intro t moved c u stepped _
  cases Option.some.inj stepped
  have validT := moved.1 valid
  refine ⟨guar_read i t, fun v later => ?_⟩
  have mine : Mine i s v := moved.2.2.2.trans later.2.2.2
  have madeT : Made i [] t := made.stable valid moved
  have madeV : Made i [] v := Made.stable (s := t.read i) madeT (validT.read i) later
  exact holds v t.head (later.1 (validT.read i)) madeV ((seen_read validT i).stable later) mine

theorem wp_storeNext {i : ι} {node : N} {value : Option N} {post : Unit → Shared ι N → Prop}
    {s : Shared ι N} (mine : s.owner node = some i)
    (holds : ∀ t u, (discipline i).rely s t →
      (discipline i).rely { t with next := Function.update t.next node value } u → post () u) :
    wp (discipline i) (contract i) (storeNext node value) post s := by
  apply wp_atomic
  intro t moved c u stepped _
  cases Option.some.inj stepped
  exact ⟨guar_store value (moved.2.2.2 node mine).1, fun v later => holds t v moved later⟩

omit [DecidableEq ι] in
/-- A store to the thread's own node keeps its reading of the head, and is no update. -/
theorem Seen.store {i : ι} {oldHead : TaggedPointer N} {node : N} {value : Option N}
    {s : Shared ι N} (seen : Seen i oldHead s) :
    Seen i oldHead { s with next := Function.update s.next node value } := seen

theorem Made.store {i : ι} {operations : List (Operation N)} {node : N} {value : Option N}
    {s : Shared ι N} (made : Made i operations s) :
    Made i operations { s with next := Function.update s.next node value } := made

omit [DecidableEq N] in
/-- The end of a call. -/
theorem wp_returns {i : ι} {action : Action N} {value : Option N} {s : Shared ι N} (valid : Valid s)
    (outcome : Outcome i action value s) :
    wp (discipline i) (contract i) (return value : Code ι N (Option N))
      (fun value t => Valid t ∧ Outcome i action value t) s :=
  wp_ret fun _ moved => ⟨moved.1 valid, outcome.stable valid moved⟩

omit [DecidableEq N] in
/-- A call that goes on in another procedure ends as that one does. -/
theorem wp_continues {i : ι} {action : Action N} {f : Procedure N} {s : Shared ι N}
    (ends : ∀ value t, (contract i).post f () value t → Valid t ∧ Outcome i action value t)
    (pre : ∀ t, (discipline i).rely s t → (contract i).pre f () t) :
    wp (discipline i) (contract i) (.enter f : Code ι N (Option N))
      (fun value t => Valid t ∧ Outcome i action value t) s := by
  refine wp_enter fun t moved => ⟨(), pre t moved, fun value u done v later => ?_⟩
  obtain ⟨valid, outcome⟩ := ends value u done
  exact ⟨later.1 valid, outcome.stable valid later⟩

theorem push_verified (i : ι) (node : N) (oldHead : TaggedPointer N) (s : Shared ι N) (valid : Valid s)
    (made : Made i [] s) (mine : s.owner node = some i) (seen : Seen i oldHead s) :
    wp (discipline i) (contract i) (code i (.pushLoop node oldHead))
      (fun value t => Valid t ∧ Outcome i (.push node) value t) s := by
  apply wp_bind
  apply wp_storeNext mine
  intro t u moved later
  have owned := (moved.2.2.2 node mine).1
  have validT := moved.1 valid
  have stored := (guar_store oldHead.ptr owned).1 validT
  have validU := later.1 stored
  have madeU : Made i [] u := Made.stable (made.stable valid moved).store stored later
  have seenU : Seen i oldHead u := Seen.stable (seen.stable moved).store later
  obtain ⟨ownedU, joined⟩ := later.2.2.2 node owned
  simp only [Function.update_self] at joined
  apply wp_bind
  refine wp_compareExchangeWeak (fun v => v.owner node = some i ∧ v.next node = oldHead.ptr)
    validU madeU seenU ?_ ?_ ?_ ?_
  · intro v moved
    obtain ⟨ownedV, same⟩ := moved.2.2.2 node ownedU
    exact ⟨ownedV, same.trans joined⟩
  · rintro v ⟨ownedV, joinedV⟩ validV madeV same _
    subst same
    exact push_commits validV madeV ownedV joinedV
  · exact fun v validV did => wp_returns validV ⟨did, fun pops => by contradiction⟩
  · intro v found validV madeV seenV mineV
    refine wp_continues (fun _ _ => id) fun w later => ⟨later.1 validV, madeV.stable validV later, ?_, seenV.stable later⟩
    exact (later.2.2.2 node (mineV node ownedU).1).1

/-- What `Pop` knows of the `next` field it read: worthless once the stack has
changed, exact as long as it has not. -/
def Follows (i : ι) (next : Option N) (s : Shared ι N) : Prop :=
  s.readAt i = s.updates.length → next = (replay s.history).tail.head?

omit [DecidableEq N] in
theorem Follows.stable {i : ι} {next : Option N} {s t : Shared ι N} (follows : Follows i next s)
    (bound : s.readAt i ≤ s.updates.length) (moved : (discipline i).rely s t) :
    Follows i next t := by
  obtain ⟨_, grown, ⟨read, _, _⟩, _⟩ := moved
  intro current
  have size := grown.length_le
  have same : s.updates = t.updates := grown.eq_of_length_le (by omega)
  rw [show t.history = s.history by simp only [Shared.history, same]]
  exact follows (by omega)

omit [DecidableEq N] in
theorem follows_load {i : ι} {node : N} {oldHead : TaggedPointer N} {s : Shared ι N}
    (valid : Valid s) (seen : Seen i oldHead s) (top : oldHead.ptr = some node) :
    Follows i (s.next node) s := by
  intro current
  have size : s.history.length = s.updates.length := List.length_map _
  have whole : s.history.take (s.readAt i) = s.history := List.take_of_length_le (by omega)
  have head : s.head = oldHead := by rw [valid.head, seen.2.2, whole]
  have first : (replay s.history).head? = some node := by
    rw [← valid.linked.head, head, top]
  exact (valid.linked.tail first).head

omit [DecidableEq ι] [DecidableEq N] in
/-- A null head that the call has read: the list was empty then. -/
theorem Seen.emptied {i : ι} {oldHead : TaggedPointer N} {s : Shared ι N} (seen : Seen i oldHead s)
    (null : oldHead.ptr = none) : Emptied (s.calledAt i) s.updates.length s := by
  obtain ⟨since, bound, old⟩ := seen
  rw [old] at null
  exact ⟨_, since, bound, Nat.le_refl _, List.head?_eq_none_iff.mp null⟩

theorem pop_verified (i : ι) (oldHead : TaggedPointer N) (s : Shared ι N)
    (valid : Valid s) (made : Made i [] s) (seen : Seen i oldHead s) :
    wp (discipline i) (contract i) (code i (.popLoop oldHead))
      (fun value t => Valid t ∧ Outcome i .pop value t) s := by
  cases top : oldHead.ptr with
  | none =>
    simp only [code, top]
    exact wp_returns valid ⟨made, fun _ _ => seen.emptied top⟩
  | some node =>
    simp only [code, top]
    apply wp_bind
    apply wp_atomic
    intro t moved c u stepped _
    cases Option.some.inj stepped
    refine ⟨guar_refl i _, fun v later => ?_⟩
    have seenT := seen.stable moved
    have validT := moved.1 valid
    have follows := (follows_load validT seenT top).stable seenT.2.1 later
    have seenV := seenT.stable later
    have madeV := (made.stable valid moved).stable validT later
    apply wp_bind
    refine wp_compareExchangeWeak (Follows i (t.next node)) (later.1 validT) madeV seenV ?_ ?_ ?_ ?_
    · exact fun w moved => follows.stable seenV.2.1 moved
    · intro w followsW validW madeW same current
      subst same
      exact pop_commits validW madeW top (followsW current)
    · exact fun w validW did => wp_returns validW ⟨did, fun _ null => by contradiction⟩
    · intro w found validW madeW seenW _
      exact wp_continues (fun _ _ => id) fun x later =>
        ⟨later.1 validW, madeW.stable validW later, seenW.stable later⟩

theorem pushChain_verified (i : ι) (nodes : List N) (chainHead chainTail : N)
    (oldHead : TaggedPointer N) (s : Shared ι N) (valid : Valid s) (made : Made i [] s)
    (chain : Chain i nodes chainHead chainTail s) (seen : Seen i oldHead s) :
    wp (discipline i) (contract i) (code i (.pushChainLoop nodes chainHead chainTail oldHead))
      (fun value t => Valid t ∧ Outcome i (.pushChain nodes) value t) s := by
  have inside : chainTail ∈ nodes := List.mem_of_getLast? chain.ends
  apply wp_bind
  apply wp_storeNext (chain.owned _ inside)
  intro t u moved later
  have chainT := chain.stable moved.2.2.2
  have owned := chainT.owned _ inside
  have linked : Chain i nodes chainHead chainTail
      { t with next := Function.update t.next chainTail oldHead.ptr } :=
    ⟨chainT.begins, chainT.ends, chainT.unique,
      isChain_update_last oldHead.ptr chainT.path chainT.unique chainT.ends, chainT.owned⟩
  have stored := (guar_store oldHead.ptr owned).1 (moved.1 valid)
  have validU := later.1 stored
  have chainU := linked.stable later.2.2.2
  have madeU : Made i [] u := Made.stable (made.stable valid moved).store stored later
  have seenU : Seen i oldHead u := Seen.stable (seen.stable moved).store later
  have joined := (later.2.2.2 chainTail owned).2
  simp only [Function.update_self] at joined
  apply wp_bind
  refine wp_compareExchangeWeak
    (fun v => Chain i nodes chainHead chainTail v ∧ v.next chainTail = oldHead.ptr)
    validU madeU seenU ?_ ?_ ?_ ?_
  · intro v moved
    exact ⟨chainU.stable moved.2.2.2,
      (moved.2.2.2 chainTail (chainU.owned _ inside)).2.trans joined⟩
  · rintro v ⟨chainV, joinedV⟩ validV madeV same _
    subst same
    exact pushChain_commits validV madeV chainV joinedV
  · exact fun v validV did => wp_returns validV ⟨did, fun pops => by contradiction⟩
  · intro v found validV madeV seenV mineV
    have chainV := chainU.stable mineV
    exact wp_continues (fun _ _ => id) fun w later =>
      ⟨later.1 validV, madeV.stable validV later, chainV.stable later.2.2.2, seenV.stable later⟩

omit [DecidableEq N] in
theorem wp_client {i : ι} {action : Action N} {value : Option N} {s : Shared ι N} (valid : Valid s)
    (outcome : Outcome i action value s) :
    wp (discipline i) (contract i) (.enter (.client (some (action, value))) : Code ι N _) (fun _ t => Valid t) s :=
  wp_enter fun _ moved =>
    ⟨(), ⟨moved.1 valid, outcome.stable valid moved⟩, fun _ _ validU _ later => later.1 validU⟩

omit [DecidableEq N] in
/-- The client is told what its call has returned. -/
theorem wp_calls {i : ι} {action : Action N} {f : Procedure N} {s : Shared ι N}
    (ends : ∀ value t, (contract i).post f () value t → Valid t ∧ Outcome i action value t)
    (pre : ∀ t, (discipline i).rely s t → (contract i).pre f () t) :
    wp (discipline i) (contract i) (do
      let value ← .enter f
      .enter (.client (some (action, value))) : Code ι N (Option N)) (fun _ t => Valid t) s := by
  apply wp_bind
  refine wp_mono ?_ (wp_continues ends pre)
  exact fun value t done => wp_client done.1 done.2

/-- The caller takes note of its last call and picks the next one among the permitted ones. -/
theorem client_verified (i : ι) (last : Option (Action N × Option N)) (s : Shared ι N) (valid : Valid s)
    (reports : Reports i s last) :
    wp (discipline i) (contract i) (code i (.client last)) (fun _ t => Valid t) s := by
  apply wp_bind
  apply wp_atomic
  intro t moved c u stepped _
  obtain ⟨permitted, same⟩ := Option.ite_none_right_eq_some.mp stepped
  cases same
  have validT := moved.1 valid
  have reportsT := reports.stable valid moved
  have received : Valid (t.receive i last) := validT.receive reportsT
  have made : Made i [] (t.receive i last) := made_receive i last t
  have promised : (discipline i).guar t (t.receive i last) := guar_receive validT reportsT
  cases action : c.action with
  | push node =>
    rw [action] at permitted
    refine ⟨promised, fun v later => ?_⟩
    refine wp_calls (fun _ _ => id) fun w moved => ⟨moved.1 (later.1 received), ?_, ?_⟩
    · exact (made.stable received later).stable (later.1 received) moved
    · exact (moved.2.2.2 node (later.2.2.2 node permitted).1).1
  | pop =>
    refine ⟨promised, fun v later => ?_⟩
    refine wp_calls (fun _ _ => id) fun w moved => ⟨moved.1 (later.1 received), ?_⟩
    exact (made.stable received later).stable (later.1 received) moved
  | pushChain nodes =>
    rw [action] at permitted
    refine ⟨promised, fun v later => ?_⟩
    obtain ⟨nonempty, unique, path, owned⟩ := permitted
    cases begins : nodes.head? with
    | none => exact absurd (List.head?_eq_none_iff.mp begins) nonempty
    | some chainHead =>
      cases ends : nodes.getLast? with
      | none => exact absurd (List.getLast?_eq_none_iff.mp ends) nonempty
      | some chainTail =>
        have chain : Chain i nodes chainHead chainTail (t.receive i last) :=
          ⟨begins, ends, unique, path, owned⟩
        simp only [begins, ends]
        refine wp_calls (fun _ _ => id) fun w moved => ⟨moved.1 (later.1 received), ?_, ?_⟩
        · exact (made.stable received later).stable (later.1 received) moved
        · exact (chain.stable later.2.2.2).stable moved.2.2.2
  | scribble node value =>
    rw [action] at permitted
    have scribbled : (discipline i).guar (t.receive i last) ((t.receive i last).perform (.scribble node value)) :=
      guar_store value permitted
    have validV := scribbled.1 received
    refine ⟨guar_trans promised scribbled, fun v later => ?_⟩
    have outcome : Outcome i (.scribble node value) none ((t.receive i last).perform (.scribble node value)) :=
      ⟨made, fun pops => by contradiction⟩
    exact wp_client (later.1 validV) (outcome.stable validV later)

theorem verified (i : ι) : Verified (discipline i) (contract i) (code (N := N) i) := by
  intro f x s pre
  cases f with
  | push node =>
    obtain ⟨valid, made, mine⟩ := pre
    apply wp_bind
    apply wp_loadHead valid made
    intro t found validT madeT seen kept
    refine wp_continues (fun _ _ => id) fun u moved => ⟨moved.1 validT, madeT.stable validT moved, ?_, seen.stable moved⟩
    exact (moved.2.2.2 node (kept node mine).1).1
  | pushLoop node oldHead =>
    obtain ⟨valid, made, mine, seen⟩ := pre
    exact push_verified i node oldHead s valid made mine seen
  | pop =>
    obtain ⟨valid, made⟩ := pre
    apply wp_bind
    apply wp_loadHead valid made
    intro t found validT madeT seen _
    exact wp_continues (fun _ _ => id) fun u moved =>
      ⟨moved.1 validT, madeT.stable validT moved, seen.stable moved⟩
  | popLoop oldHead =>
    obtain ⟨valid, made, seen⟩ := pre
    exact pop_verified i oldHead s valid made seen
  | pushChain nodes chainHead chainTail =>
    obtain ⟨valid, made, chain⟩ := pre
    apply wp_bind
    apply wp_loadHead valid made
    intro t found validT madeT seen kept
    refine wp_continues (fun _ _ => id) fun u moved => ⟨moved.1 validT, madeT.stable validT moved, ?_, seen.stable moved⟩
    exact (chain.stable kept).stable moved.2.2.2
  | pushChainLoop nodes chainHead chainTail oldHead =>
    obtain ⟨valid, made, chain, seen⟩ := pre
    exact pushChain_verified i nodes chainHead chainTail oldHead s valid made chain seen
  | client last => exact client_verified i last s pre.1 pre.2

omit [DecidableEq N] in
theorem initial_valid (next : N → Option N) (owner : N → ι) : Valid (initial next owner) := by
  refine ⟨rfl, rfl, .empty, fun n => ?_, fun i => ⟨Nat.le_refl 0, rfl, Nat.zero_le 1, by simp [initial]⟩⟩
  simp [initial, Shared.history]

theorem reaches_valid {next : N → Option N} {owner : N → ι}
    {pool : Pool ι (Shared ι N) (Choice N) (Procedure N) (Option N)}
    (path : Pool.Reaches code TagsFresh (start next owner) pool) : Valid pool.shared := by
  have begun := initial_valid next owner
  refine (reaches_invariant discipline contract Valid
    ?_ ?_ verified ?_ ?_ begun path).2
  · exact fun _ _ _ fresh => fresh
  · intro i j s t different _ promised
    exact ⟨promised.1, promised.2.1, promised.2.2 j (Ne.symm different)⟩
  · exact fun _ _ _ promised => promised.1
  · intro i
    have idle : Made i [] (initial next owner) := rfl
    apply wp_bind
    refine wp_enter fun t moved => ⟨(), ⟨moved.1 begun, ?_⟩, fun r u validU v later => ?_⟩
    · exact idle.stable begun moved
    · exact wp_ret fun _ _ => trivial

/-- Linearizability of the free list. In every state of every interleaving the
chain from `head_` is finite, duplicate-free and null-terminated, and it is the
sequential list of the successful updates, which is also what `MutexStack` holds
after the same operations, each pop returning the same node. A node is either
on the stack or owned, and popped again only after it was pushed again. The
updates that a thread made before its latest call are, in order, what its calls
have returned to it: `Pop` the node that it took off, or null, and then the list
was empty at some time of the call. -/
theorem interleaving_refines_sequential {next : N → Option N} {owner : N → ι}
    {pool : Pool ι (Shared ι N) (Choice N) (Procedure N) (Option N)}
    (path : Pool.Reaches code TagsFresh (start next owner) pool) :
    Linked pool.shared.next pool.shared.head.ptr (replay pool.shared.history) ∧
    (replay pool.shared.history).Nodup ∧
    (∃ m, MutexStack.executeAll ⟨none, next⟩ pool.shared.history = some m ∧
      Linked m.next m.head (replay pool.shared.history)) ∧
    (∀ n, pool.shared.owner n = none ↔ n ∈ replay pool.shared.history) ∧
    (∀ first middle last n,
      pool.shared.history = first ++ .pop n :: middle ++ .pop n :: last →
      ∃ o ∈ middle, o.Pushes n) ∧
    ∀ i, Answered i pool.shared := by
  have valid := reaches_valid path
  refine ⟨valid.linked, valid.lawful.nodup, MutexStack.executes_lawful valid.lawful next,
    valid.owned, ?_, valid.answered⟩
  intro first middle last n split
  exact (split ▸ valid.lawful).pushed_between

/-- Thread 1 has read head and `next` of node 7 when thread 0 pops it, pushes 6
and pushes 7 again: the pointer is back, only the tag tells. Its second attempt
returns 7. -/
def abaSchedule : List (Nat × Choice Nat) :=
  let steps (i n : Nat) (action : Action Nat) : List (Nat × Choice Nat) :=
    List.replicate n (i, ⟨false, action⟩)
  steps 0 8 (.push 7) ++ steps 1 6 .pop ++
    steps 0 7 .pop ++ steps 0 7 (.push 6) ++ steps 0 7 (.push 7) ++ steps 1 6 .pop

theorem aba_interleaving_refines :
    ∃ pool : Pool Nat (Shared Nat Nat) (Choice Nat) (Procedure Nat) (Option Nat),
      Pool.Reaches code TagsFresh (start (fun _ => none) fun _ => 0) pool ∧
      replay pool.shared.history = [6] ∧ (pool.shared.returned 1).map (·.value) = [some 7] ∧
      Linked pool.shared.next pool.shared.head.ptr [6] ∧ Answered 1 pool.shared := by
  have executed : (Pool.run code (fun s _ => decide (s.updates.length < 2 ^ 64)) abaSchedule
      (start (fun _ => none) fun _ => 0)).map
      (fun p => (replay p.shared.history, (p.shared.returned 1).map (·.value))) = some ([6], [some 7]) := by
    decide +kernel
  obtain ⟨pool, run, outcome⟩ := Option.map_eq_some_iff.mp executed
  obtain ⟨contents, returned⟩ := Prod.mk.inj outcome
  have path : Pool.Reaches code TagsFresh (start (fun _ => none) fun _ => 0) pool := by
    refine Pool.reaches_of_run (fun s t checked i operation _ => ?_) run
    have few := of_decide_eq_true checked
    omega
  obtain ⟨linked, -, -, -, -, answered⟩ := interleaving_refines_sequential path
  exact ⟨pool, path, contents, returned, contents ▸ linked, answered 1⟩

end Talon.Memory.LockFreeStack
