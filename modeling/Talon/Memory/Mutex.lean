import Talon.Interleaving.Ledger
import Talon.Interleaving.Ownership
import Talon.Memory.StackHistory

/-! `MutexStack` as many threads run it, on platforms where a 16-byte word is not
lock-free: taking the lock, each access to `head_` and `next`, and releasing the lock are
steps of their own. What the calls return makes a sequential history of one LIFO list, in
the order in which the lock was taken. -/
namespace Talon.Memory.Locked
open Interleaving
variable {ι N : Type} [DecidableEq ι] [DecidableEq N]

/-- A call with what it returned. -/
inductive Event (N : Type) where
  | push (node : N)
  | pop (result : Option N)
  | pushChain (nodes : List N)
  | empty (result : Bool)
  | unsafeHead (result : Option N)

/-- The call on a sequential list, if the list makes it return this. -/
def Event.apply (stack : List N) : Event N → Option (List N)
  | .push node => some (node :: stack)
  | .pop result => if result = stack.head? then some stack.tail else none
  | .pushChain nodes => some (nodes ++ stack)
  | .empty result => if result = stack.isEmpty then some stack else none
  | .unsafeHead result => if result = stack.head? then some stack else none

def sequential (history : List (Event N)) : Option (List N) := history.foldlM Event.apply []

/-- `mtx_`, `head_` and `next`, then history: which thread a node belongs to (`none` while
it is on the stack), the calls in the order in which they took effect, and the calls that have
returned to a thread, with what they returned. -/
structure Shared (ι N : Type) where
  mutex : Option ι
  head : Option N
  next : N → Option N
  owner : N → Option ι
  history : List (Entry ι (Event N))
  told : ι → List (Event N)

inductive Action (N : Type) where
  | push (node : N)
  | pop
  | pushChain (nodes : List N)
  | empty
  | unsafeHead
  | approximateFreeCount
  | scribble (node : N) (value : Option N)

abbrev Code (ι N : Type) := Prog (Shared ι N) (Action N) Unit Unit

namespace Shared

def calls (s : Shared ι N) : List (Event N) := s.history.map Entry.event

def record (s : Shared ι N) (self : ι) (event : Event N) : Shared ι N :=
  { s with history := s.history ++ [⟨self, event⟩] }

def receive (s : Shared ι N) (self : ι) (event : Event N) : Shared ι N :=
  { s with told := Function.update s.told self (s.told self ++ [event]) }

def setNext (s : Shared ι N) (node : N) (value : Option N) : Shared ι N :=
  { s with next := Function.update s.next node value }

/-- `head_ = node` at the end of a push: its nodes are on the stack now. -/
def publish (s : Shared ι N) (self : ι) (head : N) (nodes : List N) (event : Event N) : Shared ι N :=
  { s.record self event with head := some head, owner := fun n => if n ∈ nodes then none else s.owner n }

/-- `head_ = node->next` -/
def remove (s : Shared ι N) (self : ι) (node : N) (next : Option N) : Shared ι N :=
  { s.record self (.pop (some node)) with head := next, owner := Function.update s.owner node (some self) }

end Shared

def lock (self : ι) : Code ι N Unit := .await (fun s => s.mutex.isNone) fun s => { s with mutex := some self }

def unlock : Code ι N Unit := .store fun s => { s with mutex := none }

def storeNext (node : N) (value : Option N) : Code ι N Unit := .store (·.setNext node value)

def push (self : ι) (node : N) : Code ι N Unit := do
  lock self
  let head ← .load (·.head)
  storeNext node head
  .store (·.publish self node [node] (.push node))
  unlock

def pop (self : ι) : Code ι N (Option N) := do
  lock self
  match ← .exchange (·.head) (fun s => if s.head = none then s.record self (.pop none) else s) with
  | none =>
      unlock
      return none
  | some node =>
      let next ← .load (·.next node)
      .store (·.remove self node next)
      unlock
      return some node

/-- `nodes` is the chain from `chainHead` to `chainTail`. -/
def pushChain (self : ι) (nodes : List N) (chainHead chainTail : N) : Code ι N Unit := do
  lock self
  let head ← .load (·.head)
  storeNext chainTail head
  .store (·.publish self chainHead nodes (.pushChain nodes))
  unlock

def empty (self : ι) : Code ι N Bool := do
  lock self
  let result ← .exchange (·.head.isNone) fun s => s.record self (.empty s.head.isNone)
  unlock
  return result

def unsafeHeadForDiagnostics (self : ι) : Code ι N (Option N) := do
  lock self
  let result ← .exchange (·.head) fun s => s.record self (.unsafeHead s.head)
  unlock
  return result

/-- A call has returned, and its caller has what it returned. -/
def receive (self : ι) (event : Event N) : Code ι N Unit := .store (·.receive self event)

/-- The loop of `ApproximateFreeCount`, which follows `next` without the lock. -/
def countFrom : Nat → Option N → Code ι N Nat
  | 0, _ => return 0
  | _ + 1, none => return 0
  | n + 1, some node => do
      let next ← .load (·.next node)
      let rest ← countFrom n next
      return rest + 1

def approximateFreeCount (self : ι) : Code ι N Nat := do
  let head ← unsafeHeadForDiagnostics self
  receive self (.unsafeHead head)
  countFrom 1000000 head

/-- A thread acts on nodes it owns. A chain it pushes is a duplicate-free `next`-path. -/
def Permitted (self : ι) (s : Shared ι N) : Action N → Prop
  | .push node => s.owner node = some self
  | .pushChain nodes => nodes ≠ [] ∧ nodes.Nodup ∧
      List.IsChain (fun a b => s.next a = some b) nodes ∧ ∀ n ∈ nodes, s.owner n = some self
  | .scribble node _ => s.owner node = some self
  | _ => True

instance (self : ι) (s : Shared ι N) : (action : Action N) → Decidable (Permitted self s action)
  | .push node => inferInstanceAs (Decidable (s.owner node = some self))
  | .pushChain nodes => inferInstanceAs (Decidable (nodes ≠ [] ∧ nodes.Nodup ∧
      List.IsChain (fun a b => s.next a = some b) nodes ∧ ∀ n ∈ nodes, s.owner n = some self))
  | .scribble node _ => inferInstanceAs (Decidable (s.owner node = some self))
  | .pop => inferInstanceAs (Decidable True)
  | .empty => inferInstanceAs (Decidable True)
  | .unsafeHead => inferInstanceAs (Decidable True)
  | .approximateFreeCount => inferInstanceAs (Decidable True)

/-- The caller picks its next call. -/
def nextAction (self : ι) : Code ι N (Action N) :=
  .atomic (fun action s => if Permitted self s action then some s else none) fun action _ => action

def perform (self : ι) : Action N → Code ι N Unit
  | .push node => do
      push self node
      receive self (.push node)
  | .pop => do
      let result ← pop self
      receive self (.pop result)
  | .pushChain nodes =>
      match nodes.head?, nodes.getLast? with
      | some chainHead, some chainTail => do
          pushChain self nodes chainHead chainTail
          receive self (.pushChain nodes)
      | _, _ => pure ()
  | .empty => do
      let result ← empty self
      receive self (.empty result)
  | .unsafeHead => do
      let result ← unsafeHeadForDiagnostics self
      receive self (.unsafeHead result)
  | .approximateFreeCount => do let _ ← approximateFreeCount self
  | .scribble node value => storeNext node value

/-- Any sequence of permitted calls. -/
def code (self : ι) (_ : Unit) : Code ι N Unit := do
  let action ← nextAction self
  perform self action
  .enter ()

/-- An empty stack; every node belongs to some thread. -/
def start (next : N → Option N) (owner : N → ι) : Pool ι (Shared ι N) (Action N) Unit Unit :=
  ⟨⟨none, none, next, fun n => some (owner n), [], fun _ => []⟩, fun _ => .enter ()⟩

/-! ### The invariant -/

/-- The history can be run on a list, with the results it records, and the memory holds
what that list is then. -/
structure Stacked (s : Shared ι N) (stack : List N) : Prop where
  replays : sequential s.calls = some stack
  linked : Linked s.next s.head stack
  distinct : stack.Nodup
  unowned : ∀ n, s.owner n = none ↔ n ∈ stack

/-- What the calls of thread `i` have returned to it is what they did, in this order; one more
call may have done its work and be about to return. -/
def Answered (i : ι) (s : Shared ι N) : Prop :=
  ∃ due, portion i s.history = s.told i ++ due ∧ due.length ≤ 1

/-- What a thread can rely on: while it has the lock, the head and its successor; at all
times the successors of its own nodes, and what its call has done that has not returned. -/
structure View (N : Type) where
  held : Option (Option N × Option N)
  own : N → Option (Option N)
  due : List (Event N)

def view (i : ι) (s : Shared ι N) : View N where
  held := if s.mutex = some i then some (s.head, s.head.bind s.next) else none
  own n := if s.owner n = some i then some (s.next n) else none
  due := (portion i s.history).drop (s.told i).length

def ownership : Ownership ι (Shared ι N) (View N) where
  Inv s := (∃ stack, Stacked s stack) ∧ ∀ i, Answered i s
  view := view
  allowed _ _ := True

/-- Between two calls a thread does not have the lock, and it knows what they did. -/
def spec : Spec Unit Unit (View N) where
  pre _ v := v.held = none ∧ v.due = []
  post _ _ _ _ := True

abbrev Ensures (i : ι) (v : View N) {α : Type} (p : Code ι N α) (post : α → View N → Prop) : Prop :=
  ownership.Ensures spec i v p post

variable {i j : ι} {v : View N} {s : Shared ι N} {stack nodes : List N} {node : N} {head next value : Option N}
  {event : Event N}

omit [DecidableEq ι] in
theorem sequential_record (history : List (Event N)) (event : Event N) :
    sequential (history ++ [event]) = (sequential history).bind (Event.apply · event) := by
  simp only [sequential, List.foldlM_append, List.foldlM_cons, List.foldlM_nil]
  cases List.foldlM Event.apply [] history with
  | none => rfl
  | some stack => simp

omit [DecidableEq N] in
theorem Answered.due_eq (answered : Answered i s) : portion i s.history = s.told i ++ (view i s).due := by
  obtain ⟨due, whole, -⟩ := answered
  simp only [view, whole, List.drop_left]

omit [DecidableEq N] in
/-- A call of thread `i` takes effect. -/
theorem Answered.record (answered : ∀ j, Answered j s) (idle : (view i s).due = []) (j : ι) :
    Answered j (s.record i event) := by
  by_cases same : i = j
  · subst same
    have whole := (answered i).due_eq
    rw [idle, List.append_nil] at whole
    exact ⟨[event], by rw [Shared.record, portion_snoc, whole], Nat.le_refl 1⟩
  · obtain ⟨due, whole, short⟩ := answered j
    exact ⟨due, by rw [Shared.record, portion_snoc_of_ne same, whole], short⟩

omit [DecidableEq N] in
theorem due_record (answered : Answered i s) (idle : (view i s).due = []) :
    (portion i (s.record i event).history).drop (s.told i).length = [event] := by
  have whole := answered.due_eq
  rw [idle, List.append_nil] at whole
  rw [Shared.record, portion_snoc, whole, List.drop_left]

omit [DecidableEq N] in
theorem own_of_owner (mine : s.owner node = some i) : (view i s).own node = some (s.next node) := if_pos mine

omit [DecidableEq N] in
theorem owner_of_own (mine : (view i s).own node ≠ none) : s.owner node = some i := by
  by_contra other
  exact mine (if_neg other)

omit [DecidableEq N] in
theorem mutex_of_held (held : (view i s).held ≠ none) : s.mutex = some i := by
  by_contra other
  exact held (if_neg other)

omit [DecidableEq N] in
theorem held_eq (held : (view i s).held = some (head, next)) :
    s.mutex = some i ∧ s.head = head ∧ s.head.bind s.next = next := by
  have mutex : s.mutex = some i := mutex_of_held (by simp [held])
  simp only [view, mutex, if_true, Option.some.injEq, Prod.mk.injEq] at held
  exact ⟨mutex, held⟩

omit [DecidableEq N] in
theorem next_of_own (own : (view i s).own node = some value) : s.next node = value := by
  have mine : s.owner node = some i := owner_of_own (by simp [own])
  rw [own_of_owner mine] at own
  exact Option.some.inj own

omit [DecidableEq ι] in
/-- A node that somebody owns is not on the stack. -/
theorem Stacked.not_mem (stacked : Stacked s stack) (owned : s.owner node = some i) : node ∉ stack := by
  intro member
  rw [(stacked.unowned node).mpr member] at owned
  contradiction

omit [DecidableEq ι] in
theorem Stacked.head_ne (stacked : Stacked s stack) (owned : s.owner node = some i) : s.head ≠ some node := by
  intro same
  have top := stacked.linked.head
  rw [same] at top
  exact stacked.not_mem owned (List.mem_of_head? top.symm)

omit [DecidableEq N] in
theorem empty_of_linked {next : N → Option N} (linked : Linked next none stack) : stack = [] := by
  cases stack with
  | nil => rfl
  | cons n rest => exact absurd linked.1 (by simp)

/-! ### Steps -/

theorem moves_lock (seen : ownership.Holds i v s) (free : s.mutex = none) :
    ownership.Moves i s { s with mutex := some i } { v with held := some (s.head, s.head.bind s.next) } := by
  obtain ⟨⟨⟨stack, stacked⟩, answered⟩, rfl⟩ := seen
  refine ⟨⟨⟨stack, stacked.replays, stacked.linked, stacked.distinct, stacked.unowned⟩, answered⟩,
    fun j other => ?_, ?_⟩
  · simp [ownership, view, free, Ne.symm other]
  · simp [ownership, view]

theorem moves_unlock (seen : ownership.Holds i v s) (held : v.held ≠ none) :
    ownership.Moves i s { s with mutex := none } { v with held := none } := by
  obtain ⟨⟨⟨stack, stacked⟩, answered⟩, rfl⟩ := seen
  have mutex := mutex_of_held held
  refine ⟨⟨⟨stack, stacked.replays, stacked.linked, stacked.distinct, stacked.unowned⟩, answered⟩,
    fun j other => ?_, ?_⟩
  · simp [ownership, view, mutex, Ne.symm other]
  · simp [ownership, view]

theorem moves_setNext (seen : ownership.Holds i v s) (mine : v.own node ≠ none) :
    ownership.Moves i s (s.setNext node value) { v with own := Function.update v.own node (some value) } := by
  obtain ⟨⟨⟨stack, stacked⟩, answered⟩, rfl⟩ := seen
  have owned := owner_of_own mine
  have behind : s.head.bind (Function.update s.next node value) = s.head.bind s.next := by
    cases here : s.head with
    | none => rfl
    | some top =>
      have different : top ≠ node := fun same => stacked.head_ne owned (by rw [here, same])
      exact Function.update_of_ne different _ _
  refine ⟨⟨⟨stack, stacked.replays, stacked.linked.update (stacked.not_mem owned), stacked.distinct,
    stacked.unowned⟩, answered⟩, fun j other => ?_, ?_⟩
  · simp only [ownership, view, Shared.setNext, behind, View.mk.injEq, true_and, and_true]
    funext n
    by_cases same : n = node
    · subst same
      simp [owned, Ne.symm other]
    · rw [Function.update_of_ne same]
  · simp only [ownership, view, Shared.setNext, behind, View.mk.injEq, true_and, and_true]
    funext n
    by_cases same : n = node
    · subst same
      simp [owned]
    · rw [Function.update_of_ne same, Function.update_of_ne same]

omit [DecidableEq ι] in
theorem Stacked.calls_record (stacked : Stacked s stack) :
    sequential (s.record i event).calls = event.apply stack := by
  rw [Shared.calls, Shared.record, List.map_append, List.map_singleton, sequential_record]
  exact congrArg (Option.bind · _) stacked.replays

theorem moves_record (seen : ownership.Holds i v s) (idle : v.due = [])
    (observes : ∀ stack, Linked s.next s.head stack → event.apply stack = some stack) :
    ownership.Moves i s (s.record i event) { v with due := [event] } := by
  obtain ⟨⟨⟨stack, stacked⟩, answered⟩, rfl⟩ := seen
  refine ⟨⟨⟨stack, ?_, stacked.linked, stacked.distinct, stacked.unowned⟩, Answered.record answered idle⟩,
    fun j other => ?_, ?_⟩
  · rw [stacked.calls_record]
    exact observes stack stacked.linked
  · simp only [ownership, view, Shared.record, portion_snoc_of_ne (Ne.symm other)]
  · simp only [ownership, view, View.mk.injEq]
    exact ⟨rfl, rfl, due_record (answered i) idle⟩

theorem moves_receive (seen : ownership.Holds i v s) (due : v.due = [event]) :
    ownership.Moves i s (s.receive i event) { v with due := [] } := by
  obtain ⟨⟨⟨stack, stacked⟩, answered⟩, rfl⟩ := seen
  have whole : portion i s.history = s.told i ++ [event] := due ▸ (answered i).due_eq
  refine ⟨⟨⟨stack, stacked.replays, stacked.linked, stacked.distinct, stacked.unowned⟩, fun j => ?_⟩,
    fun j other => ?_, ?_⟩
  · by_cases same : j = i
    · subst same
      exact ⟨[], by simp only [Shared.receive, Function.update_self, whole, List.append_nil], Nat.zero_le 1⟩
    · obtain ⟨left, rest, short⟩ := answered j
      exact ⟨left, by simpa only [Shared.receive, Function.update_of_ne same] using rest, short⟩
  · simp only [ownership, view, Shared.receive, Function.update_of_ne other]
  · simp only [ownership, view, Shared.receive, Function.update_self, whole, List.drop_length]

/-- The nodes of a chain in the caller's hands. -/
structure Chain (v : View N) (nodes : List N) (chainHead chainTail : N) : Prop where
  top : nodes.head? = some chainHead
  last : nodes.getLast? = some chainTail
  distinct : nodes.Nodup
  linked : List.IsChain (fun a b => (v.own a).join = some b) nodes
  mine : ∀ n ∈ nodes, v.own n ≠ none

theorem moves_publish {chainHead : N} (chainTail : N) (seen : ownership.Holds i v s) (idle : v.due = [])
    (held : v.held = some (head, next)) (chain : Chain v nodes chainHead chainTail)
    (joined : v.own chainTail = some head) (pushes : ∀ stack, event.apply stack = some (nodes ++ stack)) :
    ∃ v', (v'.held ≠ none ∧ v'.due = [event]) ∧ ownership.Moves i s (s.publish i chainHead nodes event) v' := by
  obtain ⟨⟨⟨stack, stacked⟩, answered⟩, rfl⟩ := seen
  obtain ⟨mutex, top, -⟩ := held_eq held
  have owned : ∀ n ∈ nodes, s.owner n = some i := fun n member => owner_of_own (chain.mine n member)
  refine ⟨view i (s.publish i chainHead nodes event), ⟨?_, due_record (answered i) idle⟩,
    ⟨⟨nodes ++ stack, ?_, ?_, ?_, ?_⟩, Answered.record answered idle⟩, fun j other => ?_, rfl⟩
  · simp [view, Shared.publish, Shared.record, mutex]
  · exact stacked.calls_record.trans (pushes stack)
  · have path : List.IsChain (fun a b => s.next a = some b) nodes := chain.linked.imp fun a b own => next_of_own (Option.join_eq_some_iff.mp own)
    have whole := stacked.linked.prepend path chain.last ((next_of_own joined).trans top.symm)
    rwa [chain.top] at whole
  · refine List.nodup_append.mpr ⟨chain.distinct, stacked.distinct, ?_⟩
    rintro n member _ other rfl
    exact stacked.not_mem (owned n member) other
  · intro n
    simp only [Shared.publish, List.mem_append]
    by_cases member : n ∈ nodes
    · simp [member]
    · simp [member, stacked.unowned n]
  · simp only [ownership, view, Shared.publish, Shared.record, mutex, Option.some.injEq, Ne.symm other, if_false,
      portion_snoc_of_ne (Ne.symm other), View.mk.injEq, true_and, and_true]
    funext n
    by_cases member : n ∈ nodes
    · simp [member, owned n member, Ne.symm other]
    · simp [member]

theorem moves_remove (seen : ownership.Holds i v s) (idle : v.due = []) (held : v.held = some (some node, next)) :
    ∃ v', (v'.held ≠ none ∧ v'.due = [.pop (some node)]) ∧ ownership.Moves i s (s.remove i node next) v' := by
  obtain ⟨⟨⟨stack, stacked⟩, answered⟩, rfl⟩ := seen
  obtain ⟨mutex, top, behind⟩ := held_eq held
  rw [top, Option.bind_some] at behind
  obtain ⟨rest, rfl⟩ : ∃ rest, stack = node :: rest := by
    have linked := stacked.linked
    cases stack with
    | nil =>
      rw [top] at linked
      contradiction
    | cons n rest =>
      obtain rfl := Option.some.inj (top.symm.trans linked.1)
      exact ⟨rest, rfl⟩
  obtain ⟨fresh, distinct⟩ := List.nodup_cons.mp stacked.distinct
  have unowned : s.owner node = none := (stacked.unowned node).mpr List.mem_cons_self
  refine ⟨view i (s.remove i node next), ⟨?_, due_record (answered i) idle⟩,
    ⟨⟨rest, ?_, ?_, distinct, ?_⟩, Answered.record answered idle⟩, fun j other => ?_, rfl⟩
  · simp [view, Shared.remove, Shared.record, mutex]
  · exact stacked.calls_record.trans (if_pos rfl)
  · rw [← behind]
    exact stacked.linked.2
  · intro n
    by_cases same : n = node
    · subst same
      simp [Shared.remove, fresh]
    · simp [Shared.remove, same, stacked.unowned n]
  · simp only [ownership, view, Shared.remove, Shared.record, mutex, Option.some.injEq, Ne.symm other, if_false,
      portion_snoc_of_ne (Ne.symm other), View.mk.injEq, true_and, and_true]
    funext n
    by_cases same : n = node
    · subst same
      simp [unowned, Ne.symm other]
    · rw [Function.update_of_ne same]

/-! ### Calls -/

theorem ensures_lock : Ensures i v (lock i) fun _ v' => ∃ head next, v' = { v with held := some (head, next) } := by
  apply Ownership.Ensures.atomic
  intro _ s t seen stepped _
  simp only [Option.ite_none_right_eq_some, Option.some.injEq, Option.isNone_iff_eq_none] at stepped
  obtain ⟨free, rfl⟩ := stepped
  exact ⟨_, ⟨s.head, s.head.bind s.next, rfl⟩, moves_lock seen free⟩

theorem ensures_unlock (held : v.held ≠ none) : Ensures i v unlock fun _ v' => v' = { v with held := none } :=
  Ownership.Ensures.store rfl fun _ seen _ => moves_unlock seen held

theorem ensures_receive (due : v.due = [event]) :
    Ensures i v (receive i event) fun _ v' => v' = { v with due := [] } :=
  Ownership.Ensures.store rfl fun _ seen _ => moves_receive seen due

theorem holds_held (seen : ownership.Holds i v s) (held : v.held = some (head, next)) :
    s.mutex = some i ∧ s.head = head ∧ s.head.bind s.next = next := by
  obtain ⟨-, rfl⟩ := seen
  exact held_eq held

theorem ensures_loadHead (held : v.held = some (head, next)) :
    Ensures i v (.load (·.head)) fun found v' => found = head ∧ v' = v :=
  Ownership.Ensures.load fun _ seen => ⟨(holds_held seen held).2.1, rfl⟩

theorem ensures_storeNext (mine : v.own node ≠ none) :
    Ensures i v (storeNext node value) fun _ v' =>
      v' = { v with own := Function.update v.own node (some value) } :=
  Ownership.Ensures.store rfl fun _ seen _ => moves_setNext seen mine

/-- A call has done its work, which is `event`, and released the lock. -/
def Done (event : Event N) (v : View N) : Prop := v.held = none ∧ v.due = [event]

/-- The part that `Push` and `PushChain` have in common. -/
theorem ensures_publish {chainHead chainTail : N} (idle : v.due = []) (chain : Chain v nodes chainHead chainTail)
    (pushes : ∀ stack, event.apply stack = some (nodes ++ stack)) :
    Ensures i v (do
      lock i
      let head ← .load (·.head)
      storeNext chainTail head
      .store (·.publish i chainHead nodes event)
      unlock) fun _ => Done event := by
  refine Ownership.Ensures.bind ensures_lock ?_
  rintro _ _ ⟨head, next, rfl⟩
  refine Ownership.Ensures.bind (ensures_loadHead rfl) ?_
  rintro head _ ⟨rfl, rfl⟩
  have inside : chainTail ∈ nodes := List.mem_of_getLast? chain.last
  refine Ownership.Ensures.bind (ensures_storeNext (chain.mine chainTail inside)) ?_
  rintro _ _ rfl
  refine Ownership.Ensures.bind (M := fun _ v' => v'.held ≠ none ∧ v'.due = [event]) ?_ ?_
  · refine Ownership.Ensures.atomic fun _ s t seen stepped _ => ?_
    obtain rfl := Option.some.inj stepped
    refine moves_publish chainTail seen idle rfl ⟨chain.top, chain.last, chain.distinct, ?_, ?_⟩
      (Function.update_self ..) pushes
    · have path := isChain_update_last head chain.linked chain.distinct chain.last
      refine path.imp fun a b same => ?_
      rw [← same]
      by_cases here : a = chainTail
      · simp [here]
      · simp [here]
    · intro n member
      by_cases same : n = chainTail
      · simp [same]
      · simpa only [Function.update_of_ne same] using chain.mine n member
  · rintro _ v' ⟨held, due⟩
    refine (ensures_unlock held).mono ?_
    rintro _ _ rfl
    exact ⟨rfl, due⟩

theorem ensures_push (idle : v.due = []) (mine : v.own node ≠ none) :
    Ensures i v (push i node) fun _ => Done (.push node) :=
  ensures_publish idle ⟨rfl, rfl, List.nodup_singleton node, .singleton node, by simpa using mine⟩ fun _ => rfl

/-- The end of a call that returns a value. -/
theorem ensures_returns {α : Type} {value : α} (held : v.held ≠ none) (due : v.due = [event]) :
    Ensures i v (do
      unlock
      return value) fun result v' => result = value ∧ Done event v' := by
  apply Ownership.Ensures.bind (ensures_unlock held)
  rintro _ _ rfl
  exact Ownership.Ensures.pure ⟨rfl, rfl, due⟩

theorem ensures_pop (idle : v.due = []) : Ensures i v (pop i) fun result => Done (.pop result) := by
  apply Ownership.Ensures.bind ensures_lock
  rintro _ _ ⟨head, next, rfl⟩
  refine Ownership.Ensures.bind
    (M := fun found v' => found = head ∧
      v' = { v with held := some (head, next), due := if head = none then [.pop none] else [] }) ?_ ?_
  · refine Ownership.Ensures.exchange fun s seen _ => ⟨_, ⟨(holds_held seen rfl).2.1, rfl⟩, ?_⟩
    have same := (holds_held seen rfl).2.1
    rw [same]
    split
    · next null =>
      apply moves_record seen idle
      intro stack linked
      rw [same, null] at linked
      rw [empty_of_linked linked]
      rfl
    · exact ⟨seen.1, fun _ _ => rfl, seen.2.trans (by rw [idle])⟩
  rintro head _ ⟨rfl, rfl⟩
  cases head with
  | none =>
    apply (ensures_returns (by simp) rfl).mono
    rintro _ v' ⟨rfl, done⟩
    exact done
  | some node =>
    refine Ownership.Ensures.bind
      (M := fun found v' => found = next ∧ v' = { v with held := some (some node, next), due := [] }) ?_ ?_
    · refine Ownership.Ensures.load fun s seen => ⟨?_, rfl⟩
      obtain ⟨-, top, behind⟩ := holds_held seen rfl
      rwa [top] at behind
    rintro next _ ⟨rfl, rfl⟩
    refine Ownership.Ensures.bind (M := fun _ v' => v'.held ≠ none ∧ v'.due = [.pop (some node)]) ?_ ?_
    · apply Ownership.Ensures.atomic
      intro _ s t seen stepped _
      obtain rfl := Option.some.inj stepped
      exact moves_remove seen rfl rfl
    · rintro _ v' ⟨held, due⟩
      apply (ensures_returns held due).mono
      rintro _ v' ⟨rfl, done⟩
      exact done

/-- `Empty` and the diagnostic read of the head: one locked look that changes nothing. -/
theorem ensures_observe {α : Type} (read : Shared ι N → α) (event : α → Event N) (idle : v.due = [])
    (observes : ∀ s stack, Linked s.next s.head stack → (event (read s)).apply stack = some stack) :
    Ensures i v (do
      lock i
      let result ← .exchange read fun s => s.record i (event (read s))
      unlock
      return result) fun result => Done (event result) := by
  apply Ownership.Ensures.bind ensures_lock
  rintro _ _ ⟨head, next, rfl⟩
  refine Ownership.Ensures.bind
    (M := fun result v' => v' = { v with held := some (head, next), due := [event result] }) ?_ ?_
  · exact Ownership.Ensures.exchange fun s seen _ => ⟨_, rfl, moves_record seen idle (observes s)⟩
  rintro result _ rfl
  apply (ensures_returns (by simp) rfl).mono
  rintro _ v' ⟨rfl, done⟩
  exact done

theorem ensures_empty (idle : v.due = []) : Ensures i v (empty i) fun result => Done (.empty result) := by
  refine ensures_observe (fun s => s.head.isNone) .empty idle fun s stack linked => if_pos ?_
  rw [linked.head]
  cases stack <;> rfl

theorem ensures_unsafeHead (idle : v.due = []) :
    Ensures i v (unsafeHeadForDiagnostics i) fun result => Done (.unsafeHead result) :=
  ensures_observe (fun s => s.head) .unsafeHead idle fun _ _ linked => if_pos linked.head

theorem ensures_countFrom (n : Nat) (p : Option N) : Ensures i v (countFrom n p) fun _ v' => v' = v := by
  induction n generalizing p with
  | zero => exact Ownership.Ensures.pure rfl
  | succ n ih =>
    cases p with
    | none => exact Ownership.Ensures.pure rfl
    | some node =>
      refine Ownership.Ensures.bind (M := fun _ v' => v' = v) (Ownership.Ensures.load fun _ _ => rfl) ?_
      rintro next _ rfl
      apply Ownership.Ensures.bind (ih next)
      rintro rest _ rfl
      exact Ownership.Ensures.pure rfl

theorem ensures_pushChain {chainHead chainTail : N} (idle : v.due = []) (chain : Chain v nodes chainHead chainTail) :
    Ensures i v (pushChain i nodes chainHead chainTail) fun _ => Done (.pushChain nodes) :=
  ensures_publish idle chain fun _ => rfl

/-- A call whose caller takes what it returned. -/
theorem ensures_received {α : Type} {call : Code ι N α} {event : α → Event N}
    (works : Ensures i v call fun result => Done (event result)) :
    Ensures i v (do
      let result ← call
      receive i (event result)) fun _ v' => v'.held = none ∧ v'.due = [] := by
  apply Ownership.Ensures.bind works
  rintro result v' ⟨free, due⟩
  apply (ensures_receive due).mono
  rintro _ _ rfl
  exact ⟨free, rfl⟩

theorem ensures_approximateFreeCount (idle : v.due = []) :
    Ensures i v (approximateFreeCount i) fun _ v' => v'.held = none ∧ v'.due = [] := by
  apply Ownership.Ensures.bind (ensures_unsafeHead idle)
  rintro head v' ⟨free, due⟩
  apply Ownership.Ensures.bind (ensures_receive due)
  rintro _ _ rfl
  apply (ensures_countFrom 1000000 head).mono
  rintro _ _ rfl
  exact ⟨free, rfl⟩

omit [DecidableEq N] in
/-- A permitted chain is in the caller's hands. -/
theorem chain_of_permitted (permitted : Permitted i s (.pushChain nodes)) :
    ∃ chainHead chainTail, Chain (view i s) nodes chainHead chainTail := by
  obtain ⟨some_, distinct, path, owned⟩ := permitted
  refine ⟨nodes.head some_, nodes.getLast some_, List.head?_eq_some_head some_, List.getLast?_eq_some_getLast some_,
    distinct, path.imp_of_mem_imp fun a b member _ step => ?_, fun n member => ?_⟩
  · rw [own_of_owner (owned a member)]
    exact step
  · rw [own_of_owner (owned n member)]
    simp

theorem ensures_perform {action : Action N} (free : (view i s).held = none) (idle : (view i s).due = [])
    (permitted : Permitted i s action) :
    Ensures i (view i s) (perform i action) fun _ v' => v'.held = none ∧ v'.due = [] := by
  have own (node : N) (owned : s.owner node = some i) : (view i s).own node ≠ none := by
    rw [own_of_owner owned]
    simp
  cases action with
  | push node => exact ensures_received (ensures_push idle (own node permitted))
  | pop => exact ensures_received (ensures_pop idle)
  | pushChain nodes =>
    obtain ⟨chainHead, chainTail, chain⟩ := chain_of_permitted permitted
    simp only [perform, chain.top, chain.last]
    exact ensures_received (ensures_pushChain idle chain)
  | empty => exact ensures_received (ensures_empty idle)
  | unsafeHead => exact ensures_received (ensures_unsafeHead idle)
  | approximateFreeCount =>
    exact Ownership.Ensures.bind (ensures_approximateFreeCount idle) fun _ _ rested => Ownership.Ensures.pure rested
  | scribble node value =>
    apply (ensures_storeNext (own node permitted)).mono
    rintro _ _ rfl
    exact ⟨free, idle⟩

theorem meets (i : ι) (f : Unit) (v : View N) (rested : v.held = none ∧ v.due = []) :
    Ensures i v (code i f) fun _ _ => True := by
  refine Ownership.Ensures.bind
    (M := fun action v' => v' = v ∧ ∃ s : Shared ι N, view i s = v' ∧ Permitted i s action) ?_ ?_
  · apply Ownership.Ensures.atomic
    intro action s t seen stepped _
    simp only [Option.ite_none_right_eq_some, Option.some.injEq] at stepped
    obtain ⟨permitted, rfl⟩ := stepped
    exact ⟨v, ⟨rfl, s, seen.2, permitted⟩, seen.1, fun _ _ => rfl, seen.2⟩
  · rintro action _ ⟨rfl, s, rfl, permitted⟩
    apply Ownership.Ensures.bind (ensures_perform rested.1 rested.2 permitted)
    intro _ v' rested
    exact Ownership.Ensures.enter rested fun _ _ _ => trivial

theorem reaches_stacked {next : N → Option N} {owner : N → ι} {pool : Pool ι (Shared ι N) (Action N) Unit Unit}
    (path : Pool.Reaches code (fun _ _ => True) (start next owner) pool) :
    (∃ stack, Stacked pool.shared stack) ∧ ∀ i, Answered i pool.shared := by
  have initial : Stacked (start next owner).shared [] := ⟨rfl, rfl, List.nodup_nil, by simp [start]⟩
  have unasked : ∀ i, Answered i (start next owner).shared := fun i => ⟨[], rfl, Nat.zero_le 1⟩
  refine Ownership.invariant (O := ownership) (K := fun _ => spec) (fun i f v pre => meets i f v pre)
    ⟨⟨[], initial⟩, unasked⟩ (fun i => ?_) path
  exact Ownership.Ensures.enter ⟨by simp [ownership, view, start], rfl⟩ fun _ _ _ => trivial

/-! ### Counting -/

instance : Inhabited (Action N) := ⟨.pop⟩

variable {call : Unit → Code ι N Unit} {n count : Nat} {p : Option N} {t : Shared ι N}

omit [DecidableEq ι] [DecidableEq N] in
theorem runs_countFrom (linked : Linked s.next p nodes) :
    Runs call (countFrom n p) s count t ↔ count = min n nodes.length ∧ t = s := by
  induction n generalizing p nodes count t with
  | zero => simp [countFrom]
  | succ n ih =>
    cases nodes with
    | nil =>
      obtain rfl : p = none := linked
      simp [countFrom]
    | cons node rest =>
      obtain ⟨rfl, linked⟩ := linked
      rw [countFrom, runs_load_bind, runs_bind]
      simp only [ih linked, runs_pure, List.length_cons, Nat.succ_min_succ]
      constructor
      · rintro ⟨_, _, ⟨rfl, rfl⟩, rfl, rfl⟩
        exact ⟨rfl, rfl⟩
      · rintro ⟨rfl, rfl⟩
        exact ⟨_, _, ⟨rfl, rfl⟩, rfl, rfl⟩

omit [DecidableEq N] in
theorem runs_approximateFreeCount (free : s.mutex = none) (linked : Linked s.next s.head nodes) :
    Runs call (approximateFreeCount i) s count t ↔ count = min 1000000 nodes.length ∧
      t = (s.record i (.unsafeHead s.head)).receive i (.unsafeHead s.head) := by
  have counted : Runs call (countFrom 1000000 s.head)
      ((s.record i (.unsafeHead s.head)).receive i (.unsafeHead s.head)) count t ↔ count = min 1000000 nodes.length ∧
        t = (s.record i (.unsafeHead s.head)).receive i (.unsafeHead s.head) := runs_countFrom linked
  rw [← counted, approximateFreeCount, unsafeHeadForDiagnostics, lock, unlock]
  simp only [receive, Prog.await, runs_bind_assoc, runs_atomic_bind, runs_exchange_bind, runs_store_bind, runs_pure_bind]
  simp [free, Shared.record, Shared.receive]

/-- In every interleaving the calls of `MutexStack`, with the results they return, are a
sequential history of one list, and `head_` and `next` hold that list: what its calls have
returned to a thread is its portion of the history, up to a call that has not returned. Run while
nobody has the lock, `ApproximateFreeCount` returns the length of the list, up to the bound of its
loop. -/
theorem mutex_linearizable {next : N → Option N} {owner : N → ι} {pool : Pool ι (Shared ι N) (Action N) Unit Unit}
    (path : Pool.Reaches code (fun _ _ => True) (start next owner) pool) :
    (∃ stack, Stacked pool.shared stack ∧ (pool.shared.mutex = none → ∀ i count,
      (∃ t, Runs (code i) (approximateFreeCount i) pool.shared count t) ↔ count = min 1000000 stack.length)) ∧
    ∀ i, Answered i pool.shared := by
  obtain ⟨⟨stack, stacked⟩, answered⟩ := reaches_stacked path
  refine ⟨⟨stack, stacked, fun free i count => ?_⟩, answered⟩
  simp only [runs_approximateFreeCount free stacked.linked, exists_and_left, exists_eq, and_true]

/-- One thread pushes while another one, which waits for the lock, is about to pop. -/
def contended : List (Bool × Action Nat) :=
  [(false, .pop), (true, .pop), (false, .push 1), (true, .pop)] ++ List.replicate 5 (false, .pop) ++
    List.replicate 6 (true, .pop)

def popped : List (Event Nat) → List (Option Nat)
  | .pop result :: rest => result :: popped rest
  | _ :: rest => popped rest
  | [] => []

theorem contended_linearizable : ∃ pool : Pool Bool (Shared Bool Nat) (Action Nat) Unit Unit,
    popped (pool.shared.told true) = [some 1] ∧ (∃ stack, Stacked pool.shared stack) ∧ Answered true pool.shared := by
  have executed : (Pool.run code (fun _ _ => true) contended (start (fun _ => none) fun _ => false)).map
      (fun p => popped (p.shared.told true)) = some [some 1] := by
    decide +kernel
  obtain ⟨pool, run, outcome⟩ := Option.map_eq_some_iff.mp executed
  obtain ⟨⟨stack, stacked, -⟩, answered⟩ := mutex_linearizable (Pool.reaches_of_run (fun _ _ _ => trivial) run)
  exact ⟨pool, outcome, ⟨stack, stacked⟩, answered true⟩

end Talon.Memory.Locked
