import Talon.Memory.Stack
import Mathlib.Data.List.Nodup

/-! Sequential histories of the free list. A lawful history pushes only absent
nodes and pops only the top; the list it builds is what `MutexStack` holds after
the same operations, and no node is popped twice without a push in between. -/
namespace Talon.Memory
variable {N : Type}

/-- `next` leads from `p` through exactly `nodes` to the null pointer. -/
def Linked (next : N → Option N) : Option N → List N → Prop
  | p, [] => p = none
  | p, n :: rest => p = some n ∧ Linked next (next n) rest

theorem Linked.head {next : N → Option N} {p : Option N} {nodes : List N}
    (linked : Linked next p nodes) : p = nodes.head? := by
  cases nodes with
  | nil => exact linked
  | cons n rest => exact linked.1

theorem Linked.tail {next : N → Option N} {p : Option N} {n : N} {nodes : List N}
    (linked : Linked next p nodes) (top : nodes.head? = some n) :
    Linked next (next n) nodes.tail := by
  cases nodes with
  | nil => simp at top
  | cons m rest =>
    cases Option.some.inj top
    exact linked.2

theorem Linked.congr {next other : N → Option N} {p : Option N} {nodes : List N}
    (linked : Linked next p nodes) (same : ∀ n ∈ nodes, other n = next n) :
    Linked other p nodes := by
  induction nodes generalizing p with
  | nil => exact linked
  | cons n rest ih =>
    refine ⟨linked.1, ?_⟩
    rw [same n List.mem_cons_self]
    exact ih linked.2 fun m member => same m (List.mem_cons_of_mem _ member)

/-- A path whose last node points at a linked list extends it. -/
theorem Linked.prepend {next : N → Option N} {p : Option N} {nodes rest : List N} {last : N}
    (linked : Linked next p rest) (path : List.IsChain (fun a b => next a = some b) nodes)
    (ends : nodes.getLast? = some last) (joined : next last = p) :
    Linked next nodes.head? (nodes ++ rest) := by
  induction nodes with
  | nil => simp at ends
  | cons n tail ih =>
    refine ⟨rfl, ?_⟩
    cases tail with
    | nil =>
      have same : n = last := Option.some.inj ends
      rw [same, joined]
      exact linked
    | cons m others =>
      obtain ⟨step, path⟩ := List.isChain_cons_cons.mp path
      rw [step]
      exact ih path (by simpa only [List.getLast?_cons_cons] using ends)

theorem Linked.isChain {next : N → Option N} {p : Option N} {nodes : List N}
    (linked : Linked next p nodes) : List.IsChain (fun a b => next a = some b) nodes := by
  induction nodes generalizing p with
  | nil => exact .nil
  | cons n rest ih =>
    cases rest with
    | nil => exact .singleton _
    | cons m others => exact List.isChain_cons_cons.mpr ⟨linked.2.1, ih linked.2⟩

@[simp] theorem replay_nil : replay ([] : List (Operation N)) = [] := rfl

@[simp] theorem replay_snoc (history : List (Operation N)) (operation : Operation N) :
    replay (history ++ [operation]) = operation.apply (replay history) := by
  simp only [replay, List.foldl_append, List.foldl_cons, List.foldl_nil]

inductive Lawful : List (Operation N) → Prop where
  | empty : Lawful []
  | push : Lawful history → node ∉ replay history → Lawful (history ++ [.push node])
  | pop : Lawful history → (replay history).head? = some node → Lawful (history ++ [.pop node])
  | pushChain : Lawful history → nodes.Nodup → (∀ n ∈ nodes, n ∉ replay history) →
      Lawful (history ++ [.pushChain nodes])

theorem Lawful.nodup {history : List (Operation N)} (lawful : Lawful history) :
    (replay history).Nodup := by
  induction lawful with
  | empty => exact List.nodup_nil
  | push _ absent ih => simpa only [replay_snoc, Operation.apply] using List.nodup_cons.mpr ⟨absent, ih⟩
  | pop _ _ ih =>
    rw [replay_snoc]
    exact ih.tail
  | pushChain _ unique absent ih =>
    simp only [replay_snoc, Operation.apply]
    exact List.Nodup.append unique ih fun n member => absent n member

theorem Lawful.take {history : List (Operation N)} (later : List (Operation N))
    (lawful : Lawful (history ++ later)) :
    Lawful history := by
  induction later using List.reverseRecOn with
  | nil => simpa only [List.append_nil] using lawful
  | append_singleton later operation ih =>
    apply ih
    rw [← List.append_assoc] at lawful
    generalize same : history ++ later ++ [operation] = whole at lawful
    cases lawful with
    | empty => simp at same
    | push lawful _ | pop lawful _ | pushChain lawful _ _ =>
      obtain ⟨rfl, _⟩ := List.append_inj' same rfl
      exact lawful

theorem Lawful.pops_top {history later : List (Operation N)} {node : N}
    (lawful : Lawful (history ++ .pop node :: later)) : (replay history).head? = some node := by
  have upTo : Lawful (history ++ [.pop node]) := by
    apply Lawful.take later
    simpa only [List.append_assoc, List.singleton_append] using lawful
  generalize same : history ++ [Operation.pop node] = whole at upTo
  cases upTo with
  | empty => simp at same
  | pop _ top =>
    obtain ⟨rfl, last⟩ := List.append_inj' same rfl
    simp only [List.cons.injEq, Operation.pop.injEq, and_true] at last
    rw [last]
    exact top
  | push | pushChain =>
    obtain ⟨_, last⟩ := List.append_inj' same rfl
    simp at last

def Operation.Pushes (node : N) : Operation N → Prop
  | .push n => n = node
  | .pop _ => False
  | .pushChain nodes => node ∈ nodes

theorem absent_until_pushed {history later : List (Operation N)} {node : N}
    (absent : node ∉ replay history) (quiet : ∀ o ∈ later, ¬ o.Pushes node) :
    node ∉ replay (history ++ later) := by
  induction later using List.reverseRecOn with
  | nil => simpa only [List.append_nil] using absent
  | append_singleton later operation ih =>
    have before := ih fun o member => quiet o (List.mem_append_left _ member)
    have last := quiet operation (by simp)
    rw [← List.append_assoc, replay_snoc]
    cases operation with
    | push n =>
      simp only [Operation.apply, List.mem_cons, not_or]
      exact ⟨fun same => last same.symm, before⟩
    | pop n => exact fun member => before (List.mem_of_mem_tail member)
    | pushChain nodes =>
      simp only [Operation.apply, List.mem_append, not_or]
      exact ⟨last, before⟩

/-- Between two pops of a node some operation pushed it again. -/
theorem Lawful.pushed_between {first middle last : List (Operation N)} {node : N}
    (lawful : Lawful (first ++ .pop node :: middle ++ .pop node :: last)) :
    ∃ o ∈ middle, o.Pushes node := by
  by_contra quiet
  push Not at quiet
  have top := lawful.pops_top
  have earlier : Lawful (first ++ .pop node :: middle) := lawful.take
  have popped := earlier.pops_top
  have gone : node ∉ replay (first ++ [.pop node]) := by
    have unique := (Lawful.take _ earlier : Lawful first).nodup
    rw [replay_snoc, Operation.apply]
    cases rest : replay first with
    | nil => simp
    | cons n tail =>
      rw [rest] at popped unique
      cases Option.some.inj popped
      exact (List.nodup_cons.mp unique).1
  have still := absent_until_pushed gone quiet
  rw [List.append_assoc, List.singleton_append] at still
  exact still (List.mem_of_head? top)

variable [DecidableEq N]

theorem Linked.update {next : N → Option N} {p value : Option N} {n : N} {nodes : List N}
    (linked : Linked next p nodes) (absent : n ∉ nodes) :
    Linked (Function.update next n value) p nodes := by
  apply linked.congr
  intro m member
  have different : m ≠ n := fun same => absent (same ▸ member)
  exact Function.update_of_ne different _ _

/-- Redirecting the last node of a duplicate-free path keeps the path. -/
theorem isChain_update_last {next : N → Option N} (value : Option N) {nodes : List N} {last : N}
    (path : List.IsChain (fun a b => next a = some b) nodes) (unique : nodes.Nodup)
    (ends : nodes.getLast? = some last) :
    List.IsChain (fun a b => Function.update next last value a = some b) nodes := by
  induction nodes with
  | nil => exact .nil
  | cons n tail ih =>
    cases tail with
    | nil => exact .singleton _
    | cons m others =>
      obtain ⟨step, path⟩ := List.isChain_cons_cons.mp path
      rw [List.getLast?_cons_cons] at ends
      obtain ⟨absent, unique⟩ := List.nodup_cons.mp unique
      have different : n ≠ last := fun same => absent (same ▸ List.mem_of_getLast? ends)
      refine List.isChain_cons_cons.mpr ⟨?_, ih path unique ends⟩
      rw [Function.update_of_ne different]
      exact step

theorem isChain_update_of_not_mem {next : N → Option N} (value : Option N) {nodes : List N} {n : N}
    (path : List.IsChain (fun a b => next a = some b) nodes) (absent : n ∉ nodes) :
    List.IsChain (fun a b => Function.update next n value a = some b) nodes := by
  refine List.IsChain.imp_of_mem_imp (fun a b member _ points => ?_) path
  have different : a ≠ n := fun same => absent (same ▸ member)
  rw [Function.update_of_ne different]
  exact points

/-- Pointing the last node of a path at another node extends it. -/
theorem isChain_link {next : N → Option N} {nodes : List N} {last node : N}
    (path : List.IsChain (fun a b => next a = some b) nodes) (unique : nodes.Nodup)
    (ends : nodes.getLast? = some last) :
    List.IsChain (fun a b => Function.update next last (some node) a = some b) (nodes ++ [node]) := by
  refine List.isChain_append.mpr ⟨isChain_update_last _ path unique ends, .singleton _, ?_⟩
  intro a isLast b isNode
  rw [ends, Option.mem_some_iff] at isLast
  subst isLast
  rw [List.head?_cons, Option.mem_some_iff] at isNode
  rw [Function.update_self, isNode]

namespace MutexStack

/-- The lock-based stack over a whole history; `none` if a pop would return
another node than the recorded one. -/
def executeAll (m : MutexStack N) (history : List (Operation N)) : Option (MutexStack N) :=
  history.foldlM MutexStack.execute m

theorem link_next_of_not_mem {nodes : List N} {m : MutexStack N} {n : N} (absent : n ∉ nodes) :
    (m.link nodes).next n = m.next n := by
  induction nodes generalizing m with
  | nil => rfl
  | cons a tail ih =>
    cases tail with
    | nil => rfl
    | cons b rest =>
      simp only [List.mem_cons, not_or] at absent
      rw [link, ih (by simp [absent.2])]
      exact Function.update_of_ne absent.1 _ _

theorem link_head (nodes : List N) (m : MutexStack N) : (m.link nodes).head = m.head := by
  induction nodes generalizing m with
  | nil => rfl
  | cons a tail ih =>
    cases tail with
    | nil => rfl
    | cons b rest => rw [link, ih]

theorem link_path {nodes : List N} (unique : nodes.Nodup) (m : MutexStack N) :
    List.IsChain (fun a b => (m.link nodes).next a = some b) nodes := by
  induction nodes generalizing m with
  | nil => exact .nil
  | cons a tail ih =>
    cases tail with
    | nil => exact .singleton _
    | cons b rest =>
      obtain ⟨absent, unique⟩ := List.nodup_cons.mp unique
      refine List.isChain_cons_cons.mpr ⟨?_, ih unique _⟩
      rw [link, link_next_of_not_mem absent]
      exact Function.update_self _ _ _

/-- `MutexStack` accepts every lawful history and holds exactly its replay. -/
theorem executes_lawful {history : List (Operation N)} (lawful : Lawful history)
    (memory : N → Option N) :
    ∃ m, executeAll ⟨none, memory⟩ history = some m ∧ Linked m.next m.head (replay history) := by
  induction lawful with
  | empty => exact ⟨_, rfl, rfl⟩
  | @push history node _ absent ih =>
    obtain ⟨m, executed, linked⟩ := ih
    refine ⟨m.push node, ?_, ?_⟩
    · simp only [executeAll, List.foldlM_append, List.foldlM_cons, List.foldlM_nil] at executed ⊢
      simp [executed, execute]
    · rw [replay_snoc]
      refine ⟨rfl, ?_⟩
      simp only [push, Function.update_self]
      exact linked.update absent
  | @pop history node _ top ih =>
    obtain ⟨m, executed, linked⟩ := ih
    have head : m.head = some node := linked.head.trans top
    have popped : m.pop = (some node, { m with head := m.next node }) := by
      simp only [MutexStack.pop, head]
    refine ⟨{ m with head := m.next node }, ?_, ?_⟩
    · simp only [executeAll, List.foldlM_append, List.foldlM_cons, List.foldlM_nil] at executed ⊢
      simp [executed, execute, popped]
    · rw [replay_snoc]
      exact linked.tail top
  | @pushChain history nodes _ unique absent ih =>
    obtain ⟨m, executed, linked⟩ := ih
    cases ends : nodes.getLast? with
    | none =>
      cases List.getLast?_eq_none_iff.mp ends
      refine ⟨m, ?_, by simpa only [replay_snoc, Operation.apply, List.nil_append] using linked⟩
      simp only [executeAll, List.foldlM_append, List.foldlM_cons, List.foldlM_nil] at executed ⊢
      simp [executed, execute]
    | some last =>
      obtain ⟨first, begins⟩ : ∃ first, nodes.head? = some first := by
        cases nodes with
        | nil => simp at ends
        | cons n rest => exact ⟨n, rfl⟩
      refine ⟨(m.link nodes).pushChain first last, ?_, ?_⟩
      · simp only [executeAll, List.foldlM_append, List.foldlM_cons, List.foldlM_nil] at executed ⊢
        simp [executed, execute, begins, ends]
      · rw [replay_snoc, Operation.apply]
        have kept : Linked (Function.update (m.link nodes).next last m.head) m.head
            (replay history) := by
          apply linked.congr
          intro n member
          have outside : n ∉ nodes := fun inside => absent n inside member
          have different : n ≠ last := fun same => outside (same ▸ List.mem_of_getLast? ends)
          rw [Function.update_of_ne different, link_next_of_not_mem outside]
        have path := isChain_update_last m.head (link_path unique m) unique ends
        have joined := kept.prepend path ends (Function.update_self _ _ _)
        simpa only [MutexStack.pushChain, link_head, begins] using joined

end MutexStack
end Talon.Memory
