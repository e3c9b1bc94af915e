import Mathlib.Data.Fintype.Defs
import Talon.Interleaving.Budget
import Talon.Memory.ArenaProofs

/-! Threads that come and go. The caches are `thread_local` and have no
destructor, so what a thread's caches hold when it exits is lost. If every thread
empties its caches before it exits, all slots stay in circulation, and the pools
allocate no more than their callers need at once. -/
namespace Talon.Memory
open Interleaving

section Model
variable {ι X Q L E A : Type}

/-- Thread `i` exits, and its caches with it. -/
def Arena.leave [DecidableEq ι] (bins : List X) (i : ι) (s : Arena ι X Q L E) : Arena ι X Q L E :=
  { s with
    cache := Function.update s.cache i fun x => (s.cache i x).reset
    lost := s.lost ++ bins.flatMap fun x => (s.cache i x).live }

/-- A thread exits between two calls. -/
def exits [DecidableEq ι] (bins : List X) : Exit ι (Arena ι X Q L E) (Procedure Q) where
  rest
    | .client => true
    | .walk _ => false
  leave := Arena.leave bins

abbrev Turnover (ι X Q L E A : Type) :=
  Crowd ι (Arena ι X Q L E) (Choice A Q) (Procedure Q) (Option (Slot Q))

/-- The caches of a thread that exits are empty. -/
def Tidy (before : Turnover ι X Q L E A) : Event ι (Choice A Q) → Prop
  | .exit i => ∀ x, (before.shared.cache i x).count = 0
  | .start _ | .work _ _ => True

instance [Fintype X] (before : Turnover ι X Q L E A) : (event : Event ι (Choice A Q)) → Decidable (Tidy before event)
  | .exit i => inferInstanceAs (Decidable (∀ x, (before.shared.cache i x).count = 0))
  | .start _ | .work _ _ => inferInstanceAs (Decidable True)

/-- At most `held` slots are in callers' hands, and at most `threads` threads are
running. -/
def Peak (held threads : Nat) (crowd : Turnover ι X Q L E A) : Prop :=
  crowd.shared.held.length ≤ held ∧ crowd.running.length ≤ threads

/-- The events of a run with tidy exits and these peaks. -/
def Modest (held threads : Nat) (before : Turnover ι X Q L E A) (event : Event ι (Choice A Q))
    (after : Turnover ι X Q L E A) : Prop := Tidy before event ∧ Peak held threads after

instance [Fintype X] (held threads : Nat) (before after : Turnover ι X Q L E A) (event : Event ι (Choice A Q)) :
    Decidable (Modest held threads before event after) :=
  inferInstanceAs (Decidable (_ ∧ after.shared.held.length ≤ held ∧ after.running.length ≤ threads))

/-- What is needed to acquire again every slot that no caller has. -/
structure Recovers (crowd : Turnover ι X Q L E A) : Prop where
  /-- The links spell out the free lists. -/
  linked : ∀ q, Linked crowd.shared.next (crowd.shared.head q) (crowd.shared.freed q)
  /-- The slot is in its free list, or with a running thread: in a cache of it, or
  carried by a call that has not returned yet. -/
  reachable : ∀ slot ∈ crowd.shared.carved, slot ∉ crowd.shared.held.map Prod.snd →
    slot ∈ crowd.shared.freed slot.pool ∨ ∃ i ∈ crowd.running, (∃ x, slot ∈ (crowd.shared.cache i x).live) ∨
      (slot ∈ (crowd.shared.hand i).toList ++ crowd.shared.chain i ∧
        ∀ next, crowd.pool.thread i ≠ .call .client next)

end Model

variable {ι X Q L E A : Type} {lay : Layout X Q L E} {reserve : E → Q → Nat} {width limit n m : Nat}
  {s t : Arena ι X Q L E} {i : ι} {p q : Q}

/-- No slot is lost or made twice, and no chain is longer than `width`. -/
structure Orderly (width : Nat) (s : Arena ι X Q L E) : Prop where
  chain : ∀ i, (s.chain i).length ≤ width
  once : s.carved.Nodup
  lost : s.lost = []

/-- A step that makes no slot. -/
structure Plain (width : Nat) (s t : Arena ι X Q L E) : Prop where
  chain : ∀ i, t.chain i = s.chain i ∨ (t.chain i).length ≤ width
  carved : t.carved = s.carved
  lost : t.lost = s.lost
  own : t.own = s.own

theorem Plain.orderly (plain : Plain width s t) (orderly : Orderly width s) : Orderly width t where
  chain i := (plain.chain i).elim (fun same => same ▸ orderly.chain i) id
  once := plain.carved ▸ orderly.once
  lost := plain.lost.trans orderly.lost

theorem Plain.of_chain (chain : t.chain = s.chain) (carved : t.carved = s.carved) (lost : t.lost = s.lost)
    (own : t.own = s.own) : Plain width s t := ⟨fun i => Or.inl (congrFun chain i), carved, lost, own⟩

section Budget
variable [DecidableEq Q]

/-- The slots made for free list `q`, and those in `reserve` for it, against the
slots that a thread may make once it has found the list empty. -/
def slotBudget (lay : Layout X Q L E) (reserve : E → Q → Nat) (width limit : Nat) (q : Q) :
    Budget (Arena ι X Q L E) where
  Inv := Arena.Valid lay
  Side := Orderly width
  cost s := s.carved.countP (fun slot => decide (slot.pool = q)) + reserve s.own q
  limit := limit
  grants s := s.head q = none

theorem Plain.cost (plain : Plain width s t) :
    (slotBudget lay reserve width limit q).cost t = (slotBudget lay reserve width limit q).cost s := by
  simp only [slotBudget, plain.carved, plain.own]

theorem frugal_exchange {α : Type} {read : Arena ι X Q L E → α} {write : Arena ι X Q L E → Arena ι X Q L E}
    (plain : ∀ s, s.Valid lay → Plain width s (write s)) :
    (slotBudget lay reserve width limit q).Frugal (.exchange read write : Code ι X Q L E A α) n :=
  Budget.Frugal.exchange fun s valid _ => ⟨(plain s valid).orderly, Nat.le_of_eq (plain s valid).cost⟩

theorem frugal_store {write : Arena ι X Q L E → Arena ι X Q L E}
    (plain : ∀ s, s.Valid lay → Plain width s (write s)) :
    (slotBudget lay reserve width limit q).Frugal (.store write : Code ι X Q L E A Unit) n :=
  frugal_exchange plain

theorem frugal_fault : (slotBudget lay reserve width limit q).Frugal (fault : Code ι X Q L E A Unit) n :=
  frugal_store fun _ _ => .of_chain rfl rfl rfl rfl

theorem frugal_storeNext {node value : Option (Slot Q)} :
    (slotBudget lay reserve width limit q).Frugal (storeNext node value : Code ι X Q L E A Unit) n := by
  cases node with
  | none => exact frugal_fault
  | some node => exact frugal_store fun _ _ => .of_chain rfl rfl rfl rfl

theorem frugal_carveLoop {block : Slot Q} {remaining k : Nat} {chain : Option (Slot Q × Slot Q)} :
    (slotBudget lay reserve width limit q).Frugal
      (carveLoop lay block remaining k chain : Code ι X Q L E A (Option (Slot Q × Slot Q))) 0 := by
  induction remaining generalizing k chain with
  | zero => exact .pure
  | succ remaining ih =>
    refine .bind frugal_storeNext fun _ => ?_
    cases chain with
    | none => exact ih
    | some ends => exact .bind frugal_storeNext fun _ => ih

theorem frugal_linkLoop {x : X} {remaining k : Nat} {tail : Option (Slot Q)} :
    (slotBudget lay reserve width limit q).Frugal
      (linkLoop i x remaining k tail : Code ι X Q L E A (Option (Slot Q))) 0 := by
  induction remaining generalizing k tail with
  | zero => exact .pure
  | succ remaining ih => exact .bind .load fun _ => .bind frugal_storeNext fun _ => ih

theorem frugal_walk {tail : Slot Q} :
    (slotBudget lay reserve width limit q).Frugal (walk tail : Code ι X Q L E A (Option (Slot Q))) n := by
  refine .bind .load fun first => ?_
  cases first with
  | none => exact .pure
  | some _ =>
    refine .bind .load fun second => ?_
    cases second with
    | none => exact .bind frugal_fault fun _ => .pure
    | some node => exact .enter

theorem countP_slots {block : Slot Q} {count : Nat} :
    (slots lay block count).countP (fun slot => decide (slot.pool = q)) = if block.pool = q then count else 0 := by
  simp only [slots, List.countP_map, Function.comp_def, slotAt]
  split
  · rename_i same
    simp only [same, decide_true, List.countP_true, List.length_range]
  · rename_i other
    rw [List.countP_eq_zero.mpr fun _ _ => by simp only [other, decide_false, Bool.false_eq_true, not_false_eq_true]]

variable [DecidableEq ι]

theorem frugal_pushChain {first last : Slot Q} :
    (slotBudget lay reserve width limit q).Frugal (pushChain i p first last : Code ι X Q L E A Unit) n := by
  refine frugal_store fun s _ => ⟨fun j => ?_, rfl, rfl, rfl⟩
  by_cases mine : j = i
  · subst mine
    exact Or.inr (by simp only [Arena.pushChain, Function.update_self, List.length_nil, Nat.zero_le])
  · exact Or.inl (Function.update_of_ne mine _ _)

omit [DecidableEq Q] in
theorem orderly_addBlock {count bytes : Nat} {block : Slot Q} (valid : s.Valid lay)
    (positive : 0 < lay.slotBytes block.pool) (fits : count ≤ width) (new : block.block = s.heap.length)
    (orderly : Orderly width s) : Orderly width (s.addBlock lay i count bytes block) := by
  refine ⟨fun j => ?_, ?_, orderly.lost⟩
  · by_cases mine : j = i
    · subst mine
      simpa only [Arena.addBlock, Function.update_self, slots, List.length_map, List.length_range] using fits
    · simpa only [Arena.addBlock, Function.update_of_ne mine] using orderly.chain j
  · refine List.nodup_append'.mpr ⟨orderly.once, Arena.slots_nodup positive, fun slot old made => ?_⟩
    obtain ⟨k, -, rfl⟩ := List.mem_map.mp made
    have made : (slotAt lay block k).block = s.heap.length := new
    exact valid.fresh made old

/-- `GrowPool` spends its count, if it is for free list `q`. -/
theorem frugal_growPool {count : Nat} (positive : 0 < lay.slotBytes p) (fits : count ≤ width) :
    (slotBudget lay reserve width limit q).Frugal (growPool lay i p count : Code ι X Q L E A Unit)
      (if p = q then count else 0) := by
  refine .atomic_bind fun c s t valid stepped _ => ?_
  cases address : c.address with
  | none =>
    simp only [address, Option.some.injEq] at stepped
    subst stepped
    exact ⟨id, 0, Nat.zero_le _, .pure, Or.inl (Nat.le_add_right _ _)⟩
  | some address' =>
    simp only [address, Option.ite_none_right_eq_some, Option.some.injEq] at stepped
    obtain ⟨-, rfl⟩ := stepped
    refine ⟨orderly_addBlock valid positive fits rfl, 0, Nat.zero_le _, ?_, Or.inl ?_⟩
    · refine .bind frugal_carveLoop fun ends => ?_
      cases ends with
      | none => exact .pure
      | some ends => exact .bind frugal_storeNext fun _ => frugal_pushChain
    · simp only [slotBudget, Arena.addBlock, List.countP_append, countP_slots]
      omega

theorem frugal_allocateSlot :
    (slotBudget lay reserve width limit q).Frugal (allocateSlot lay i p : Code ι X Q L E A (Option (Slot Q)))
      (if p = q then 1 else 0) := by
  intro c s t valid stepped _
  cases address : c.address with
  | none =>
    simp only [address, Option.some.injEq] at stepped
    subst stepped
    exact ⟨id, 0, Nat.zero_le _, trivial, Or.inl (Nat.le_add_right _ _)⟩
  | some address' =>
    simp only [address, Option.ite_none_right_eq_some, Option.some.injEq] at stepped
    obtain ⟨-, rfl⟩ := stepped
    refine ⟨fun orderly => ⟨orderly.chain, ?_, orderly.lost⟩, 0, Nat.zero_le _, trivial, Or.inl ?_⟩
    · refine List.nodup_append'.mpr ⟨orderly.once, List.nodup_singleton _, fun slot old made => ?_⟩
      cases List.mem_singleton.mp made
      exact valid.fresh rfl old
    · simp only [slotBudget, Arena.addSlot, List.countP_append, List.countP_singleton, decide_eq_true_eq]
      omega

theorem plain_popFree : Plain width s (s.popFree i p) := by
  unfold Arena.popFree
  split <;> exact .of_chain rfl rfl rfl rfl

/-- Who finds the free list empty is granted new slots. -/
theorem frugal_popFree_bind {β : Type} {k : Option (Slot Q) → Code ι X Q L E A β} (small : m ≤ limit)
    (empty : (slotBudget lay reserve width limit q).Frugal (k none) (if p = q then m else 0))
    (found : ∀ node, (slotBudget lay reserve width limit q).Frugal (k (some node)) 0) :
    (slotBudget lay reserve width limit q).Frugal (popFree i p >>= k) n := by
  refine .atomic_bind fun c s t valid stepped _ => ?_
  cases Option.some.inj stepped
  refine ⟨plain_popFree.orderly, ?_⟩
  rw [plain_popFree.cost]
  dsimp only
  cases top : s.head p with
  | some node => exact ⟨0, Nat.zero_le _, found node, Or.inl (by omega)⟩
  | none =>
    by_cases same : p = q
    · rw [if_pos same] at empty
      exact ⟨m, small, empty, Or.inr ⟨same ▸ top, Nat.le_refl _⟩⟩
    · rw [if_neg same] at empty
      exact ⟨0, Nat.zero_le _, empty, Or.inl (by omega)⟩

theorem frugal_receive {request : L} {result : Option (Slot Q)} :
    (slotBudget lay reserve width limit q).Frugal (receive i request result : Code ι X Q L E A Unit) n :=
  frugal_store fun _ _ => .of_chain rfl rfl rfl rfl

theorem frugal_finish : (slotBudget lay reserve width limit q).Frugal (finish i : Code ι X Q L E A Unit) n :=
  frugal_store fun _ _ => .of_chain rfl rfl rfl rfl

variable [DecidableEq X]

/-- `Acquire` goes for new slots each time it finds the free list empty: to
`populate` at most `m`, and then to have one of its own. -/
theorem frugal_acquire {populate : Code ι X Q L E A Unit} (small : m ≤ limit) (one : 1 ≤ limit)
    (populates : (slotBudget lay reserve width limit q).Frugal populate (if p = q then m else 0)) :
    (slotBudget lay reserve width limit q).Frugal (acquire lay i p populate) n := by
  have pops : (slotBudget lay reserve width limit q).Frugal
      (popCache i (lay.bin p) : Code ι X Q L E A (Option (Slot Q))) n :=
    frugal_exchange fun _ _ => .of_chain rfl rfl rfl rfl
  refine .bind pops fun cached => ?_
  cases cached with
  | some node => exact .pure
  | none =>
    refine frugal_popFree_bind small ?_ fun _ => .pure
    refine .bind populates fun _ => ?_
    exact frugal_popFree_bind one frugal_allocateSlot fun _ => .pure

theorem frugal_pushCache {x : X} {node : Slot Q} :
    (slotBudget lay reserve width limit q).Frugal (pushCache lay i x node : Code ι X Q L E A Bool) n :=
  frugal_exchange fun _ _ => .of_chain rfl rfl rfl rfl

omit [DecidableEq Q] in
theorem plain_takeHalf {x : X} (valid : s.Valid lay) (wide : lay.cacheSize ≤ width) :
    Plain width s (s.takeHalf i x) := by
  refine ⟨fun j => ?_, rfl, rfl, rfl⟩
  by_cases mine : j = i
  · subst mine
    have stocks := valid.stocked j x
    have half : (s.cache j x).upper.length ≤ width := by
      rw [stocks.filled.upper_length]
      have bounded := stocks.bounded
      omega
    exact Or.inr (by simpa only [Arena.takeHalf, Function.update_self] using half)
  · exact Or.inl (Function.update_of_ne mine _ _)

theorem frugal_flushHalf {x : X} (wide : lay.cacheSize ≤ width) :
    (slotBudget lay reserve width limit q).Frugal (flushHalf lay i x : Code ι X Q L E A (Option (Slot Q))) n := by
  refine .bind .load fun count => ?_
  split
  · exact .pure
  · refine .bind (frugal_store fun _ valid => plain_takeHalf valid wide) fun _ => ?_
    refine .bind .load fun head => ?_
    exact .bind frugal_linkLoop fun _ => .bind frugal_storeNext fun _ => .pure

theorem frugal_flush (wide : lay.cacheSize ≤ width) :
    (slotBudget lay reserve width limit q).Frugal (flush lay i p : Code ι X Q L E A Unit) n := by
  refine .bind (frugal_flushHalf wide) fun batch => ?_
  cases batch with
  | none => exact .pure
  | some batch =>
    refine .bind .enter fun tail => ?_
    cases tail with
    | none => exact frugal_fault
    | some tail => exact frugal_pushChain

theorem frugal_releaseMemory {node : Slot Q} (wide : lay.cacheSize ≤ width) :
    (slotBudget lay reserve width limit q).Frugal (releaseMemory lay i p node : Code ι X Q L E A Unit) n := by
  refine .bind frugal_pushCache fun pushed => ?_
  split
  · exact .pure
  · exact .bind (frugal_flush wide) fun _ => .bind frugal_pushCache fun _ => .pure

end Budget

section Crowds

/-- A thread that does not run carries nothing and has empty caches. -/
def Idle (v : View X Q) : Prop := v.hand = none ∧ v.chain = [] ∧ ∀ x, (v.cache x).count = 0

variable {running : List ι}

theorem live_length (valid : s.Valid lay) (x : X) : (s.cache i x).live.length ≤ lay.cacheSize := by
  have within := List.length_filterMap_le (s.cache i x).nodes (List.range (s.cache i x).count)
  rw [List.length_range] at within
  exact Nat.le_trans within (valid.stocked i x).bounded

/-- The slots of free list `p` that thread `i` has. -/
def Arena.portion (lay : Layout X Q L E) (p : Q) (s : Arena ι X Q L E) (i : ι) : List (Slot Q) :=
  (s.cache i (lay.bin p)).live ++ (s.hand i).toList ++ s.chain i

theorem portion_length (valid : s.Valid lay) (orderly : Orderly width s) :
    (s.portion lay p i).length ≤ lay.cacheSize + 1 + width := by
  have cached := live_length (i := i) valid (lay.bin p)
  have hand : (s.hand i).toList.length ≤ 1 := by cases s.hand i <;> simp
  have chain := orderly.chain i
  simp only [Arena.portion, List.length_append]
  omega

variable [DecidableEq Q]

/-- The place of a slot that is not lost. -/
theorem reachable (valid : s.Valid lay) (orderly : Orderly width s)
    (idle : ∀ i, i ∉ running → Idle (s.view i)) {slot : Slot Q} (member : slot ∈ s.carved) :
    slot ∈ s.freed slot.pool ∨ slot ∈ s.held.map Prod.snd ∨ ∃ i ∈ running, slot ∈ s.portion lay slot.pool i := by
  obtain ⟨place, kept⟩ := (valid.custody.total slot).mp member
  have runs : ∀ i, slot ∈ s.portion lay slot.pool i → i ∈ running := by
    intro i has
    by_contra outside
    obtain ⟨hand, chain, cache⟩ := idle i outside
    have nothing : s.portion lay slot.pool i = [] := by
      have none_ : s.hand i = none := hand
      have nil : s.chain i = [] := chain
      simp only [Arena.portion, none_, nil, Option.toList, List.append_nil]
      exact ThreadCache.live_nil (cache (lay.bin slot.pool))
    rw [nothing] at has
    contradiction
  cases place with
  | free q =>
    obtain rfl := valid.sorted q slot kept
    exact Or.inl kept
  | held => exact Or.inr (Or.inl kept)
  | lost =>
    rw [Arena.contents, orderly.lost] at kept
    contradiction
  | cached i x =>
    have mine : slot ∈ s.portion lay slot.pool i := by
      obtain rfl := (valid.stocked i x).binned slot kept
      exact List.mem_append_left _ (List.mem_append_left _ kept)
    exact Or.inr (Or.inr ⟨i, runs i mine, mine⟩)
  | hand i =>
    have mine : slot ∈ s.portion lay slot.pool i := List.mem_append_left _ (List.mem_append_right _ kept)
    exact Or.inr (Or.inr ⟨i, runs i mine, mine⟩)
  | chain i =>
    have mine : slot ∈ s.portion lay slot.pool i := List.mem_append_right _ kept
    exact Or.inr (Or.inr ⟨i, runs i mine, mine⟩)

/-- When a free list is empty, its slots are with callers and running threads. -/
theorem countP_of_empty (valid : s.Valid lay) (orderly : Orderly width s)
    (idle : ∀ i, i ∉ running → Idle (s.view i)) (empty : s.head q = none) :
    s.carved.countP (fun slot => decide (slot.pool = q)) ≤
      s.held.length + running.length * (lay.cacheSize + 1 + width) := by
  have nothing : s.freed q = [] := by
    have first := (valid.linked q).head
    rw [empty] at first
    exact List.head?_eq_none_iff.mp first.symm
  have sublist : s.carved.filter (fun slot => decide (slot.pool = q)) ⊆
      s.held.map Prod.snd ++ running.flatMap (s.portion lay q) := by
    intro slot member
    obtain ⟨carved, same⟩ := List.mem_filter.mp member
    obtain rfl := of_decide_eq_true same
    rcases reachable valid orderly idle carved with free | held | ⟨i, runs, mine⟩
    · rw [nothing] at free
      contradiction
    · exact List.mem_append_left _ held
    · exact List.mem_append_right _ (List.mem_flatMap.mpr ⟨i, runs, mine⟩)
  have counted := (List.subperm_of_subset (orderly.once.filter _) sublist).length_le
  have portions := Budget.sum_credits running (m := lay.cacheSize + 1 + width)
    fun i => portion_length (p := q) (i := i) valid orderly
  rw [List.length_append, List.length_map, List.length_flatMap] at counted
  rw [List.countP_eq_length_filter]
  omega

end Crowds

theorem leave_empty [DecidableEq ι] {bins : List X} (empty : ∀ x, (s.cache i x).count = 0) : s.leave bins i = s := by
  have kept : (fun x => (s.cache i x).reset) = s.cache i := by
    funext x
    simp only [ThreadCache.reset, ← empty x]
  have nothing : (bins.flatMap fun x => (s.cache i x).live) = [] :=
    List.flatMap_eq_nil_iff.mpr fun x _ => ThreadCache.live_nil (empty x)
  simp only [Arena.leave, kept, nothing, Function.update_eq_self, List.append_nil]

section Runs
variable [DecidableEq ι] {bins : List X} {held threads : Nat} {own : E} {crowd : Turnover ι X Q L E A}
  {code : ι → Procedure Q → Code ι X Q L E A (Option (Slot Q))}

/-- No thread has started, and there is no slot. -/
def nobody (own : E) : Turnover ι X Q L E A := .gather ⟨.empty own, fun _ => do let _ ← .enter .client⟩

theorem modest_quiet : Crowd.Quiet (exits bins) (Modest held threads : Turnover ι X Q L E A → _) :=
  fun _ _ _ modest => leave_empty modest.1

theorem modest_peak (path : Crowd.Reaches code (exits bins) (Modest held threads) (nobody own) crowd) :
    Peak held threads crowd := by
  cases path with
  | refl => exact ⟨Nat.zero_le _, Nat.zero_le _⟩
  | next _ _ modest => exact modest.2

/-- Every run has its peaks. -/
theorem tidy_modest
    (path : Crowd.Reaches code (exits bins) (fun before event _ => Tidy before event) (nobody own) crowd) :
    ∃ held threads, Crowd.Reaches code (exits bins) (Modest held threads) (nobody own) crowd := by
  induction path with
  | refl => exact ⟨0, 0, .refl⟩
  | @next before after event _ stepped tidy ih =>
    obtain ⟨held, threads, path⟩ := ih
    refine ⟨max held after.shared.held.length, max threads after.running.length, ?_⟩
    refine .next (path.mono fun _ _ _ modest => ⟨modest.1, ?_, ?_⟩) stepped ⟨tidy, ?_, ?_⟩
    · exact Nat.le_trans modest.2.1 (Nat.le_max_left _ _)
    · exact Nat.le_trans modest.2.2 (Nat.le_max_left _ _)
    · exact Nat.le_max_right _ _
    · exact Nat.le_max_right _ _

variable [DecidableEq Q] {allowed : Arena ι X Q L E → Arena ι X Q L E → Prop} {most : Q → Nat}

/-- What the pools have in common: their procedures keep the invariant and, for
each free list, to its budget. -/
structure Keeps (lay : Layout X Q L E) (allowed : Arena ι X Q L E → Arena ι X Q L E → Prop) (own : E)
    (code : ι → Procedure Q → Code ι X Q L E A (Option (Slot Q))) (reserve : E → Q → Nat) (width limit : Nat)
    (most : Q → Nat) : Prop where
  proved : ∀ pool, Pool.Reaches code (fun _ _ => True) (nobody own : Turnover ι X Q L E A).pool pool →
    Proved (ownership lay allowed).discipline (fun i => (ownership lay allowed).contract spec i) pool ∧
      pool.shared.Valid lay
  admits : ∀ s t, allowed s t
  frugal : ∀ q i f, (slotBudget lay reserve width limit q).Frugal (code i f) 0
  reserves : ∀ own q, reserve own q ≤ most q

section Common
variable (keeps : Keeps lay allowed own code reserve width limit most)
  (path : Crowd.Reaches code (exits bins) (Modest held threads) (nobody own) crowd)
include keeps path

theorem idle_absent : ∀ i, i ∉ crowd.running → Idle (crowd.shared.view i) := by
  refine Crowd.Reaches.absent (P := fun i s => Idle (s.view i)) modest_quiet ?_ ?_ ?_ path
  · exact fun _ => ⟨rfl, rfl, fun _ => rfl⟩
  · intro before pool i j c path moved other idle
    obtain ⟨proved, valid⟩ := keeps.proved before.pool (path.pool modest_quiet)
    have same : pool.shared.view j = before.shared.view j :=
      Ownership.step_others (K := fun _ => spec) proved valid moved (keeps.admits _ _) other
    rw [same]
    exact idle
  · intro before after i path resting modest
    obtain ⟨proved, -⟩ := keeps.proved before.pool (path.pool modest_quiet)
    cases program : before.pool.thread i with
    | ret | act =>
      rw [program] at resting
      contradiction
    | call f next =>
      rw [program] at resting
      cases f with
      | walk tail => contradiction
      | client =>
        obtain ⟨hand, chain⟩ := Ownership.entered_pre (K := fun _ => spec) proved program
        exact ⟨hand, chain, modest.1⟩

/-- One free list's slots, in a run with tidy exits. -/
theorem turnover_bounded (q : Q) : Orderly width crowd.shared ∧
    crowd.shared.carved.countP (fun slot => decide (slot.pool = q)) ≤
      held + threads * (lay.cacheSize + 1 + width) + most q + threads * limit := by
  have valid : ∀ crowd, Crowd.Reaches code (exits bins) (Modest held threads) (nobody own) crowd →
      crowd.shared.Valid lay := fun crowd path => (keeps.proved crowd.pool (path.pool modest_quiet)).2
  have granted : ∀ crowd, Crowd.Reaches code (exits bins) (Modest held threads) (nobody own) crowd →
      Orderly width crowd.shared → crowd.shared.head q = none →
      (slotBudget lay reserve width limit q).cost crowd.shared ≤
        held + threads * (lay.cacheSize + 1 + width) + most q := by
    intro crowd path orderly empty
    have counted := countP_of_empty (valid crowd path) orderly (idle_absent keeps path) empty
    obtain ⟨few, live⟩ := modest_peak path
    have room := Nat.mul_le_mul_right (lay.cacheSize + 1 + width) live
    have reserved := keeps.reserves crowd.shared.own q
    change _ + reserve _ q ≤ _
    omega
  have initially : (slotBudget lay reserve width limit q).cost (nobody own : Turnover ι X Q L E A).shared ≤
      held + threads * (lay.cacheSize + 1 + width) + most q := by
    have reserved := keeps.reserves own q
    change 0 + reserve own q ≤ _
    omega
  have within := Budget.within modest_quiet (keeps.frugal q) (fun _ => .bind .enter fun _ => .pure) rfl
    ⟨fun _ => Nat.zero_le _, List.nodup_nil, rfl⟩ initially valid (fun _ path => (modest_peak path).2) granted path
  exact ⟨within.1, Nat.le_trans (Nat.le_add_right _ _) within.2⟩

theorem turnover_recovers : Recovers crowd := by
  obtain ⟨proved, valid⟩ := keeps.proved crowd.pool (path.pool modest_quiet)
  refine ⟨valid.linked, fun slot carved free => ?_⟩
  obtain ⟨orderly, -⟩ := turnover_bounded keeps path slot.pool
  rcases reachable valid orderly (idle_absent keeps path) carved with listed | held | ⟨i, runs, mine⟩
  · exact Or.inl listed
  · exact absurd held free
  · refine Or.inr ⟨i, runs, ?_⟩
    rw [Arena.portion, List.append_assoc] at mine
    rcases List.mem_append.mp mine with cached | carried
    · exact Or.inl ⟨_, cached⟩
    · refine Or.inr ⟨carried, fun next calls => ?_⟩
      obtain ⟨hand, chain⟩ := Ownership.entered_pre (K := fun _ => spec) proved calls
      have none_ : crowd.shared.hand i = none := hand
      have nil : crowd.shared.chain i = [] := chain
      rw [none_, nil] at carried
      contradiction

end Common
end Runs
end Talon.Memory
