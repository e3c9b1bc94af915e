import Talon.Interleaving.Custody
import Talon.Task.InlineFunction

/-! After any sequence of operations every callable object is in one function or was
destroyed once, likewise every heap block, and each function calls what the moves
have carried into it. -/
namespace Talon.Task.Inline
open Interleaving

variable {V : Type} {s : State V} {this other b : Object} {f : InlineFunction V → InlineFunction V}
  {inlineSize : Nat}

@[simp] theorem set_function_self : (s.set this f).function this = f (s.function this) :=
  Function.update_self _ _ _

theorem set_function_of_ne (different : b ≠ this) : (s.set this f).function b = s.function b :=
  Function.update_of_ne different _ _

/-- Who has a callable object or a block. -/
inductive Keeper where
  | function (this : Object)
  | gone

section Keeps
variable {N : Type} {has : Object → Option N} {gone all : List N}

def keeps (has : Object → Option N) (gone : List N) : Keeper → List N
  | .function b => (has b).toList
  | .gone => gone

theorem keeps_of_ne {x : Option N} {k : Keeper} (different : k ≠ .function b) :
    keeps (Function.update has b x) gone k = keeps has gone k := by
  cases k with
  | gone => rfl
  | function c =>
    have other : c ≠ b := fun same => different (congrArg Keeper.function same)
    exact congrArg Option.toList (Function.update_of_ne other _ _)

theorem keeps_self {x : Option N} : keeps (Function.update has b x) gone (.function b) = x.toList :=
  congrArg Option.toList (Function.update_self _ _ _)

/-- The function gives up what it has. -/
theorem custody_drop (custody : Custody (keeps has gone) all) (b : Object) :
    Custody (keeps (Function.update has b none) (gone ++ (has b).toList)) all := by
  refine custody.move (.function b) .gone (has b).toList nofun ?_ List.perm_append_comm fun k here there => ?_
  · rw [keeps_self, Option.toList_none, List.append_nil]
    exact .refl _
  · cases k with
    | gone => exact absurd rfl there
    | function c => exact keeps_of_ne here

/-- What one function has goes to another that has nothing. -/
theorem custody_move (custody : Custody (keeps has gone) all) (different : this ≠ other) (nothing : has this = none) :
    Custody (keeps (Function.update (Function.update has this (has other)) other none) gone) all := by
  refine custody.move (.function other) (.function this) (has other).toList
    (fun same => different (Keeper.function.inj same).symm) ?_ ?_ fun k here there => ?_
  · rw [keeps_self, Option.toList_none, List.append_nil]
    exact .refl _
  · rw [keeps_of_ne (fun same => different (Keeper.function.inj same)), keeps_self]
    change (has other).toList.Perm ((has other).toList ++ (has this).toList)
    rw [nothing, Option.toList_none, List.append_nil]
  · rw [keeps_of_ne here, keeps_of_ne there]

/-- A function that has nothing gets something new. -/
theorem custody_gain {n : N} (custody : Custody (keeps has gone) all) (nothing : has b = none) (fresh : n ∉ all) :
    Custody (keeps (Function.update has b (some n)) gone) (all ++ [n]) := by
  refine custody.add (.function b) (List.nodup_singleton n) ?_ ?_ fun k here => keeps_of_ne here
  · intro m member
    rw [List.mem_singleton.mp member]
    exact fresh
  · rw [keeps_self]
    change [n].Perm ([n] ++ (has b).toList)
    rw [nothing]
    exact .refl _

end Keeps

/-- How the members of a function stand for the callable and the block it has. -/
inductive Shape (s : State V) (b : Object) : Option (Callable V) → Option Nat → Prop where
  | empty (vtable : (s.function b).vtable = none) (isHeap : (s.function b).isHeap = false) : Shape s b none none
  | inline (callable : Callable V) (vtable : (s.function b).vtable = some callable.type)
      (isHeap : (s.function b).isHeap = false) (storage : (s.function b).storage = .object callable) :
      Shape s b (some callable) none
  | heap (callable : Callable V) (block : Nat) (vtable : (s.function b).vtable = some callable.type)
      (isHeap : (s.function b).isHeap = true) (storage : (s.function b).storage = .pointer block)
      (there : s.heap block = some callable) : Shape s b (some callable) (some block)

theorem Shape.congr {t : State V} {callable : Option (Callable V)} {block : Option Nat}
    (shape : Shape s b callable block) (function : t.function b = s.function b)
    (heap : ∀ n ∈ block, t.heap n = s.heap n) : Shape t b callable block := by
  cases shape with
  | empty vtable isHeap => exact .empty (function ▸ vtable) (function ▸ isHeap)
  | inline c vtable isHeap storage => exact .inline c (function ▸ vtable) (function ▸ isHeap) (function ▸ storage)
  | heap c n vtable isHeap storage there =>
    exact .heap c n (function ▸ vtable) (function ▸ isHeap) (function ▸ storage) ((heap n rfl).trans there)

/-- A call reaches the callable that the function has. -/
theorem Shape.invoke {callable : Option (Callable V)} {block : Option Nat} (shape : Shape s b callable block) :
    s.invoke b = callable.map Callable.value := by
  cases shape with
  | empty vtable isHeap => simp [State.invoke, vtable]
  | inline c vtable isHeap storage =>
    simp [State.invoke, State.objPtr, State.cast, State.find, vtable, isHeap, storage]
  | heap c n vtable isHeap storage there =>
    simp [State.invoke, State.objPtr, State.cast, State.find, vtable, isHeap, storage, there]

theorem Shape.vtable {callable : Option (Callable V)} {block : Option Nat} (shape : Shape s b callable block) :
    (s.function b).vtable = callable.map Callable.type := by
  cases shape with
  | empty vtable isHeap => exact vtable
  | inline c vtable isHeap storage => exact vtable
  | heap c n vtable isHeap storage there => exact vtable

/-- Function `b` has the callable `owned b` and the block `block b`. -/
structure Accounted (s : State V) (owned : Object → Option (Callable V)) (block : Object → Option Nat) : Prop where
  shape : ∀ b, Shape s b (owned b) (block b)
  callables : Custody (keeps owned s.destroyed) s.made
  blocks : Custody (keeps block s.freed) s.allocated
  numbered : ∀ c ∈ s.made, c.number < s.made.length
  listed : ∀ n ∈ s.allocated, n < s.allocated.length
  dead : ∀ b, (s.function b).alive = false → owned b = none
  sound : s.faulted = false

variable {owned : Object → Option (Callable V)} {block : Object → Option Nat}

theorem Shape.block_none {n : Option Nat} (shape : Shape s b none n) : n = none := by
  cases shape with
  | empty vtable isHeap => rfl

/-- Two functions never share a block. -/
theorem Accounted.apart {n : Nat} (accounted : Accounted s owned block) (different : b ≠ this)
    (has : block b = some n) : block this ≠ some n := by
  intro same
  have here : n ∈ keeps block s.freed (.function b) := Option.mem_toList.mpr has
  have there : n ∈ keeps block s.freed (.function this) := Option.mem_toList.mpr same
  exact different (Keeper.function.inj (accounted.blocks.apart _ _ n here there))

/-! ### Destroying -/

/-- What `Destroy()` does to a function that has `callable` and `block`. -/
structure Destroyed (this : Object) (callable : Option (Callable V)) (block : Option Nat) (s t : State V) : Prop where
  vtable : (t.function this).vtable = none
  isHeap : (t.function this).isHeap = false
  alive : (t.function this).alive = (s.function this).alive
  others : ∀ b, b ≠ this → t.function b = s.function b
  heap : ∀ n, block ≠ some n → t.heap n = s.heap n
  made : t.made = s.made
  destroyed : t.destroyed = s.destroyed ++ callable.toList
  allocated : t.allocated = s.allocated
  freed : t.freed = s.freed ++ block.toList
  faulted : t.faulted = s.faulted

theorem Shape.destroy {callable : Option (Callable V)} {block : Option Nat} (shape : Shape s this callable block) :
    Destroyed this callable block s (s.destroy this) := by
  cases shape with
  | empty vtable isHeap =>
    have same : s.destroy this = s := by simp only [State.destroy, vtable]
    rw [same]
    exact ⟨vtable, isHeap, rfl, fun _ _ => rfl, fun _ _ => rfl, rfl, (List.append_nil _).symm, rfl,
      (List.append_nil _).symm, rfl⟩
  | inline c vtable isHeap storage =>
    have gone : s.destroy this = { s.set this fun f => { f with storage := .bytes, vtable := none, isHeap := false } with
        destroyed := s.destroyed ++ [c] } := by
      simp [State.destroy, State.destroyCallable, State.cast, State.objPtr, State.find, State.vacate, State.set, vtable,
        isHeap, storage]
    rw [gone]
    refine ⟨?_, ?_, ?_, fun b different => Function.update_of_ne different _ _, fun _ _ => rfl, rfl, rfl, rfl,
      (List.append_nil _).symm, rfl⟩ <;> rw [set_function_self]
  | heap c n vtable isHeap storage there =>
    have gone : s.destroy this = { s.set this fun f => { f with vtable := none, isHeap := false } with
        heap := Function.update s.heap n none, destroyed := s.destroyed ++ [c], freed := s.freed ++ [n] } := by
      simp [State.destroy, State.destroyCallable, State.cast, State.objPtr, State.find, State.vacate, State.set,
        State.operatorDelete, vtable, isHeap, storage, there]
    rw [gone]
    refine ⟨?_, ?_, ?_, fun b different => Function.update_of_ne different _ _, fun m other => ?_, rfl, rfl, rfl,
      rfl, rfl⟩
    · rw [set_function_self]
    · rw [set_function_self]
    · rw [set_function_self]
    · exact Function.update_of_ne (fun same => other (congrArg some same.symm)) _ _

theorem Accounted.destroy (accounted : Accounted s owned block) (this : Object) :
    Accounted (s.destroy this) (Function.update owned this none) (Function.update block this none) := by
  have gone := (accounted.shape this).destroy
  refine ⟨fun b => ?_, ?_, ?_, ?_, ?_, fun b dead => ?_, gone.faulted.trans accounted.sound⟩
  · by_cases here : b = this
    · subst here
      rw [Function.update_self, Function.update_self]
      exact .empty gone.vtable gone.isHeap
    · rw [Function.update_of_ne here, Function.update_of_ne here]
      exact (accounted.shape b).congr (gone.others b here) fun n has => gone.heap n (accounted.apart here has)
  · rw [gone.destroyed, gone.made]
    exact custody_drop accounted.callables this
  · rw [gone.freed, gone.allocated]
    exact custody_drop accounted.blocks this
  · rw [gone.made]
    exact accounted.numbered
  · rw [gone.allocated]
    exact accounted.listed
  · by_cases here : b = this
    · subst here
      exact Function.update_self _ _ _
    · rw [Function.update_of_ne here]
      exact accounted.dead b (gone.others b here ▸ dead)

/-! ### Moving -/

/-- The values of the callables that the functions have. -/
def values (owned : Object → Option (Callable V)) : Contents V := fun b => (owned b).map Callable.value

theorem values_update {c : Option (Callable V)} :
    values (Function.update owned b c) = Function.update (values owned) b (c.map Callable.value) := by
  funext x
  by_cases here : x = b
  · subst here
    simp only [values, Function.update_self]
  · simp only [values, Function.update_of_ne here]

/-- What taking the contents of `other` does to the rest. -/
structure Taken (this other : Object) (s t : State V) : Prop where
  vtable : (t.function other).vtable = none
  isHeap : (t.function other).isHeap = false
  aliveThis : (t.function this).alive = (s.function this).alive
  aliveOther : (t.function other).alive = (s.function other).alive
  others : ∀ b, b ≠ this → b ≠ other → t.function b = s.function b
  heap : t.heap = s.heap
  allocated : t.allocated = s.allocated
  freed : t.freed = s.freed
  faulted : t.faulted = s.faulted

/-- The moved-from function becomes empty. -/
theorem Taken.shapes {t : State V} {c : Option (Callable V)} (taken : Taken this other s t)
    (accounted : Accounted s owned block) (got : Shape t this c (block other)) :
    ∀ b, Shape t b (Function.update (Function.update owned this c) other none b)
      (Function.update (Function.update block this (block other)) other none b) := by
  intro b
  by_cases source : b = other
  · subst source
    rw [Function.update_self, Function.update_self]
    exact .empty taken.vtable taken.isHeap
  rw [Function.update_of_ne source, Function.update_of_ne source]
  by_cases target : b = this
  · subst target
    rw [Function.update_self, Function.update_self]
    exact got
  · rw [Function.update_of_ne target, Function.update_of_ne target]
    exact (accounted.shape b).congr (taken.others b target source) fun n _ => congrFun taken.heap n

theorem Taken.dead {t : State V} {c : Option (Callable V)} (taken : Taken this other s t)
    (accounted : Accounted s owned block) (existing : (s.function this).alive = true) :
    ∀ b, (t.function b).alive = false → Function.update (Function.update owned this c) other none b = none := by
  intro b dead
  by_cases source : b = other
  · subst source
    exact Function.update_self _ _ _
  rw [Function.update_of_ne source]
  by_cases target : b = this
  · subst target
    rw [taken.aliveThis, existing] at dead
    contradiction
  · rw [Function.update_of_ne target]
    exact accounted.dead b (taken.others b target source ▸ dead)

/-- A callable on the heap stays where it is. -/
theorem take_heap (different : this ≠ other) (vtable : (s.function other).vtable = some t)
    (isHeap : (s.function other).isHeap = true) {n : Nat} (storage : (s.function other).storage = .pointer n) :
    s.take this other =
      (s.set this fun f => { f with storage := .pointer n, vtable := some t, isHeap := true }).set other
        fun f => { f with vtable := none, isHeap := false } := by
  simp [State.take, State.copyPointer, State.set, vtable, isHeap, storage, Function.update_of_ne different.symm]

/-- An inline callable is made anew in the target, and destroyed in the source. -/
theorem take_inline (different : this ≠ other) {c : Callable V} (vtable : (s.function other).vtable = some c.type)
    (isHeap : (s.function other).isHeap = false) (storage : (s.function other).storage = .object c) :
    s.take this other =
      { (s.set this fun f =>
          { f with storage := .object ⟨c.type, c.value, s.made.length⟩, vtable := some c.type, isHeap := false }).set
          other fun f => { f with storage := .bytes, vtable := none, isHeap := false } with
        made := s.made ++ [⟨c.type, c.value, s.made.length⟩], destroyed := s.destroyed ++ [c] } := by
  simp [State.take, State.moveCallable, State.constructInline, State.destroyCallable, State.cast, State.find,
    State.vacate, State.set, vtable, isHeap, storage, Function.update_of_ne different.symm]

theorem take_empty (vtable : (s.function other).vtable = none)
    (isHeap : (s.function other).isHeap = false) :
    s.take this other = (s.set this fun f => { f with vtable := none, isHeap := false }).set other
      fun f => { f with vtable := none, isHeap := false } := by
  simp [State.take, vtable, isHeap]

/-- The two functions are all that changes. -/
theorem taken_of_set {g : InlineFunction V → InlineFunction V} (different : this ≠ other)
    (aliveThis : ∀ x, (f x).alive = x.alive) (aliveOther : ∀ x, (g x).alive = x.alive)
    (vtable : ∀ x, (g x).vtable = none) (isHeap : ∀ x, (g x).isHeap = false) :
    Taken this other s ((s.set this f).set other g) := by
  have source : ((s.set this f).set other g).function other = g (s.function other) := by
    rw [set_function_self, set_function_of_ne different.symm]
  have target : ((s.set this f).set other g).function this = f (s.function this) := by
    rw [set_function_of_ne different, set_function_self]
  refine ⟨source ▸ vtable _, source ▸ isHeap _, ?_, ?_, fun b here there => ?_, rfl, rfl, rfl, rfl⟩
  · rw [target]
    exact aliveThis _
  · rw [source]
    exact aliveOther _
  · rw [set_function_of_ne there, set_function_of_ne here]

theorem Taken.record {t : State V} (taken : Taken this other s t) (made destroyed : List (Callable V)) :
    Taken this other s { t with made := made, destroyed := destroyed } :=
  ⟨taken.vtable, taken.isHeap, taken.aliveThis, taken.aliveOther, taken.others, taken.heap, taken.allocated,
    taken.freed, taken.faulted⟩

theorem Taken.accounted {t : State V} {c : Option (Callable V)} (taken : Taken this other s t)
    (accounted : Accounted s owned block) (different : this ≠ other) (existing : (s.function this).alive = true)
    (nothing : owned this = none) (got : Shape t this c (block other))
    (callables : Custody (keeps (Function.update (Function.update owned this c) other none) t.destroyed) t.made)
    (numbered : ∀ c ∈ t.made, c.number < t.made.length)
    (same : c.map Callable.value = (owned other).map Callable.value) :
    ∃ owned' block', Accounted t owned' block' ∧ values owned' = (values owned).move this other := by
  have bare : block this = none := by
    have shape := accounted.shape this
    rw [nothing] at shape
    exact shape.block_none
  refine ⟨_, _, ⟨taken.shapes accounted got, callables, ?_, numbered, ?_, taken.dead accounted existing,
    taken.faulted.trans accounted.sound⟩, ?_⟩
  · rw [taken.freed, taken.allocated]
    exact custody_move accounted.blocks different bare
  · rw [taken.allocated]
    exact accounted.listed
  · rw [values_update, values_update, same]
    rfl

/-- A new object has a number of its own. -/
theorem Accounted.fresh (accounted : Accounted s owned block) {c : Callable V} (new : c.number = s.made.length) :
    c ∉ s.made := by
  intro member
  have below := accounted.numbered c member
  omega

theorem numbered_append {made : List (Callable V)} {c : Callable V} (numbered : ∀ d ∈ made, d.number < made.length)
    (new : c.number = made.length) : ∀ d ∈ made ++ [c], d.number < (made ++ [c]).length := by
  intro d member
  rw [List.length_append, List.length_singleton]
  rcases List.mem_append.mp member with old | last
  · exact Nat.lt_succ_of_lt (numbered d old)
  · rw [List.mem_singleton.mp last, new]
    exact Nat.lt_succ_self _

/-- An empty function takes over the callable of another. -/
theorem Accounted.take (accounted : Accounted s owned block) (different : this ≠ other)
    (existing : (s.function this).alive = true) (nothing : owned this = none) :
    ∃ owned' block', Accounted (s.take this other) owned' block' ∧
      values owned' = (values owned).move this other := by
  have moved := custody_move accounted.callables different nothing
  have shape := accounted.shape other
  generalize owns : owned other = c at shape
  generalize has : block other = n at shape
  cases shape with
  | empty vtable isHeap =>
    have taken : Taken this other s (s.take this other) := by
      rw [take_empty vtable isHeap]
      apply taken_of_set different <;> exact fun _ => rfl
    rw [take_empty vtable isHeap] at taken ⊢
    refine taken.accounted accounted different existing nothing ?_ moved accounted.numbered rfl
    rw [owns, has]
    refine .empty ?_ ?_ <;> rw [set_function_of_ne different, set_function_self]
  | heap c n vtable isHeap storage there =>
    have taken : Taken this other s (s.take this other) := by
      rw [take_heap different vtable isHeap storage]
      apply taken_of_set different <;> exact fun _ => rfl
    rw [take_heap different vtable isHeap storage] at taken ⊢
    refine taken.accounted accounted different existing nothing ?_ moved accounted.numbered rfl
    rw [owns, has]
    refine .heap c n ?_ ?_ ?_ there <;> rw [set_function_of_ne different, set_function_self]
  | inline c vtable isHeap storage =>
    have taken : Taken this other s (s.take this other) := by
      rw [take_inline different vtable isHeap storage]
      refine Taken.record ?_ _ _
      apply taken_of_set different <;> exact fun _ => rfl
    rw [take_inline different vtable isHeap storage] at taken ⊢
    have made : Custody (keeps (Function.update owned this (some ⟨c.type, c.value, s.made.length⟩)) s.destroyed)
        (s.made ++ [⟨c.type, c.value, s.made.length⟩]) :=
      custody_gain accounted.callables nothing (accounted.fresh rfl)
    have gone := custody_drop made other
    rw [Function.update_of_ne different.symm, owns] at gone
    refine taken.accounted accounted different existing nothing ?_ gone (numbered_append accounted.numbered rfl) ?_
    · rw [has]
      refine .inline _ ?_ ?_ ?_ <;> simp [State.set, Function.update_of_ne different]
    · rw [owns]
      rfl

/-! ### Construction and the whole run -/

theorem Accounted.create (accounted : Accounted s owned block) (nothing : owned this = none) :
    Accounted (s.create this) owned block := by
  refine ⟨fun b => ?_, accounted.callables, accounted.blocks, accounted.numbered, accounted.listed, fun b dead => ?_,
    accounted.sound⟩
  · by_cases here : b = this
    · subst here
      have shape := accounted.shape b
      rw [nothing] at shape
      rw [nothing, shape.block_none]
      refine .empty ?_ ?_ <;> rw [State.create, set_function_self]
    · exact (accounted.shape b).congr (set_function_of_ne here) fun _ _ => rfl
  · by_cases here : b = this
    · subst here
      exact nothing
    · exact accounted.dead b (set_function_of_ne (s := s) here ▸ dead)

/-- A new callable in an empty function, with a block of its own or without. -/
theorem Accounted.gain {t : State V} {c : Callable V} {n : Option Nat} (accounted : Accounted s owned block)
    (nothing : owned this = none) (new : c.number = s.made.length) (got : Shape t this (some c) n)
    (existing : (t.function this).alive = true) (others : ∀ b, b ≠ this → t.function b = s.function b)
    (heap : ∀ m ∈ s.allocated, t.heap m = s.heap m) (made : t.made = s.made ++ [c])
    (destroyed : t.destroyed = s.destroyed)
    (blocks : Custody (keeps (Function.update block this n) t.freed) t.allocated)
    (listed : ∀ n ∈ t.allocated, n < t.allocated.length) (faulted : t.faulted = s.faulted) :
    Accounted t (Function.update owned this (some c)) (Function.update block this n) := by
  refine ⟨fun b => ?_, ?_, blocks, ?_, listed, fun b dead => ?_, faulted.trans accounted.sound⟩
  · by_cases here : b = this
    · subst here
      rw [Function.update_self, Function.update_self]
      exact got
    · rw [Function.update_of_ne here, Function.update_of_ne here]
      refine (accounted.shape b).congr (others b here) fun m has => heap m ?_
      exact accounted.blocks.known (a := .function b) (Option.mem_toList.mpr has)
  · rw [destroyed, made]
    exact custody_gain accounted.callables nothing (accounted.fresh new)
  · rw [made]
    exact numbered_append accounted.numbered new
  · by_cases here : b = this
    · subst here
      rw [existing] at dead
      contradiction
    · rw [Function.update_of_ne here]
      exact accounted.dead b (others b here ▸ dead)

theorem Accounted.construct {type : CallableType} {value : V} (accounted : Accounted s owned block)
    (existing : (s.function this).alive = true) (nothing : owned this = none) :
    ∃ owned' block', Accounted (s.construct inlineSize this type value) owned' block' ∧
      values owned' = Function.update (values owned) this (some value) := by
  have shape := accounted.shape this
  rw [nothing] at shape
  have bare := shape.block_none
  by_cases fits : type.size ≤ inlineSize ∧ type.align ≤ kStorageAlign
  · have made : s.construct inlineSize this type value =
        { s.set this fun f => { f with
            storage := .object ⟨type, value, s.made.length⟩, vtable := some type, isHeap := false } with
          made := s.made ++ [⟨type, value, s.made.length⟩] } := by
      simp [State.construct, State.constructInline, State.set, fits]
    rw [made]
    refine ⟨_, Function.update block this none, accounted.gain nothing rfl
      (.inline ⟨type, value, s.made.length⟩ ?_ ?_ ?_) ?_ (fun b here => Function.update_of_ne here _ _)
      (fun _ _ => rfl) rfl rfl ?_ accounted.listed rfl, values_update⟩
    · rw [set_function_self]
    · rw [set_function_self]
    · rw [set_function_self]
    · rw [set_function_self]
      exact existing
    · rw [← bare, Function.update_eq_self]
      exact accounted.blocks
  · have made : s.construct inlineSize this type value =
        { s.set this fun f => { f with
            storage := .pointer s.allocated.length, vtable := some type, isHeap := true } with
          heap := Function.update s.heap s.allocated.length (some ⟨type, value, s.made.length⟩)
          made := s.made ++ [⟨type, value, s.made.length⟩]
          allocated := s.allocated ++ [s.allocated.length] } := by
      simp [State.construct, State.set, fits]
    have new : s.allocated.length ∉ s.allocated := fun member => Nat.lt_irrefl _ (accounted.listed _ member)
    rw [made]
    refine ⟨_, Function.update block this (some s.allocated.length), accounted.gain nothing rfl
      (.heap ⟨type, value, s.made.length⟩ s.allocated.length ?_ ?_ ?_ ?_) ?_
      (fun b here => Function.update_of_ne here _ _) (fun m known => ?_) rfl rfl
      (custody_gain accounted.blocks bare new) (fun m member => ?_) rfl, values_update⟩
    · rw [set_function_self]
    · rw [set_function_self]
    · rw [set_function_self]
    · exact Function.update_self _ _ _
    · rw [set_function_self]
      exact existing
    · have older : m ≠ s.allocated.length := Nat.ne_of_lt (accounted.listed m known)
      exact Function.update_of_ne older _ _
    · rw [List.length_append, List.length_singleton]
      rcases List.mem_append.mp member with old | last
      · exact Nat.lt_succ_of_lt (accounted.listed m old)
      · rw [List.mem_singleton.mp last]
        exact Nat.lt_succ_self _

theorem accounted_start : Accounted ({} : State V) (fun _ => none) fun _ => none := by
  have nobody : ∀ {N : Type}, Custody (keeps (fun _ : Object => (none : Option N)) []) [] := by
    intro N
    refine ⟨fun k => ?_, fun k k' n here => ?_, fun n => ⟨nofun, ?_⟩⟩
    · cases k <;> exact List.nodup_nil
    · cases k <;> contradiction
    · rintro ⟨k, member⟩
      cases k <;> contradiction
  exact ⟨fun _ => .empty rfl rfl, nobody, nobody, nofun, nofun, fun _ _ => rfl, rfl⟩

/-- One operation does to the functions what it is meant to do to their contents. -/
theorem Accounted.perform {op : Operation V} (accounted : Accounted s owned block) (permitted : Permitted s op) :
    ∃ owned' block', Accounted (perform inlineSize s op) owned' block' ∧ values owned' = (values owned).after op := by
  have clear : ∀ {b : Object}, owned b = none → values owned = Function.update (values owned) b none := by
    intro b nothing
    have same : values owned b = none := by rw [values, nothing]; rfl
    rw [← same, Function.update_eq_self]
  cases op with
  | create this =>
    have nothing := accounted.dead this permitted
    exact ⟨owned, block, accounted.create nothing, clear nothing⟩
  | construct this type value =>
    have nothing := accounted.dead this permitted
    refine (accounted.create nothing).construct ?_ nothing
    rw [State.create, set_function_self]
  | moveConstruct this other =>
    have nothing := accounted.dead this permitted.1
    have different : this ≠ other := by
      rintro rfl
      have both := permitted.1.symm.trans permitted.2
      contradiction
    refine (accounted.create nothing).take different ?_ nothing
    rw [State.create, set_function_self]
  | moveAssign this other =>
    simp only [Inline.perform, State.moveAssign, Contents.after]
    split
    · exact ⟨owned, block, accounted, rfl⟩
    · next different =>
      have gone := accounted.destroy this
      have alive := (accounted.shape this).destroy.alive.trans permitted.1
      obtain ⟨owned', block', taken, moved⟩ := gone.take different alive (Function.update_self _ _ _)
      refine ⟨owned', block', taken, moved.trans ?_⟩
      rw [values_update, Contents.move, Contents.move, Function.update_of_ne (Ne.symm different), Function.update_idem]
  | destruct this =>
    have gone := accounted.destroy this
    have others : ∀ b, b ≠ this → (s.destruct this).function b = (s.destroy this).function b := fun b here =>
      Function.update_of_ne here _ _
    refine ⟨_, _, ⟨fun b => ?_, gone.callables, gone.blocks, gone.numbered, gone.listed, fun b dead => ?_, gone.sound⟩,
      values_update⟩
    · by_cases here : b = this
      · subst here
        have empty := (accounted.shape b).destroy
        rw [Function.update_self, Function.update_self]
        refine .empty ?_ ?_ <;> rw [Inline.perform, State.destruct, set_function_self]
        · exact empty.vtable
        · exact empty.isHeap
      · exact (gone.shape b).congr (others b here) fun _ _ => rfl
    · by_cases here : b = this
      · subst here
        exact Function.update_self _ _ _
      · exact gone.dead b (others b here ▸ dead)

theorem Reaches.accounted {ops : List (Operation V)} (run : Reaches inlineSize ops s) :
    ∃ owned block, Accounted s owned block ∧ values owned = carried ops := by
  induction run with
  | start => exact ⟨_, _, accounted_start, rfl⟩
  | step op earlier permitted ih =>
    obtain ⟨owned, block, accounted, same⟩ := ih
    obtain ⟨owned', block', after, moved⟩ := accounted.perform permitted
    refine ⟨owned', block', after, ?_⟩
    rw [moved, same, carried, carried, List.foldl_append]
    rfl

/-! ### What clients rely on -/

/-- The function exists, is not empty and has the callable. -/
def Has (s : State V) (b : Object) (c : Callable V) : Prop :=
  (s.function b).alive = true ∧ (s.function b).vtable = some c.type ∧ (s.objPtr b).bind s.find = some c

/-- The function exists, is not empty and has its callable in the block. -/
def HasBlock (s : State V) (b : Object) (n : Nat) : Prop :=
  (s.function b).alive = true ∧ (s.function b).vtable ≠ none ∧ s.objPtr b = some (.block n)

/-- The function that an operation moves from. -/
def Operation.source : Operation V → Option Object
  | .moveConstruct _ other => some other
  | .moveAssign this other => if this = other then none else some other
  | .create _ | .construct _ _ _ | .destruct _ => none

structure Orderly (ops : List (Operation V)) (s : State V) : Prop where
  /-- A callable object is in a function or has been destroyed, -/
  settled : ∀ c ∈ s.made, c ∈ s.destroyed ↔ ¬ ∃ b, Has s b c
  /-- in one function only, -/
  single : ∀ b b' c, Has s b c → Has s b' c → b = b'
  /-- and once. -/
  once : s.destroyed.Nodup ∧ ∀ c ∈ s.destroyed, c ∈ s.made
  /-- The same goes for the blocks. -/
  blockSettled : ∀ n ∈ s.allocated, n ∈ s.freed ↔ ¬ ∃ b, HasBlock s b n
  blockSingle : ∀ b b' n, HasBlock s b n → HasBlock s b' n → b = b'
  blockOnce : s.freed.Nodup ∧ ∀ n ∈ s.freed, n ∈ s.allocated
  emptied : ∀ earlier op, ops = earlier ++ [op] → ∀ other ∈ op.source, (s.function other).vtable = none
  nonEmpty : ∀ b, (s.function b).vtable.isSome = (carried ops b).isSome
  invokes : ∀ b, s.invoke b = carried ops b
  sound : s.faulted = false

theorem Shape.found {c : Callable V} {n : Option Nat} (shape : Shape s b (some c) n) :
    (s.objPtr b).bind s.find = some c := by
  cases shape with
  | inline c vtable isHeap storage => simp [State.objPtr, State.find, isHeap, storage]
  | heap c n vtable isHeap storage there => simp [State.objPtr, State.find, isHeap, storage, there]

theorem Shape.points_iff {c : Option (Callable V)} {n : Option Nat} {m : Nat} (shape : Shape s b c n) :
    (s.function b).vtable ≠ none ∧ s.objPtr b = some (.block m) ↔ n = some m := by
  cases shape with
  | empty vtable isHeap => simp [vtable]
  | inline c vtable isHeap storage => simp [State.objPtr, isHeap]
  | heap c n vtable isHeap storage there => simp [State.objPtr, vtable, isHeap, storage]

theorem Accounted.alive (accounted : Accounted s owned block) {c : Callable V} (owns : owned b = some c) :
    (s.function b).alive = true := by
  by_contra dead
  rw [accounted.dead b (Bool.eq_false_iff.mpr dead)] at owns
  contradiction

theorem Accounted.has_iff (accounted : Accounted s owned block) {c : Callable V} : Has s b c ↔ owned b = some c := by
  have shape := accounted.shape b
  constructor
  · rintro ⟨-, vtable, found⟩
    have typed := shape.vtable
    rw [vtable] at typed
    obtain ⟨d, owns, -⟩ := Option.map_eq_some_iff.mp typed.symm
    rw [owns] at shape ⊢
    rw [← shape.found, found]
  · intro owns
    rw [owns] at shape
    exact ⟨accounted.alive owns, shape.vtable, shape.found⟩

theorem Accounted.hasBlock_iff (accounted : Accounted s owned block) {n : Nat} :
    HasBlock s b n ↔ block b = some n := by
  have shape := accounted.shape b
  constructor
  · rintro ⟨-, points⟩
    exact shape.points_iff.mp points
  · intro has
    have points := shape.points_iff.mpr has
    have owns : ∃ c, owned b = some c := by
      rw [← Option.isSome_iff_exists, ← Option.isSome_map, ← shape.vtable]
      exact Option.isSome_iff_ne_none.mpr points.1
    obtain ⟨c, owns⟩ := owns
    exact ⟨accounted.alive owns, points⟩

/-- What a function has is not among what is gone, and only what is gone is with no
function. -/
theorem gone_iff {N : Type} {has : Object → Option N} {gone all : List N} {n : N}
    (custody : Custody (keeps has gone) all) (known : n ∈ all) : n ∈ gone ↔ ¬ ∃ b, has b = some n := by
  constructor
  · rintro lost ⟨b, kept⟩
    have same := custody.apart .gone (.function b) n lost (Option.mem_toList.mpr kept)
    contradiction
  · intro unkept
    obtain ⟨k, kept⟩ := (custody.total n).mp known
    cases k with
    | gone => exact kept
    | function b => exact absurd ⟨b, Option.mem_toList.mp kept⟩ unkept

theorem kept_once {N : Type} {has : Object → Option N} {gone all : List N} {n : N} {b b' : Object}
    (custody : Custody (keeps has gone) all) (here : has b = some n) (there : has b' = some n) : b = b' :=
  Keeper.function.inj
    (custody.apart (.function b) (.function b') n (Option.mem_toList.mpr here) (Option.mem_toList.mpr there))

/-- The moves carry nothing into a function that was moved from. -/
theorem carried_source {ops : List (Operation V)} {op : Operation V} (source : op.source = some other) :
    carried (ops ++ [op]) other = none := by
  rw [carried, List.foldl_append]
  cases op with
  | moveConstruct this from_ =>
    cases Option.some.inj source
    exact Function.update_self _ _ _
  | moveAssign this from_ =>
    simp only [Operation.source, Option.ite_none_left_eq_some, Option.some.injEq] at source
    obtain ⟨different, rfl⟩ := source
    simp only [List.foldl_cons, List.foldl_nil, Contents.after, different, if_false]
    exact Function.update_self _ _ _
  | create this | construct this type value | destruct this => contradiction

/-- Over any sequence of constructions, moves and destructions, with callables of any
size and alignment. -/
theorem reaches_orderly {ops : List (Operation V)} (run : Reaches inlineSize ops s) : Orderly ops s := by
  obtain ⟨owned, block, accounted, same⟩ := run.accounted
  have nonEmpty : ∀ b, (s.function b).vtable.isSome = (carried ops b).isSome := by
    intro b
    rw [(accounted.shape b).vtable, ← same, values, Option.isSome_map, Option.isSome_map]
  refine ⟨fun c known => ?_, fun b b' c here there => ?_, ⟨accounted.callables.once .gone, fun c gone => ?_⟩,
    fun n known => ?_, fun b b' n here there => ?_, ⟨accounted.blocks.once .gone, fun n gone => ?_⟩,
    fun earlier op last other source => ?_, nonEmpty, fun b => ?_, accounted.sound⟩
  · simp only [accounted.has_iff]
    exact gone_iff accounted.callables known
  · exact kept_once accounted.callables (accounted.has_iff.mp here) (accounted.has_iff.mp there)
  · exact accounted.callables.known (a := .gone) gone
  · simp only [accounted.hasBlock_iff]
    exact gone_iff accounted.blocks known
  · exact kept_once accounted.blocks (accounted.hasBlock_iff.mp here) (accounted.hasBlock_iff.mp there)
  · exact accounted.blocks.known (a := .gone) gone
  · have empty := nonEmpty other
    rw [last, carried_source source] at empty
    have none_ := Option.isSome_eq_false_iff.mp empty
    exact Option.isNone_iff_eq_none.mp none_
  · rw [(accounted.shape b).invoke, ← same]
    rfl

/-- A callable that fits into 64 bytes, and one that does not. -/
def smallType : CallableType := ⟨0, 8, 8⟩

def largeType : CallableType := ⟨1, 200, 64⟩

/-- An inline callable gives way to one on the heap, which moves on to a third function,
is assigned to itself there, and is destroyed with that function. -/
def exchangeOps : List (Operation Nat) :=
  [.construct 1 smallType 7, .construct 2 largeType 8, .moveAssign 1 2, .moveConstruct 3 1, .moveAssign 3 3,
    .construct 4 smallType 9, .destruct 3]

theorem exchange_orderly : ∃ s : State Nat, Reaches 64 exchangeOps s ∧ s.invoke 4 = some 9 ∧
    s.destroyed = [⟨smallType, 7, 0⟩, ⟨largeType, 8, 1⟩] ∧ s.allocated = [0] ∧ s.freed = [0] ∧
    Orderly exchangeOps s := by
  have run : Reaches 64 exchangeOps _ :=
    .step _ (.step _ (.step _ (.step _ (.step _ (.step _ (.step _ .start (by decide)) (by decide)) (by decide))
      (by decide)) (by decide)) (by decide)) (by decide)
  exact ⟨_, run, by decide, by decide, by decide, by decide, reaches_orderly run⟩

end Talon.Task.Inline
