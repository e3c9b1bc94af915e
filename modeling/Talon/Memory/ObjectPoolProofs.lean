import Talon.Memory.ArenaProofs
import Talon.Memory.ObjectPool

/-! The instances of `ObjectPool<T>` share one cache per thread. As long as no
call meets another pool's slots where it would use them, every pool keeps to its
own slots and every slot of a living pool is in one place. With a single
instance that is always so. -/
namespace Talon.Memory.ObjectPool
open Interleaving Ownership

variable {ι Q : Type}

/-- What a call must find in its thread's cache: `Acquire` a slot of its pool on
top, a release into a full cache only slots of its pool in the half it flushes,
a constructor no slot of a living pool. -/
def Clean (s : Shared ι Q) (i : ι) : Action Q → Prop
  | .construct p => ∀ slot ∈ (s.cache i ()).live, slot.pool ≠ p → s.own.status slot.pool = .destroyed
  | .acquire p => ∀ slot ∈ (s.cache i ()).pop.1, slot.pool = p
  | .release p obj | .releaseMemory p obj => obj ≠ none →
      (s.cache i ()).count = kObjectPoolTlsCacheSize → ∀ slot ∈ (s.cache i ()).upper, slot.pool = p
  | .destroy _ | .overwrite _ => True

instance [DecidableEq Q] (s : Shared ι Q) (i : ι) : (action : Action Q) → Decidable (Clean s i action)
  | .construct p => inferInstanceAs (Decidable
      (∀ slot ∈ (s.cache i ()).live, slot.pool ≠ p → s.own.status slot.pool = .destroyed))
  | .acquire p => inferInstanceAs (Decidable (∀ slot ∈ (s.cache i ()).pop.1, slot.pool = p))
  | .release p obj | .releaseMemory p obj => inferInstanceAs (Decidable (obj ≠ none →
      (s.cache i ()).count = kObjectPoolTlsCacheSize → ∀ slot ∈ (s.cache i ()).upper, slot.pool = p))
  | .destroy _ | .overwrite _ => inferInstanceAs (Decidable True)

/-- Every call meets a clean cache. -/
def Unmixed (s t : Shared ι Q) : Prop :=
  ∀ i action, t.own.calls = s.own.calls ++ [(i, action)] → Clean s i action

/-- `Unmixed`, for executed schedules. -/
def unmixed [DecidableEq Q] (s t : Shared ι Q) : Bool :=
  t.own.calls.length = s.own.calls.length ||
    t.own.calls.getLast?.all fun call => decide (Clean s call.1 call.2)

theorem unmixed_sound [DecidableEq Q] (s t : Shared ι Q) (checked : unmixed s t = true) : Unmixed s t := by
  intro i action called
  simpa only [unmixed, called, List.length_append, List.length_singleton, Nat.add_eq_left, Nat.one_ne_zero,
    decide_false, Bool.false_or, List.getLast?_concat, Option.all_some, decide_eq_true_eq] using checked

variable {config : Config Q} {s : Shared ι Q} {i : ι}

theorem objSize_pos (sizeofT : Nat) : 0 < objSize sizeofT := by
  simp only [objSize, sizeofPoolNode]
  omega

theorem counts_block {p : Q} {count : Nat} (requested : count = config.capacity p ∨ count = config.growBatch p)
    (address : Nat) : (layout (ι := ι) config).counts
      ⟨p, address, byteCount ((layout (ι := ι) config).slotBytes p) count, count, true, true⟩ := by
  simp only [layout, if_true, true_and]
  exact requested

theorem counts_slot {p : Q} (address : Nat) : (layout (ι := ι) config).counts
    ⟨p, address, (layout (ι := ι) config).slotBytes p, 1, false, true⟩ := by
  simp only [layout, Bool.false_eq_true, if_false, and_self]

theorem valid_record {action : Action Q} (valid : s.Valid (layout config)) :
    (record i action s).Valid (layout config) :=
  { valid with custody := valid.custody.congr fun place => by cases place <;> rfl }

/-- A pool's status may change unless that brings back what is lost. -/
theorem valid_setStatus [DecidableEq Q] {p : Q} {status : Lifetime} (valid : s.Valid (layout config))
    (born : status ≠ .unborn) (kept : s.own.status p = .destroyed → status = .destroyed) :
    (setStatus p status s).Valid (layout config) := by
  have later : ∀ q, s.own.status q ≠ .unborn → Function.update s.own.status p status q ≠ .unborn := by
    intro q bornBefore
    by_cases here : q = p
    · subst here
      rw [Function.update_self]
      exact born
    · rw [Function.update_of_ne here]
      exact bornBefore
  have gone : ∀ q, s.own.status q = .destroyed → Function.update s.own.status p status q = .destroyed := by
    intro q destroyed
    by_cases here : q = p
    · subst here
      rw [Function.update_self]
      exact kept destroyed
    · rw [Function.update_of_ne here]
      exact destroyed
  exact { valid with
    custody := valid.custody.congr fun place => by cases place <;> rfl
    backed := fun a member => (valid.backed a member).imp_right (gone _)
    forgotten := fun slot member => gone _ (valid.forgotten slot member)
    born := fun slot member => later _ (valid.born slot member)
    served := fun j q serving => later _ (valid.served j q serving) }

theorem valid_reset [DecidableEq ι] (valid : s.Valid (layout config))
    (dead : ∀ slot ∈ (s.cache i ()).live, s.own.status slot.pool = .destroyed) :
    (reset i s).Valid (layout config) := by
  have stocks : Stocks (layout config) () (s.cache i ()).reset :=
    (valid.stocked i ()).fewer (Nat.zero_le _) (List.nil_append _).symm
  exact { valid with
    stocked := Arena.setCache_all (P := fun _ x c => Stocks (layout config) x c) stocks valid.stocked
    custody := by
      refine valid.custody.move (.cached i ()) .lost (s.cache i ()).live nofun ?_ ?_ ?_
      · have emptied : (reset i s).contents (.cached i ()) = [] := Arena.contents_setCache_self
        rw [emptied, List.append_nil]
        exact .refl _
      · exact List.perm_append_comm
      · intro place left came
        have kept : (reset i s).contents place =
            (s.setCache i () (s.cache i ()).reset).contents place := by
          cases place with
          | lost => contradiction
          | free | cached | held | hand | chain => rfl
        rw [kept, Arena.contents_setCache place left]
    forgotten := by
      intro slot member
      rcases List.mem_append.mp member with old | new
      · exact valid.forgotten slot old
      · exact dead slot new }

theorem valid_freeBlocks [DecidableEq Q] {p : Q} (valid : s.Valid (layout config))
    (destroyed : s.own.status p = .destroyed) :
    ({ s with heap := freeBlocks p s.heap } : Shared ι Q).Valid (layout config) :=
  { valid with
    custody := valid.custody.congr fun place => by cases place <;> rfl
    mapped := by
      intro slot member
      obtain ⟨a, found, owner, place⟩ := valid.mapped slot member
      refine ⟨if a.pool = p ∧ a.stored = true then { a with live := false } else a, ?_, ?_⟩
      · simp only [freeBlocks, List.getElem?_map, found, Option.map_some]
      · split <;> exact ⟨owner, place⟩
    counted := by
      intro b member
      obtain ⟨a, old, rfl⟩ := List.mem_map.mp member
      have counted := valid.counted a old
      split <;> exact counted
    backed := by
      intro b member
      obtain ⟨a, old, rfl⟩ := List.mem_map.mp member
      have backed := valid.backed a old
      split
      · rename_i freed
        exact Or.inr (freed.1 ▸ destroyed)
      · exact backed
    separate := by
      refine List.pairwise_map.mpr (valid.separate.imp fun {a b} apart => ?_)
      intro first second
      have live : ∀ a : Allocation Q,
          (if a.pool = p ∧ a.stored = true then { a with live := false } else a).live = true →
          a.live = true := by
        intro a
        split
        · exact nofun
        · exact id
      have apart := apart (live a first) (live b second)
      split <;> split <;> exact apart }

variable [DecidableEq Q] {v : View Unit Q}

theorem ensures_destroyObject {slot : Slot Q} (mine : v.hand = some slot) :
    (ownership (layout config) Unmixed).Ensures spec i v (destroyObject slot) fun _ v' => v' = v := by
  refine Ensures.atomic fun c s t holds stepped _ => ?_
  cases Option.some.inj stepped
  obtain ⟨valid, rfl⟩ := holds
  have inHand : slot ∈ s.contents (.hand i) := Option.mem_toList.mpr mine
  have kept : ∀ j, (s.setNext slot c.word).view j = s.view j := by
    intro j
    refine Arena.view_congr rfl rfl rfl rfl fun n theirs => Function.update_of_ne ?_ _ _
    rintro rfl
    exact absurd (valid.custody.apart (.hand i) (.chain j) n inHand theirs) nofun
  exact ⟨_, rfl, valid.setNext (.hand i) nofun inHand, fun j _ => kept j, kept i⟩

variable [DecidableEq ι] {word : Option (Slot Q)} {action : Action Q}

theorem valid_begin (valid : s.Valid (layout config)) (idle : s.hand i = none)
    (permitted : Permitted s action) (clean : Clean s i action) :
    (begin i word s action).Valid (layout config) := by
  have alive : ∀ p, s.own.status p = .alive → s.own.status p ≠ .unborn := by
    intro p living
    rw [living]
    exact nofun
  match action with
  | .construct p =>
    have dead : ∀ slot ∈ (s.cache i ()).live, s.own.status slot.pool = .destroyed := by
      intro slot member
      refine clean slot member fun same => ?_
      have born := valid.born slot (valid.custody.known (a := .cached i ()) member)
      exact born (same ▸ permitted)
    have revived : (setStatus p .alive (reset i s)).Valid (layout config) :=
      valid_setStatus (valid_reset valid dead) nofun fun destroyed =>
        absurd (permitted.symm.trans destroyed) nofun
    refine revived.serve ?_
    rintro q ⟨⟩
    change Function.update s.own.status p .alive p ≠ .unborn
    rw [Function.update_self]
    exact nofun
  | .destroy p =>
    exact valid_freeBlocks (valid_setStatus valid nofun fun _ => rfl) (Function.update_self _ _ _)
  | .acquire p =>
    refine valid.serve ?_
    rintro q ⟨⟩
    exact alive p permitted
  | .release p none | .releaseMemory p none =>
    refine valid.serve ?_
    rintro q ⟨⟩
    exact alive p permitted.1
  | .release p (some slot) | .releaseMemory p (some slot) =>
    refine (valid.takeBack idle (permitted.2 slot rfl)).serve ?_
    rintro q ⟨⟩
    exact alive p permitted.1
  | .overwrite slot => exact valid.setNext .held nofun permitted

theorem view_begin {j : ι} (valid : s.Valid (layout config)) (permitted : Permitted s action)
    (other : j ≠ i) : (begin i word s action).view j = s.view j := by
  match action with
  | .construct p =>
    exact Arena.view_congr (Function.update_of_ne other _ _) rfl rfl (Function.update_of_ne other _ _)
      fun _ _ => rfl
  | .destroy p => exact Arena.view_congr rfl rfl rfl rfl fun _ _ => rfl
  | .acquire p | .release p none | .releaseMemory p none =>
    exact Arena.view_congr rfl rfl rfl (Function.update_of_ne other _ _) fun _ _ => rfl
  | .release p (some slot) | .releaseMemory p (some slot) =>
    exact Arena.view_congr rfl (Function.update_of_ne other _ _) rfl (Function.update_of_ne other _ _)
      fun _ _ => rfl
  | .overwrite slot =>
    refine Arena.view_congr rfl rfl rfl rfl fun n theirs => Function.update_of_ne ?_ _ _
    rintro rfl
    exact absurd (valid.custody.apart .held (.chain j) n permitted theirs) nofun

/-- What the calling thread sees once the call has begun. -/
def Begun (v : View Unit Q) : Action Q → Prop
  | .construct p => v.hand = none ∧ v.serving = some p
  | .acquire p => v.hand = none ∧ v.serving = some p ∧
      ∀ slot ∈ (v.cache ()).pop.1, slot.pool = p
  | .release p obj | .releaseMemory p obj => v.hand = obj ∧ (∀ slot, obj = some slot → slot.pool = p) ∧
      (obj ≠ none → (v.cache ()).count = kObjectPoolTlsCacheSize →
        ∀ slot ∈ (v.cache ()).upper, slot.pool = p)
  | .destroy _ | .overwrite _ => v.hand = none

theorem begun_view (valid : s.Valid (layout config)) (idle : s.hand i = none)
    (permitted : Permitted s action) (clean : Clean s i action) :
    Begun ((begin i word s action).view i) action := by
  have same : ∀ p slot, (p, slot) ∈ s.held → slot.pool = p := fun p slot held =>
    (Option.some.inj (valid.answered (p, slot) held)).symm
  match action with
  | .construct p => exact ⟨idle, Function.update_self _ _ _⟩
  | .destroy p | .overwrite slot => exact idle
  | .acquire p => exact ⟨idle, Function.update_self _ _ _, clean⟩
  | .release p none | .releaseMemory p none => exact ⟨idle, nofun, clean⟩
  | .release p (some slot) | .releaseMemory p (some slot) =>
    refine ⟨Function.update_self _ _ _, ?_, clean⟩
    rintro _ ⟨⟩
    exact same p slot (permitted.2 slot rfl)

theorem begin_calls : (begin i word s action).own.calls = s.own.calls := by
  match action with
  | .construct _ | .destroy _ | .acquire _ | .release _ none | .releaseMemory _ none
  | .release _ (some _) | .releaseMemory _ (some _) | .overwrite _ => rfl

theorem ensures_nextAction (idle : v.hand = none) (empty : v.chain = []) :
    (ownership (layout config) Unmixed).Ensures spec i v (nextAction i)
      fun action v' => v'.chain = [] ∧ Begun v' action := by
  refine Ensures.atomic fun c s t holds stepped admitted => ?_
  obtain ⟨valid, rfl⟩ := holds
  simp only [Option.ite_none_right_eq_some, Option.some.injEq] at stepped
  obtain ⟨permitted, rfl⟩ := stepped
  have clean : Clean s i c.action := by
    refine admitted i c.action ?_
    simp only [record, begin_calls]
  refine ⟨_, ?_, valid_record (valid_begin valid idle permitted clean), fun j other => ?_, rfl⟩
  · refine ⟨?_, begun_view valid idle permitted clean⟩
    cases c.action with
    | release p obj | releaseMemory p obj => cases obj <;> exact empty
    | construct | destroy | acquire | overwrite => exact empty
  · exact view_begin valid permitted other

theorem ensures_releaseMemory {p : Q} {obj : Option (Slot Q)} (empty : v.chain = [])
    (begun : Begun v (.releaseMemory p obj)) :
    (ownership (layout config) Unmixed).Ensures spec i v (releaseMemory config i p obj)
      fun _ v' => v'.hand = none ∧ v'.chain = [] := by
  obtain ⟨mine, own, clean⟩ := begun
  cases obj with
  | none => exact Ensures.pure ⟨mine, empty⟩
  | some node =>
    have wide : 4 ≤ kObjectPoolTlsCacheSize := by decide
    refine Ensures.mono (Memory.ensures_releaseMemory wide empty mine rfl (clean nofun)) ?_
    exact fun _ _ ⟨hand, chain, _⟩ => ⟨hand, chain⟩

theorem ensures_perform (empty : v.chain = []) (begun : Begun v action) :
    (ownership (layout config) Unmixed).Ensures spec i v (perform config i action)
      fun _ v' => v'.hand = none ∧ v'.chain = [] := by
  have finishes : ∀ w : View Unit Q, w.hand = none ∧ w.chain = [] →
      (ownership (layout config) Unmixed).Ensures spec i w (finish i : Program ι Q Unit)
        fun _ v' => v'.hand = none ∧ v'.chain = [] := fun w idle =>
    Ensures.mono ensures_finish fun _ _ ⟨hand, chain⟩ => ⟨hand.trans idle.1, chain.trans idle.2⟩
  cases action with
  | construct p =>
    refine Ensures.bind (ensures_growPool begun.2 (objSize_pos _) empty (counts_block (Or.inl rfl))) ?_
    exact fun _ w kept => finishes w ⟨kept.hand.trans begun.1, kept.chain.trans empty⟩
  | destroy p | overwrite slot => exact Ensures.pure ⟨begun, empty⟩
  | acquire p =>
    have grows : ∀ w : View Unit Q, w.chain = [] → w.serving = some p →
        (ownership (layout config) Unmixed).Ensures spec i w
          (growPool (layout config) i p (config.growBatch p) : Program ι Q Unit) fun _ w' => w.Kept w' :=
      fun w idle serves => ensures_growPool serves (objSize_pos _) idle (counts_block (Or.inr rfl))
    refine Ensures.bind (ensures_acquire begun.1 empty begun.2.1 begun.2.2 counts_slot grows) ?_
    rintro result w ⟨mine, chain, own⟩
    have answers : ∀ node, result = some node → (layout (ι := ι) config).target p = some node.pool :=
      fun node returned => congrArg some (own node returned).symm
    exact Ensures.mono (ensures_receive mine answers) fun _ _ ⟨hand, same⟩ => ⟨hand, same.trans chain⟩
  | release p obj =>
    refine Ensures.bind (M := fun _ w => w.hand = none ∧ w.chain = []) ?_ fun _ w => finishes w
    cases obj with
    | none => exact Ensures.pure ⟨begun.1, empty⟩
    | some slot =>
      refine Ensures.bind (ensures_destroyObject begun.1) ?_
      rintro _ _ rfl
      exact ensures_releaseMemory empty begun
  | releaseMemory p obj =>
    exact Ensures.bind (ensures_releaseMemory empty begun) fun _ w => finishes w

theorem meets (i : ι) (f : Procedure Q) (v : View Unit Q) (pre : spec.pre f v) :
    (ownership (layout config) Unmixed).Ensures spec i v (code config i f) (spec.post f v) := by
  cases f with
  | walk tail => exact ensures_walk pre
  | client =>
    refine Ensures.bind (ensures_nextAction pre.1 pre.2) ?_
    rintro action w ⟨empty, begun⟩
    refine Ensures.bind (ensures_perform empty begun) ?_
    exact fun _ u idle => Ensures.enter idle fun _ _ _ => trivial

/-- Every run of clean calls keeps the invariant, -/
theorem reaches_meets {pool : Pool ι (Shared ι Q) (Choice (Action Q) Q) (Procedure Q) (Option (Slot Q))}
    (path : Pool.Reaches (code config) Unmixed start pool) :
    Proved (ownership (layout config) Unmixed).discipline
      (fun i => (ownership (layout config) Unmixed).contract spec i) pool ∧
      pool.shared.Valid (layout config) := by
  refine reaches_proved (K := fun _ => spec) meets ?_ (fun i => ?_) path
  · exact Arena.valid_empty _
  · refine Ensures.bind (M := fun _ _ => True) ?_ fun _ _ _ => Ensures.pure trivial
    exact Ensures.enter ⟨rfl, rfl⟩ fun _ _ _ => trivial

/-- and every thread the precondition of the procedure it enters. -/
theorem reaches_valid {pool : Pool ι (Shared ι Q) (Choice (Action Q) Q) (Procedure Q) (Option (Slot Q))}
    (path : Pool.Reaches (code config) Unmixed start pool) :
    pool.shared.Valid (layout config) ∧ ∀ i f next, pool.thread i = .call f next →
      spec.pre f (pool.shared.view i) := by
  obtain ⟨proved, valid⟩ := reaches_meets path
  exact ⟨valid, fun i f next calls => entered_pre (K := fun _ => spec) proved calls⟩

end Talon.Memory.ObjectPool
