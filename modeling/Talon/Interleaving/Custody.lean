import Mathlib.Data.List.Perm.Basic
import Mathlib.Data.List.Nodup

/-! Custody of items: every item is with exactly one keeper, once. Nothing here
fixes the keepers or the items. -/
namespace Interleaving

variable {A N : Type}

/-- `keeps a` lists what keeper `a` has. Together the keepers have exactly the
items of `all`, each of them once. -/
structure Custody (keeps : A → List N) (all : List N) : Prop where
  once : ∀ a, (keeps a).Nodup
  apart : ∀ a b n, n ∈ keeps a → n ∈ keeps b → a = b
  total : ∀ n, n ∈ all ↔ ∃ a, n ∈ keeps a

namespace Custody
variable {keeps later : A → List N} {all : List N}

theorem known (custody : Custody keeps all) {a : A} {n : N} (member : n ∈ keeps a) : n ∈ all :=
  (custody.total n).mpr ⟨a, member⟩

/-- Every item has one keeper. -/
theorem unique (custody : Custody keeps all) {n : N} (member : n ∈ all) : ∃! a, n ∈ keeps a := by
  obtain ⟨a, kept⟩ := (custody.total n).mp member
  exact ⟨a, kept, fun b other => custody.apart b a n other kept⟩

theorem congr (custody : Custody keeps all) (same : ∀ a, later a = keeps a) : Custody later all := by
  have equal : later = keeps := funext same
  rw [equal]
  exact custody

/-- The items `moved` go from keeper `a` to keeper `b`. -/
theorem move (custody : Custody keeps all) (a b : A) (moved : List N) (different : a ≠ b)
    (left : (moved ++ later a).Perm (keeps a)) (came : (later b).Perm (moved ++ keeps b))
    (others : ∀ r, r ≠ a → r ≠ b → later r = keeps r) : Custody later all := by
  have split : (moved ++ later a).Nodup := left.nodup_iff.mpr (custody.once a)
  obtain ⟨movedOnce, restOnce, disjoint⟩ := List.nodup_append'.mp split
  have ofA : ∀ n, n ∈ later a ↔ n ∈ keeps a ∧ n ∉ moved := by
    intro n
    rw [← left.mem_iff, List.mem_append]
    constructor
    · exact fun member => ⟨Or.inr member, fun gone => disjoint gone member⟩
    · rintro ⟨member | member, absent⟩
      · exact absurd member absent
      · exact member
  have given : ∀ n ∈ moved, n ∈ keeps a := fun n member =>
    left.mem_iff.mp (List.mem_append_left _ member)
  have ofB : ∀ n, n ∈ later b ↔ n ∈ moved ∨ n ∈ keeps b := fun n => by
    rw [came.mem_iff, List.mem_append]
  -- Who had an item that somebody has now: the moved items had keeper `a`.
  have before : ∀ r n, n ∈ later r → n ∈ keeps r ∨ r = b ∧ n ∈ moved := by
    intro r n member
    by_cases atA : r = a
    · subst atA
      exact Or.inl ((ofA n).mp member).1
    by_cases atB : r = b
    · subst atB
      exact ((ofB n).mp member).symm.imp_right fun member => ⟨rfl, member⟩
    · exact Or.inl (others r atA atB ▸ member)
  have still : ∀ r n, n ∈ later r → n ∈ moved → r = b := by
    intro r n member gone
    rcases before r n member with kept | ⟨same, _⟩
    · have atA := custody.apart r a n kept (given n gone)
      subst atA
      exact absurd gone ((ofA n).mp member).2
    · exact same
  refine ⟨fun r => ?_, fun r r' n here there => ?_, fun n => ?_⟩
  · by_cases atA : r = a
    · subst atA
      exact restOnce
    by_cases atB : r = b
    · subst atB
      refine came.nodup_iff.mpr (List.nodup_append'.mpr ⟨movedOnce, custody.once r, ?_⟩)
      exact fun n gone kept => different (custody.apart a r n (given n gone) kept)
    · rw [others r atA atB]
      exact custody.once r
  · rcases before r n here with kept | ⟨same, gone⟩
    · rcases before r' n there with kept' | ⟨same, gone⟩
      · exact custody.apart r r' n kept kept'
      · exact (still r n here gone).trans same.symm
    · exact same.trans (still r' n there gone).symm
  · rw [custody.total n]
    constructor
    · rintro ⟨r, kept⟩
      by_cases gone : n ∈ moved
      · exact ⟨b, (ofB n).mpr (Or.inl gone)⟩
      by_cases atA : r = a
      · subst atA
        exact ⟨r, (ofA n).mpr ⟨kept, gone⟩⟩
      by_cases atB : r = b
      · subst atB
        exact ⟨r, (ofB n).mpr (Or.inr kept)⟩
      · exact ⟨r, (others r atA atB).symm ▸ kept⟩
    · rintro ⟨r, member⟩
      rcases before r n member with kept | ⟨_, gone⟩
      · exact ⟨r, kept⟩
      · exact ⟨a, given n gone⟩

/-- Keeper `b` gets items that nobody had. -/
theorem add (custody : Custody keeps all) (b : A) {fresh : List N} (once : fresh.Nodup)
    (new : ∀ n ∈ fresh, n ∉ all) (came : (later b).Perm (fresh ++ keeps b))
    (others : ∀ r, r ≠ b → later r = keeps r) : Custody later (all ++ fresh) := by
  have ofB : ∀ n, n ∈ later b ↔ n ∈ fresh ∨ n ∈ keeps b := fun n => by
    rw [came.mem_iff, List.mem_append]
  have before : ∀ r n, n ∈ later r → n ∈ keeps r ∨ r = b ∧ n ∈ fresh := by
    intro r n member
    by_cases atB : r = b
    · subst atB
      exact ((ofB n).mp member).symm.imp_right fun member => ⟨rfl, member⟩
    · exact Or.inl (others r atB ▸ member)
  have unknown : ∀ r n, n ∈ fresh → n ∉ keeps r := fun r n member kept =>
    new n member (custody.known kept)
  refine ⟨fun r => ?_, fun r r' n here there => ?_, fun n => ?_⟩
  · by_cases atB : r = b
    · subst atB
      refine came.nodup_iff.mpr (List.nodup_append'.mpr ⟨once, custody.once r, ?_⟩)
      exact fun n member kept => unknown r n member kept
    · rw [others r atB]
      exact custody.once r
  · rcases before r n here with kept | ⟨same, member⟩
    · rcases before r' n there with kept' | ⟨_, member⟩
      · exact custody.apart r r' n kept kept'
      · exact absurd kept (unknown r n member)
    · rcases before r' n there with kept' | ⟨same', _⟩
      · exact absurd kept' (unknown r' n member)
      · exact same.trans same'.symm
  · rw [List.mem_append, custody.total n]
    constructor
    · rintro (⟨r, kept⟩ | member)
      · by_cases atB : r = b
        · subst atB
          exact ⟨r, (ofB n).mpr (Or.inr kept)⟩
        · exact ⟨r, (others r atB).symm ▸ kept⟩
      · exact ⟨b, (ofB n).mpr (Or.inl member)⟩
    · rintro ⟨r, member⟩
      rcases before r n member with kept | ⟨_, member⟩
      · exact Or.inl ⟨r, kept⟩
      · exact Or.inr member

end Custody
end Interleaving
