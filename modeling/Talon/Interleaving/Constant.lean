import Talon.Interleaving.Ownership

/-! Programs none of whose atomic steps changes a given part of the shared state. Whether
they are such programs can be read off their text: no assumption about the other threads
is needed, and a view that is computed from that part stays what it was. -/
namespace Interleaving

variable {ι S C F R V X α β : Type}

/-- No step changes `part`, and only procedures in `calls` are called. -/
def Constant (part : S → X) (calls : F → Prop) : Prog S C F R α → Prop
  | .ret _ => True
  | .act effect next => ∀ c s t, effect c s = some t → part t = part s ∧ Constant part calls (next c s)
  | .call f next => calls f ∧ ∀ r, Constant part calls (next r)

namespace Constant
variable {part : S → X} {calls : F → Prop}

theorem pure (a : α) : Constant part calls (Pure.pure a : Prog S C F R α) := trivial

theorem bind {p : Prog S C F R α} {k : α → Prog S C F R β} (first : Constant part calls p)
    (rest : ∀ a, Constant part calls (k a)) : Constant part calls (p >>= k) := by
  change Constant part calls (p.bind k)
  induction p with
  | ret value => exact rest value
  | act effect next ih =>
    intro c s t stepped
    obtain ⟨same, later⟩ := first c s t stepped
    exact ⟨same, ih c s later⟩
  | call f next ih => exact ⟨first.1, fun r => ih r (first.2 r)⟩

theorem atomic {effect : C → S → Option S} {result : C → S → α}
    (same : ∀ c s t, effect c s = some t → part t = part s) :
    Constant part calls (.atomic effect result : Prog S C F R α) :=
  fun c s t stepped => ⟨same c s t stepped, trivial⟩

theorem exchange {read : S → α} {write : S → S} (same : ∀ s, part (write s) = part s) :
    Constant part calls (.exchange read write : Prog S C F R α) :=
  atomic fun _ s _ stepped => Option.some.inj stepped ▸ same s

theorem store {write : S → S} (same : ∀ s, part (write s) = part s) :
    Constant part calls (.store write : Prog S C F R Unit) := exchange same

theorem load {read : S → α} : Constant part calls (.load read : Prog S C F R α) := exchange fun _ => rfl

theorem choose : Constant part calls (.choose : Prog S C F R C) :=
  atomic fun _ _ _ stepped => Option.some.inj stepped ▸ rfl

theorem enter {f : F} (called : calls f) : Constant part calls (.enter f : Prog S C F R R) :=
  ⟨called, fun _ => trivial⟩

/-- The caller of such a program sees what it saw before. -/
theorem ensures {O : Ownership ι S V} {K : Spec F R V} {i : ι} {v : V} {p : Prog S C F R α}
    (inv : ∀ s t, part t = part s → O.Inv s → O.Inv t)
    (views : ∀ j s t, part t = part s → O.view j t = O.view j s) (pre : ∀ f v, calls f → K.pre f v)
    (post : ∀ f v r v', calls f → K.post f v r v' → v' = v) (constant : Constant part calls p) :
    O.Ensures K i v p fun _ v' => v' = v := by
  induction p with
  | ret value => exact Ownership.Ensures.pure rfl
  | act effect next ih =>
    intro s seen t moved c u stepped _
    obtain ⟨same, rest⟩ := constant c t u stepped
    have seen := seen.stable moved
    refine ⟨fun before => ⟨inv t u same before, fun j _ => views j t u same⟩, ih c t rest u ⟨?_, ?_⟩⟩
    · exact inv t u same seen.1
    · exact (views i t u same).trans seen.2
  | call f next ih =>
    intro s seen t moved
    refine ⟨v, ⟨pre f v constant.1, seen.stable moved⟩, fun r u reached => ?_⟩
    obtain ⟨v', returned, seen'⟩ := reached
    obtain rfl := post f v r v' constant.1 returned
    exact ih r (constant.2 r) u seen'

end Constant
end Interleaving
