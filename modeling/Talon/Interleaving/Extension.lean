import Talon.Interleaving.Constant

/-! A proof by ownership on top of another one. The threads see more, and more is
invariant; what the first proof says is used and not proved again. -/
namespace Interleaving.Ownership

variable {ι S C F R V W X α : Type}

/-- A further invariant, and a further part of each thread's view. -/
def extend (O : Ownership ι S V) (Inv : S → Prop) (view : ι → S → W) : Ownership ι S (V × W) where
  Inv s := O.Inv s ∧ Inv s
  view i s := (O.view i s, view i s)
  allowed := O.allowed

variable {O : Ownership ι S V} {Inv : S → Prop} {view : ι → S → W} {K : Spec F R V} {L : Spec F R (V × W)}
  {i : ι} {v : V} {w : W} {s t : S}

theorem Moves.extend (moves : O.Moves i s t v) (inv : Inv t) (others : ∀ j, j ≠ i → view j t = view j s)
    (mine : view i t = w) : (O.extend Inv view).Moves i s t (v, w) where
  inv := ⟨moves.inv, inv⟩
  others j different := Prod.ext (moves.others j different) (others j different)
  mine := Prod.ext moves.mine mine

theorem Holds.base (holds : (O.extend Inv view).Holds i (v, w) s) : O.Holds i v s :=
  ⟨holds.1.1, congrArg Prod.fst holds.2⟩

theorem Holds.extra (holds : (O.extend Inv view).Holds i (v, w) s) : Inv s ∧ view i s = w :=
  ⟨holds.1.2, congrArg Prod.snd holds.2⟩

variable {part : S → X}

/-- A step of a program that leaves alone what the extension is about. -/
theorem wp_extend (inv : ∀ s t, part t = part s → Inv s → Inv t) (views : ∀ j s t, part t = part s → view j t = view j s)
    {p : Prog S C F R α} {Q : α → S → Prop} (constant : Constant part (fun _ => False) p) (before : O.Inv s)
    (extra : Inv s ∧ view i s = w) (reached : wp (O.discipline i) (O.contract K i) p Q s) :
    wp ((O.extend Inv view).discipline i) ((O.extend Inv view).contract L i) p
      (fun a t => Q a t ∧ Inv t ∧ view i t = w) s := by
  have relied {s t : S} (before : O.Inv s) (extra : Inv s ∧ view i s = w)
      (moved : ((O.extend Inv view).discipline i).rely s t) : (O.discipline i).rely s t ∧ Inv t ∧ view i t = w := by
    obtain ⟨after, seen⟩ := moved ⟨before, extra.1⟩
    exact ⟨fun _ => ⟨after.1, congrArg Prod.fst seen⟩, after.2, (congrArg Prod.snd seen).trans extra.2⟩
  induction p generalizing s with
  | ret value =>
    intro t moved
    obtain ⟨moved, extra⟩ := relied before extra moved
    exact ⟨reached t moved, extra⟩
  | act effect next ih =>
    intro t moved c u stepped admitted
    obtain ⟨moved, extra⟩ := relied before extra moved
    obtain ⟨promised, later⟩ := reached t moved c u stepped admitted
    obtain ⟨same, rest⟩ := constant c t u stepped
    have held := (moved before).1
    refine ⟨fun both => ⟨⟨(promised both.1).1, inv t u same both.2⟩, fun j different => ?_⟩, ?_⟩
    · exact Prod.ext ((promised both.1).2 j different) (views j t u same)
    · exact ih c t rest (promised held).1 ⟨inv t u same extra.1, (views i t u same).trans extra.2⟩ later
  | call f next _ => exact constant.1.elim

/-- So what is known of such a program still is. -/
theorem Ensures.extend (inv : ∀ s t, part t = part s → Inv s → Inv t)
    (views : ∀ j s t, part t = part s → view j t = view j s) {p : Prog S C F R α} {post : α → V → Prop}
    (constant : Constant part (fun _ => False) p) (ensures : O.Ensures K i v p post) :
    (O.extend Inv view).Ensures L i (v, w) p fun a x => post a x.1 ∧ x.2 = w := by
  intro s holds
  refine wp_mono (fun a t reached => ?_) (wp_extend inv views constant holds.base.1 holds.extra (ensures s holds.base))
  obtain ⟨⟨v', returned, seen⟩, extra, same⟩ := reached
  exact ⟨(v', w), ⟨returned, rfl⟩, ⟨seen.1, extra⟩, Prod.ext seen.2 same⟩

end Interleaving.Ownership
