import Mathlib.Dynamics.PeriodicPts.Lemmas

/-!
# Cycle walking

`walk f p` applies `f` until the value meets `p`. An injective `f` of a finite
type leads every value back to itself, so a walk that starts in `p` ends there,
after no more turns than the type has values (`walk_isSome`), and no two walks
end in the same value (`walk_inj`): walking is a permutation of the values that
meet `p` (`exists_perm`).
-/

namespace CycleWalk

open Function (Injective)

variable {α β : Type}

/-- The first of `f a`, `f (f a)`, … that meets `p`, when it is one of the first `fuel`. -/
def walk (f : α → α) (p : α → Prop) [DecidablePred p] : Nat → α → Option α
  | 0, _ => none
  | fuel + 1, a => if p (f a) then some (f a) else walk f p fuel (f a)

variable {f : α → α} {p : α → Prop} [DecidablePred p]

theorem not_of_walk_eq_none {fuel : Nat} {a : α} (h : walk f p fuel a = none) {k : Nat} (hk : k < fuel) :
    ¬ p (f^[k + 1] a) := by
  induction fuel generalizing a k with
  | zero => exact absurd hk (Nat.not_lt_zero k)
  | succ fuel ih =>
    simp only [walk] at h
    split at h
    · cases h
    · rename_i hp
      cases k with
      | zero => exact hp
      | succ k => exact ih h (Nat.lt_of_succ_lt_succ hk)

theorem walk_eq_some {fuel : Nat} {a b : α} (h : walk f p fuel a = some b) :
    ∃ k, f^[k + 1] a = b ∧ p b ∧ ∀ j < k, ¬ p (f^[j + 1] a) := by
  induction fuel generalizing a with
  | zero => cases h
  | succ fuel ih =>
    simp only [walk] at h
    split at h
    · rename_i hp
      cases h
      exact ⟨0, rfl, hp, fun j hj => absurd hj (Nat.not_lt_zero j)⟩
    · rename_i hp
      obtain ⟨k, hk, hb, hmin⟩ := ih h
      refine ⟨k + 1, hk, hb, fun j hj => ?_⟩
      cases j with
      | zero => exact hp
      | succ j => exact hmin j (Nat.lt_of_succ_lt_succ hj)

/-- A walk from `p` comes back to `p`. -/
theorem walk_isSome [Fintype α] (hf : Injective f) {fuel : Nat} (hfuel : Fintype.card α ≤ fuel) {a : α} (ha : p a) :
    ∃ b, walk f p fuel a = some b := by
  refine Option.ne_none_iff_exists'.mp fun hn => ?_
  have hpos := Function.minimalPeriod_pos_of_mem_periodicPts (hf.mem_periodicPts a)
  have hle : Function.minimalPeriod f a ≤ Fintype.card α := Function.minimalPeriod_le_card
  have hback := not_of_walk_eq_none hn (k := Function.minimalPeriod f a - 1) (by omega)
  rw [Nat.sub_add_cancel hpos, Function.iterate_minimalPeriod] at hback
  exact hback ha

/-- Two walks from `p` that end in one value started in one. -/
theorem walk_inj (hf : Injective f) {fuel : Nat} {a a' b : α} (ha : p a) (ha' : p a')
    (h : walk f p fuel a = some b) (h' : walk f p fuel a' = some b) : a = a' := by
  obtain ⟨k, hk, -, hmin⟩ := walk_eq_some h
  obtain ⟨k', hk', -, hmin'⟩ := walk_eq_some h'
  wlog hle : k ≤ k' generalizing a a' k k'
  · exact (this ha' ha h' h k' hk' hmin' k hk hmin (Nat.le_of_not_le hle)).symm
  obtain ⟨d, rfl⟩ := Nat.exists_eq_add_of_le hle
  -- the longer walk passes through the start of the shorter one
  have hd : f^[d] a' = a := by
    refine hf.iterate (k + 1) ?_
    rw [hk, ← Function.iterate_add_apply, ← hk', show k + 1 + d = k + d + 1 by omega]
  cases d with
  | zero => exact hd.symm
  | succ d => exact absurd (hd ▸ ha) (hmin' d (by omega))

/-- A walk of the values that `e` enumerates. -/
theorem walk_map {e : β → α} {g : β → β} (hg : ∀ b, f (e b) = e (g b)) (fuel : Nat) (b : β) :
    walk f p fuel (e b) = (walk g (fun b => p (e b)) fuel b).map e := by
  induction fuel generalizing b with
  | zero => rfl
  | succ fuel ih =>
    simp only [walk, hg]
    split
    · rfl
    · exact ih (g b)

/-- When `f` permutes the values that `e` enumerates, walking permutes those of
them that meet `p`. -/
theorem exists_perm [Fintype β] {e : β → α} {g : β → β} (hg : ∀ b, f (e b) = e (g b)) (he : Injective e)
    (hinj : Injective g) (hp : ∀ a, p a → ∃ b, e b = a) {fuel : Nat} (hfuel : Fintype.card β ≤ fuel) :
    ∃ σ : Equiv.Perm {a // p a}, ∀ a, walk f p fuel a.1 = some (σ a).1 := by
  choose b hb using fun a : {a // p a} => hp a.1 a.2
  have hpb (a : {a // p a}) : p (e (b a)) := (hb a).symm ▸ a.2
  choose c hc using fun a => walk_isSome (p := fun b => p (e b)) hinj hfuel (hpb a)
  have hwalk (a : {a // p a}) : walk f p fuel a.1 = some (e (c a)) := by
    rw [← hb a, walk_map hg, hc a, Option.map_some]
  have hpc (a : {a // p a}) : p (e (c a)) := by
    obtain ⟨-, -, h, -⟩ := walk_eq_some (hwalk a)
    exact h
  have hfin : Finite {a // p a} := .of_injective b fun a a' h => Subtype.ext (by rw [← hb a, ← hb a', h])
  have hσ : Injective fun a => (⟨e (c a), hpc a⟩ : {a // p a}) := by
    intro a a' h
    have hcc : c a = c a' := he (congrArg Subtype.val h)
    have hbb : b a = b a' := walk_inj hinj (hpb a) (hpb a') (hc a) (hcc ▸ hc a')
    exact Subtype.ext (by rw [← hb a, ← hb a', hbb])
  exact ⟨.ofBijective _ (Finite.injective_iff_bijective.mp hσ), hwalk⟩

end CycleWalk
