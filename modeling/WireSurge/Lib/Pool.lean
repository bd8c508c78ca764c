import WireSurge.Lib.Prog
import WireSurge.Lib.Run

/-!
# A program among others

The rules for a program alone, for one program of a `Pool`. Its surroundings are
the pool: before a request of it is answered the others go on (`Pool.seen`). What
it comes through in the pool is a run in these surroundings (`Pool.runs_seen`), so
what is `Safe` there holds of it (`Pool.done_of_safe`).

`Only` is a bound on what a program asks, whatever the answers are.
-/

namespace Prog

variable {Op : Type} {Ans : Op → Type} {α β ε : Type}

/-- All requests of the program meet `P`. -/
def Only (P : Op → Prop) (p : Prog Op Ans α) : Prop :=
  Safe (fun _ _ _ _ => True) (fun (_ : Unit) op => P op) (fun _ _ => True) p ()

theorem only_ask {P : Op → Prop} {op : Op} {k : Ans op → Prog Op Ans α} :
    Only P (ask op k) ↔ P op ∧ ∀ ans, Only P (k ans) :=
  and_congr_right fun _ => ⟨fun h ans => h ans () trivial, fun h ans _ _ => h ans⟩

theorem only_run_bind {P : Op → Prop} {x : ExceptT ε (Prog Op Ans) α} {f : α → ExceptT ε (Prog Op Ans) β}
    (hx : Only P x.run) (hf : ∀ a, Only P (f a).run) : Only P (x >>= f).run := by
  rw [Only, safe_run_bind]
  exact hx.mono fun r _ _ => match r with
    | .ok a => hf a
    | .error _ => trivial

namespace Pool

variable {ι χ σ : Type} [DecidableEq ι] {perform : σ → (op : Op) → χ → Option (Ans op × σ)}
variable {C : Pool ι Op Ans α σ → ι × χ → Prop} {i : ι} {first pool : Pool ι Op Ans α σ}

/-- The others of `i` go on. -/
def OthersReach (perform : σ → (op : Op) → χ → Option (Ans op × σ)) (C : Pool ι Op Ans α σ → ι × χ → Prop) (i : ι) :
    Pool ι Op Ans α σ → Pool ι Op Ans α σ → Prop :=
  Lts.Reach (step perform) fun pool action => C pool action ∧ action.1 ≠ i

theorem OthersReach.reach (h : OthersReach perform C i first pool) : Lts.Reach (step perform) C first pool :=
  h.mono fun _ _ hC => hC.1

/-- The pool as the surroundings of one program. -/
def seen (perform : σ → (op : Op) → χ → Option (Ans op × σ)) (C : Pool ι Op Ans α σ → ι × χ → Prop) (i : ι) :
    World Op Ans (Pool ι Op Ans α σ) := fun first op ans pool =>
  ∃ mid k c s, OthersReach perform C i first mid ∧ mid.rest i = ask op k ∧ C mid (i, c) ∧
    perform mid.state op c = some (ans, s) ∧ pool = ⟨Function.update mid.rest i (k ans), s⟩

/-- A program of a pool runs in its surroundings. -/
theorem runs_seen (h : Lts.Reach (step perform) C first pool) :
    ∃ last, Runs (seen perform C i) (first.rest i, first) (pool.rest i, last) ∧ OthersReach perform C i last pool := by
  induction h with
  | refl => exact ⟨first, .refl, Lts.Reach.refl first⟩
  | tail _ hn ih =>
    obtain ⟨⟨j, c⟩, hC, hstep⟩ := hn
    obtain ⟨last, hruns, hothers⟩ := ih
    by_cases hj : j = i
    · subst hj
      obtain ⟨op, k, ans, s, hrest, hans, rfl⟩ := step_cases hstep
      rw [hrest] at hruns
      refine ⟨_, hruns.tail ?_, Lts.Reach.refl _⟩
      simp only [Function.update_self]
      exact .ask ⟨_, k, c, s, hothers, hrest, hC, hans, rfl⟩
    · have hnext := hothers.tail ⟨hC, hj⟩ hstep
      obtain ⟨op, k, ans, s, hrest, hans, rfl⟩ := step_cases hstep
      simp only [Function.update_of_ne (Ne.symm hj)]
      exact ⟨last, hruns, hnext⟩

/-- What holds of the value that a program of a pool has given. -/
theorem done_of_safe {I : Pool ι Op Ans α σ → Op → Prop} {Q : α → Pool ι Op Ans α σ → Prop} {a : α}
    (h : Safe (seen perform C i) I Q (first.rest i) first) (hr : Lts.Reach (step perform) C first pool)
    (hdone : pool.rest i = done a) : ∃ last, Q a last ∧ OthersReach perform C i last pool := by
  obtain ⟨last, hruns, hothers⟩ := runs_seen (i := i) hr
  rw [hdone] at hruns
  exact ⟨last, h.done hruns, hothers⟩

/-- A program that is left alone, and may go on whatever it has done, comes to its end. -/
theorem finishes (hw : ∀ s op, ∃ c ans s', perform s op c = some (ans, s')) {P : Pool ι Op Ans α σ → Prop}
    (hP : ∀ pool rest s, P pool → P ⟨Function.update pool.rest i rest, s⟩) (hC : ∀ pool c, P pool → C pool (i, c))
    (h : P pool) : ∃ last a, Lts.Reach (step perform) C pool last ∧ P last ∧ last.rest i = done a := by
  generalize hrest : pool.rest i = p
  induction p generalizing pool with
  | done a => exact ⟨pool, a, Lts.Reach.refl pool, h, hrest⟩
  | ask op k ih =>
    obtain ⟨c, ans, s, hans⟩ := hw pool.state op
    have hstep : pool.step perform (i, c) = some ⟨Function.update pool.rest i (k ans), s⟩ := by
      simp only [step, hrest, hans, Option.map_some]
    obtain ⟨last, a, hlast, hPlast, hdone⟩ := ih ans (hP pool (k ans) s h) (Function.update_self ..)
    exact ⟨last, a, ((Lts.Reach.refl pool).tail (hC pool c h) hstep).trans hlast, hPlast, hdone⟩

end Pool

end Prog
