import Mathlib.Algebra.Order.Ring.Rat
import Mathlib.Logic.Relation

/-!
# Runs of a step function

A system is a step function `σ → α → Option σ`: an action is taken in a
state, or is not possible there. `Reach step C s t` says that `t` is reached
from `s` by steps each of which meets the condition `C` in the state before
it (`Any`: no condition). An invariant of the steps that meet `C` holds in
every state so reached (`Reach.inv`). `run` runs a list of actions, for the
runs one can write down (`Reach.of_run`, `Reach.of_along`). `noted` keeps a
history of the steps.

`clocked` adds a clock: time passes (`elapse`), or an action is taken at the
current time.
-/

namespace Lts

variable {σ α : Type}

/-- No condition. -/
def Any : σ → α → Prop := fun _ _ => True

/-- One step that meets `C`. -/
def Next (step : σ → α → Option σ) (C : σ → α → Prop) (s t : σ) : Prop := ∃ a, C s a ∧ step s a = some t

/-- `t` is reached from `s` by steps that meet `C`. -/
def Reach (step : σ → α → Option σ) (C : σ → α → Prop) : σ → σ → Prop := Relation.ReflTransGen (Next step C)

variable {step : σ → α → Option σ} {C D : σ → α → Prop} {s t u : σ}

theorem Reach.refl (s : σ) : Reach step C s s := Relation.ReflTransGen.refl

theorem Reach.trans (h : Reach step C s t) (h' : Reach step C t u) : Reach step C s u :=
  Relation.ReflTransGen.trans h h'

theorem Reach.tail (h : Reach step C s t) {a : α} (hC : C t a) (ha : step t a = some u) : Reach step C s u :=
  Relation.ReflTransGen.tail h ⟨a, hC, ha⟩

theorem Reach.mono (h : Reach step C s t) (hCD : ∀ s a, C s a → D s a) : Reach step D s t :=
  Relation.ReflTransGen.mono (fun _ _ ⟨a, hC, ha⟩ => ⟨a, hCD _ a hC, ha⟩) _ _ h

/-- A condition that follows for the steps out of the states reached. -/
theorem Reach.gain (h : Reach step C s t) (hD : ∀ u a, Reach step C s u → C u a → D u a) : Reach step D s t := by
  induction h with
  | refl => exact Reach.refl s
  | tail hu hn ih =>
    obtain ⟨a, hC, ha⟩ := hn
    exact ih.tail (hD _ a hu hC) ha

theorem Reach.any (h : Reach step C s t) : Reach step Any s t := h.mono fun _ _ _ => trivial

/-- What the steps that meet `C` keep holds in every state they reach. -/
theorem Reach.inv {I : σ → Prop} (h : Reach step C s t) (h0 : I s)
    (hs : ∀ s a t, I s → C s a → step s a = some t → I t) : I t := by
  induction h with
  | refl => exact h0
  | tail _ hn ih =>
    obtain ⟨a, hC, ha⟩ := hn
    exact hs _ a _ ih hC ha

/-- A relation that every step can keep up holds at the end of a run. -/
theorem Reach.simulate {τ β : Type} {step' : τ → β → Option τ} {D : τ → β → Prop} {R : σ → τ → Prop} {s' : τ}
    (h : Reach step C s t) (h0 : R s s')
    (hs : ∀ u v a u', R u u' → C u a → step u a = some v → ∃ v', Reach step' D u' v' ∧ R v v') :
    ∃ t', Reach step' D s' t' ∧ R t t' := by
  induction h with
  | refl => exact ⟨s', Reach.refl s', h0⟩
  | tail _ hn ih =>
    obtain ⟨a, hC, ha⟩ := hn
    obtain ⟨u', hu', hR⟩ := ih
    obtain ⟨v', hv', hR'⟩ := hs _ _ a u' hR hC ha
    exact ⟨v', hu'.trans hv', hR'⟩

/-- The state after a list of actions. -/
def run (step : σ → α → Option σ) : σ → List α → Option σ
  | s, [] => some s
  | s, a :: as => (step s a).bind fun t => run step t as

/-- Every action of the list meets `C` where it is taken. -/
def Along (step : σ → α → Option σ) (C : σ → α → Prop) : σ → List α → Prop
  | _, [] => True
  | s, a :: as => C s a ∧ ∀ t, step s a = some t → Along step C t as

/-- Along a list one can write down, a condition that can be decided is decided by the run. -/
instance Along.decidable [∀ s a, Decidable (C s a)] : ∀ s as, Decidable (Along step C s as)
  | _, [] => isTrue trivial
  | s, a :: as =>
    match h : step s a with
    | none => decidable_of_iff (C s a) (by simp [Along, h])
    | some t =>
      have := Along.decidable t as
      decidable_of_iff (C s a ∧ Along step C t as) (by simp [Along, h])

theorem Reach.of_along {as : List α} (h : run step s as = some t) (hC : Along step C s as) : Reach step C s t := by
  induction as generalizing s with
  | nil => cases h; exact Reach.refl _
  | cons a as ih =>
    obtain ⟨u, hu, hr⟩ := Option.bind_eq_some_iff.mp h
    exact (Reach.tail (Reach.refl s) hC.1 hu).trans (ih hr (hC.2 u hu))

theorem along_any (s : σ) (as : List α) : Along step Any s as := by
  induction as generalizing s with
  | nil => trivial
  | cons a as ih => exact ⟨trivial, fun t _ => ih t⟩

theorem Reach.of_run {as : List α} (h : run step s as = some t) : Reach step Any s t :=
  .of_along h (along_any s as)

/-! ## Histories -/

/-- The system with a history beside its state, which no step reads. -/
def noted {γ : Type} (step : σ → α → Option σ) (note : σ → α → γ → γ) (s : σ × γ) (a : α) : Option (σ × γ) :=
  (step s.1 a).map fun t => (t, note s.1 a s.2)

/-! ## Time -/

/-- A state and the time on the clock. -/
structure Clocked (σ : Type) where
  now : ℚ
  state : σ

inductive Timed (α : Type)
  | elapse (dt : ℚ)
  | act (a : α)

/-- The system whose actions `step` takes at the time on the clock. -/
def clocked (step : ℚ → σ → α → Option σ) (s : Clocked σ) : Timed α → Option (Clocked σ)
  | .elapse dt => if 0 ≤ dt then some { s with now := s.now + dt } else none
  | .act a => (step s.now s.state a).map fun t => { s with state := t }

theorem clocked_elapse {step : ℚ → σ → α → Option σ} {s t : Clocked σ} {dt : ℚ} :
    clocked step s (.elapse dt) = some t ↔ 0 ≤ dt ∧ t = ⟨s.now + dt, s.state⟩ := by
  simp only [clocked, Option.ite_none_right_eq_some, Option.some.injEq]
  exact and_congr_right fun _ => eq_comm

theorem clocked_act {step : ℚ → σ → α → Option σ} {s t : Clocked σ} {a : α} :
    clocked step s (.act a) = some t ↔ ∃ u, step s.now s.state a = some u ∧ t = ⟨s.now, u⟩ := by
  simp only [clocked, Option.map_eq_some_iff]
  exact exists_congr fun u => and_congr_right fun _ => eq_comm

/-- An invariant of the steps, at any time, that no passing of time breaks. -/
theorem clocked_inv {step : ℚ → σ → α → Option σ} {C : Clocked σ → Timed α → Prop} {I : ℚ → σ → Prop}
    {s t : Clocked σ} (h : Reach (clocked step) C s t) (h0 : I s.now s.state)
    (he : ∀ s dt, C s (.elapse dt) → 0 ≤ dt → I s.now s.state → I (s.now + dt) s.state)
    (ha : ∀ s a u, C s (.act a) → step s.now s.state a = some u → I s.now s.state → I s.now u) :
    I t.now t.state := by
  refine Reach.inv (I := fun s => I s.now s.state) h h0 fun s a t hi hC hst => ?_
  cases a with
  | elapse dt =>
    obtain ⟨hdt, rfl⟩ := clocked_elapse.mp hst
    exact he s dt hC hdt hi
  | act a =>
    obtain ⟨u, hu, rfl⟩ := clocked_act.mp hst
    exact ha s a u hC hu hi

end Lts
