import Mathlib.Logic.Function.Basic
import Mathlib.Logic.Relation

/-!
# Programs that ask

A program gives a value, or asks its surroundings for something (`Op`) and
goes on from the answer (`Ans`). What answers there are, and what asking does
to the surroundings, a `World` says. `Runs` is the programs and states that a
program comes through; it may be stopped at any of them. A run one can write
down is given by the answers in it (`Runs.of_play`).

`Safe I Q` says of a program that `I` holds of every state and request in
which it asks, and `Q` of what it gives in the end (`Safe.runs`). The rules
take it apart along a program, also along one that may fail (`ExceptT`).

A `Pool` is programs side by side with one surrounding; they take their steps in
any order.
-/

/-- A program: it gives a value, or asks. -/
inductive Prog (Op : Type) (Ans : Op → Type) (α : Type)
  | done (a : α)
  | ask (op : Op) (k : Ans op → Prog Op Ans α)

namespace Prog

variable {Op : Type} {Ans : Op → Type} {α β ε σ : Type}

def bind : Prog Op Ans α → (α → Prog Op Ans β) → Prog Op Ans β
  | done a, f => f a
  | ask op k, f => ask op fun ans => (k ans).bind f

instance : Monad (Prog Op Ans) where
  pure := done
  bind := bind

/-- A request alone. -/
def request (op : Op) : Prog Op Ans (Ans op) := ask op done

/-! ## Runs -/

/-- What an answer does to the state of the surroundings. -/
abbrev World (Op : Type) (Ans : Op → Type) (σ : Type) := σ → (op : Op) → Ans op → σ → Prop

/-- One request answered. -/
inductive Step (world : World Op Ans σ) : Prog Op Ans α × σ → Prog Op Ans α × σ → Prop
  | ask {op : Op} {k : Ans op → Prog Op Ans α} {ans : Ans op} {s s' : σ} :
    world s op ans s' → Step world (ask op k, s) (k ans, s')

/-- The program in its state comes to another in another. -/
def Runs (world : World Op Ans σ) : Prog Op Ans α × σ → Prog Op Ans α × σ → Prop :=
  Relation.ReflTransGen (Step world)

/-- The run with the answers that `oracle` gives. -/
def play (oracle : σ → (op : Op) → Option (Ans op × σ)) : Prog Op Ans α → σ → Option (α × σ)
  | done a, s => some (a, s)
  | ask op k, s => (oracle s op).bind fun (ans, s') => play oracle (k ans) s'

theorem Runs.of_play {world : World Op Ans σ} {oracle : σ → (op : Op) → Option (Ans op × σ)}
    (ho : ∀ s op ans s', oracle s op = some (ans, s') → world s op ans s') {p : Prog Op Ans α} {s s' : σ} {a : α}
    (h : play oracle p s = some (a, s')) : Runs world (p, s) (done a, s') := by
  induction p generalizing s with
  | done b =>
    cases h
    exact .refl
  | ask op k ih =>
    obtain ⟨⟨ans, s₁⟩, hans, h⟩ := Option.bind_eq_some_iff.mp h
    exact .head (.ask (ho _ _ _ _ hans)) (ih ans h)

/-! ## What holds along a run -/

/-- `I` holds whenever the program asks, and `Q` of its value in the last state. -/
def Safe (world : World Op Ans σ) (I : σ → Op → Prop) (Q : α → σ → Prop) : Prog Op Ans α → σ → Prop
  | done a, s => Q a s
  | ask op k, s => I s op ∧ ∀ ans s', world s op ans s' → Safe world I Q (k ans) s'

variable {world : World Op Ans σ} {I : σ → Op → Prop} {Q Q' : α → σ → Prop} {p p' : Prog Op Ans α} {s s' : σ}

theorem Safe.runs (h : Safe world I Q p s) (hr : Runs world (p, s) (p', s')) : Safe world I Q p' s' := by
  suffices h : ∀ c, Runs world (p, s) c → Safe world I Q c.1 c.2 from h _ hr
  intro c hc
  induction hc with
  | refl => exact h
  | tail _ hstep ih =>
    cases hstep with
    | ask hw => exact ih.2 _ _ hw

/-- What a safe program has given. -/
theorem Safe.done {a : α} (h : Safe world I Q p s) (hr : Runs world (p, s) (.done a, s')) : Q a s' := h.runs hr

/-- And the other way around, where nothing is said of the requests. -/
theorem safe_iff_runs :
    Safe world (fun _ _ => True) Q p s ↔ ∀ a s', Runs world (p, s) (.done a, s') → Q a s' := by
  refine ⟨fun h a s' hr => h.done hr, fun h => ?_⟩
  induction p generalizing s with
  | done a => exact h a s .refl
  | ask op k ih => exact ⟨trivial, fun ans s' hw => ih ans fun a s'' hr => h a s'' (.head (.ask hw) hr)⟩

/-- Or nothing of the end. -/
theorem safe_of_asks (h : ∀ op k s', Runs world (p, s) (.ask op k, s') → I s' op) :
    Safe world I (fun _ _ => True) p s := by
  induction p generalizing s with
  | done a => trivial
  | ask op k ih =>
    exact ⟨h op k s .refl, fun ans s₁ hw => ih ans fun op' k' s' hr => h op' k' s' (.head (.ask hw) hr)⟩

/-- A program comes to its end where every request is answered. -/
theorem exists_done (hw : ∀ s op, ∃ ans s', world s op ans s') (p : Prog Op Ans α) (s : σ) :
    ∃ a s', Runs world (p, s) (.done a, s') := by
  induction p generalizing s with
  | done a => exact ⟨a, s, .refl⟩
  | ask op k ih =>
    obtain ⟨ans, s₁, hans⟩ := hw s op
    obtain ⟨a, s', hr⟩ := ih ans s₁
    exact ⟨a, s', .head (.ask hans) hr⟩

/-- What holds of every state that a run comes to, and of what is given in the end. -/
theorem Safe.always {P : σ → Prop} (h : Safe world (fun s _ => P s) (fun a s => P s ∧ Q a s) p s)
    (hr : Runs world (p, s) (p', s')) : P s' ∧ ∀ a, p' = .done a → Q a s' := by
  have h' := h.runs hr
  cases p' with
  | done a => exact ⟨h'.1, fun b hb => by cases hb; exact h'.2⟩
  | ask op k => exact ⟨h'.1, nofun⟩

theorem safe_of_always {P : σ → Prop} (h : ∀ p' s', Runs world (p, s) (p', s') → P s') :
    Safe world (fun s _ => P s) (fun _ s => P s) p s := by
  induction p generalizing s with
  | done a => exact h _ _ .refl
  | ask op k ih => exact ⟨h _ _ .refl, fun ans s₁ hw => ih ans fun p' s' hr => h p' s' (.head (.ask hw) hr)⟩

theorem Safe.now {P : σ → Prop} (h : Safe world (fun s _ => P s) (fun _ s => P s) p s) : P s := by
  cases p with
  | done a => exact h
  | ask op k => exact h.1

/-- Fewer answers may come. -/
theorem Safe.fewer {world' : World Op Ans σ} (h : Safe world I Q p s)
    (hw : ∀ s op ans s', world' s op ans s' → world s op ans s') : Safe world' I Q p s := by
  induction p generalizing s with
  | done a => exact h
  | ask op k ih => exact ⟨h.1, fun ans s' hs => ih ans (h.2 ans s' (hw _ _ _ _ hs))⟩

theorem Safe.imp {I' : σ → Op → Prop} (h : Safe world I Q p s) (hI : ∀ s op, I s op → I' s op)
    (hQ : ∀ a s, Q a s → Q' a s) : Safe world I' Q' p s := by
  induction p generalizing s with
  | done a => exact hQ a s h
  | ask op k ih => exact ⟨hI s op h.1, fun ans s' hw => ih ans (h.2 ans s' hw)⟩

theorem Safe.mono (h : Safe world I Q p s) (hQ : ∀ a s, Q a s → Q' a s) : Safe world I Q' p s :=
  h.imp (fun _ _ => id) hQ

/-- What every answer keeps holds along a run. -/
theorem Runs.keeping {P : σ → Prop} (hr : Runs world (p, s) (p', s'))
    (hP : ∀ s op ans s', world s op ans s' → P s → P s') (hs : P s) : P s' := by
  suffices h : ∀ c, Runs world (p, s) c → P c.2 from h _ hr
  intro c hc
  induction hc with
  | refl => exact hs
  | tail _ hstep ih =>
    cases hstep with
    | ask hw => exact hP _ _ _ _ hw ih

/-- What every answer to its requests keeps, a program keeps. -/
theorem Safe.keeping {P : σ → Prop} (h : Safe world I Q p s)
    (hP : ∀ s op ans s', I s op → world s op ans s' → P s → P s') (hs : P s) :
    Safe world (fun s op => I s op ∧ P s) (fun a s => Q a s ∧ P s) p s := by
  induction p generalizing s with
  | done a => exact ⟨h, hs⟩
  | ask op k ih => exact ⟨⟨h.1, hs⟩, fun ans s' hw => ih ans (h.2 ans s' hw) (hP _ _ _ _ h.1 hw hs)⟩

theorem safe_bind {f : α → Prog Op Ans β} {Q : β → σ → Prop} :
    Safe world I Q (p >>= f) s ↔ Safe world I (fun a s' => Safe world I Q (f a) s') p s := by
  induction p generalizing s with
  | done a => exact Iff.rfl
  | ask op k ih => exact and_congr_right fun _ => forall₃_congr fun ans s' _ => ih ans

@[simp] theorem safe_map {f : α → β} {Q : β → σ → Prop} :
    Safe world I Q (f <$> p) s ↔ Safe world I (fun a => Q (f a)) p s := safe_bind

theorem safe_request {op : Op} {Q : Ans op → σ → Prop} :
    Safe world I Q (request op) s ↔ I s op ∧ ∀ ans s', world s op ans s' → Q ans s' := Iff.rfl

/-! ## Programs that may fail -/

/-- `Q` of a value, `E` of an error. -/
@[simp] def onOk (Q : α → σ → Prop) (E : ε → σ → Prop) : Except ε α → σ → Prop
  | .ok a, s => Q a s
  | .error e, s => E e s

section

variable {x : ExceptT ε (Prog Op Ans) α} {a : α} {e : ε} {Q : Except ε α → σ → Prop}

@[simp] theorem safe_run_bind {f : α → ExceptT ε (Prog Op Ans) β} {Q : Except ε β → σ → Prop} :
    Safe world I Q (x >>= f).run s ↔
      Safe world I (onOk (fun a s => Safe world I Q (f a).run s) fun e => Q (.error e)) x.run s := by
  rw [ExceptT.run_bind, safe_bind]
  constructor <;> refine fun h => h.mono fun r s' hr => ?_ <;> cases r <;> exact hr

@[simp] theorem safe_run_pure : Safe world I Q (pure a : ExceptT ε (Prog Op Ans) α).run s ↔ Q (.ok a) s := Iff.rfl

@[simp] theorem safe_run_throw : Safe world I Q (throw e : ExceptT ε (Prog Op Ans) α).run s ↔ Q (.error e) s :=
  Iff.rfl

@[simp] theorem safe_run_lift : Safe world I Q (ExceptT.lift p : ExceptT ε (Prog Op Ans) α).run s ↔
    Safe world I (fun a => Q (.ok a)) p s := safe_bind

end

/-! ## Programs side by side -/

/-- Programs with one surrounding. -/
structure Pool (ι : Type) (Op : Type) (Ans : Op → Type) (α σ : Type) where
  rest : ι → Prog Op Ans α
  state : σ

/-- What a program asks next. -/
def next : Prog Op Ans α → Option Op
  | done _ => none
  | ask op _ => some op

section

variable {ι χ : Type} [DecidableEq ι] {perform : σ → (op : Op) → χ → Option (Ans op × σ)}
variable {pool pool' : Pool ι Op Ans α σ} {i : ι} {c : χ}

/-- One program asks, and is answered in one of the ways there are. -/
def Pool.step (perform : σ → (op : Op) → χ → Option (Ans op × σ)) (pool : Pool ι Op Ans α σ) :
    ι × χ → Option (Pool ι Op Ans α σ)
  | (i, c) =>
    match pool.rest i with
    | done _ => none
    | ask op k => (perform pool.state op c).map fun (ans, s) => ⟨Function.update pool.rest i (k ans), s⟩

/-- What one step can do. -/
theorem Pool.step_cases (h : pool.step perform (i, c) = some pool') :
    ∃ op k ans s', pool.rest i = ask op k ∧ perform pool.state op c = some (ans, s') ∧
      pool' = ⟨Function.update pool.rest i (k ans), s'⟩ := by
  simp only [Pool.step] at h
  split at h
  · cases h
  · rename_i op k hrest
    obtain ⟨⟨ans, s'⟩, hans, rfl⟩ := Option.map_eq_some_iff.mp h
    exact ⟨op, k, ans, s', hrest, hans, rfl⟩

end

end Prog
