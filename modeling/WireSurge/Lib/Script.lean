import WireSurge.Lib.Prog

/-!
# Scripts

A program that asks a fixed list of requests one after the other is a script: an answer
that fails ends it with its error, and past the last request it gives what it was to
give. `Ends` says how a script can end, and `runs_script` that every run of one keeps to
the list, whatever is answered (`recording` is the surroundings that answer anything and
keep what was said).
-/

namespace Prog

variable {Op : Type} {Ans : Op → Type} {α ε : Type}

/-- A request and its answer. -/
abbrev Entry (Op : Type) (Ans : Op → Type) := (op : Op) × Ans op

/-- Anything may be answered. The state is what was asked and answered, in order. -/
def recording : World Op Ans (List (Entry Op Ans)) := fun said op ans said' => said' = said ++ [⟨op, ans⟩]

/-- `error?` is the error of an answer that fails. -/
def script (error? : (op : Op) → Ans op → Option ε) : List Op → Except ε α → ExceptT ε (Prog Op Ans) α
  | [], result => .mk (done result)
  | op :: ops, result =>
    .mk (ask op fun ans => (error? op ans).elim (script error? ops result).run fun e => done (.error e))

variable {error? : (op : Op) → Ans op → Option ε} {ops ops' : List Op} {result r : Except ε α}
variable {said : List (Entry Op Ans)} {p : Prog Op Ans (Except ε α)}

/-- No answer failed. -/
def Answered (error? : (op : Op) → Ans op → Option ε) (said : List (Entry Op Ans)) : Prop :=
  ∀ entry ∈ said, error? entry.1 entry.2 = none

/-- How a script ends: behind its requests, or with the first answer that fails. -/
inductive Ends (error? : (op : Op) → Ans op → Option ε) (ops : List Op) (result : Except ε α) :
    Except ε α → List (Entry Op Ans) → Prop
  | through {said : List (Entry Op Ans)} : said.map Sigma.fst = ops → Answered error? said →
    Ends error? ops result result said
  | failed {said : List (Entry Op Ans)} {op : Op} {ans : Ans op} {e : ε} : said.map Sigma.fst ++ [op] <+: ops →
    Answered error? said → error? op ans = some e → Ends error? ops result (.error e) (said ++ [⟨op, ans⟩])

theorem Answered.concat (h : Answered error? said) {op : Op} {ans : Ans op} (hans : error? op ans = none) :
    Answered error? (said ++ [⟨op, ans⟩]) := by
  intro entry hentry
  rcases List.mem_append.mp hentry with hentry | hentry
  · exact h entry hentry
  · rw [List.mem_singleton.mp hentry]
    exact hans

/-- What is left of a script, some of whose requests were answered. -/
theorem safe_script (before : List (Entry Op Ans)) (hbefore : Answered error? before) :
    Safe recording (fun said op => said.map Sigma.fst ++ [op] <+: before.map Sigma.fst ++ ops)
      (fun r said => Ends error? (before.map Sigma.fst ++ ops) result r said) (script error? ops result).run
      before := by
  induction ops generalizing before with
  | nil =>
    rw [List.append_nil]
    exact .through rfl hbefore
  | cons op ops ih =>
    have hnext : before.map Sigma.fst ++ [op] <+: before.map Sigma.fst ++ op :: ops := ⟨ops, List.append_assoc ..⟩
    refine ⟨hnext, fun ans said hsaid => ?_⟩
    rw [recording] at hsaid
    subst hsaid
    cases hans : error? op ans with
    | some e =>
      simp only [hans]
      exact Ends.failed hnext hbefore hans
    | none =>
      simp only [hans]
      have hmore := ih _ (hbefore.concat hans)
      rwa [List.map_append, List.append_assoc] at hmore

/-- Every run of a script asks what is in the list, in its order, up to an answer that
fails or to the end. -/
theorem runs_script (h : Runs recording ((script error? ops result).run, []) (p, said)) :
    said.map Sigma.fst <+: ops ∧ ∀ r, p = done r → Ends error? ops result r said := by
  have hsafe : Safe recording (fun said op => said.map Sigma.fst ++ [op] <+: ops)
      (fun r said => Ends error? ops result r said) p said :=
    (safe_script [] fun _ h => absurd h List.not_mem_nil).runs h
  cases p with
  | ask op k => exact ⟨(List.prefix_append _ _).trans hsafe.1, fun r hr => by cases hr⟩
  | done r' =>
    refine ⟨?_, fun r hr => by cases hr; exact hsafe⟩
    cases hsafe with
    | through hops => exact hops ▸ List.prefix_rfl
    | failed hops =>
      rw [List.map_append]
      exact hops

/-! ## Scripts put together -/

/-- Two scripts are one. -/
theorem script_append {β : Type} {a : α} {result : Except ε β} :
    (script error? (ops ++ ops') result : ExceptT ε (Prog Op Ans) β) =
      script error? ops (.ok a) >>= fun _ => script error? ops' result := by
  induction ops with
  | nil => rfl
  | cons op ops ih =>
    refine congrArg (Prog.ask op) (funext fun ans => ?_)
    dsimp only
    cases error? op ans with
    | some e => rfl
    | none => exact ih

/-- A script behind which a value or an error is given. -/
theorem script_result {β : Type} {a : α} {result : Except ε β} :
    (script error? ops result : ExceptT ε (Prog Op Ans) β) =
      script error? ops (.ok a) >>= fun _ => .mk (done result) := by
  have happend : (script error? (ops ++ []) result : ExceptT ε (Prog Op Ans) β) =
      script error? ops (.ok a) >>= fun _ => script error? [] result := script_append
  rwa [List.append_nil] at happend

/-- Nothing is done behind an error. -/
theorem script_error {β : Type} {e : ε} {k : α → ExceptT ε (Prog Op Ans) β} :
    script error? ops (.error e) >>= k = script error? ops (.error e) := by
  induction ops with
  | nil => rfl
  | cons op ops ih =>
    refine congrArg (Prog.ask op) (funext fun ans => ?_)
    dsimp only
    cases error? op ans with
    | some e => rfl
    | none => exact ih

/-- A script with other errors. -/
theorem script_adapt {ε' : Type} {f : ε → ε'} :
    (script error? ops result).adapt f = script (fun op ans => (error? op ans).map f) ops (result.mapError f) := by
  induction ops with
  | nil => cases result <;> rfl
  | cons op ops ih =>
    refine congrArg (Prog.ask op) (funext fun ans => ?_)
    dsimp only
    cases error? op ans with
    | some e => rfl
    | none => exact ih

/-- Only what is asked matters. -/
theorem script_congr {error?' : (op : Op) → Ans op → Option ε} (h : ∀ op ∈ ops, error? op = error?' op) :
    (script error? ops result : ExceptT ε (Prog Op Ans) α) = script error?' ops result := by
  induction ops with
  | nil => rfl
  | cons op ops ih =>
    rw [script, script, h op List.mem_cons_self, ih fun op' hop => h op' (List.mem_cons_of_mem _ hop)]

end Prog
