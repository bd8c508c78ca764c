/-!
# Structured errors

`WireSurgeError`, what every fallible function of the workspace answers with:
a code, a message, the path of the field it is about, and how a caller should
treat it.
-/

namespace WireSurge.Core

/-- `WireSurgeError`. -/
structure WireSurgeError where
  code : String
  message : String
  path : Option String
  hint : Option String
  retryable : Bool
  /-- An input was refused at the admission boundary. -/
  rejected : Bool
  deriving DecidableEq, Repr

namespace WireSurgeError

/-- `WireSurgeError::new`. -/
def new (code message : String) : WireSurgeError :=
  { code, message, path := none, hint := none, retryable := false, rejected := false }

/-- `at`: the field the error is about. -/
def atPath (e : WireSurgeError) (path : String) : WireSurgeError := { e with path := some path }

/-- `with_hint`. -/
def withHint (e : WireSurgeError) (hint : String) : WireSurgeError := { e with hint := some hint }

/-- `retryable`. -/
def withRetryable (e : WireSurgeError) (retryable : Bool) : WireSurgeError := { e with retryable }

/-- `rejected`: the error of an admission check. -/
def reject (e : WireSurgeError) : WireSurgeError := { e with rejected := true }

/-- `to_string`. -/
def display (e : WireSurgeError) : String :=
  e.code ++ ": " ++ e.message ++ e.hint.elim "" ("\nhint: " ++ ·)

end WireSurgeError

/-- `Err(error)` when `bad` holds. -/
def failWhen (bad : Bool) (error : WireSurgeError) : Except WireSurgeError Unit :=
  if bad then .error error else .ok ()

theorem failWhen_eq_ok {bad : Bool} {error : WireSurgeError} : failWhen bad error = .ok () ↔ bad = false := by
  cases bad <;> simp [failWhen]

theorem failWhen_eq_error {bad : Bool} {error e : WireSurgeError} :
    failWhen bad error = .error e ↔ bad = true ∧ error = e := by
  cases bad <;> simp [failWhen]

/-! ## Steps one after the other -/

/-- What goes on behind a step that may fail. -/
theorem bind_inv {ε α β : Type} {x : Except ε α} {f : α → Except ε β} {b : β} (h : x >>= f = .ok b) :
    ∃ a, x = .ok a ∧ f a = .ok b := by
  cases x with
  | error => cases h
  | ok a => exact ⟨a, rfl, h⟩

theorem bind_eq_ok {ε β : Type} {x : Except ε Unit} {f : Unit → Except ε β} {b : β} :
    x >>= f = .ok b ↔ x = .ok () ∧ f () = .ok b := by
  cases x <;> simp [bind, Except.bind]

theorem bind_eq_error {ε β : Type} {x : Except ε Unit} {f : Unit → Except ε β} {e : ε} :
    x >>= f = .error e ↔ x = .error e ∨ x = .ok () ∧ f () = .error e := by
  cases x <;> simp [bind, Except.bind]

end WireSurge.Core
