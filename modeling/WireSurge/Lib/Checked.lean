/-!
# Programs that index slices

A function that indexes a slice returns a value, or stops the program when
the index is out of range (`Panic`). `Checked` keeps the two apart, so that
"no read is out of range" is a statement about the function (`Returns`). The
reads themselves are `index`, `slice` and `put`; `get`-style reads that
answer with an option need no check and stay `List.getElem?` and `range?`.
-/

namespace Checked

/-- Why a run-time check stops the program. -/
inductive Panic
  | index (i len : Nat)
  | slice (lo hi len : Nat)
  | expect (message : String)
  deriving DecidableEq, Repr

/-- A computation that may be stopped by a run-time check. -/
abbrev Checked (α : Type) := Except Panic α

/-- The computation is not stopped. -/
def Returns {α : Type} (p : Checked α) : Prop := ∃ a, p = .ok a

variable {α : Type}

/-- `xs[i]`. -/
def index (xs : List α) (i : Nat) : Checked α :=
  match xs[i]? with
  | some a => .ok a
  | none => .error (.index i xs.length)

/-- `xs[lo..hi]`. -/
def slice (xs : List α) (lo hi : Nat) : Checked (List α) :=
  if lo ≤ hi ∧ hi ≤ xs.length then .ok ((xs.drop lo).take (hi - lo)) else .error (.slice lo hi xs.length)

/-- `xs[i] = a`. -/
def put (xs : List α) (i : Nat) (a : α) : Checked (List α) :=
  if i < xs.length then .ok (xs.set i a) else .error (.index i xs.length)

/-- `xs.get(lo..hi)`. -/
def range? (xs : List α) (lo hi : Nat) : Option (List α) :=
  if lo ≤ hi ∧ hi ≤ xs.length then some ((xs.drop lo).take (hi - lo)) else none

theorem map_eq_ok {ε β : Type} {f : α → β} {x : Except ε α} {b : β} : x.map f = .ok b ↔ ∃ a, x = .ok a ∧ f a = b := by
  cases x <;> simp [Except.map]

theorem mapError_eq_ok {ε ε' : Type} {x : Except ε α} {f : ε → ε'} {a : α} (h : x.mapError f = .ok a) :
    x = .ok a := by
  cases x with
  | error => cases h
  | ok => cases h; rfl

theorem index_of_lt {xs : List α} {i : Nat} (h : i < xs.length) : index xs i = .ok xs[i] := by
  simp [index, h]

theorem slice_of_le {xs : List α} {lo hi : Nat} (h : lo ≤ hi) (h' : hi ≤ xs.length) :
    slice xs lo hi = .ok ((xs.drop lo).take (hi - lo)) := by
  simp [slice, h, h']

theorem put_of_lt {xs : List α} {i : Nat} (h : i < xs.length) (a : α) :
    put xs i a = .ok (xs.set i a) := by
  simp [put, h]

theorem range?_eq_some {xs ys : List α} {lo hi : Nat} :
    range? xs lo hi = some ys ↔ lo ≤ hi ∧ hi ≤ xs.length ∧ ys = (xs.drop lo).take (hi - lo) := by
  simp only [range?]
  split
  · rename_i h
    simp [h.1, h.2, eq_comm]
  · rename_i h
    simp only [reduceCtorEq, false_iff]
    exact fun h' => h ⟨h'.1, h'.2.1⟩

end Checked
