/-!
# A single-permit notification

The primitive that tasks of an asynchronous runtime park on: `notifyOne`
wakes the task that has waited longest, or stores one permit when none waits;
a task that begins to wait (`notified`) takes a stored permit at once, or
joins the queue; one that stops waiting leaves it (`leave`). A permit is
stored only while nobody waits, so the two are the cases of one type. Two
notifications of an idle handle store one permit.
-/

inductive Notify (τ : Type)
  | stored
  | waiting (queue : List τ)
  deriving DecidableEq, Repr

namespace Notify

variable {τ : Type}

def new : Notify τ := .waiting []

instance : Inhabited (Notify τ) := ⟨new⟩

def queue : Notify τ → List τ
  | .stored => []
  | .waiting ts => ts

/-- A permit is stored. -/
def permit : Notify τ → Bool
  | .stored => true
  | .waiting _ => false

/-- The handle after a notification, and the task it wakes. -/
def notifyOne : Notify τ → Notify τ × Option τ
  | .stored => (.stored, none)
  | .waiting [] => (.stored, none)
  | .waiting (t :: ts) => (.waiting ts, some t)

/-- The handle after `t` begins to wait, and whether `t` took a permit. -/
def notified (t : τ) : Notify τ → Notify τ × Bool
  | .stored => (new, true)
  | .waiting ts => (.waiting (ts ++ [t]), false)

/-- The handle after `t` stops waiting. -/
def leave [DecidableEq τ] (t : τ) : Notify τ → Notify τ
  | .stored => .stored
  | .waiting ts => .waiting (ts.erase t)

@[simp] theorem queue_stored : (stored : Notify τ).queue = [] := rfl
@[simp] theorem queue_waiting (ts : List τ) : (waiting ts).queue = ts := rfl
@[simp] theorem permit_stored : (stored : Notify τ).permit = true := rfl
@[simp] theorem permit_waiting (ts : List τ) : (waiting ts).permit = false := rfl
@[simp] theorem queue_new : (new : Notify τ).queue = [] := rfl
@[simp] theorem permit_new : (new : Notify τ).permit = false := rfl

theorem notifyOne_of_nil {n : Notify τ} (h : n.queue = []) : n.notifyOne = (.stored, none) := by
  cases n with
  | stored => rfl
  | waiting ts => cases h; rfl

theorem notifyOne_of_cons {n : Notify τ} {t : τ} {ts : List τ} (h : n.queue = t :: ts) :
    n.notifyOne = (.waiting ts, some t) := by
  cases n with
  | stored => cases h
  | waiting ts => cases h; rfl

theorem notified_of_permit {n : Notify τ} (h : n.permit = true) (t : τ) : n.notified t = (new, true) := by
  cases n with
  | stored => rfl
  | waiting ts => cases h

theorem notified_of_not_permit {n : Notify τ} (h : n.permit = false) (t : τ) :
    n.notified t = (.waiting (n.queue ++ [t]), false) := by
  cases n with
  | stored => cases h
  | waiting ts => rfl

theorem queue_of_permit {n : Notify τ} (h : n.permit = true) : n.queue = [] := by
  cases n with
  | stored => rfl
  | waiting ts => cases h

@[simp] theorem queue_leave [DecidableEq τ] (t : τ) (n : Notify τ) : (n.leave t).queue = n.queue.erase t := by
  cases n <;> rfl

@[simp] theorem permit_leave [DecidableEq τ] (t : τ) (n : Notify τ) : (n.leave t).permit = n.permit := by
  cases n <;> rfl

end Notify
