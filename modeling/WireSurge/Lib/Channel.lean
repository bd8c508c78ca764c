/-!
# A bounded channel

Many senders, one receiver, and room for `capacity` values. A sender takes a
place first (`reserve`), and fills it (`send`); when there is no place it waits
in line, and a place that the receiver frees (`recv`) goes to the one that has
waited longest. Once the receiver is gone (`close`) no place is given.
-/

/-- A bounded channel: those who want to send are served in their order. -/
structure Channel (τ α : Type) where
  capacity : Nat
  queue : List α
  /-- The senders that have a place and have still to fill it. -/
  granted : List τ
  waiting : List τ
  closed : Bool

namespace Channel

variable {τ α : Type}

/-- A channel with nothing in it. -/
def new (capacity : Nat) : Channel τ α :=
  { capacity, queue := [], granted := [], waiting := [], closed := false }

/-- A sender that comes now gets a place. -/
def HasRoom (c : Channel τ α) : Prop := c.waiting = [] ∧ c.queue.length + c.granted.length < c.capacity

instance (c : Channel τ α) : Decidable c.HasRoom := inferInstanceAs (Decidable (_ ∧ _))

/-- What became of a place that was asked for. -/
inductive Reserved
  | refused
  | granted
  | queued
  deriving DecidableEq, Repr

/-- A place is asked for. -/
def reserve (c : Channel τ α) (t : τ) : Channel τ α × Reserved :=
  if c.closed then (c, .refused)
  else if c.HasRoom then ({ c with granted := c.granted ++ [t] }, .granted)
  else ({ c with waiting := c.waiting ++ [t] }, .queued)

/-- `t` fills its place. -/
def send [DecidableEq τ] (c : Channel τ α) (t : τ) (a : α) : Channel τ α :=
  { c with granted := c.granted.erase t, queue := c.queue ++ [a] }

/-- The next value, and the channel with its place given to the next sender. -/
def recv (c : Channel τ α) : Option (α × Channel τ α) :=
  match c.queue with
  | [] => none
  | a :: queue =>
    some (a, match c.waiting with
      | [] => { c with queue }
      | t :: waiting => { c with queue, granted := c.granted ++ [t], waiting })

/-- The receiver is gone, and what it has not received with it. -/
def close (c : Channel τ α) : Channel τ α := { c with closed := true, queue := [] }

theorem reserve_of_closed {c : Channel τ α} (h : c.closed = true) (t : τ) : c.reserve t = (c, .refused) := by
  rw [reserve, if_pos h]

theorem reserve_of_room {c : Channel τ α} (hc : c.closed = false) (h : c.HasRoom) (t : τ) :
    c.reserve t = ({ c with granted := c.granted ++ [t] }, .granted) := by
  rw [reserve, if_neg (by simp [hc]), if_pos h]

theorem reserve_of_full {c : Channel τ α} (hc : c.closed = false) (h : ¬ c.HasRoom) (t : τ) :
    c.reserve t = ({ c with waiting := c.waiting ++ [t] }, .queued) := by
  rw [reserve, if_neg (by simp [hc]), if_neg h]

/-- Nothing goes into the queue before the place is filled. -/
theorem reserve_queue (c : Channel τ α) (t : τ) : (c.reserve t).1.queue = c.queue := by
  rw [reserve]
  split
  · rfl
  · split <;> rfl

theorem recv_queue {c c' : Channel τ α} {a : α} (h : c.recv = some (a, c')) : c.queue = a :: c'.queue := by
  rw [recv] at h
  split at h
  · cases h
  · rename_i queue hq
    cases h
    rw [hq]
    split <;> rfl

end Channel
