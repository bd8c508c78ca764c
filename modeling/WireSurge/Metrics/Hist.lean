import Mathlib.Data.Multiset.MapFold
import WireSurge.Dns.Correlator

/-!
# Load recorders

`LoadRecorder`: what one connection counts of its queries, and how recorders
are merged. The counters are `u64` in the source and natural numbers here; the
latency histogram is the multiset of the values recorded in it, each clamped to
the histogram's bounds.
-/

namespace WireSurge.Metrics

open WireSurge.Dns (TransportError DnsResponse Outcome)

/-- `LoadRecorder`: what a worker counts, with one latency for each response. -/
structure LoadRecorder where
  sent : Nat
  received : Nat
  timeouts : Nat
  errors : Nat
  connErrors : Nat
  truncated : Nat
  bytesIn : Nat
  rcodes : Fin 17 → Nat
  hist : Multiset Nat

namespace LoadRecorder

/-- Nothing is counted yet. -/
def new : LoadRecorder :=
  { sent := 0, received := 0, timeouts := 0, errors := 0, connErrors := 0, truncated := 0, bytesIn := 0,
    rcodes := fun _ => 0, hist := 0 }

/-- The upper bound of the histogram, in microseconds. -/
def histMax : Nat := 60_000_000

/-- `on_sent`. -/
def onSent (r : LoadRecorder) : LoadRecorder := { r with sent := r.sent + 1 }

/-- The bucket of an RCODE; the last one catches every RCODE from 16 on. -/
def bucket (rcode : UInt16) : Fin 17 := ⟨min rcode.toNat 16, by omega⟩

/-- `on_response`; the latency is kept between one microsecond and the ceiling. -/
def onResponse (r : LoadRecorder) (rcode : UInt16) (truncated : Bool) (bytesIn latencyUs : Nat) : LoadRecorder :=
  { r with
    received := r.received + 1
    bytesIn := r.bytesIn + bytesIn
    truncated := r.truncated + truncated.toNat
    rcodes := Function.update r.rcodes (bucket rcode) (r.rcodes (bucket rcode) + 1)
    hist := min (max latencyUs 1) histMax ::ₘ r.hist }

/-- `on_timeout`. -/
def onTimeout (r : LoadRecorder) : LoadRecorder := { r with timeouts := r.timeouts + 1 }

/-- `on_error`. -/
def onError (r : LoadRecorder) : LoadRecorder := { r with errors := r.errors + 1 }

/-- `on_conn_error`. -/
def onConnError (r : LoadRecorder) : LoadRecorder := { r with connErrors := r.connErrors + 1 }

/-- `merge`: the counts add up. -/
def merge (r other : LoadRecorder) : LoadRecorder where
  sent := r.sent + other.sent
  received := r.received + other.received
  timeouts := r.timeouts + other.timeouts
  errors := r.errors + other.errors
  connErrors := r.connErrors + other.connErrors
  truncated := r.truncated + other.truncated
  bytesIn := r.bytesIn + other.bytesIn
  rcodes i := r.rcodes i + other.rcodes i
  hist := r.hist + other.hist

/-- The responses with rcode 0. -/
def goodput (r : LoadRecorder) : Nat := r.rcodes 0

/-- What a finished exchange counts as. -/
def record (r : LoadRecorder) (result : Outcome) (elapsedUs : Nat) : LoadRecorder :=
  match result with
  | .ok response => r.onResponse response.rcode response.truncated response.bytesIn elapsedUs
  | .error .timeout => r.onTimeout
  | .error .connectionClosed => r.onConnError
  | .error _ => r.onError

/-- The queries with an outcome, and the failed connects. -/
def settled (r : LoadRecorder) : Nat := r.received + r.timeouts + r.errors + r.connErrors

@[simp] theorem sent_onSent (r : LoadRecorder) : r.onSent.sent = r.sent + 1 := rfl
@[simp] theorem settled_onSent (r : LoadRecorder) : r.onSent.settled = r.settled := rfl
@[simp] theorem sent_new : new.sent = 0 := rfl
@[simp] theorem settled_new : new.settled = 0 := rfl
@[simp] theorem settled_onConnError (r : LoadRecorder) : r.onConnError.settled = r.settled + 1 := rfl
@[simp] theorem sent_merge (r other : LoadRecorder) : (r.merge other).sent = r.sent + other.sent := rfl

@[simp] theorem settled_merge (r other : LoadRecorder) :
    (r.merge other).settled = r.settled + other.settled := by
  simp only [settled, merge]
  omega

@[simp] theorem sent_record (r : LoadRecorder) (result : Outcome) (elapsedUs : Nat) :
    (r.record result elapsedUs).sent = r.sent := by
  unfold record
  split <;> rfl

/-- A finished exchange is counted once. -/
@[simp] theorem settled_record (r : LoadRecorder) (result : Outcome) (elapsedUs : Nat) :
    (r.record result elapsedUs).settled = r.settled + 1 := by
  unfold record
  split <;> simp only [settled, onResponse, onTimeout, onConnError, onError] <;> omega

end LoadRecorder

end WireSurge.Metrics
