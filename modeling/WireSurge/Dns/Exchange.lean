import WireSurge.Dns.Correlator
import WireSurge.Lib.Notify
import WireSurge.Lib.Run

/-!
# Exchanges on one correlator

Any number of queries on one `Correlator`, each between its `register` and
the return of its `await_response` (or its `cancel`), with the datagrams and
the close the reader feeds in. A step (`Session.step`) is what runs without
another task in between: the part of an operation under the lock, a
notification after it, one poll of a waiter. A notification that `complete`
or `close` has yet to issue, the lock being dropped, is a handle in `inHand`.

The history at the end of `Session` and of `Query` records what happened, and
no step reads it. `step_effect` says once what a step does to the slots; the
invariant `Slots` ties every pending id to the one query that waits for it.
-/

namespace WireSurge.Dns

open Function (update)
open Lts (Clocked Timed clocked Reach)

/-- A time, in seconds. -/
abbrev Instant := ℚ
/-- A length of time, in seconds. -/
abbrev Duration := ℚ

/-- A query, by the number its caller gives it. -/
abbrev Token := Nat

/-- Where a query stands. -/
inductive Phase
  | fresh
  /-- `register` has returned; the frame or datagram is being handed over. -/
  | registered
  /-- At the top of the loop of `await_response`. -/
  | looping (deadline : Instant)
  /-- Suspended in `timeout(remaining, notify.notified())`. -/
  | parked (deadline : Instant)
  /-- Suspended there, the notification received. -/
  | notified (deadline : Instant)
  /-- Resumed, before the lock; `woke` tells the notification from the timer. -/
  | running (deadline : Instant) (woke : Bool)
  | returned (result : Outcome)
  | cancelled
  /-- The `expect` found no slot. -/
  | panicked
  deriving DecidableEq

/-- Between `register` and the removal of the slot. -/
def Phase.isActive : Phase → Bool
  | .registered | .looping _ | .parked _ | .notified _ | .running _ _ => true
  | .fresh | .returned _ | .cancelled | .panicked => false

/-- A query of an actor: the slot it has, and how far its exchange is. -/
structure Query where
  id : UInt16
  notify : Handle
  /-- The wire, the id written into it. -/
  wire : Bytes
  phase : Phase
  /-- History: the datagrams processed before `register`, before the removal,
  and the one the result came from. -/
  registeredAt : Nat
  removedAt : Option Nat
  source : Option Nat

/-- The correlator of a connection with the queries on it. -/
structure Session where
  corr : Correlator
  notifies : Handle → Notify Token
  queries : Token → Query
  /-- The handles `complete` and `close` have still to notify. -/
  inHand : List Handle
  /-- History: the datagrams `complete` processed, the query that last took an
  id, the datagram whose reply was last stored under an id, and the removals,
  each with the query whose slot it was. -/
  datagrams : List Bytes
  owner : UInt16 → Token
  source : UInt16 → Nat
  removals : List (Token × Token)

namespace Session

/-- No query was registered. -/
def new : Session where
  corr := .new
  notifies _ := .new
  queries _ :=
    { id := 0, notify := 0, wire := [], phase := .fresh, registeredAt := 0, removedAt := none, source := none }
  inHand := []
  datagrams := []
  owner _ := 0
  source _ := 0
  removals := []

/-- The exchange of `q` is at `phase`. -/
def setPhase (s : Session) (q : Token) (phase : Phase) : Session :=
  { s with queries := update s.queries q { s.queries q with phase } }

/-- The notifier behind the handle `h` becomes `n`. -/
def setNotify (s : Session) (h : Handle) (n : Notify Token) : Session :=
  { s with notifies := update s.notifies h n }

/-- The query `q` has removed its slot, and `corr` is what is left. -/
def leave (s : Session) (q : Token) (corr : Correlator) (phase : Phase) (source : Option Nat) : Session :=
  { s with
    corr
    queries := update s.queries q { s.queries q with phase, removedAt := some s.datagrams.length, source }
    removals := (q, s.owner (s.queries q).id) :: s.removals }

/-- `register`: the query takes an id that was not pending. -/
def register (s : Session) (q : Token) (wire : Bytes) : Option Session :=
  match (s.queries q).phase, s.corr.register wire with
  | .fresh, some (.ok (r, corr)) =>
    some { s with
      corr
      queries := update s.queries q
        { id := r.id, notify := r.notify, wire := r.wire, phase := .registered,
          registeredAt := s.datagrams.length, removedAt := none, source := none }
      owner := update s.owner r.id q }
  | _, _ => none

/-- `cancel`: the slot is removed, unless the reader has cleared the map before. -/
def cancel (s : Session) (q : Token) : Option Session :=
  match (s.queries q).phase with
  | .registered =>
    let id := (s.queries q).id
    match s.corr.pending.find id with
    | some _ => some (s.leave q (s.corr.cancel id) .cancelled none)
    | none => some (s.setPhase q .cancelled)
  | _ => none

/-- `complete`, by the reader: the slot keeps the reply, and its handle is to be
notified. -/
def complete (decode : HeaderDecoder) (s : Session) (buf : Bytes) : Option Session :=
  match s.corr.complete decode buf, txid buf with
  | .ok (corr, some handle), some id =>
    some { s with
      corr
      inHand := handle :: s.inHand
      datagrams := s.datagrams ++ [buf]
      source := update s.source id s.datagrams.length }
  | .ok (corr, _), _ => some { s with corr, datagrams := s.datagrams ++ [buf] }
  | .error _, _ => none

/-- `close`, by the reader: all handles are to be notified. -/
def close (s : Session) : Session :=
  { s with corr := s.corr.close.1, inHand := s.corr.close.2 ++ s.inHand }

/-- One of the notifications in hand is issued. -/
def notifyOne (s : Session) (k : Nat) : Option Session :=
  match s.inHand[k]? with
  | none => none
  | some h =>
    let s' := { s with inHand := s.inHand.eraseIdx k }.setNotify h (s.notifies h).notifyOne.1
    match (s.notifies h).notifyOne.2 with
    | none => some s'
    | some q =>
      match (s.queries q).phase with
      | .parked deadline => some (s'.setPhase q (.notified deadline))
      | _ => some s'

/-- `await_response` is entered, and computes its deadline. -/
def awaitResponse (now : Instant) (s : Session) (q : Token) (timeout : Duration) : Option Session :=
  match (s.queries q).phase with
  | .registered => some (s.setPhase q (.looping (now + timeout)))
  | _ => none

/-- The first poll of `notified()`: a stored permit is taken, or `q` parks. -/
def poll (s : Session) (q : Token) : Option Session :=
  match (s.queries q).phase with
  | .looping deadline =>
    let h := (s.queries q).notify
    let (n, woke) := (s.notifies h).notified q
    some ((s.setNotify h n).setPhase q (if woke then .running deadline true else .parked deadline))
  | _ => none

/-- The waiter of `q` has been notified. -/
def wake (s : Session) (q : Token) : Option Session :=
  match (s.queries q).phase with
  | .notified deadline => some (s.setPhase q (.running deadline true))
  | _ => none

/-- The timer of a parked query fires. -/
def expire (now : Instant) (s : Session) (q : Token) : Option Session :=
  match (s.queries q).phase with
  | .parked deadline =>
    let h := (s.queries q).notify
    if deadline ≤ now then
      some ((s.setNotify h ((s.notifies h).leave q)).setPhase q (.running deadline false))
    else none
  | _ => none

/-- The look at the slot, and the removal when there is something to return. -/
def check (s : Session) (q : Token) : Option Session :=
  match (s.queries q).phase with
  | .running deadline woke =>
    let id := (s.queries q).id
    match s.corr.check id woke with
    | .error _ => some (s.setPhase q .panicked)
    | .ok (some result, corr) =>
      some (s.leave q corr (.returned result)
        (((s.corr.pending.find id).bind Slot.response).map fun _ => s.source id))
    | .ok (none, corr) => some ({ s with corr }.setPhase q (.looping deadline))
  | _ => none

/-- A step of an exchange or of the reader. -/
inductive Act
  | register (q : Token) (wire : Bytes)
  | cancel (q : Token)
  | complete (buf : Bytes)
  | close
  | notifyOne (k : Nat)
  | awaitResponse (q : Token) (timeout : Duration)
  | poll (q : Token)
  | wake (q : Token)
  | expire (q : Token)
  | check (q : Token)

/-- What a step does to the session, if it can be taken. -/
def step (decode : HeaderDecoder) (now : Instant) (s : Session) : Act → Option Session
  | .register q wire => s.register q wire
  | .cancel q => s.cancel q
  | .complete buf => s.complete decode buf
  | .close => some s.close
  | .notifyOne k => s.notifyOne k
  | .awaitResponse q timeout => s.awaitResponse now q timeout
  | .poll q => s.poll q
  | .wake q => s.wake q
  | .expire q => s.expire now q
  | .check q => s.check q

/-! ## Slots and their queries -/

end Session

/-- The question a reply to the query has to carry; empty when its own has no
question that can be compared. -/
def Query.expected (q : Query) : Bytes := (questionBytes q.wire).getD []

namespace Session

/-- Every pending slot is the slot of one active query, its owner, and every
active query owns a slot. -/
structure Slots (s : Session) : Prop where
  pending {id : UInt16} {slot : Slot} : s.corr.pending.find id = some slot →
    (s.queries (s.owner id)).phase.isActive ∧ (s.queries (s.owner id)).id = id ∧
      (s.queries (s.owner id)).notify = slot.notify ∧ (s.queries (s.owner id)).expected = slot.expected
  active {q : Token} : (s.queries q).phase.isActive →
    s.owner (s.queries q).id = q ∧ ∃ slot, s.corr.pending.find (s.queries q).id = some slot

/-- The active query's slot is its own. -/
theorem Slots.slot_of {s : Session} (h : s.Slots) {q : Token} (hq : (s.queries q).phase.isActive) :
    ∃ slot, s.corr.pending.find (s.queries q).id = some slot ∧ s.owner (s.queries q).id = q ∧
      slot.notify = (s.queries q).notify ∧ slot.expected = (s.queries q).expected := by
  obtain ⟨ho, slot, hs⟩ := h.active hq
  obtain ⟨-, -, hn, he⟩ := h.pending hs
  rw [ho] at hn he
  exact ⟨slot, hs, ho, hn.symm, he.symm⟩

/-- A step that changes no slot: some active queries get on, and the handles
with them. -/
structure Moved (s t : Session) : Prop where
  corr : t.corr = s.corr
  datagrams : t.datagrams = s.datagrams
  owner : t.owner = s.owner
  source : t.source = s.source
  removals : t.removals = s.removals
  query (q : Token) : ∃ p, t.queries q = { s.queries q with phase := p } ∧
    (p = (s.queries q).phase ∨ ((s.queries q).phase.isActive ∧ p.isActive))

theorem Moved.of_setPhase {s t : Session} {q : Token} {p : Phase} (hc : t.corr = s.corr)
    (hd : t.datagrams = s.datagrams) (ho : t.owner = s.owner) (hs : t.source = s.source)
    (hr : t.removals = s.removals) (hq : t.queries = s.queries) (ha : (s.queries q).phase.isActive)
    (hp : p.isActive) : Moved s (t.setPhase q p) := by
  refine ⟨hc, hd, ho, hs, hr, fun q' => ?_⟩
  simp only [setPhase, hq]
  by_cases h : q' = q
  · subst h; exact ⟨p, by simp, .inr ⟨ha, hp⟩⟩
  · exact ⟨_, by simp [h], .inl rfl⟩

/-- Nothing but its phase changes of a query. -/
theorem Moved.kept {s t : Session} (h : Moved s t) (q : Token) :
    t.queries q = { s.queries q with phase := (t.queries q).phase } := by
  obtain ⟨p, hq, -⟩ := h.query q
  rw [hq]

theorem Moved.isActive {s t : Session} (h : Moved s t) (q : Token) :
    (t.queries q).phase.isActive = (s.queries q).phase.isActive := by
  obtain ⟨p, hq, rfl | ⟨h1, h2⟩⟩ := h.query q
  · rw [hq]
  · rw [hq, h1, h2]

/-- The phases of a query that is not active stay. -/
theorem Moved.phase_eq_iff {s t : Session} (h : Moved s t) {q : Token} {p : Phase} (hp : p.isActive = false) :
    (t.queries q).phase = p ↔ (s.queries q).phase = p := by
  obtain ⟨p', hq, rfl | ⟨h1, h2⟩⟩ := h.query q
  · rw [hq]
  · rw [hq]
    constructor <;> rintro rfl
    · rw [hp] at h2; cases h2
    · rw [hp] at h1; cases h1

section

variable {s : Session} {q q' : Token} {corr : Correlator} {phase : Phase} {source : Option Nat}

@[simp] theorem leave_self : (s.leave q corr phase source).queries q =
    { s.queries q with phase, removedAt := some s.datagrams.length, source } := Function.update_self ..

theorem leave_of_ne (h : q' ≠ q) : (s.leave q corr phase source).queries q' = s.queries q' :=
  Function.update_of_ne h ..

@[simp] theorem leave_corr : (s.leave q corr phase source).corr = corr := rfl
@[simp] theorem leave_datagrams : (s.leave q corr phase source).datagrams = s.datagrams := rfl
@[simp] theorem leave_owner : (s.leave q corr phase source).owner = s.owner := rfl
@[simp] theorem leave_removals :
    (s.leave q corr phase source).removals = (q, s.owner (s.queries q).id) :: s.removals := rfl

end

/-- What a waiter's turn, or a notification, does to the query and the handle. -/
inductive Turn (now : Instant) (s : Session) : Session → Prop
  | awaited {q : Token} (timeout : Duration) : (s.queries q).phase = .registered →
    Turn now s (s.setPhase q (.looping (now + timeout)))
  | took {q : Token} {deadline : Instant} : (s.queries q).phase = .looping deadline →
    (s.notifies (s.queries q).notify).permit = true →
    Turn now s ((s.setNotify (s.queries q).notify .new).setPhase q (.running deadline true))
  | parked {q : Token} {deadline : Instant} : (s.queries q).phase = .looping deadline →
    (s.notifies (s.queries q).notify).permit = false →
    Turn now s ((s.setNotify (s.queries q).notify
      (.waiting ((s.notifies (s.queries q).notify).queue ++ [q]))).setPhase q (.parked deadline))
  | woke {q : Token} {deadline : Instant} : (s.queries q).phase = .notified deadline →
    Turn now s (s.setPhase q (.running deadline true))
  | expired {q : Token} {deadline : Instant} : (s.queries q).phase = .parked deadline → deadline ≤ now →
    Turn now s ((s.setNotify (s.queries q).notify
      ((s.notifies (s.queries q).notify).leave q)).setPhase q (.running deadline false))
  /-- Nothing in the slot, the connection is open, and the deadline has not passed. -/
  | again {q : Token} {slot : Slot} {deadline : Instant} {woke : Bool} :
    (s.queries q).phase = .running deadline woke → s.corr.pending.find (s.queries q).id = some slot →
    Correlator.verdict slot s.corr.closed woke = none → Turn now s (s.setPhase q (.looping deadline))
  | permit {k : Nat} {h : Handle} : s.inHand[k]? = some h → (s.notifies h).queue = [] →
    Turn now s ({ s with inHand := s.inHand.eraseIdx k }.setNotify h .stored)
  | notified {k : Nat} {h : Handle} {q : Token} {queue : List Token} {deadline : Instant} :
    s.inHand[k]? = some h → (s.notifies h).queue = q :: queue → (s.queries q).phase = .parked deadline →
    Turn now s (({ s with inHand := s.inHand.eraseIdx k }.setNotify h (.waiting queue)).setPhase q
      (.notified deadline))
  /-- The first in the queue is not parked; it always is. -/
  | missed {k : Nat} {h : Handle} {q : Token} {queue : List Token} :
    s.inHand[k]? = some h → (s.notifies h).queue = q :: queue → (∀ deadline, (s.queries q).phase ≠ .parked deadline) →
    Turn now s ({ s with inHand := s.inHand.eraseIdx k }.setNotify h (.waiting queue))

/-- What a step does. -/
inductive Effect (decode : HeaderDecoder) (now : Instant) (s : Session) (a : Act) : Session → Prop
  | turn {t : Session} : Turn now s t → Effect decode now s a t
  | registered {q : Token} {wire : Bytes} {r : Correlator.Registered} {corr : Correlator} {slot : Slot} :
    a = .register q wire → (s.queries q).phase = .fresh → r.id ∉ s.corr.pending → txid r.wire = some r.id →
    s.corr.Pops r.notify corr.free corr.created → corr.closed = s.corr.closed →
    corr.pending = s.corr.pending.insert r.id slot → slot.notify = r.notify → slot.response = none →
    slot.expected = (questionBytes r.wire).getD [] →
    Effect decode now s a { s with
      corr
      queries := update s.queries q
        { id := r.id, notify := r.notify, wire := r.wire, phase := .registered,
          registeredAt := s.datagrams.length, removedAt := none, source := none }
      owner := update s.owner r.id q }
  | cancelled {q : Token} {slot : Slot} :
    (s.queries q).phase = .registered → s.corr.pending.find (s.queries q).id = some slot →
    Effect decode now s a (s.leave q (s.corr.recycle (s.queries q).id slot) .cancelled none)
  | returned {q : Token} {slot : Slot} {deadline : Instant} {woke : Bool} {result : Outcome} :
    (s.queries q).phase = .running deadline woke → s.corr.pending.find (s.queries q).id = some slot →
    Correlator.verdict slot s.corr.closed woke = some result →
    Effect decode now s a (s.leave q (s.corr.recycle (s.queries q).id slot) (.returned result)
      (slot.response.map fun _ => s.source (s.queries q).id))
  | ignored {buf : Bytes} :
    (∀ id slot, txid buf = some id → s.corr.pending.find id = some slot → answer decode buf slot.expected = none) →
    Effect decode now s a { s with datagrams := s.datagrams ++ [buf] }
  | stored {buf : Bytes} {id : UInt16} {slot : Slot} {response : Outcome} :
    txid buf = some id → s.corr.pending.find id = some slot → answer decode buf slot.expected = some response →
    Effect decode now s a { s with
      corr := { s.corr with pending := s.corr.pending.insert id { slot with response := some response } }
      inHand := slot.notify :: s.inHand
      datagrams := s.datagrams ++ [buf]
      source := update s.source id s.datagrams.length }
  | closed : Effect decode now s a s.close

theorem Turn.moved {now : Instant} {s t : Session} (h : Turn now s t) : Moved s t := by
  have same {t : Session} (hc : t.corr = s.corr) (hd : t.datagrams = s.datagrams) (ho : t.owner = s.owner)
      (hso : t.source = s.source) (hr : t.removals = s.removals) (hq : t.queries = s.queries) : Moved s t :=
    ⟨hc, hd, ho, hso, hr, fun q => ⟨(s.queries q).phase, by rw [hq], .inl rfl⟩⟩
  cases h with
  | permit | missed => exact same rfl rfl rfl rfl rfl rfl
  | awaited _ hph | took hph | parked hph | woke hph | expired hph | again hph | notified _ _ hph =>
    exact .of_setPhase rfl rfl rfl rfl rfl rfl (by rw [hph]; rfl) rfl

theorem register_effect {decode : HeaderDecoder} {now : Instant} {s t : Session} {q : Token} {wire : Bytes}
    (h : s.register q wire = some t) : Effect decode now s (.register q wire) t := by
  simp only [register] at h
  split at h <;> cases h
  rename_i r corr hf hr
  obtain ⟨hid, hw, hp, hc, slot, hi, hn, hresp, he⟩ := Correlator.register_spec hr
  exact .registered rfl hf hid hw hp hc hi hn hresp he

theorem cancel_effect {decode : HeaderDecoder} {now : Instant} {s t : Session} {a : Act} (hs : s.Slots) {q : Token}
    (h : s.cancel q = some t) : Effect decode now s a t := by
  simp only [cancel] at h
  split at h
  · rename_i hph
    obtain ⟨slot, hl, -⟩ := hs.slot_of (q := q) (by rw [hph]; rfl)
    simp only [hl, Correlator.cancel, Option.some.injEq] at h
    subst h
    exact .cancelled hph hl
  · cases h

theorem complete_effect {decode : HeaderDecoder} {now : Instant} {s t : Session} {a : Act} {buf : Bytes}
    (h : s.complete decode buf = some t) : Effect decode now s a t := by
  rcases Correlator.complete_spec decode s.corr buf with ⟨hc, hn⟩ | ⟨id, slot, response, hid, hl, ha, hc⟩
  · simp only [complete, hc, Option.some.injEq] at h
    subst h
    exact .ignored hn
  · simp only [complete, hc, hid, Option.some.injEq] at h
    subst h
    exact .stored hid hl ha

theorem check_effect {decode : HeaderDecoder} {now : Instant} {s t : Session} {a : Act} (hs : s.Slots) {q : Token}
    (h : s.check q = some t) : Effect decode now s a t := by
  simp only [check] at h
  split at h
  · rename_i deadline woke hph
    obtain ⟨slot, hl, -⟩ := hs.slot_of (q := q) (by rw [hph]; rfl)
    rw [Correlator.check_of_lookup hl] at h
    cases hv : Correlator.verdict slot s.corr.closed woke with
    | none =>
      simp only [hv, Option.some.injEq] at h
      subst h
      exact .turn (.again hph hl hv)
    | some result =>
      simp only [hv, hl, Option.bind_some, Option.some.injEq] at h
      subst h
      exact .returned hph hl hv
  · cases h

theorem notifyOne_turn {now : Instant} {s t : Session} {k : Nat} (h : s.notifyOne k = some t) : Turn now s t := by
  simp only [notifyOne] at h
  split at h
  · cases h
  · rename_i handle hk
    cases hq : (s.notifies handle).queue with
    | nil =>
      simp only [Notify.notifyOne_of_nil hq, Option.some.injEq] at h
      subst h
      exact .permit hk hq
    | cons q queue =>
      simp only [Notify.notifyOne_of_cons hq] at h
      split at h
      · rename_i deadline hph
        cases h
        exact .notified hk hq hph
      · rename_i hph
        cases h
        exact .missed hk hq hph

theorem awaitResponse_turn {now : Instant} {s t : Session} {q : Token} {timeout : Duration}
    (h : s.awaitResponse now q timeout = some t) : Turn now s t := by
  simp only [awaitResponse] at h
  split at h
  · rename_i hph
    cases h
    exact .awaited timeout hph
  · cases h

theorem poll_turn {now : Instant} {s t : Session} {q : Token} (h : s.poll q = some t) : Turn now s t := by
  simp only [poll] at h
  split at h
  · rename_i deadline hph
    cases hp : (s.notifies (s.queries q).notify).permit with
    | true =>
      simp only [Notify.notified_of_permit hp, if_true, Option.some.injEq] at h
      subst h
      exact .took hph hp
    | false =>
      simp only [Notify.notified_of_not_permit hp, Bool.false_eq_true, if_false, Option.some.injEq] at h
      subst h
      exact .parked hph hp
  · cases h

theorem wake_turn {now : Instant} {s t : Session} {q : Token} (h : s.wake q = some t) : Turn now s t := by
  simp only [wake] at h
  split at h
  · rename_i hph
    cases h
    exact .woke hph
  · cases h

theorem expire_turn {now : Instant} {s t : Session} {q : Token} (h : s.expire now q = some t) : Turn now s t := by
  simp only [expire] at h
  split at h
  · rename_i hph
    split at h
    · rename_i hd
      cases h
      exact .expired hph hd
    · cases h
  · cases h

/-- Every step has one of the effects. -/
theorem step_effect {decode : HeaderDecoder} {now : Instant} {s t : Session} (hs : s.Slots) {a : Act}
    (h : s.step decode now a = some t) : Effect decode now s a t := by
  cases a with
  | register q wire => exact register_effect h
  | cancel q => exact cancel_effect hs h
  | complete buf => exact complete_effect h
  | close => cases h; exact .closed
  | notifyOne k => exact .turn (notifyOne_turn h)
  | awaitResponse q timeout => exact .turn (awaitResponse_turn h)
  | poll q => exact .turn (poll_turn h)
  | wake q => exact .turn (wake_turn h)
  | expire q => exact .turn (expire_turn h)
  | check q => exact check_effect hs h

/-! ## The invariant -/

theorem Slots.new : (Session.new).Slots where
  pending h := by cases h
  active h := by cases h

theorem Slots.moved {s t : Session} (hs : s.Slots) (h : Moved s t) : t.Slots := by
  have rest (q : Token) : (t.queries q).id = (s.queries q).id ∧ (t.queries q).notify = (s.queries q).notify ∧
      (t.queries q).expected = (s.queries q).expected := by
    rw [h.kept q]
    exact ⟨rfl, rfl, rfl⟩
  constructor
  · intro id slot hl
    rw [h.corr] at hl
    obtain ⟨ha, hid, hn, he⟩ := hs.pending hl
    rw [h.owner, h.isActive, (rest _).1, (rest _).2.1, (rest _).2.2]
    exact ⟨ha, hid, hn, he⟩
  · intro q hq
    rw [h.isActive] at hq
    rw [h.owner, h.corr, (rest q).1]
    exact hs.active hq

theorem Slots.leave {s : Session} (hs : s.Slots) {q : Token} {slot : Slot} {phase : Phase} {source : Option Nat}
    (hq : (s.queries q).phase.isActive) (hp : phase.isActive = false) :
    (s.leave q (s.corr.recycle (s.queries q).id slot) phase source).Slots := by
  obtain ⟨ho, -⟩ := hs.active hq
  constructor
  · intro id slot' hl
    have hid : id ≠ (s.queries q).id := by
      rintro rfl
      rw [leave_corr, Correlator.find_recycle_self] at hl
      cases hl
    have hl : s.corr.pending.find id = some slot' := by
      rwa [leave_corr, Correlator.find_recycle_of_ne hid] at hl
    obtain ⟨ha, hid', hrest⟩ := hs.pending hl
    have hne : s.owner id ≠ q := by
      intro h
      rw [h] at hid'
      exact hid hid'.symm
    simp only [leave_owner, leave_of_ne hne]
    exact ⟨ha, hid', hrest⟩
  · intro q' hq'
    have hne : q' ≠ q := by
      rintro rfl
      simp only [leave_self, hp] at hq'
      cases hq'
    rw [leave_of_ne hne] at hq' ⊢
    obtain ⟨ho', hl'⟩ := hs.active hq'
    have hid : (s.queries q').id ≠ (s.queries q).id := by
      intro h
      rw [h, ho] at ho'
      exact hne ho'.symm
    rw [leave_owner, leave_corr, Correlator.find_recycle_of_ne hid]
    exact ⟨ho', hl'⟩

theorem Slots.effect {decode : HeaderDecoder} {now : Instant} {s t : Session} {a : Act} (hs : s.Slots)
    (h : Effect decode now s a t) : t.Slots := by
  cases h with
  | turn h => exact hs.moved h.moved
  | @registered q wire r corr slot _ hf hid _ _ _ hi hn _ he =>
    have hnone : s.corr.pending.find r.id = none := Pending.find_eq_none.mpr hid
    constructor
    · intro id slot' hl
      by_cases h : id = r.id
      · subst h
        rw [hi, Pending.find_insert, Option.some.injEq] at hl
        subst hl
        simp [Phase.isActive, Query.expected, hn, he]
      · rw [hi, Pending.find_insert_ne h] at hl
        obtain ⟨ha, hrest⟩ := hs.pending hl
        have hne : s.owner id ≠ q := by
          intro hq
          rw [hq, hf] at ha
          cases ha
        simp only [Function.update_of_ne h, Function.update_of_ne hne]
        exact ⟨ha, hrest⟩
    · intro q' hq'
      by_cases h : q' = q
      · subst h
        simp [hi]
      · simp only [Function.update_of_ne h] at hq' ⊢
        obtain ⟨ho, slot', hl⟩ := hs.active hq'
        have hne : (s.queries q').id ≠ r.id := by
          intro h'
          rw [h', hnone] at hl
          cases hl
        rw [Function.update_of_ne hne, hi, Pending.find_insert_ne hne]
        exact ⟨ho, slot', hl⟩
  | cancelled hph hl => exact hs.leave (by rw [hph]; rfl) rfl
  | returned hph hl hv => exact hs.leave (by rw [hph]; rfl) rfl
  | ignored _ => exact ⟨hs.pending, hs.active⟩
  | @stored buf id slot response _ hl _ =>
    constructor
    · intro id' slot' hl'
      by_cases h : id' = id
      · subst h
        rw [Pending.find_insert, Option.some.injEq] at hl'
        have hown := hs.pending hl
        subst hl'
        exact hown
      · rw [Pending.find_insert_ne h] at hl'
        exact hs.pending hl'
    · intro q hq
      obtain ⟨ho, slot', hl'⟩ := hs.active hq
      refine ⟨ho, ?_⟩
      by_cases h : (s.queries q).id = id
      · exact ⟨_, by rw [h, Pending.find_insert]⟩
      · exact ⟨slot', by rw [Pending.find_insert_ne h]; exact hl'⟩
  | closed => exact ⟨hs.pending, hs.active⟩

/-- The states a correlator that starts at `start` comes to. -/
def Reachable (decode : HeaderDecoder) (C : Clocked Session → Timed Act → Prop) (start : Instant)
    (t : Clocked Session) : Prop :=
  Reach (clocked (step decode)) C ⟨start, new⟩ t

/-- What every effect keeps, given `Slots`, holds in every reachable state. -/
theorem Reachable.inv {decode : HeaderDecoder} {C : Clocked Session → Timed Act → Prop} {start : Instant}
    {t : Clocked Session} {I : Session → Prop} (h : Reachable decode C start t) (h0 : I new)
    (hs : ∀ s a t, C s (.act a) → s.state.Slots → I s.state → Effect decode s.now s.state a t → I t) :
    t.state.Slots ∧ I t.state := by
  refine Lts.clocked_inv (I := fun (_ : Instant) (s : Session) => s.Slots ∧ I s) h ⟨.new, h0⟩ (fun _ _ _ _ hi => hi)
    fun s a u hC ha ⟨hsl, hi⟩ => ?_
  have he := step_effect hsl ha
  exact ⟨hsl.effect he, hs s a u hC hsl hi he⟩

theorem Reachable.slots {decode : HeaderDecoder} {C : Clocked Session → Timed Act → Prop} {start : Instant}
    {t : Clocked Session} (h : Reachable decode C start t) : t.state.Slots :=
  (h.inv (I := fun _ => True) trivial fun _ _ _ _ _ _ _ => trivial).1

/-! ## Returning -/

/-- The query can return `result` by steps of the kind `C`, without time passing. -/
def Returns (decode : HeaderDecoder) (C : Act → Prop) (now : Instant) (s : Session) (q : Token) (result : Outcome) :
    Prop :=
  ∃ t, Reach (clocked (step decode)) (fun _ a => ∃ b, a = .act b ∧ C b) ⟨now, s⟩ ⟨now, t⟩ ∧
    (t.queries q).phase = .returned result

theorem Returns.step {decode : HeaderDecoder} {C : Act → Prop} {now : Instant} {s t : Session} {q : Token}
    {result : Outcome} {a : Act} (ha : C a) (hs : s.step decode now a = some t)
    (h : Returns decode C now t q result) : Returns decode C now s q result := by
  obtain ⟨u, hu, hr⟩ := h
  refine ⟨u, (Lts.Reach.tail (.refl _) ⟨a, rfl, ha⟩ ?_).trans hu, hr⟩
  simp only [clocked, hs, Option.map_some]

end Session

end WireSurge.Dns
