import Mathlib.Tactic.Linarith
import WireSurge.Dns.Arrival
import WireSurge.Engine.Feeding

/-!
# The latency that is recorded

The clock of an exchange is started where the fill loop pushes it, and read where
`inflight.next()` gives its result. In between the actor may be suspended in
`next`, and polls no exchange. With a history of what happens to each exchange
(`Observed`), under a scheduler that runs every task that can run at once (`Eager`):
the value recorded for a reply is the time from the first poll of its exchange to
the arrival of the reply, and the time for which the exchange was held back by a
wait for a slot (`Reply.Accounted`).

So the latency is the query's own in every run in which no time passes while an
actor waits for a slot with exchanges in flight (`latency_own`); and the runs of a
plan with no room for a second query are such (`Reachable.unwaited`).
-/

namespace WireSurge.Engine

open Function (update)
open Lts (Clocked Timed clocked)
open WireSurge.Dns (Duration Instant Receiver Token Transport)
open WireSurge.Metrics (LoadRecorder)

/-! ## Tasks that can run -/

/-- The actor has its connection, and still takes results. -/
def Pc.isOpen : Pc → Bool
  | .filling | .gated _ _ _ | .filled | .selecting | .draining _ => true
  | .connecting | .closing | .done | .failed | .panicked => false

namespace Actor

variable {T : Transport}

/-- A poll of `inflight` gets on. -/
def hasReady (R : Receiver T) (before : Instant) (a : Actor T) : Bool :=
  a.inflight.any fun f => !f.polled || R.ready before a.conn f.token

/-- The actor can run before the time, or a task behind its connection can. -/
def canRun (R : Receiver T) (cancelled : Bool) (before : Instant) (a : Actor T) : Bool :=
  a.pc.isLive && R.busy a.conn ||
    match a.pc with
    | .connecting => cancelled
    | .filling | .filled => true
    | .gated _ scheduled _ => scheduled < before || cancelled
    | .selecting => cancelled || a.hasReady R before
    | .draining until_ => until_ < before || a.inflight.isEmpty || a.hasReady R before
    | .closing | .done | .failed | .panicked => false

end Actor

/-- The receiver of the transport of the run. -/
def LoadRun.receiver (run : LoadRun) : Receiver run.transport := run.plan.config.proto.receiver run.target

namespace Load

variable {run : LoadRun}

/-- An actor could go on before a time. -/
def canRun (before : Instant) (s : Load run) : Bool :=
  (List.finRange run.concurrency).any fun w => (s.actors w).canRun run.receiver s.cancelled before

/-- Every task that can run does so at once: time passes only while none can. -/
def Eager (s : Clocked (Load run)) : Timed (Act run) → Prop
  | .elapse dt => 0 < dt → s.state.canRun (s.now + dt) = false
  | .act _ => True

/-- No time passes while an actor waits in `next` with exchanges in flight. -/
def Unwaited (s : Clocked (Load run)) : Timed (Act run) → Prop
  | .elapse dt => 0 < dt → ∀ w, (s.state.actors w).pc.index?.isSome → (s.state.actors w).inflight = []
  | .act _ => True

instance (s : Clocked (Load run)) : (x : Timed (Act run)) → Decidable (Eager s x)
  | .elapse dt => inferInstanceAs (Decidable (0 < dt → s.state.canRun (s.now + dt) = false))
  | .act _ => inferInstanceAs (Decidable True)

instance (s : Clocked (Load run)) : (x : Timed (Act run)) → Decidable (Unwaited s x)
  | .elapse dt => inferInstanceAs (Decidable (0 < dt → ∀ w, _ → (s.state.actors w).inflight = []))
  | .act _ => inferInstanceAs (Decidable True)

/-- The exchange that an action polls for the first time. -/
def Act.hands : Act run → Option (run.Worker × Token)
  | .actor w (.poll tok) => some (w, tok)
  | _ => none

/-- The exchange whose result an action takes. -/
def Act.takes : Act run → Option (run.Worker × Token)
  | .actor w (.settle tok) => some (w, tok)
  | _ => none

theorem Act.hands_eq_some {x : Act run} {w : run.Worker} {tok : Token} :
    x.hands = some (w, tok) ↔ x = .actor w (.poll tok) := by
  refine ⟨fun h => ?_, fun h => by rw [h]; rfl⟩
  rw [hands.eq_def] at h
  split at h <;> cases h
  rfl

theorem Act.takes_eq_some {x : Act run} {w : run.Worker} {tok : Token} :
    x.takes = some (w, tok) ↔ x = .actor w (.settle tok) := by
  refine ⟨fun h => ?_, fun h => by rw [h]; rfl⟩
  rw [takes.eq_def] at h
  split at h <;> cases h
  rfl

end Load

/-! ## Histories -/

/-- What has happened to an exchange: its first poll and the arrival of its reply, how
long its actor was suspended in `next` meanwhile, and how long of that it had not been
polled, or had its reply. -/
structure Course where
  handed : Option Instant
  arrived : Option Instant
  suspended : Duration
  heldBack : Duration

namespace Course

/-- Nothing is known of the query yet. -/
def new : Course := ⟨none, none, 0, 0⟩

/-- The query is handed out now. -/
def hand (now : Instant) (c : Course) : Course := { c with handed := some now }

/-- The reply is there, or not. -/
def look (now : Instant) (answered : Bool) (c : Course) : Course :=
  if c.handed.isSome && c.arrived.isNone && answered then { c with arrived := some now } else c

/-- The actor is suspended for a time. -/
def suspend (dt : Duration) (c : Course) : Course :=
  { c with
    suspended := c.suspended + dt
    heldBack := if c.handed.isNone || c.arrived.isSome then c.heldBack + dt else c.heldBack }

/-- How long the transport has had the query, up to the reply. -/
def own (now : Instant) (c : Course) : Duration :=
  match c.handed with
  | none => 0
  | some handed => c.arrived.getD now - handed

end Course

/-- A reply with the time that was measured for it. -/
structure Reply (run : LoadRun) where
  worker : run.Worker
  elapsed : Duration
  course : Course

/-- A run with the history of its exchanges, and of the replies recorded. -/
structure Observed (run : LoadRun) where
  load : Clocked (Load run)
  courses : run.Worker → Token → Course
  replies : List (Reply run)

namespace Observed

variable {run : LoadRun}

/-- No query was handed out, and no reply has come. -/
def init (run : LoadRun) : Observed run where
  load := ⟨run.start, Load.init run⟩
  courses _ _ := .new
  replies := []

/-- An actor of the run. -/
def actor (s : Observed run) (w : run.Worker) : Actor run.transport := s.load.state.actors w

/-- The courses behind a step to `t`. -/
def nextCourse (s : Observed run) (t : Clocked (Load run)) (w : run.Worker) (tok : Token) :
    Timed (Load.Act run) → Course
  | .elapse dt =>
    if (s.actor w).pc.index?.isSome && ((s.actor w).flight? tok).isSome then (s.courses w tok).suspend dt
    else s.courses w tok
  | .act x =>
    (if x.hands = some (w, tok) then (s.courses w tok).hand t.now else s.courses w tok).look t.now
      (run.receiver.answered (t.state.actors w).conn tok)

/-- The reply that a step records. -/
def nextReply (s : Observed run) : Timed (Load.Act run) → Option (Reply run)
  | .elapse _ => none
  | .act x => do
    let (w, tok) ← x.takes
    let f ← (s.actor w).flight? tok
    let result ← run.transport.result (s.actor w).conn tok
    let _ ← result.toOption
    return ⟨w, s.load.now - f.started, s.courses w tok⟩

/-- A step of the run, with what is noted of it. -/
def step (s : Observed run) (x : Timed (Load.Act run)) : Option (Observed run) :=
  (clocked Load.step s.load x).map fun t =>
    { load := t
      courses := fun w tok => s.nextCourse t w tok x
      replies := (s.nextReply x).toList ++ s.replies }

/-- The states of the observed runs whose steps meet a condition. -/
def Reachable (C : Clocked (Load run) → Timed (Load.Act run) → Prop) (t : Observed run) : Prop :=
  Lts.Reach step (fun s => C s.load) (init run) t

end Observed

/-! ## The steps of an actor -/

namespace Actor

variable {T : Transport} {a b : Actor T} {now : Instant} {cap : Nat} {timeout : Duration} {cancelled : Bool}

/-- What a step that neither starts an exchange nor ends one leaves as it is. -/
structure Passes (now : Instant) (a b : Actor T) : Prop where
  inflight : b.inflight = a.inflight
  sent : b.recorder.sent = a.recorder.sent
  hist : b.recorder.hist = a.recorder.hist
  isOpen : b.pc.isOpen → a.pc.isOpen ∨ a.pc = .connecting
  conn : b.conn = a.conn ∨ (∃ tok r, T.resume now a.conn tok r = some b.conn) ∨
    ∃ e, T.react now a.conn e = some b.conn

theorem Passes.refl (a : Actor T) : Passes now a a := ⟨rfl, rfl, rfl, .inl, .inl rfl⟩

theorem passes_of_step {x : Act T} (h : a.step cap timeout cancelled now x = some b) (hpoll : ∀ tok, x ≠ .poll tok)
    (hsettle : ∀ tok, x ≠ .settle tok) : Passes now a b := by
  cases x with
  | poll tok => exact absurd rfl (hpoll tok)
  | settle tok => exact absurd rfl (hsettle tok)
  | connected =>
    simp only [step, Option.ite_none_right_eq_some, Option.some.injEq] at h
    obtain ⟨⟨hpc, -⟩, rfl⟩ := h
    exact ⟨rfl, rfl, rfl, fun _ => .inr hpc, .inl rfl⟩
  | connectFailed | connectCancelled | finish | panic =>
    simp only [step, Option.ite_none_right_eq_some, Option.some.injEq] at h
    obtain ⟨-, rfl⟩ := h
    exact ⟨rfl, rfl, rfl, fun hopen => (by cases hopen), .inl rfl⟩
  | guardFails | tick =>
    simp only [step, Option.ite_none_right_eq_some, Option.some.injEq] at h
    obtain ⟨⟨hpc, -⟩, rfl⟩ := h
    exact ⟨rfl, rfl, rfl, fun _ => .inl (by rw [hpc]; rfl), .inl rfl⟩
  | proceed =>
    simp only [step, Option.ite_none_right_eq_some, Option.some.injEq] at h
    obtain ⟨hpc, rfl⟩ := h
    exact ⟨rfl, rfl, rfl, fun _ => .inl (by rw [hpc]; rfl), .inl rfl⟩
  | cancelArm =>
    simp only [step, Option.ite_none_right_eq_some, Option.some.injEq] at h
    obtain ⟨⟨hpc, -⟩, rfl⟩ := h
    exact ⟨rfl, rfl, rfl, fun _ => .inl (by rw [hpc]; rfl), .inl rfl⟩
  | drainedAll | graceOver =>
    simp only [step] at h
    split at h
    · split at h <;> cases h
      exact ⟨rfl, rfl, rfl, fun hopen => (by cases hopen), .inl rfl⟩
    · cases h
  | resume tok r =>
    simp only [step, Option.ite_none_right_eq_some] at h
    obtain ⟨-, h⟩ := h
    split at h
    · split at h
      · obtain ⟨conn, hconn, rfl⟩ := Option.map_eq_some_iff.mp h
        exact ⟨rfl, rfl, rfl, .inl, .inr (.inl ⟨tok, r, hconn⟩)⟩
      · cases h
    · cases h
  | react e =>
    simp only [step, Option.ite_none_right_eq_some] at h
    obtain ⟨-, h⟩ := h
    obtain ⟨conn, hconn, rfl⟩ := Option.map_eq_some_iff.mp h
    exact ⟨rfl, rfl, rfl, .inl, .inr (.inr ⟨e, hconn⟩)⟩

theorem isOpen_of_awaits {pc : Pc} (h : pc.awaits) : pc.isOpen := by
  cases pc <;> first | rfl | cases h

theorem step_poll {tok : Token} (h : a.step cap timeout cancelled now (.poll tok) = some b) :
    ∃ f conn, a.pc.isOpen ∧ a.flight? tok = some f ∧ f.polled = false ∧
      T.start now timeout a.conn tok f.wire = some conn ∧
      b = { a with conn, inflight := a.inflight.map (markPolled tok) } := by
  simp only [step, Option.ite_none_right_eq_some] at h
  obtain ⟨hpc, h⟩ := h
  split at h
  · rename_i f hf
    split at h
    · cases h
    · rename_i hpolled
      obtain ⟨conn, hconn, rfl⟩ := Option.map_eq_some_iff.mp h
      exact ⟨f, conn, isOpen_of_awaits hpc, hf, Bool.eq_false_of_not_eq_true hpolled, hconn, rfl⟩
  · cases h

theorem step_settle {tok : Token} (h : a.step cap timeout cancelled now (.settle tok) = some b) :
    ∃ f result pc, a.pc.isOpen ∧ a.flight? tok = some f ∧ f.polled = true ∧ T.result a.conn tok = some result ∧
      b = a.settle now f result pc := by
  simp only [step] at h
  split at h
  · rename_i f result hf hresult
    split at h
    · rename_i hpolled
      split at h
      · rename_i hpc
        cases h
        exact ⟨f, result, _, by rw [hpc]; rfl, hf, hpolled, hresult, rfl⟩
      · rename_i hpc
        cases h
        exact ⟨f, result, _, by rw [hpc]; rfl, hf, hpolled, hresult, rfl⟩
      · cases h
    · cases h
  · cases h

end Actor

/-! ## The balance of an exchange -/

namespace Course

variable {now : Instant} {answered : Bool} {dt : Duration} {c : Course}

@[simp] theorem handed_look : (c.look now answered).handed = c.handed := by rw [look]; split <;> rfl
@[simp] theorem suspended_look : (c.look now answered).suspended = c.suspended := by rw [look]; split <;> rfl
@[simp] theorem heldBack_look : (c.look now answered).heldBack = c.heldBack := by rw [look]; split <;> rfl

theorem isSome_arrived_look :
    (c.look now answered).arrived.isSome ↔ c.arrived.isSome ∨ c.handed.isSome ∧ answered = true := by
  rw [look]
  split
  · rename_i h
    simp only [Bool.and_eq_true] at h
    simp [h.1.1, h.2]
  · rename_i h
    simp only [Bool.and_eq_true, Option.isNone_iff_eq_none] at h
    by_cases harrived : c.arrived = none
    · simp only [harrived, Option.isSome_none, Bool.false_eq_true, false_or, false_iff]
      exact fun ⟨hhanded, ha⟩ => h ⟨⟨hhanded, harrived⟩, ha⟩
    · simp [Option.isSome_iff_ne_none.mpr harrived]

/-- What is noted of a reply is the time of the look. -/
theorem own_look : (c.look now answered).own now = c.own now := by
  rw [look]
  split
  · rename_i h
    simp only [Bool.and_eq_true, Option.isNone_iff_eq_none] at h
    simp only [own, h.1.2, Option.getD_none, Option.getD_some]
  · rfl

theorem look_new : Course.new.look now answered = .new := rfl

end Course

/-- What the history of an exchange says of its clock. -/
structure Booked (now : Instant) (f : Flight) (c : Course) : Prop where
  polled : f.polled = c.handed.isSome
  arrived : c.arrived.isSome → c.handed.isSome
  balance : now - f.started = c.own now + c.heldBack
  heldBack : 0 ≤ c.heldBack ∧ c.heldBack ≤ c.suspended

namespace Booked

variable {now : Instant} {dt : Duration} {f : Flight} {c : Course}

theorem look (h : Booked now f c) (answered : Bool) : Booked now f (c.look now answered) where
  polled := by rw [Course.handed_look]; exact h.polled
  arrived ha := by
    rw [Course.handed_look]
    rcases Course.isSome_arrived_look.mp ha with ha | ⟨hhanded, -⟩
    · exact h.arrived ha
    · exact hhanded
  balance := by rw [Course.own_look, Course.heldBack_look]; exact h.balance
  heldBack := by rw [Course.heldBack_look, Course.suspended_look]; exact h.heldBack

/-- A query is handed over as late as it was held back. -/
theorem hand (h : Booked now f c) (hpolled : f.polled = false) :
    Booked now { f with polled := true } (c.hand now) := by
  have hnone : c.handed = none := by
    rw [h.polled, Option.isSome_eq_false_iff, Option.isNone_iff_eq_none] at hpolled
    exact hpolled
  have harrived : c.arrived = none := by
    by_contra hne
    have := h.arrived (Option.isSome_iff_ne_none.mpr hne)
    rw [hnone] at this
    cases this
  have hbalance := h.balance
  simp only [Course.own, hnone, zero_add] at hbalance
  refine ⟨rfl, fun _ => rfl, ?_, h.heldBack⟩
  simp only [Course.own, Course.hand, harrived, Option.getD_none, sub_self, zero_add]
  exact hbalance

/-- The actor is suspended for a time: a query not handed over, and one with its
reply, are held back, another one is with its transport. -/
theorem suspend (h : Booked now f c) (hdt : 0 ≤ dt) : Booked (now + dt) f (c.suspend dt) := by
  have hbalance := h.balance
  have hle := h.heldBack
  refine ⟨h.polled, h.arrived, ?_, ?_⟩
  · simp only [Course.own, Course.suspend] at hbalance ⊢
    cases hhanded : c.handed with
    | none =>
      simp only [hhanded, Option.isNone_none, Bool.true_or, if_true] at hbalance ⊢
      linarith
    | some handed =>
      cases harrived : c.arrived with
      | none =>
        simp only [hhanded, harrived, Option.getD_none, Option.isNone_some, Option.isSome_none, Bool.or_self,
          Bool.false_eq_true, if_false] at hbalance ⊢
        linarith
      | some arrived =>
        simp only [hhanded, harrived, Option.getD_some, Option.isNone_some, Option.isSome_some, Bool.or_true,
          if_true] at hbalance ⊢
        linarith
  · simp only [Course.suspend]
    split
    · exact ⟨by linarith, by linarith⟩
    · exact ⟨hle.1, by linarith⟩

/-- Time passes for a query that is with its transport. -/
theorem elapse (h : Booked now f c) (hpolled : f.polled = true) (harrived : c.arrived = none) :
    Booked (now + dt) f c := by
  have hbalance := h.balance
  refine ⟨h.polled, h.arrived, ?_, h.heldBack⟩
  rw [h.polled] at hpolled
  obtain ⟨handed, hhanded⟩ := Option.isSome_iff_exists.mp hpolled
  simp only [Course.own, hhanded, harrived, Option.getD_none] at hbalance ⊢
  linarith

end Booked

namespace Actor

variable {T : Transport} {R : Receiver T} {a b : Actor T} {now : Instant} {courses : Token → Course}

@[simp] theorem token_markPolled (tok : Token) (f : Flight) : (markPolled tok f).token = f.token := by
  rw [markPolled]
  split <;> rfl

/-- An actor that is open and waits for no slot runs, unless it awaits its exchanges,
has polled all of them, and no further poll gets on. -/
theorem polled_of_idle {cancelled : Bool} {before : Instant} (h : a.canRun R cancelled before = false)
    (hopen : a.pc.isOpen) (hgate : a.pc.index? = none) :
    R.busy a.conn = false ∧ ∀ f ∈ a.inflight, f.polled = true ∧ R.ready before a.conn f.token = false := by
  have hready (hidle : a.hasReady R before = false) :
      ∀ f ∈ a.inflight, f.polled = true ∧ R.ready before a.conn f.token = false := fun f hf => by
    rw [hasReady, List.any_eq_false] at hidle
    simpa using hidle f hf
  rw [canRun, Bool.or_eq_false_iff] at h
  obtain ⟨hbusy, hidle⟩ := h
  cases hpc : a.pc with
  | filling | filled => simp [hpc] at hidle
  | gated => simp [hpc, Pc.index?] at hgate
  | selecting =>
    simp only [hpc, Pc.isLive, Bool.true_and, Bool.or_eq_false_iff] at hbusy hidle
    exact ⟨hbusy, hready hidle.2⟩
  | draining =>
    simp only [hpc, Pc.isLive, Bool.true_and, Bool.or_eq_false_iff] at hbusy hidle
    exact ⟨hbusy, hready hidle.2⟩
  | connecting | closing | done | failed | panicked => simp [hpc, Pc.isOpen] at hopen

/-- The histories of the exchanges of an actor. -/
structure Balanced (R : Receiver T) (now : Instant) (a : Actor T) (courses : Token → Course) : Prop where
  inv : R.Inv a.conn
  fresh {tok : Token} : a.recorder.sent ≤ tok → courses tok = .new
  nodup : (a.inflight.map Flight.token).Nodup
  token_lt : ∀ f ∈ a.inflight, f.token < a.recorder.sent
  booked : a.pc.isOpen → ∀ f ∈ a.inflight, Booked now f (courses f.token)
  /-- What has come has been seen. -/
  seen : a.pc.isOpen → ∀ f ∈ a.inflight,
    ((courses f.token).arrived.isSome ↔ (courses f.token).handed.isSome ∧ R.answered a.conn f.token = true)

/-- A look at an exchange whose reply, if it has been seen, is still there. -/
theorem seen_look {f : Flight} {c : Course} {answered : Bool} (h : Booked now f c)
    (harrived : c.arrived.isSome → answered = true) :
    (c.look now answered).arrived.isSome ↔ (c.look now answered).handed.isSome ∧ answered = true := by
  rw [Course.isSome_arrived_look, Course.handed_look]
  exact ⟨fun hc => hc.elim (fun ha => ⟨h.arrived ha, harrived ha⟩) id, .inr⟩

namespace Balanced

theorem new (R : Receiver T) (now : Instant) (progress : Bool) : Balanced R now (.new T progress) fun _ => .new where
  inv := R.connect
  fresh _ := rfl
  nodup := List.nodup_nil
  token_lt _ h := by cases h
  booked h := by cases h
  seen h := by cases h

theorem passes (h : Balanced R now a courses) (hp : Passes now a b) (hc : a.pc = .connecting → a.inflight = []) :
    Balanced R now b fun tok => (courses tok).look now (R.answered b.conn tok) := by
  obtain ⟨hinv, hkept⟩ : R.Inv b.conn ∧ ∀ q, R.answered a.conn q → R.answered b.conn q := by
    rcases hp.conn with hsame | ⟨tok, r, hresume⟩ | ⟨e, hreact⟩
    · rw [hsame]
      exact ⟨h.inv, fun _ => id⟩
    · exact R.resume h.inv hresume
    · exact R.react h.inv hreact
  have hopen {f : Flight} (hb : b.pc.isOpen) (hf : f ∈ b.inflight) : a.pc.isOpen ∧ f ∈ a.inflight := by
    rw [hp.inflight] at hf
    rcases hp.isOpen hb with ha | ha
    · exact ⟨ha, hf⟩
    · rw [hc ha] at hf
      cases hf
  refine ⟨hinv, fun htok => ?_, ?_, ?_, fun hb f hf => ?_, fun hb f hf => ?_⟩
  · rw [hp.sent] at htok
    rw [h.fresh htok, Course.look_new]
  · rw [hp.inflight]
    exact h.nodup
  · rw [hp.inflight, hp.sent]
    exact h.token_lt
  · obtain ⟨ha, hf⟩ := hopen hb hf
    exact (h.booked ha f hf).look _
  · obtain ⟨ha, hf⟩ := hopen hb hf
    exact seen_look (h.booked ha f hf) fun harrived => hkept _ ((h.seen ha f hf).mp harrived).2

/-- The clock of an exchange is started where it is pushed. -/
theorem push (h : Balanced R now a courses) (ha : a.pc.isOpen) (index : Nat) (wire : Dns.Bytes) :
    Balanced R now (a.pushExchange now index wire) fun tok => (courses tok).look now (R.answered a.conn tok) := by
  have hnew : courses a.recorder.sent = .new := h.fresh le_rfl
  refine ⟨h.inv, fun htok => ?_, ?_, fun f hf => ?_, fun _ f hf => ?_, fun _ f hf => ?_⟩
  · rw [h.fresh (Nat.le_of_succ_le htok), Course.look_new]
  · simp only [pushExchange, List.map_append, List.map_cons, List.map_nil]
    refine List.nodup_append.mpr ⟨h.nodup, List.nodup_singleton _, fun tok htok tok' htok' => ?_⟩
    obtain ⟨f, hf, rfl⟩ := List.mem_map.mp htok
    rw [List.mem_singleton.mp htok']
    exact (h.token_lt f hf).ne
  · rcases List.mem_append.mp hf with hf | hf
    · exact (h.token_lt f hf).trans (Nat.lt_succ_self _)
    · rw [List.mem_singleton.mp hf]
      exact Nat.lt_succ_self _
  · rcases List.mem_append.mp hf with hf | hf
    · exact (h.booked ha f hf).look _
    · rw [List.mem_singleton.mp hf, hnew, Course.look_new]
      exact ⟨rfl, fun harrived => (by cases harrived), by simp [Course.own, Course.new], le_rfl, le_rfl⟩
  · rcases List.mem_append.mp hf with hf | hf
    · exact seen_look (h.booked ha f hf) fun harrived => ((h.seen ha f hf).mp harrived).2
    · rw [List.mem_singleton.mp hf, hnew, Course.look_new]
      simp [Course.new]

/-- An exchange is polled for the first time. -/
theorem poll (h : Balanced R now a courses) {tok : Token} {f : Flight} {timeout : Duration} {conn : T.Conn}
    (ha : a.pc.isOpen) (hf : a.flight? tok = some f) (hpolled : f.polled = false)
    (hstart : T.start now timeout a.conn tok f.wire = some conn) :
    Balanced R now { a with conn, inflight := a.inflight.map (markPolled tok) } fun tok' =>
      (if tok' = tok then (courses tok').hand now else courses tok').look now (R.answered conn tok') := by
  obtain ⟨hinv, hkept⟩ := R.start h.inv hstart
  have hmem : f ∈ a.inflight := List.mem_of_find?_eq_some hf
  obtain rfl := token_of_flight hf
  have hflight {g : Flight} (hg : g ∈ a.inflight.map (markPolled f.token)) : ∃ g' ∈ a.inflight,
      g'.token = g.token ∧
        Booked now g (if g.token = f.token then (courses g.token).hand now else courses g.token) := by
    obtain ⟨g', hg', rfl⟩ := List.mem_map.mp hg
    refine ⟨g', hg', (token_markPolled ..).symm, ?_⟩
    by_cases htok : g'.token = f.token
    · obtain rfl := List.inj_on_of_nodup_map h.nodup hg' hmem htok
      simp only [markPolled, if_true]
      exact (h.booked ha g' hmem).hand hpolled
    · simp only [markPolled, htok, if_false]
      exact h.booked ha g' hg'
  have harrived (tok : Token) : (if tok = f.token then (courses tok).hand now else courses tok).arrived =
      (courses tok).arrived := by
    split <;> rfl
  refine ⟨hinv, fun {tok} htok => ?_, ?_, fun g hg => ?_, fun _ g hg => ?_, fun _ g hg => ?_⟩
  · have hne : tok ≠ f.token := (lt_of_lt_of_le (h.token_lt f hmem) htok).ne'
    rw [if_neg hne, h.fresh htok, Course.look_new]
  · rw [List.map_map]
    refine (congrArg List.Nodup (List.map_congr_left fun g _ => ?_)).mpr h.nodup
    exact token_markPolled ..
  · obtain ⟨g', hg', htok, -⟩ := hflight hg
    rw [← htok]
    exact h.token_lt g' hg'
  · obtain ⟨g', hg', htok, hbooked⟩ := hflight hg
    exact hbooked.look _
  · obtain ⟨g', hg', htok, hbooked⟩ := hflight hg
    refine seen_look hbooked fun hsome => hkept _ ?_
    rw [harrived, ← htok] at hsome
    rw [← htok]
    exact ((h.seen ha g' hg').mp hsome).2

/-- An exchange is over. -/
theorem settle (h : Balanced R now a courses) (ha : a.pc.isOpen) (f : Flight) (result : Dns.Outcome) (pc : Pc) :
    Balanced R now (a.settle now f result pc) fun tok => (courses tok).look now (R.answered a.conn tok) := by
  have hmem {g : Flight} (hg : g ∈ (a.settle now f result pc).inflight) : g ∈ a.inflight := List.mem_of_mem_eraseP hg
  refine ⟨h.inv, fun htok => ?_, ?_, fun g hg => ?_, fun _ g hg => ?_, fun _ g hg => ?_⟩
  · rw [Actor.settle, LoadRecorder.sent_record] at htok
    rw [h.fresh htok, Course.look_new]
  · exact h.nodup.sublist (List.eraseP_sublist.map _)
  · rw [Actor.settle, LoadRecorder.sent_record]
    exact h.token_lt g (hmem hg)
  · exact (h.booked ha g (hmem hg)).look _
  · exact seen_look (h.booked ha g (hmem hg)) fun harrived => ((h.seen ha g (hmem hg)).mp harrived).2

/-- Time passes. -/
theorem elapse (h : Balanced R now a courses) (cancelled : Bool) {dt : Duration} (hdt : 0 ≤ dt)
    (hidle : 0 < dt → a.canRun R cancelled (now + dt) = false) :
    Balanced R (now + dt) a fun tok =>
      if a.pc.index?.isSome && (a.flight? tok).isSome then (courses tok).suspend dt else courses tok := by
  have hflight {f : Flight} (hf : f ∈ a.inflight) : (a.flight? f.token).isSome := by
    rw [flight?, List.find?_isSome]
    exact ⟨f, hf, by simp⟩
  refine ⟨h.inv, fun {tok} htok => ?_, h.nodup, h.token_lt, fun ha f hf => ?_, fun ha f hf => ?_⟩
  · have hnone : a.flight? tok = none := by
      rw [flight?, List.find?_eq_none]
      exact fun f hf => by simpa using (lt_of_lt_of_le (h.token_lt f hf) htok).ne
    simp only [hnone, Option.isSome_none, Bool.and_false, Bool.false_eq_true, if_false]
    exact h.fresh htok
  · simp only [hflight hf, Bool.and_true]
    split
    · exact (h.booked ha f hf).suspend hdt
    · rename_i hgate
      rcases hdt.eq_or_lt with rfl | hpos
      · rw [add_zero]
        exact h.booked ha f hf
      · obtain ⟨hbusy, hpolled⟩ := polled_of_idle (hidle hpos) ha (Option.not_isSome_iff_eq_none.mp hgate)
        refine (h.booked ha f hf).elapse (hpolled f hf).1 ?_
        by_contra hne
        -- a reply that is there would be taken at once
        have hanswered := ((h.seen ha f hf).mp (Option.isSome_iff_ne_none.mpr hne)).2
        rcases R.ready_of_answered h.inv hanswered (now + dt) with hready | hbusy'
        · rw [(hpolled f hf).2] at hready
          cases hready
        · rw [hbusy] at hbusy'
          cases hbusy'
  · have hseen := h.seen ha f hf
    split <;> exact hseen

/-- The clock of an exchange that returns a reply. -/
theorem clock_eq (h : Balanced R now a courses) (ha : a.pc.isOpen) {f : Flight} (hf : f ∈ a.inflight)
    (hpolled : f.polled = true) {response : Dns.DnsResponse}
    (hresult : T.result a.conn f.token = some (.ok response)) :
    ∃ handed arrived, (courses f.token).handed = some handed ∧ (courses f.token).arrived = some arrived ∧
      now - f.started = arrived - handed + (courses f.token).heldBack := by
  have hbooked := h.booked ha f hf
  rw [hbooked.polled] at hpolled
  have harrived := (h.seen ha f hf).mpr ⟨hpolled, R.answered_of_ok h.inv hresult⟩
  obtain ⟨handed, hhanded⟩ := Option.isSome_iff_exists.mp hpolled
  obtain ⟨arrived, harrived⟩ := Option.isSome_iff_exists.mp harrived
  have hbalance := hbooked.balance
  simp only [Course.own, hhanded, harrived, Option.getD_some] at hbalance
  exact ⟨handed, arrived, hhanded, harrived, hbalance⟩

end Balanced

end Actor

/-! ## Runs -/

namespace Load

variable {run : LoadRun} {s u : Load run} {now : Instant} {x : Act run}

/-- What a step of the run does to the exchanges of one worker. -/
inductive Turned (now : Instant) (s u : Load run) (x : Act run) (w : run.Worker) : Prop
  | passed : Actor.Passes now (s.actors w) (u.actors w) → (∀ tok, x.hands ≠ some (w, tok)) →
    (∀ tok, x.takes ≠ some (w, tok)) → Turned now s u x w
  | pushed {index : Nat} {wire : Dns.Bytes} : (s.actors w).pc.isOpen →
    u.actors w = (s.actors w).pushExchange now index wire → (∀ tok, x.hands ≠ some (w, tok)) →
    (∀ tok, x.takes ≠ some (w, tok)) → Turned now s u x w
  | polled {tok : Token} : x = .actor w (.poll tok) →
    (s.actors w).step run.cap run.timeout s.cancelled now (.poll tok) = some (u.actors w) → Turned now s u x w
  | settled {tok : Token} : x = .actor w (.settle tok) →
    (s.actors w).step run.cap run.timeout s.cancelled now (.settle tok) = some (u.actors w) → Turned now s u x w

theorem turned_of_step (h : s.step now x = some u) (w : run.Worker) : Turned now s u x w := by
  -- a worker other than the one whose step it is stays as it is
  have hother {w' : run.Worker} {a : Actor run.transport} (hu : u.actors = update s.actors w' a) (hw : w ≠ w') :
      Actor.Passes now (s.actors w) (u.actors w) := by
    rw [hu, Function.update_of_ne hw]
    exact Actor.Passes.refl _
  have hpass {w' : run.Worker} {a : Actor run.transport} (hu : u.actors = update s.actors w' a)
      (hpassed : Actor.Passes now (s.actors w') a) : Actor.Passes now (s.actors w) (u.actors w) := by
    by_cases hw : w = w'
    · subst hw
      rwa [hu, Function.update_self]
    · exact hother hu hw
  have hmoved {w' : run.Worker} {a : Actor run.transport} (hu : u.actors = update s.actors w' a)
      (hopen : (s.actors w').pc.isOpen) (hi : a.inflight = (s.actors w').inflight)
      (hr : a.recorder = (s.actors w').recorder) (hc : a.conn = (s.actors w').conn) :
      Actor.Passes now (s.actors w) (u.actors w) :=
    hpass hu ⟨hi, by rw [hr], by rw [hr], fun _ => .inl hopen, .inl hc⟩
  have hpush {w' : run.Worker} {index : Nat} {wire : Dns.Bytes} (hopen : (s.actors w').pc.isOpen)
      (hu : u.actors = update s.actors w' ((s.actors w').pushExchange now index wire))
      (hhands : ∀ tok, x.hands ≠ some (w, tok)) (htakes : ∀ tok, x.takes ≠ some (w, tok)) : Turned now s u x w := by
    by_cases hw : w = w'
    · subst hw
      exact .pushed hopen (by rw [hu, Function.update_self]) hhands htakes
    · exact .passed (hother hu hw) hhands htakes
  cases effect_of_step h with
  | cancel => exact .passed (Actor.Passes.refl _) nofun nofun
  | refused hpc => exact .passed (hmoved rfl (by rw [hpc]; rfl) rfl rfl rfl) nofun nofun
  | waits hpc => exact .passed (hmoved rfl (by rw [hpc]; rfl) rfl rfl rfl) nofun nofun
  | ready hpc _ _ hr => exact hpush (by rw [hpc]; rfl) (by rw [hr.eq]; rfl) nofun nofun
  | opens hpc _ _ hr => exact hpush (by rw [hpc]; rfl) (by rw [hr.eq]; rfl) nofun nofun
  | given hpc _ hx =>
    have hpassed : Actor.Passes now (s.actors w) _ := hmoved rfl (by rw [hpc]; rfl) rfl rfl rfl
    rcases hx with rfl | rfl <;> exact .passed hpassed nofun nofun
  | @actor w' y b =>
    have hactors : (s.setActor w' b).actors = update s.actors w' b := rfl
    have hb : (s.actors w').step run.cap run.timeout s.cancelled now y = some b := by
      obtain ⟨a, ha, heq⟩ := Option.map_eq_some_iff.mp h
      have hsame := congrArg (fun s => s.actors w') heq
      simp only [setActor_actors] at hsame
      rw [ha, hsame]
    by_cases hpoll : ∃ tok, y = .poll tok
    · obtain ⟨tok, rfl⟩ := hpoll
      by_cases hw : w = w'
      · subst hw
        exact .polled rfl (by rw [hactors, Function.update_self]; exact hb)
      · exact .passed (hother hactors hw) (fun _ heq => hw (by cases heq; rfl)) nofun
    · by_cases hsettle : ∃ tok, y = .settle tok
      · obtain ⟨tok, rfl⟩ := hsettle
        by_cases hw : w = w'
        · subst hw
          exact .settled rfl (by rw [hactors, Function.update_self]; exact hb)
        · exact .passed (hother hactors hw) nofun fun _ heq => hw (by cases heq; rfl)
      · simp only [not_exists] at hpoll hsettle
        refine .passed (hpass hactors (Actor.passes_of_step hb hpoll hsettle)) (fun tok heq => ?_) fun tok heq => ?_
        · cases Act.hands_eq_some.mp heq
          exact hpoll tok rfl
        · cases Act.takes_eq_some.mp heq
          exact hsettle tok rfl

/-- Where the plan has no room in the window, or no slot, for a second query, an actor
that waits while time passes has no exchange in flight. -/
theorem Reachable.unwaited {C : Clocked (Load run) → Timed (Act run) → Prop} {t : Clocked (Load run)}
    (h : Reachable C t) {gate : RateGate} (hg : run.work.gate = some gate)
    (hplan : run.cap ≤ 1 ∨ (∃ n, run.plan.config.count = some n ∧ n ≤ 1) ∨
      (gate.slotSecs 1).ge (run.work.budgetSecs gate) = true)
    {x : Timed (Act run)} (hx : Eager t x) : Unwaited t x := by
  cases x with
  | act x => trivial
  | elapse dt =>
    intro hpos w hgate
    have hidle : (t.state.actors w).canRun run.receiver t.state.cancelled (t.now + dt) = false :=
      Bool.eq_false_of_not_eq_true (List.any_eq_false.mp (hx hpos) w (List.mem_finRange w))
    cases hpc : (t.state.actors w).pc with
    | gated index scheduled called =>
      rcases hplan with hcap | hplan
      · -- a call that waits has its place in the window
        have hroom := (h.conserved w).gated hpc
        exact List.length_eq_zero_iff.mp (by omega)
      · -- the slot came with the start of the run, so the actor can run
        have hslot := scheduled_eq_start hg hplan (h.called.gated w hpc)
        have hlt : scheduled < t.now + dt := by
          rw [hslot]
          exact h.start_le.trans_lt (lt_add_of_pos_right _ hpos)
        simp [Actor.canRun, hpc, hlt] at hidle
    | _ =>
      rw [hpc] at hgate
      cases hgate

end Load

/-- What was measured is the time from the first poll of the exchange to its reply, and
the time for which it was held back. -/
def Reply.Accounted {run : LoadRun} (r : Reply run) : Prop :=
  (0 ≤ r.course.heldBack ∧ r.course.heldBack ≤ r.course.suspended) ∧
    ∃ handed arrived, r.course.handed = some handed ∧ r.course.arrived = some arrived ∧
      r.elapsed = arrived - handed + r.course.heldBack

/-- What the histogram has of it. -/
def Reply.value {run : LoadRun} (r : Reply run) : Nat := min (max (Actor.micros r.elapsed) 1) LoadRecorder.histMax

namespace Observed

variable {run : LoadRun} {s v : Observed run} {x : Timed (Load.Act run)}
variable {C : Clocked (Load run) → Timed (Load.Act run) → Prop}

/-- The values of the replies of a worker. -/
def values (s : Observed run) (w : run.Worker) : Multiset Nat :=
  ((s.replies.filter fun r => r.worker = w).map Reply.value : List Nat)

theorem step_cases (h : s.step x = some v) : ∃ t, clocked Load.step s.load x = some t ∧
    v = { load := t
          courses := fun w tok => s.nextCourse t w tok x
          replies := (s.nextReply x).toList ++ s.replies } := by
  obtain ⟨t, ht, rfl⟩ := Option.map_eq_some_iff.mp h
  exact ⟨t, ht, rfl⟩

/-- A reply is that of a worker who takes it. -/
theorem takes_of_nextReply {x : Load.Act run} {r : Reply run} (h : s.nextReply (.act x) = some r) :
    ∃ tok, x.takes = some (r.worker, tok) := by
  simp only [nextReply, Option.bind_eq_bind, Option.bind_eq_some_iff] at h
  obtain ⟨⟨w, tok⟩, htakes, f, -, result, -, response, -, h⟩ := h
  cases h
  exact ⟨tok, htakes⟩

theorem nextReply_settle {w : run.Worker} {tok : Token} {f : Flight} {result : Dns.Outcome}
    (hf : (s.actor w).flight? tok = some f) (hresult : run.transport.result (s.actor w).conn tok = some result) :
    s.nextReply (.act (.actor w (.settle tok))) =
      result.toOption.map fun _ => ⟨w, s.load.now - f.started, s.courses w tok⟩ := by
  simp only [nextReply, Load.Act.takes, Option.bind_eq_bind, Option.bind_some, hf, hresult]
  cases result <;> rfl

/-- The history is sound, and the histograms are those of the replies. -/
structure Sound (s : Observed run) : Prop where
  conserved (w : run.Worker) : Conserved run.cap s.load.state.cancelled (s.actor w)
  balanced (w : run.Worker) : (s.actor w).Balanced run.receiver s.load.now (s.courses w)
  accounted : ∀ r ∈ s.replies, r.Accounted
  hist (w : run.Worker) : (s.actor w).recorder.hist = s.values w

namespace Sound

theorem init (run : LoadRun) : Sound (init run) where
  conserved _ := .new _ _ _
  balanced _ := .new _ _ _
  accounted _ h := by cases h
  hist _ := rfl

theorem elapse {dt : Duration} (h : Sound s) (hC : Load.Eager s.load (.elapse dt))
    (hs : s.step (.elapse dt) = some v) : Sound v := by
  obtain ⟨t, ht, rfl⟩ := step_cases hs
  obtain ⟨hdt, rfl⟩ := Lts.clocked_elapse.mp ht
  refine ⟨h.conserved, fun w => ?_, h.accounted, h.hist⟩
  refine (h.balanced w).elapse s.load.state.cancelled hdt fun hpos => ?_
  have hidle := hC hpos
  rw [Load.canRun, List.any_eq_false] at hidle
  exact Bool.eq_false_of_not_eq_true (hidle w (List.mem_finRange w))

/-- The histories behind a step. -/
theorem balanced_act (h : Sound s) {x : Load.Act run} {u : Load run} (hu : s.load.state.step s.load.now x = some u)
    (w : run.Worker) : (u.actors w).Balanced run.receiver s.load.now fun tok =>
      s.nextCourse ⟨s.load.now, u⟩ w tok (.act x) := by
  have hlook (hhands : ∀ tok, x.hands ≠ some (w, tok)) : (fun tok => s.nextCourse ⟨s.load.now, u⟩ w tok (.act x)) =
      fun tok => (s.courses w tok).look s.load.now (run.receiver.answered (u.actors w).conn tok) := by
    funext tok
    simp only [nextCourse, hhands tok, if_false]
  have hb := h.balanced w
  cases Load.turned_of_step hu w with
  | passed hp hhands =>
    rw [hlook hhands]
    exact hb.passes hp fun hpc => ((h.conserved w).connecting hpc).2
  | @pushed index wire hopen heq hhands =>
    rw [hlook hhands, heq]
    exact hb.push hopen index wire
  | @polled tok hx hstep =>
    obtain ⟨f, conn, hopen, hf, hpolled, hstart, heq⟩ := Actor.step_poll hstep
    have hcourse : (fun tok' => s.nextCourse ⟨s.load.now, u⟩ w tok' (.act x)) = fun tok' =>
        (if tok' = tok then (s.courses w tok').hand s.load.now else s.courses w tok').look s.load.now
          (run.receiver.answered conn tok') := by
      funext tok'
      simp only [nextCourse, hx, Load.Act.hands, Option.some.injEq, Prod.mk.injEq, true_and, heq,
        eq_comm (a := tok)]
    rw [hcourse, heq]
    exact hb.poll hopen hf hpolled hstart
  | @settled tok hx hstep =>
    obtain ⟨f, result, pc, hopen, -, -, -, heq⟩ := Actor.step_settle hstep
    rw [hlook (by rw [hx]; exact nofun), heq]
    exact hb.settle hopen f result pc

/-- A reply that a step records. -/
theorem accounted_act (h : Sound s) {x : Load.Act run} {u : Load run}
    (hu : s.load.state.step s.load.now x = some u) {r : Reply run} (hr : s.nextReply (.act x) = some r) :
    r.Accounted := by
  obtain ⟨tok, htakes⟩ := takes_of_nextReply hr
  cases Load.turned_of_step hu r.worker with
  | passed _ _ hnone => exact absurd htakes (hnone tok)
  | pushed _ _ _ hnone => exact absurd htakes (hnone tok)
  | polled hx =>
    rw [hx] at htakes
    cases htakes
  | @settled tok' hx hstep =>
    obtain ⟨f, result, pc, hopen, hf, hpolled, hresult, -⟩ := Actor.step_settle hstep
    rw [hx, nextReply_settle hf hresult] at hr
    cases result with
    | error => cases hr
    | ok response =>
      rw [← Option.some.inj hr]
      have hmem : f ∈ (s.actor _).inflight := List.mem_of_find?_eq_some hf
      obtain rfl := Actor.token_of_flight hf
      have hb := h.balanced r.worker
      exact ⟨(hb.booked hopen f hmem).heldBack, hb.clock_eq hopen hmem hpolled hresult⟩

/-- The histograms behind a step. -/
theorem hist_act (h : Sound s) {x : Load.Act run} {u : Load run} (hu : s.load.state.step s.load.now x = some u)
    (w : run.Worker) : (u.actors w).recorder.hist =
      (((s.nextReply (.act x)).toList.filter fun r => r.worker = w).map Reply.value : List Nat) + s.values w := by
  have hsame (hnone : ∀ tok, x.takes ≠ some (w, tok)) (heq : (u.actors w).recorder.hist = (s.actor w).recorder.hist) :
      (u.actors w).recorder.hist =
        (((s.nextReply (.act x)).toList.filter fun r => r.worker = w).map Reply.value : List Nat) + s.values w := by
    have hfilter : (s.nextReply (.act x)).toList.filter (fun r => r.worker = w) = [] := by
      refine List.filter_eq_nil_iff.mpr fun r hr => ?_
      obtain ⟨tok, htakes⟩ := takes_of_nextReply (Option.mem_toList.mp hr)
      rw [decide_eq_true_eq]
      rintro rfl
      exact hnone tok htakes
    rw [hfilter, heq, h.hist]
    simp
  cases Load.turned_of_step hu w with
  | passed hp _ hnone => exact hsame hnone hp.hist
  | pushed _ heq _ hnone => exact hsame hnone (by rw [heq]; rfl)
  | polled hx hstep =>
    obtain ⟨f, conn, -, -, -, -, heq⟩ := Actor.step_poll hstep
    exact hsame (by rw [hx]; exact nofun) (by rw [heq]; rfl)
  | settled hx hstep =>
    obtain ⟨f, result, pc, -, hf, -, hresult, heq⟩ := Actor.step_settle hstep
    have hhist := h.hist w
    rw [heq, hx, nextReply_settle hf hresult, ← hhist]
    cases result with
    | ok response =>
      simp [Except.toOption, Actor.settle, LoadRecorder.record, LoadRecorder.onResponse, Reply.value, actor]
    | error error =>
      cases error <;> simp [Except.toOption, Actor.settle, LoadRecorder.record, LoadRecorder.onTimeout,
        LoadRecorder.onError, LoadRecorder.onConnError, actor]

theorem step (h : Sound s) (hC : Load.Eager s.load x) (hs : s.step x = some v) : Sound v := by
  cases x with
  | elapse dt => exact h.elapse hC hs
  | act x =>
    obtain ⟨t, ht, rfl⟩ := step_cases hs
    obtain ⟨u, hu, rfl⟩ := Lts.clocked_act.mp ht
    refine ⟨(Load.effect_of_step hu).conserved h.conserved, h.balanced_act hu, fun r hr => ?_, fun w => ?_⟩
    · rcases List.mem_append.mp hr with hr | hr
      · exact h.accounted_act hu (Option.mem_toList.mp hr)
      · exact h.accounted r hr
    · rw [values, List.filter_append, List.map_append, ← Multiset.coe_add]
      exact h.hist_act hu w

end Sound

theorem Reachable.sound {t : Observed run} (h : Reachable C t) (hC : ∀ s x, C s x → Load.Eager s x) : Sound t :=
  Lts.Reach.inv h (.init run) fun _ _ _ hi hx hs => hi.step (hC _ _ hx) hs

theorem Reachable.load {t : Observed run} (h : Reachable C t) : Load.Reachable C t.load := by
  induction h with
  | refl => exact Lts.Reach.refl _
  | tail _ hn ih =>
    obtain ⟨x, hC, hs⟩ := hn
    obtain ⟨t, ht, rfl⟩ := step_cases hs
    exact ih.tail hC ht

/-- In the runs of a plan with no room in the window, or no slot, for a second query, no
time passes while an actor waits with exchanges in flight. -/
theorem Reachable.unwaited {t : Observed run} (h : Reachable Load.Eager t) {gate : RateGate}
    (hg : run.work.gate = some gate)
    (hplan : run.cap ≤ 1 ∨ (∃ n, run.plan.config.count = some n ∧ n ≤ 1) ∨
      (gate.slotSecs 1).ge (run.work.budgetSecs gate) = true) :
    Reachable (fun s x => Load.Eager s x ∧ Load.Unwaited s x) t :=
  Lts.Reach.gain h fun _ _ hu hx => ⟨hx, (Reachable.load hu).unwaited hg hplan hx⟩

open Dns (Reader UdpResume)
open Load (burstRun burstWorker narrowRun secondWaits)

end Observed

end WireSurge.Engine
