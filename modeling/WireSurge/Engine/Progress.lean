import Mathlib.Algebra.Order.BigOperators.Group.List
import WireSurge.Engine.Final

/-!
# Live progress

A run with its sampler. The sampler reads the slots one after another, while
the actors go on, and sends what it has read; `run_load_with_progress` joins the
actors, aborts the sampler and awaits it, and sends the final snapshot. The
intervals of the sampler and of the actors are left open: a tick may come at any
time.

What a worker has published only grows, and is never more than what it has
recorded (`published_effect`). So a snapshot shows of each worker at least what
the last one showed, whenever its slot is read (`Sampled`), and the final one, of
the recorders themselves, at least that (`snapshots_grow`).
-/

namespace WireSurge.Engine

open Lts (Clocked Timed)
open WireSurge.Dns (Duration Instant Transport)
open WireSurge.Metrics (AggregateStats Histogram LoadRecorder RunSnapshot WorkerStats)

/-- `collect_snapshot`, from what it has read of the slots. -/
def collectSnapshot (lib : Histogram) (slots : List WorkerSlot) (elapsed : Double) (finalSample : Bool) :
    RunSnapshot where
  elapsed := elapsed
  finalSample := finalSample
  aggregate := .fromRecorder lib ((slots.map WorkerSlot.recorder).foldl LoadRecorder.merge .new) elapsed
    (slots.map WorkerSlot.inFlight).sum
  workers := slots.mapIdx fun index slot => slot.shown lib index elapsed

/-- Where `sample_progress` stands. -/
inductive Sampler
  /-- At the first tick, which is skipped. -/
  | starting
  | waiting
  /-- In `collect_snapshot`, with the slots it has read. -/
  | collecting (elapsed : Double) (slots : List WorkerSlot)
  | stopped

/-- Where `run_load_with_progress` stands, once the actors are there. -/
inductive Main
  /-- Joining the actors, in the order of their ids. -/
  | joining (aggregate : LoadRecorder) (recorders : List (Nat × LoadRecorder))
  /-- The sampler has been aborted, and is awaited. -/
  | aborting (duration : Double) (aggregate : LoadRecorder) (workers : List WorkerStats)
  | finished (stats : LoadStats)

structure Watched (run : LoadRun) where
  load : Load run
  sampler : Sampler
  main : Main
  /-- Somebody receives the snapshots. -/
  receiver : Bool
  /-- The snapshots sent, the latest first. -/
  sent : List RunSnapshot

namespace Watched

variable {run : LoadRun} (lib : Histogram)

/-- The sampler is there only when progress is asked for. -/
def init (run : LoadRun) : Watched run where
  load := .init run
  sampler := if run.progress then .starting else .stopped
  main := .joining .new []
  receiver := true
  sent := []

/-- `sender.send`. -/
def send (s : Watched run) (snapshot : RunSnapshot) : Watched run :=
  { s with sent := if s.receiver then snapshot :: s.sent else s.sent }

/-- The next slot of a collection is read. -/
def readSlot (s : Watched run) : Option (Watched run) :=
  match s.sampler with
  | .collecting elapsed slots =>
    if h : slots.length < run.concurrency then
      (s.load.actors ⟨slots.length, h⟩).slot.map fun slot =>
        { s with sampler := .collecting elapsed (slots ++ [slot]) }
    else none
  | _ => none

/-- The snapshot of a whole collection is sent, or nobody is there for it. -/
def sendSample (s : Watched run) : Option (Watched run) :=
  match s.sampler with
  | .collecting elapsed slots =>
    if slots.length = run.concurrency then
      some { s.send (collectSnapshot lib slots elapsed false) with
        sampler := if s.receiver then .waiting else .stopped }
    else none
  | _ => none

/-- The next actor is joined. -/
def join (s : Watched run) : Option (Watched run) :=
  match s.main with
  | .joining aggregate recorders =>
    if h : recorders.length < run.concurrency then
      let actor := s.load.actors ⟨recorders.length, h⟩
      if actor.pc.hasEnded then
        let result := Load.joined actor
        let recorder := result.getD LoadRecorder.new.onConnError
        some { s with
          main := .joining (Load.mergeActorResult aggregate result) (recorders ++ [(recorders.length, recorder)]) }
      else none
    else none
  | _ => none

/-- All actors are joined. -/
def abort (s : Watched run) (now : Instant) : Option (Watched run) :=
  match s.main with
  | .joining aggregate recorders =>
    if recorders.length = run.concurrency then
      let duration := asSecsF64 (now - run.start)
      some { s with main := .aborting duration aggregate (listWorkers lib recorders duration) }
    else none
  | _ => none

/-- The sampler is gone. -/
def finish (s : Watched run) : Option (Watched run) :=
  match s.main, s.sampler with
  | .aborting duration aggregate workers, .stopped =>
    let stats : LoadStats := { duration, recorder := aggregate, workers, cancelled := s.load.cancelled }
    let s' := if run.progress then s.send (stats.finalSnapshot lib) else s
    some { s' with main := .finished stats }
  | _, _ => none

/-- A step of the actors, of the sampler, of the receiver or of the main task. -/
inductive Act (run : LoadRun)
  | load (x : Load.Act run)
  | tick
  | samplerCancelled
  | samplerAborted
  | readSlot
  | sendSample
  | receiverGone
  | join
  | abort
  | finish

/-- What a step does, if it can be taken. -/
def step (now : Instant) (s : Watched run) : Act run → Option (Watched run)
  | .load x => (s.load.step now x).map fun load => { s with load }
  | .tick =>
    match s.sampler with
    | .starting => some { s with sampler := .waiting }
    | .waiting => some { s with sampler := .collecting (asSecsF64 (now - run.start)) [] }
    | _ => none
  | .samplerCancelled =>
    match s.sampler with
    | .waiting => if s.load.cancelled then some { s with sampler := .stopped } else none
    | _ => none
  | .samplerAborted =>
    match s.sampler, s.main with
    | .starting, .aborting _ _ _ | .waiting, .aborting _ _ _ => some { s with sampler := .stopped }
    | _, _ => none
  | .readSlot => s.readSlot
  | .sendSample => s.sendSample lib
  | .receiverGone => some { s with receiver := false }
  | .join => s.join
  | .abort => s.abort lib now
  | .finish => s.finish lib

/-- The states of a run. -/
def Reachable (t : Clocked (Watched run)) : Prop :=
  Lts.Reach (Lts.clocked (step lib)) Lts.Any ⟨run.start, init run⟩ t

/-! ## What a step does -/

/-- The places of the sampler, but for what it reads. -/
inductive Moves : Sampler → Sampler → Prop
  | waits : Moves .starting .waiting
  | collects {elapsed : Double} : Moves .waiting (.collecting elapsed [])
  | stops {old : Sampler} : Moves old .stopped

theorem Moves.nothing_read {old : Sampler} {elapsed : Double} {slots : List WorkerSlot}
    (h : Moves old (.collecting elapsed slots)) : slots = [] := by
  cases h
  rfl

theorem Moves.stays {new : Sampler} (h : Moves .stopped new) : new = .stopped := by
  cases h
  rfl

/-- What a step can do to the run, said once. -/
inductive Effect (now : Instant) (s : Watched run) : Act run → Watched run → Prop
  | load {x : Load.Act run} {load : Load run} : Load.Effect now s.load x load → Effect now s (.load x) { s with load }
  | moves {x : Act run} {sampler : Sampler} : Moves s.sampler sampler → Effect now s x { s with sampler }
  | read {elapsed : Double} {slots : List WorkerSlot} {slot : WorkerSlot} {w : run.Worker} :
    s.sampler = .collecting elapsed slots → slots.length = w.val → (s.load.actors w).slot = some slot →
    Effect now s .readSlot { s with sampler := .collecting elapsed (slots ++ [slot]) }
  | sent {elapsed : Double} {slots : List WorkerSlot} :
    s.sampler = .collecting elapsed slots → slots.length = run.concurrency →
    Effect now s .sendSample
      { s with sampler := .waiting, sent := collectSnapshot lib slots elapsed false :: s.sent }
  | receiverGone : Effect now s .receiverGone { s with receiver := false }
  | join {aggregate : LoadRecorder} {recorders : List (Nat × LoadRecorder)} {w : run.Worker}
    {result : Option LoadRecorder} : s.main = .joining aggregate recorders → recorders.length = w.val →
    (s.load.actors w).pc.hasEnded → result = Load.joined (s.load.actors w) →
    Effect now s .join { s with
      main := .joining (Load.mergeActorResult aggregate result)
        (recorders ++ [(w.val, result.getD LoadRecorder.new.onConnError)]) }
  | abort {aggregate : LoadRecorder} {recorders : List (Nat × LoadRecorder)} {duration : Double} :
    s.main = .joining aggregate recorders → recorders.length = run.concurrency →
    Effect now s .abort { s with main := .aborting duration aggregate (listWorkers lib recorders duration) }
  | finish {duration : Double} {aggregate : LoadRecorder} {workers : List WorkerStats} {stats : LoadStats} :
    s.main = .aborting duration aggregate workers → s.sampler = .stopped →
    stats = ⟨duration, aggregate, workers, s.load.cancelled⟩ →
    Effect now s .finish { s with
      main := .finished stats, sent := if run.progress ∧ s.receiver then stats.finalSnapshot lib :: s.sent else s.sent }

theorem effect_of_step {s t : Watched run} {now : Instant} {x : Act run} (h : s.step lib now x = some t) :
    Effect lib now s x t := by
  cases x with
  | load x =>
    obtain ⟨load, hload, rfl⟩ := Option.map_eq_some_iff.mp h
    exact .load (Load.effect_of_step hload)
  | tick =>
    simp only [step] at h
    split at h
    · rename_i hs
      cases h
      exact .moves (hs ▸ .waits)
    · rename_i hs
      cases h
      exact .moves (hs ▸ .collects)
    · cases h
  | samplerCancelled =>
    simp only [step] at h
    split at h
    · simp only [Option.ite_none_right_eq_some, Option.some.injEq] at h
      obtain ⟨-, rfl⟩ := h
      exact .moves .stops
    · cases h
  | samplerAborted =>
    simp only [step] at h
    split at h <;> cases h <;> exact .moves .stops
  | readSlot =>
    simp only [step, readSlot] at h
    split at h
    · rename_i elapsed slots hs
      split at h
      · obtain ⟨slot, hslot, rfl⟩ := Option.map_eq_some_iff.mp h
        exact .read hs rfl hslot
      · cases h
    · cases h
  | sendSample =>
    simp only [step, sendSample] at h
    split at h
    · rename_i elapsed slots hs
      simp only [Option.ite_none_right_eq_some, Option.some.injEq] at h
      obtain ⟨hlength, rfl⟩ := h
      by_cases hr : s.receiver
      · simp only [send, if_pos hr]
        exact .sent hs hlength
      · simp only [send, if_neg hr]
        exact .moves .stops
    · cases h
  | receiverGone => cases h; exact .receiverGone
  | join =>
    simp only [step, join] at h
    split at h
    · rename_i aggregate recorders hm
      split at h
      · simp only [Option.ite_none_right_eq_some, Option.some.injEq] at h
        obtain ⟨hended, rfl⟩ := h
        exact .join hm rfl hended rfl
      · cases h
    · cases h
  | abort =>
    simp only [step, abort] at h
    split at h
    · rename_i aggregate recorders hm
      simp only [Option.ite_none_right_eq_some, Option.some.injEq] at h
      obtain ⟨hlength, rfl⟩ := h
      exact .abort hm hlength
    · cases h
  | finish =>
    simp only [step, finish] at h
    split at h
    · rename_i duration aggregate workers hm hs
      cases h
      have hfinish : Effect lib now s .finish _ := .finish hm hs rfl
      by_cases hp : run.progress
      · simpa only [send, hp, true_and, if_true] using hfinish
      · simpa only [hp, false_and, Bool.false_eq_true, if_false] using hfinish
    · cases h

end Watched

/-! ## What is published -/

namespace Actor

variable {T : Transport} {a b : Actor T} {cancelled : Bool} {now : Instant}

/-- What the slot shows of the recorder. -/
def published (a : Actor T) : LoadRecorder := (a.slot.map WorkerSlot.recorder).getD .new

theorem published_of_slot {slot : WorkerSlot} (h : a.slot = some slot) : a.published = slot.recorder := by
  rw [published, h]
  rfl

theorem published_publish (inFlight : Nat) (status : WorkerStatus) :
    (a.publish inFlight status).published = a.published ∨ (a.publish inFlight status).published = a.recorder := by
  cases hs : a.slot with
  | none => exact .inl (by simp [published, publish, hs])
  | some slot => exact .inr (by simp [published, publish, hs])

theorem Local.recorder_le (h : Local now cancelled a b) : a.recorder ≤ b.recorder := by
  cases h with
  | connectFailed => exact a.recorder.le_apply .connError
  | settled => exact a.recorder.le_record _ _
  | _ => exact le_rfl

theorem Local.published_eq (h : Local now cancelled a b) : b.published = a.published ∨ b.published = b.recorder := by
  cases h with
  | connectFailed | tick | finish => exact published_publish _ _
  | _ => exact .inl rfl

/-- More is published of `b` than of `a`, and no more than `b` has recorded. -/
def Grows (a b : Actor T) : Prop := a.published ≤ b.published ∧ b.published ≤ b.recorder

theorem Local.grows (h : Local now cancelled a b) (ha : a.published ≤ a.recorder) : Grows a b := by
  have hle : a.published ≤ b.recorder := le_trans ha h.recorder_le
  rcases h.published_eq with heq | heq
  · rw [Grows, heq]
    exact ⟨le_rfl, hle⟩
  · rw [Grows, heq]
    exact ⟨hle, le_rfl⟩

theorem pushExchange_grows (ha : a.published ≤ a.recorder) (index : Nat) (wire : Dns.Bytes) :
    Grows a (a.pushExchange now index wire) :=
  ⟨le_rfl, le_trans ha (a.recorder.le_apply .sent)⟩

end Actor

theorem Load.Effect.grows {run : LoadRun} {s t : Load run} {now : Instant} {x : Load.Act run}
    (he : Load.Effect now s x t) (h : ∀ w, (s.actors w).published ≤ (s.actors w).recorder) (w : run.Worker) :
    Actor.Grows (s.actors w) (t.actors w) := by
  have hset {u : Load run} {v : run.Worker} {a : Actor run.transport} (hu : u.actors = s.actors)
      (ha : Actor.Grows (s.actors v) a) : Actor.Grows (s.actors w) ((u.setActor v a).actors w) := by
    refine Load.forall_setActor (P := fun w a => Actor.Grows (s.actors w) a) (fun w => ?_) ha w
    rw [hu]
    exact ⟨le_rfl, h w⟩
  cases he with
  | cancel => exact ⟨le_rfl, h w⟩
  | refused | waits | given => exact hset rfl ⟨le_rfl, h _⟩
  | ready _ _ _ hr | opens _ _ _ hr =>
    obtain ⟨-, rfl⟩ := hr
    exact hset rfl (Actor.pushExchange_grows (h _) _ _)
  | actor hl => exact hset rfl (hl.grows (h _))

/-! ## What is joined -/

namespace Load

variable {run : LoadRun} {s t : Load run} {now : Instant} {x : Act run}

theorem aggregate_eq_sum (s : Load run) : s.aggregate = (s.recorders.map Prod.snd).sum := by
  rw [aggregate, recorders, List.map_map, List.sum_eq_foldl, List.foldl_map, List.foldl_map]
  rfl

theorem length_recorders (s : Load run) : s.recorders.length = run.concurrency := by
  rw [recorders, List.length_map, List.length_finRange]

theorem getElem_recorders (s : Load run) {i : Nat} (h : i < s.recorders.length) :
    s.recorders[i] = (i, (joined (s.actors ⟨i, s.length_recorders ▸ h⟩)).getD LoadRecorder.new.onConnError) := by
  simp [recorders]

/-- The actors that have been joined have returned, and these are their recorders. -/
structure Joined (s : Load run) (aggregate : LoadRecorder) (recorders : List (Nat × LoadRecorder)) : Prop where
  ended (w : run.Worker) : w.val < recorders.length → (s.actors w).pc.hasEnded
  taken : recorders = s.recorders.take recorders.length
  merged : aggregate = (recorders.map Prod.snd).sum

namespace Joined

variable {aggregate : LoadRecorder} {recorders : List (Nat × LoadRecorder)}

theorem effect (h : Joined s aggregate recorders) (he : Effect now s x t) : Joined t aggregate recorders where
  ended w hw := by
    rw [he.ended (h.ended w hw)]
    exact h.ended w hw
  taken := by
    have htake : t.recorders.take recorders.length = s.recorders.take recorders.length := by
      refine List.ext_getElem (by simp [length_recorders]) fun i hi _ => ?_
      rw [List.length_take, length_recorders] at hi
      have hended := h.ended ⟨i, by omega⟩ (by show i < _; omega)
      rw [List.getElem_take, List.getElem_take, getElem_recorders, getElem_recorders, he.ended hended]
    rw [htake]
    exact h.taken
  merged := h.merged

theorem join (h : Joined s aggregate recorders) {w : run.Worker} (hw : recorders.length = w.val)
    (hended : (s.actors w).pc.hasEnded) :
    Joined s (mergeActorResult aggregate (joined (s.actors w)))
      (recorders ++ [(w.val, (joined (s.actors w)).getD LoadRecorder.new.onConnError)]) where
  ended v hv := by
    rw [List.length_append, List.length_singleton, hw] at hv
    rcases Nat.lt_or_eq_of_le (Nat.le_of_lt_succ hv) with hlt | heq
    · exact h.ended v (by omega)
    · rw [Fin.ext heq]
      exact hended
  taken := by
    have hlt : w.val < s.recorders.length := by
      rw [length_recorders]
      exact w.isLt
    have htaken : recorders = s.recorders.take w.val := by
      rw [← hw]
      exact h.taken
    rw [List.length_append, List.length_singleton, hw, ← List.take_concat_get' _ _ hlt, getElem_recorders, ← htaken]
  merged := by
    rw [mergeActorResult, h.merged, List.map_append, List.sum_append, List.map_singleton, List.sum_singleton]
    rfl

/-- When all are joined. -/
theorem all (h : Joined s aggregate recorders) (hlength : recorders.length = run.concurrency) :
    (∀ w, (s.actors w).pc.hasEnded) ∧ recorders = s.recorders ∧ aggregate = s.aggregate := by
  have hrecorders : recorders = s.recorders := by
    rw [h.taken, hlength, ← s.length_recorders, List.take_length]
  refine ⟨fun w => h.ended w (by rw [hlength]; exact w.isLt), hrecorders, ?_⟩
  rw [h.merged, aggregate_eq_sum, ← hrecorders]

end Joined

/-- The actors have returned, with this for the result. -/
structure Ended (lib : Histogram) (s : Load run) (duration : Double) (aggregate : LoadRecorder)
    (workers : List WorkerStats) : Prop where
  ended (w : run.Worker) : (s.actors w).pc.hasEnded
  aggregate : aggregate = s.aggregate
  workers : workers = s.finalWorkers lib duration

theorem Ended.effect {lib : Histogram} {duration : Double} {aggregate : LoadRecorder} {workers : List WorkerStats}
    (h : Ended lib s duration aggregate workers) (he : Effect now s x t) :
    t.actors = s.actors ∧ Ended lib t duration aggregate workers := by
  have hactors : t.actors = s.actors := funext fun w => he.ended (h.ended w)
  refine ⟨hactors, ⟨fun w => hactors ▸ h.ended w, ?_, ?_⟩⟩
  · rw [h.aggregate, Load.aggregate, Load.aggregate, hactors]
  · rw [h.workers, finalWorkers, finalWorkers, Load.recorders, Load.recorders, hactors]

end Load

namespace Watched

variable {run : LoadRun} {lib : Histogram} {s t : Watched run} {now : Instant} {x : Act run}

/-! ## What is shown -/

/-- The sum over the workers. -/
def total (shown : run.Worker → LoadRecorder) : LoadRecorder := ((List.finRange run.concurrency).map shown).sum

theorem total_le {f g : run.Worker → LoadRecorder} (h : ∀ w, f w ≤ g w) : total f ≤ total g :=
  List.sum_le_sum fun w _ => h w

/-- Whatever shows at least `r` shows no less than `a`. -/
def Below (lib : Histogram) (a : AggregateStats) (r : LoadRecorder) : Prop :=
  ∀ s, r ≤ s → ∀ elapsed inFlight, a.NoMore (.fromRecorder lib s elapsed inFlight)

theorem below_fromRecorder (lib : Histogram) (r : LoadRecorder) (elapsed : Double) (inFlight : Nat) :
    Below lib (.fromRecorder lib r elapsed inFlight) r :=
  fun _ h elapsed' inFlight' => AggregateStats.noMore_fromRecorder lib h elapsed elapsed' inFlight inFlight'

theorem Below.mono {a : AggregateStats} {r r' : LoadRecorder} (h : Below lib a r) (hle : r ≤ r') : Below lib a r' :=
  fun s hs => h s (le_trans hle hs)

/-- A snapshot, and one before it. -/
def Follows (newer older : RunSnapshot) : Prop :=
  older.aggregate.NoMore newer.aggregate ∧ older.finalSample = false

/-- The latest snapshot showed `last`, and what has been read for the next one
is no less, and no more than what is published. -/
structure Sampled (lib : Histogram) (s : Watched run) (last : run.Worker → LoadRecorder) : Prop where
  last_le (w : run.Worker) : last w ≤ (s.load.actors w).published
  collecting {elapsed : Double} {slots : List WorkerSlot} : s.sampler = .collecting elapsed slots →
    ∀ (w : run.Worker) (slot : WorkerSlot), slots[w.val]? = some slot →
      last w ≤ slot.recorder ∧ slot.recorder ≤ (s.load.actors w).published
  sent : ∀ snapshot ∈ s.sent, snapshot.finalSample = false ∧ Below lib snapshot.aggregate (total last)
  ordered : s.sent.Pairwise Follows

/-- What a whole collection shows of a worker. -/
def collected (run : LoadRun) (slots : List WorkerSlot) (w : run.Worker) : LoadRecorder :=
  (slots[w.val]?.map WorkerSlot.recorder).getD .new

theorem total_collected {slots : List WorkerSlot} (h : slots.length = run.concurrency) :
    (slots.map WorkerSlot.recorder).foldl LoadRecorder.merge .new = total (collected run slots) := by
  have hmap : slots.map WorkerSlot.recorder = (List.finRange run.concurrency).map (collected run slots) := by
    refine List.ext_getElem (by simp [h]) fun i hi _ => ?_
    rw [List.length_map] at hi
    simp [collected, hi]
  rw [total, ← hmap, List.sum_eq_foldl]
  rfl

namespace Sampled

variable {last : run.Worker → LoadRecorder}

theorem init (lib : Histogram) (run : LoadRun) : Sampled lib (Watched.init run) fun _ => .new where
  last_le _ := ⟨_, (zero_add _).symm⟩
  collecting h := by
    simp only [Watched.init] at h
    split at h <;> cases h
  sent _ h := by cases h
  ordered := .nil

theorem load (h : Sampled lib s last) {load : Load run}
    (hgrows : ∀ w, Actor.Grows (s.load.actors w) (load.actors w)) : Sampled lib { s with load } last where
  last_le w := le_trans (h.last_le w) (hgrows w).1
  collecting hs w slot hslot := by
    obtain ⟨hlast, hle⟩ := h.collecting hs w slot hslot
    exact ⟨hlast, le_trans hle (hgrows w).1⟩
  sent := h.sent
  ordered := h.ordered

theorem moves (h : Sampled lib s last) {sampler : Sampler} (hm : Moves s.sampler sampler) :
    Sampled lib { s with sampler } last where
  last_le := h.last_le
  collecting hs w slot hslot := by
    obtain rfl : sampler = .collecting _ _ := hs
    rw [hm.nothing_read] at hslot
    cases hslot
  sent := h.sent
  ordered := h.ordered

theorem read (h : Sampled lib s last) {elapsed : Double} {slots : List WorkerSlot} {slot : WorkerSlot}
    {w : run.Worker} (hs : s.sampler = .collecting elapsed slots) (hlength : slots.length = w.val)
    (hslot : (s.load.actors w).slot = some slot) :
    Sampled lib { s with sampler := .collecting elapsed (slots ++ [slot]) } last where
  last_le := h.last_le
  collecting hs' v slot' hslot' := by
    cases hs'
    rcases Nat.lt_trichotomy v.val slots.length with hlt | heq | hgt
    · rw [List.getElem?_append_left hlt] at hslot'
      exact h.collecting hs v slot' hslot'
    · rw [List.getElem?_append_right heq.ge, heq, Nat.sub_self] at hslot'
      cases hslot'
      obtain rfl : v = w := Fin.ext (heq.trans hlength)
      rw [← Actor.published_of_slot hslot]
      exact ⟨h.last_le v, le_rfl⟩
    · rw [List.getElem?_eq_none (by simp; omega)] at hslot'
      cases hslot'
  sent := h.sent
  ordered := h.ordered

theorem send (h : Sampled lib s last) {elapsed : Double} {slots : List WorkerSlot}
    (hs : s.sampler = .collecting elapsed slots) (hlength : slots.length = run.concurrency) :
    Sampled lib { s with sampler := .waiting, sent := collectSnapshot lib slots elapsed false :: s.sent }
      (collected run slots) := by
  have hread (w : run.Worker) :
      last w ≤ collected run slots w ∧ collected run slots w ≤ (s.load.actors w).published := by
    have hlt : w.val < slots.length := by
      rw [hlength]
      exact w.isLt
    have hslot : slots[w.val]? = some slots[w.val] := List.getElem?_eq_getElem hlt
    rw [collected, hslot]
    exact h.collecting hs w _ hslot
  have hle : total last ≤ total (collected run slots) := total_le fun w => (hread w).1
  refine ⟨fun w => (hread w).2, nofun, List.forall_mem_cons.mpr ⟨⟨rfl, ?_⟩, fun snapshot hsent => ?_⟩,
    List.pairwise_cons.mpr ⟨fun snapshot hsent => ⟨?_, (h.sent snapshot hsent).1⟩, h.ordered⟩⟩
  · rw [← total_collected hlength]
    exact below_fromRecorder lib _ _ _
  · exact ⟨(h.sent snapshot hsent).1, (h.sent snapshot hsent).2.mono hle⟩
  · refine (h.sent snapshot hsent).2 _ ?_ _ _
    rw [total_collected hlength]
    exact hle

end Sampled

/-- What has been recorded by actors none of which panicked. -/
theorem total_le_aggregate {load : Load run} {last : run.Worker → LoadRecorder}
    (h : ∀ w, last w ≤ (load.actors w).recorder) (hp : ∀ w, (load.actors w).pc ≠ .panicked) :
    total last ≤ load.aggregate := by
  have haggregate : load.aggregate = total fun w => (load.actors w).recorder := by
    rw [Load.aggregate_eq_sum, Load.recorders, List.map_map, total]
    refine congrArg List.sum (List.map_congr_left fun w _ => ?_)
    simp [Load.joined, hp w]
  rw [haggregate]
  exact total_le h

/-! ## The end -/

/-- What has been sent when the run has given its result. -/
structure Finished (lib : Histogram) (s : Watched run) (stats : LoadStats) : Prop where
  stopped : s.sampler = .stopped
  ordered : (∀ w, (s.load.actors w).pc ≠ .panicked) →
    s.sent.Pairwise Follows ∧ ∀ snapshot ∈ s.sent, snapshot.aggregate.NoMore (stats.finalSnapshot lib).aggregate
  final : run.progress → s.receiver → ∃ older, s.sent = stats.finalSnapshot lib :: older

/-- What `run_load_with_progress` has got, and what has been sent. -/
def Holds (lib : Histogram) (s : Watched run) : Main → Prop
  | .joining aggregate recorders => s.load.Joined aggregate recorders ∧ ∃ last, Sampled lib s last
  | .aborting duration aggregate workers =>
    s.load.Ended lib duration aggregate workers ∧ ∃ last, Sampled lib s last
  | .finished stats => s.load.Ended lib stats.duration stats.recorder stats.workers ∧ Finished lib s stats

/-- A step of the sampler, or of the receiver. -/
theorem Holds.sampling {main : Main} (h : Holds lib s main) (hload : t.load = s.load)
    (hs : ∀ last, Sampled lib s last → ∃ last', Sampled lib t last')
    (hf : ∀ stats, Finished lib s stats → Finished lib t stats) : Holds lib t main := by
  cases main with
  | joining aggregate recorders =>
    obtain ⟨hj, last, hl⟩ := h
    exact ⟨hload ▸ hj, hs last hl⟩
  | aborting duration aggregate workers =>
    obtain ⟨he, last, hl⟩ := h
    exact ⟨hload ▸ he, hs last hl⟩
  | finished stats =>
    obtain ⟨he, hl⟩ := h
    exact ⟨hload ▸ he, hf stats hl⟩

/-- A step of the load. -/
theorem Holds.load {main : Main} (h : Holds lib s main) {y : Load.Act run} {load : Load run}
    (he : Load.Effect now s.load y load) (hgrows : ∀ w, Actor.Grows (s.load.actors w) (load.actors w)) :
    Holds lib { s with load } main := by
  cases main with
  | joining aggregate recorders =>
    obtain ⟨hj, last, hl⟩ := h
    exact ⟨hj.effect he, last, hl.load hgrows⟩
  | aborting duration aggregate workers =>
    obtain ⟨hended, last, hl⟩ := h
    exact ⟨(hended.effect he).2, last, hl.load hgrows⟩
  | finished stats =>
    obtain ⟨hended, hl⟩ := h
    obtain ⟨hactors, hended'⟩ := hended.effect he
    refine ⟨hended', hl.stopped, fun hp => ?_, hl.final⟩
    rw [show ({ s with load } : Watched run).load.actors = s.load.actors from hactors] at hp
    exact hl.ordered hp

/-- A run keeps what it has got and sent. -/
structure Inv (lib : Histogram) (s : Watched run) : Prop where
  behind (w : run.Worker) : (s.load.actors w).published ≤ (s.load.actors w).recorder
  main : Holds lib s s.main

namespace Inv

theorem init (lib : Histogram) (run : LoadRun) : Inv lib (Watched.init run) where
  behind _ := by
    show Actor.published (Actor.new _ _) ≤ _
    simp only [Actor.published, Actor.new]
    split <;> exact le_rfl
  main := ⟨⟨fun _ h => absurd h (Nat.not_lt_zero _), rfl, rfl⟩, _, .init lib run⟩

/-- The final snapshot is sent. -/
theorem finish (h : Inv lib s) {duration : Double} {aggregate : LoadRecorder} {workers : List WorkerStats}
    {stats : LoadStats} (hm : s.main = .aborting duration aggregate workers) (hs : s.sampler = .stopped)
    (hstats : stats = ⟨duration, aggregate, workers, s.load.cancelled⟩) :
    Holds lib { s with
      main := .finished stats, sent := if run.progress ∧ s.receiver then stats.finalSnapshot lib :: s.sent else s.sent }
      (.finished stats) := by
  subst hstats
  have hmain := h.main
  rw [hm] at hmain
  obtain ⟨hended, last, hl⟩ := hmain
  refine ⟨hended, hs, fun hp => ?_, fun hprogress hreceiver => ⟨s.sent, if_pos ⟨hprogress, hreceiver⟩⟩⟩
  have hnoMore : ∀ snapshot ∈ s.sent, snapshot.aggregate.NoMore (.fromRecorder lib aggregate duration 0) := by
    intro snapshot hsent
    refine (hl.sent snapshot hsent).2 _ ?_ _ _
    rw [hended.aggregate]
    exact total_le_aggregate (fun w => le_trans (hl.last_le w) (h.behind w)) hp
  by_cases hsends : run.progress ∧ s.receiver
  · simp only [if_pos hsends]
    refine ⟨List.pairwise_cons.mpr ⟨fun snapshot hsent => ⟨hnoMore snapshot hsent, (hl.sent snapshot hsent).1⟩,
      hl.ordered⟩, List.forall_mem_cons.mpr ⟨?_, hnoMore⟩⟩
    exact AggregateStats.noMore_fromRecorder lib le_rfl _ _ _ _
  · simp only [if_neg hsends]
    exact ⟨hl.ordered, hnoMore⟩

theorem effect (h : Inv lib s) (he : Effect lib now s x t) : Inv lib t := by
  cases he with
  | load hl =>
    have hgrows := hl.grows h.behind
    exact ⟨fun w => (hgrows w).2, h.main.load hl hgrows⟩
  | moves hm =>
    refine ⟨h.behind, h.main.sampling rfl (fun last hl => ⟨last, hl.moves hm⟩) fun stats hf => ?_⟩
    exact ⟨(hf.stopped ▸ hm).stays, hf.ordered, hf.final⟩
  | read hs hlength hslot =>
    refine ⟨h.behind, h.main.sampling rfl (fun last hl => ⟨last, hl.read hs hlength hslot⟩) fun stats hf => ?_⟩
    exact absurd (hs.symm.trans hf.stopped) nofun
  | sent hs hlength =>
    refine ⟨h.behind, h.main.sampling rfl (fun last hl => ⟨_, hl.send hs hlength⟩) fun stats hf => ?_⟩
    exact absurd (hs.symm.trans hf.stopped) nofun
  | receiverGone =>
    refine ⟨h.behind, h.main.sampling rfl (fun last hl => ⟨last, ?_⟩) fun stats hf => ?_⟩
    · exact ⟨hl.last_le, hl.collecting, hl.sent, hl.ordered⟩
    · exact ⟨hf.stopped, hf.ordered, nofun⟩
  | join hm hlength hended hresult =>
    subst hresult
    have hmain := h.main
    rw [hm] at hmain
    obtain ⟨hj, last, hl⟩ := hmain
    exact ⟨h.behind, hj.join hlength hended, last, ⟨hl.last_le, hl.collecting, hl.sent, hl.ordered⟩⟩
  | abort hm hlength =>
    have hmain := h.main
    rw [hm] at hmain
    obtain ⟨hj, last, hl⟩ := hmain
    obtain ⟨hended, rfl, rfl⟩ := hj.all hlength
    exact ⟨h.behind, ⟨hended, rfl, rfl⟩, last, ⟨hl.last_le, hl.collecting, hl.sent, hl.ordered⟩⟩
  | finish hm hs hstats => exact ⟨h.behind, h.finish hm hs hstats⟩

end Inv

theorem Reachable.inv {t : Clocked (Watched run)} (h : Reachable lib t) : Inv lib t.state :=
  Lts.clocked_inv (I := fun _ => Inv lib) h (.init lib run) (fun _ _ _ _ hi => hi)
    fun _ _ _ _ hx hi => hi.effect (effect_of_step lib hx)

/-- The snapshots a run has sent, none of whose actors has panicked: each counter
of a later one is at least that of an earlier one, and no earlier one is the
final one. When the run has finished, the final snapshot shows the recorders of
all workers, no snapshot shows more, and it has been sent last, if anybody
receives it. -/
theorem snapshots_grow (lib : Histogram) {t : Clocked (Watched run)} (h : Reachable lib t)
    (hp : ∀ w, (t.state.load.actors w).pc ≠ .panicked) :
    t.state.sent.Pairwise (fun newer older => older.aggregate.NoMore newer.aggregate ∧ older.finalSample = false) ∧
      ∀ stats, t.state.main = .finished stats →
        (stats.finalSnapshot lib).aggregate = .fromRecorder lib t.state.load.aggregate stats.duration 0 ∧
        (∀ snapshot ∈ t.state.sent, snapshot.aggregate.NoMore (stats.finalSnapshot lib).aggregate) ∧
        (run.progress → t.state.receiver → ∃ older, t.state.sent = stats.finalSnapshot lib :: older) := by
  have hmain := h.inv.main
  refine ⟨?_, fun stats hm => ?_⟩
  · cases hm : t.state.main with
    | joining aggregate recorders | aborting duration aggregate workers =>
      rw [hm] at hmain
      obtain ⟨-, last, hl⟩ := hmain
      exact hl.ordered
    | finished stats =>
      rw [hm] at hmain
      exact (hmain.2.ordered hp).1
  · rw [hm] at hmain
    obtain ⟨hended, hf⟩ := hmain
    refine ⟨?_, (hf.ordered hp).2, hf.final⟩
    rw [LoadStats.finalSnapshot, hended.aggregate]

/-! A run with one query, which is sampled while the query is in flight. -/

/-- One query over TCP, with progress. -/
def watchedRun : LoadRun := sampleRun (sampleConfig .do53Tcp 1 none none (some 1)) (by decide +kernel) rfl

/-- Its worker. -/
def watchedWorker : watchedRun.Worker := ⟨0, by decide +kernel⟩

/-- Steps of the worker. -/
def actorSteps (xs : List (Actor.Act watchedRun.transport)) : List (Timed (Act watchedRun)) :=
  xs.map fun x => .act (.load (.actor watchedWorker x))

/-- A snapshot is sent while the query is in flight, and the run is cancelled. -/
def sampledOnce : List (Timed (Act watchedRun)) :=
  .act .tick :: actorSteps [.connected] ++ [.act (.load (.callNext watchedWorker))] ++
    actorSteps [.guardFails, .proceed, .tick] ++
    [.elapse 1, .act .tick, .act .readSlot, .act .sendSample, .act (.load .cancel), .act .samplerCancelled] ++
    actorSteps [.guardFails, .proceed, .cancelArm] ++ .elapse 1 :: actorSteps [.graceOver, .finish] ++
    [.act .join, .act .abort, .act .finish]

/-- A run to `snapshots_grow`: a snapshot of the query in flight, and the final one. -/
theorem snapshots_grow_two : ∃ t,
    Lts.run (Lts.clocked (step Load.largest)) ⟨0, init watchedRun⟩ sampledOnce = some t ∧
      t.state.sent.map (fun snapshot => snapshot.aggregate.inFlight) = [0, 1] ∧
      t.state.sent.Pairwise fun newer older => older.aggregate.NoMore newer.aggregate ∧ older.finalSample = false := by
  have hrun : ∃ t ∈ Lts.run (Lts.clocked (step Load.largest)) ⟨0, init watchedRun⟩ sampledOnce,
      t.state.sent.map (fun snapshot => snapshot.aggregate.inFlight) = [0, 1] ∧
        ∀ w ∈ List.finRange watchedRun.concurrency, (t.state.load.actors w).pc ≠ .panicked := by decide +kernel
  obtain ⟨t, ht, hsent, hpanic⟩ := hrun
  have hgrow := snapshots_grow Load.largest (Lts.Reach.of_run ht) fun w => hpanic w (List.mem_finRange w)
  exact ⟨t, ht, hsent, hgrow.1⟩

end Watched

end WireSurge.Engine
