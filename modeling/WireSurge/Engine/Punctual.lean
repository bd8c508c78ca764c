import WireSurge.Dns.Due
import WireSurge.Engine.Ending

/-!
# A run that ends in time

The runs of a plan with a duration and no cap on the rate, over a transport whose
exchanges have a deadline from their first poll on (`Dns.Punctual`), where the socket
takes every datagram at once (`SendsAtOnce`). No request is handed out behind the
duration, and each exchange is over within the timeout of its first poll; so an
actor waits for nothing once both have passed, and its drain finds nothing pending
(`Due`). Every actor has returned by then (`ends_in_time`).
-/

namespace WireSurge.Engine

open Function (update)
open Lts (Clocked Timed clocked)
open WireSurge.Dns (Drain Duration Instant Punctual Receiver SlotKeeper Token Transport)

namespace Actor

variable {T : Transport} {K : SlotKeeper T} {R : Receiver T} {P : Punctual K R} {a b : Actor T}
variable {e bound now : Instant} {cap : Nat} {timeout : Duration} {cancelled : Bool} {x : Act T}

/-- An actor that waits in the `select!` waits for an exchange. -/
def Occupied (a : Actor T) : Prop := a.pc = .selecting → a.inflight ≠ []

theorem Occupied.step (h : a.Occupied) (hs : a.step cap timeout cancelled now x = some b) : b.Occupied := by
  have hout {p : Pc} (hb : b.pc = p) (hp : p ≠ .selecting) : b.Occupied := fun hpc => absurd (hb.symm.trans hpc) hp
  cases x with
  | connected | connectFailed | connectCancelled | guardFails | tick | cancelArm | finish | panic =>
    simp only [Actor.step, Option.ite_none_right_eq_some, Option.some.injEq] at hs
    obtain ⟨-, rfl⟩ := hs
    exact hout rfl Pc.noConfusion
  | proceed =>
    simp only [Actor.step, Option.ite_none_right_eq_some, Option.some.injEq] at hs
    obtain ⟨-, rfl⟩ := hs
    intro hpc hempty
    have hnil : a.inflight.isEmpty = true := List.isEmpty_iff.mpr hempty
    simp only [hnil, if_true] at hpc
    split at hpc <;> cases hpc
  | poll tok =>
    obtain ⟨f, conn, -, -, -, -, rfl⟩ := step_poll hs
    exact fun hpc hempty => h hpc (List.map_eq_nil_iff.mp hempty)
  | resume tok r =>
    simp only [Actor.step, Option.ite_none_right_eq_some] at hs
    obtain ⟨-, hs⟩ := hs
    split at hs
    · split at hs
      · obtain ⟨conn, -, rfl⟩ := Option.map_eq_some_iff.mp hs
        exact h
      · cases hs
    · cases hs
  | settle tok =>
    simp only [Actor.step] at hs
    split at hs
    · split at hs
      · split at hs <;> cases hs <;> exact hout rfl Pc.noConfusion
      · cases hs
    · cases hs
  | drainedAll | graceOver =>
    simp only [Actor.step] at hs
    split at hs
    · split at hs <;> cases hs
      exact hout rfl Pc.noConfusion
    · cases hs
  | react e =>
    simp only [Actor.step, Option.ite_none_right_eq_some] at hs
    obtain ⟨-, hs⟩ := hs
    obtain ⟨conn, -, rfl⟩ := Option.map_eq_some_iff.mp hs
    exact h

/-- Every exchange in flight that has been polled can run up to `bound`, and the others
were handed out before `e`. -/
def Flying (P : Punctual K R) (e bound now : Instant) (a : Actor T) : Prop :=
  ∀ f ∈ a.inflight, if f.polled then P.By bound now a.conn f.token else now ≤ e

theorem Flying.step (h : a.Flying P e bound now) (hinv : K.Inv a.conn) (hbound : e + timeout ≤ bound)
    (htimeout : 0 ≤ timeout) (hs : a.step cap timeout cancelled now x = some b) : b.Flying P e bound now := by
  by_cases hpoll : ∃ tok, x = .poll tok
  · obtain ⟨tok, rfl⟩ := hpoll
    obtain ⟨f, conn, -, hf, hpolled, hstart, rfl⟩ := step_poll hs
    obtain rfl := token_of_flight hf
    -- the exchange was handed out before `e`, and is over within the timeout
    have hnow : now ≤ e := by
      have hflying := h f (List.mem_of_find?_eq_some hf)
      rwa [hpolled, if_neg Bool.false_ne_true] at hflying
    obtain ⟨hself, hothers⟩ := P.start hinv hstart htimeout (le_trans (by linarith) hbound)
    intro g hg
    obtain ⟨g₀, hg₀, rfl⟩ := List.mem_map.mp hg
    by_cases htok : g₀.token = f.token
    · rw [markPolled, if_pos htok]
      simpa only [if_true, htok] using hself
    · rw [markPolled, if_neg htok]
      have hold := h g₀ hg₀
      split at hold
      · rename_i hg₀polled
        rw [if_pos hg₀polled]
        exact hothers _ htok hold
      · rename_i hg₀polled
        rwa [if_neg hg₀polled]
  by_cases hsettle : ∃ tok, x = .settle tok
  · obtain ⟨tok, rfl⟩ := hsettle
    obtain ⟨f, result, pc, -, -, -, -, rfl⟩ := step_settle hs
    exact fun g hg => h g (List.mem_of_mem_eraseP hg)
  -- nothing happens to the window
  have hp := passes_of_step hs (fun tok hx => hpoll ⟨tok, hx⟩) fun tok hx => hsettle ⟨tok, hx⟩
  intro g hg
  rw [hp.inflight] at hg
  have hold := h g hg
  split at hold
  · rename_i hpolled
    rw [if_pos hpolled]
    rcases hp.conn with hc | ⟨tok, r, hc⟩ | ⟨ev, hc⟩
    · rwa [hc]
    · exact P.resume hinv hc hold
    · exact P.react hinv hc hold
  · rename_i hpolled
    rwa [if_neg hpolled]

/-- Where an actor may be up to `bound`, when it is not cancelled. -/
def Standing (bound now : Instant) (drain : Option Drain) (a : Actor T) : Prop :=
  match a.pc with
  | .connecting => now ≤ bound ∧ a.inflight = []
  | .filling | .filled | .selecting => now ≤ bound
  | .gated _ _ _ | .draining _ => False
  | .closing => now ≤ bound ∧ a.inflight = [] ∧ ∃ d, drain = some d ∧ ∀ before, d.canRun before
  | .done | .failed | .panicked => True

theorem Standing.local {proto : Dns.LoadProto} {drain : Option Drain} {grace : Duration}
    (h : a.Standing bound now drain) (hl : Local now false a b) :
    b.Standing bound now
      (if b.pc = .closing ∧ a.pc ≠ .closing then some (proto.drain now grace) else drain) := by
  have hdrain : ∀ before, (proto.drain now grace).canRun before := by cases proto <;> exact fun _ => rfl
  cases hl with
  | connected hpc =>
    rw [Standing, hpc] at h
    exact h.1
  | tick hpc =>
    rw [Standing, hpc] at h
    exact h
  | connectFailed | finish | panic => trivial
  | moved hm =>
    rcases hm with ⟨hpc, rfl⟩ | ⟨hpc, ⟨rfl, -⟩ | rfl | ⟨rfl, hempty⟩⟩
    · rw [Standing, hpc] at h; exact h
    · rw [Standing, hpc] at h; exact h
    · rw [Standing, hpc] at h; exact h
    · rw [Standing, hpc] at h
      rw [if_pos ⟨rfl, by rw [hpc]; exact nofun⟩]
      exact ⟨h, hempty, _, rfl, hdrain⟩
  | conn hlive =>
    rw [if_neg fun hc => hc.2 hc.1]
    exact h
  | polled hawaits =>
    rw [if_neg fun hc => hc.2 hc.1]
    cases hpc : a.pc with
    | selecting =>
      rw [Standing, hpc] at h
      rw [Standing]
      exact h
    | draining => rw [Standing, hpc] at h; exact h.elim
    | _ => rw [hpc] at hawaits; cases hawaits
  | settled _ _ hpc =>
    rcases hpc with ⟨hpc, rfl⟩ | ⟨until_, hpc, rfl⟩
    · rw [Standing, hpc] at h
      exact h
    · rw [Standing, hpc] at h
      exact h.elim
  | cancelArm _ hc => cases hc
  | drained hpc =>
    rw [Standing, hpc] at h
    exact h.elim

end Actor

namespace Ending

variable {run : LoadRun} {s t : Ending run} {now : Instant}

/-- No exchange is in `socket.send`, over UDP. -/
def sent (s : Ending run) : Bool :=
  (List.finRange run.concurrency).all fun w =>
    (s.actor w).inflight.all fun f => !run.receiver.sending (s.actor w).conn f.token

/-- A UDP send completes at once: no time passes while one is pending. The code awaits
it before it arms the timer of the exchange. -/
def SendsAtOnce (s : Clocked (Ending run)) : Timed (Act run) → Prop
  | .elapse dt => 0 < dt → s.state.sent = true
  | .act _ => True

instance (s : Clocked (Ending run)) : (x : Timed (Act run)) → Decidable (SendsAtOnce s x)
  | .elapse dt => inferInstanceAs (Decidable (0 < dt → s.state.sent = true))
  | .act _ => inferInstanceAs (Decidable True)

/-- The exchanges and the actors of a run that is not cancelled are in time. -/
structure Due (hp : run.plan.config.proto.isPunctual) (e now : Instant) (s : Ending run) : Prop where
  occupied (w : run.Worker) : (s.actor w).Occupied
  flying (w : run.Worker) : (s.actor w).pc.hasEnded = false →
    (s.actor w).Flying (run.plan.config.proto.punctual run.target hp) e (e + run.timeout) now
  standing (w : run.Worker) : (s.actor w).Standing (e + run.timeout) now (s.drains w)

namespace Due

variable {hp : run.plan.config.proto.isPunctual} {e : Instant}

/-- What is asked of an actor behind a step of the run. -/
structure Fine (hp : run.plan.config.proto.isPunctual) (e now : Instant) (s : Ending run) (w : run.Worker)
    (b : Actor run.transport) : Prop where
  occupied : b.Occupied
  flying : b.pc.hasEnded = false → b.Flying (run.plan.config.proto.punctual run.target hp) e (e + run.timeout) now
  standing : b.Standing (e + run.timeout) now
    (if b.pc = .closing ∧ (s.actor w).pc ≠ .closing then some (run.plan.config.proto.drain now run.drainGrace)
      else s.drains w)

theorem fine (h : Due hp e now s) (w : run.Worker) : Fine hp e now s w (s.actor w) where
  occupied := h.occupied w
  flying := h.flying w
  standing := by
    rw [if_neg fun hc => hc.2 hc.1]
    exact h.standing w

/-- An actor in its fill loop stays in it. -/
theorem standing_le (h : Due hp e now s) {w : run.Worker} (hpc : (s.actor w).pc = .filling)
    {b : Actor run.transport} {drain : Option Drain} (hb : b.pc = .filling ∨ b.pc = .filled) :
    b.Standing (e + run.timeout) now drain := by
  have hle := h.standing w
  rw [Actor.Standing, hpc] at hle
  rcases hb with hb | hb <;> rw [Actor.Standing, hb] <;> exact hle

theorem load {x : Load.Act run} (h : Due hp e now s) (hgate : run.work.gate = none) (he : run.work.deadline = some e)
    (hinv : ∀ w, run.keeper.Inv (s.actor w).conn) (hc : t.load.cancelled = false)
    (hs : s.step now (.load x) = some t) : Due hp e now t := by
  obtain ⟨u, hu, rfl, -⟩ := step_load hs
  have heffect := Load.effect_of_step hu
  have hcancelled : s.load.cancelled = false := heffect.not_cancelled hc
  have hflying {w : run.Worker} (hpc : (s.actor w).pc = .filling) := h.flying w (by rw [hpc]; rfl)
  have hfine : ∀ w, Fine hp e now s w (u.actors w) := by
    cases heffect with
    | cancel => exact h.fine
    | @refused w hpc =>
      refine Load.forall_setActor (s := { s.load with seq := s.load.seq + 1 }) h.fine ⟨nofun, fun _ => hflying hpc, ?_⟩
      exact standing_le h hpc (.inr rfl)
    | waits _ _ hb =>
      obtain ⟨gate, hg, -⟩ := WorkSource.begin_wait hb
      rw [hgate] at hg
      cases hg
    | @ready w wire _ hpc _ hb hr =>
      obtain ⟨-, rfl⟩ := hr
      refine Load.forall_setActor (s := { s.load with seq := _, admissions := _ }) h.fine ⟨nofun, fun _ => ?_, ?_⟩
      · obtain ⟨-, hlt⟩ := WorkSource.begin_ready hb
        refine List.forall_mem_append.mpr ⟨hflying hpc, List.forall_mem_singleton.mpr ?_⟩
        exact (hlt e he).le
      · exact standing_le h hpc (.inl rfl)
    | @opens w _ _ _ _ _ hpc | @given w _ _ _ _ hpc =>
      have hfalse := h.standing w
      rw [Actor.Standing, actor, hpc] at hfalse
      exact hfalse.elim
    | @actor w _ a hl =>
      obtain ⟨b, hb, heq⟩ := Option.map_eq_some_iff.mp hu
      obtain rfl : b = a := by simpa using congrArg (fun v : Load run => v.actors w) heq
      refine Load.forall_setActor h.fine ⟨(h.occupied w).step hb, fun _ => ?_, ?_⟩
      · exact (h.flying w hl.not_ended).step (hinv w) le_rfl (NNRat.cast_nonneg _) hb
      · rw [hcancelled] at hl
        exact (h.standing w).local hl
  exact ⟨fun w => (hfine w).occupied, fun w => (hfine w).flying, fun w => (hfine w).standing⟩

/-- A drain finds nothing pending. -/
theorem drain {w : run.Worker} (h : Due hp e now s) (htracked : ∀ w, (s.actor w).Tracked run.keeper)
    (hs : s.step now (.drain w) = some t) : Due hp e now t := by
  obtain ⟨d, d', hpc, hd, hd', rfl⟩ := step_drain hs
  refine ⟨h.occupied, h.flying, fun w' => ?_⟩
  by_cases hw : w' = w
  · subst hw
    have hstanding := h.standing w'
    rw [Actor.Standing, hpc] at hstanding
    obtain ⟨hle, hempty, d₀, hd₀, hrun⟩ := hstanding
    cases hd.symm.trans hd₀
    have hidle : s.idle w' = true := by
      rw [idle, Option.all_eq_true]
      intro corr hcorr
      have hout := (htracked w').outstanding_le hcorr
      rw [hempty, List.length_nil, Nat.le_zero] at hout
      exact Dns.Correlator.isIdle_of_outstanding hout
    have hover : d' = .drained := by
      rw [hidle] at hd'
      cases d with
      | looking deadline => cases hd'; rfl
      | sleeping deadline wake => exact absurd (of_decide_eq_true (hrun wake)) (lt_irrefl _)
      | drained => cases hd'
    show (s.actor w').Standing _ _ (update s.drains w' (some d') w')
    rw [Actor.Standing, hpc, Function.update_self]
    exact ⟨hle, hempty, d', rfl, fun before => by rw [hover]; rfl⟩
  · show (s.actor w').Standing _ _ (update s.drains w (some d') w')
    rw [Function.update_of_ne hw]
    exact h.standing w'

/-- Time passes only while every actor waits for its connection, or for exchanges that
are all with their transport. -/
theorem elapse {dt : Duration} (h : Due hp e now s) (hconnect : run.start ≤ e)
    (hinv : ∀ w, run.keeper.Inv (s.actor w).conn) (hdt : 0 ≤ dt) (hrun : 0 < dt → s.canRun (now + dt) = false)
    (hsends : 0 < dt → s.sent = true) : Due hp e (now + dt) s := by
  rcases hdt.eq_or_lt with rfl | hpos
  · rwa [add_zero]
  obtain ⟨-, hidle⟩ := not_canRun (hrun hpos)
  suffices hw : ∀ w, ((s.actor w).pc.hasEnded = false → (s.actor w).Flying _ e (e + run.timeout) (now + dt)) ∧
      (s.actor w).Standing (e + run.timeout) (now + dt) (s.drains w) from
    ⟨h.occupied, fun w => (hw w).1, fun w => (hw w).2⟩
  intro w
  obtain ⟨hactor, hawaited⟩ := hidle w
  have hstanding := h.standing w
  cases hpc : (s.actor w).pc with
  | connecting =>
    simp only [awaited, hpc, decide_eq_false_iff_not, not_lt] at hawaited
    rw [Actor.Standing, hpc] at hstanding ⊢
    refine ⟨fun _ f hf => ?_, by linarith, hstanding.2⟩
    rw [hstanding.2] at hf
    cases hf
  | filling | filled => simp [Actor.canRun, hpc] at hactor
  | gated | draining =>
    rw [Actor.Standing, hpc] at hstanding
    exact hstanding.elim
  | selecting =>
    obtain ⟨-, hpolled⟩ := Actor.polled_of_idle hactor (by rw [hpc]; rfl) (by rw [hpc]; rfl)
    have hready {f : Flight} (hf : f ∈ (s.actor w).inflight) := by
      have hflying := h.flying w (by rw [hpc]; rfl) f hf
      rw [if_pos (hpolled f hf).1] at hflying
      have hsent := List.all_eq_true.mp (List.all_eq_true.mp (hsends hpos) w (List.mem_finRange w)) f hf
      rw [Bool.not_eq_true'] at hsent
      exact (run.plan.config.proto.punctual run.target hp).elapse (hinv w) hflying (hpolled f hf).2 hsent
    refine ⟨fun _ f hf => ?_, ?_⟩
    · rw [if_pos (hpolled f hf).1]
      exact (hready hf).1
    · -- there is an exchange, and its deadline is not later
      obtain ⟨f, hf⟩ := List.exists_mem_of_ne_nil _ (h.occupied w hpc)
      rw [Actor.Standing, hpc]
      exact (hready hf).2
  | closing =>
    rw [Actor.Standing, hpc] at hstanding
    obtain ⟨-, -, d, hd, hcan⟩ := hstanding
    simp [awaited, hpc, hd, hcan] at hawaited
  | done | failed | panicked =>
    rw [Actor.Standing, hpc]
    exact ⟨fun h => (Bool.false_ne_true h.symm).elim, trivial⟩

end Due

theorem Reachable.due {t : Clocked (Ending run)} (h : Reachable (fun s x => Eager s x ∧ SendsAtOnce s x) t)
    (hp : run.plan.config.proto.isPunctual) (hgate : run.work.gate = none) {e : Instant}
    (he : run.work.deadline = some e) (hstart : run.start ≤ e) :
    t.state.load.cancelled = false → Due hp e t.now t.state := by
  have htimeout : (0 : ℚ) ≤ run.timeout := NNRat.cast_nonneg _
  induction h with
  | refl =>
    refine fun _ => ⟨fun _ => nofun, fun _ _ => nofun, fun _ => ⟨?_, rfl⟩⟩
    exact hstart.trans (le_add_of_nonneg_right htimeout)
  | @tail s t hs hn ih =>
    have htracked (w : run.Worker) := Load.Reachable.tracked (Reachable.load (Lts.Reach.mono hs fun _ _ hC => hC.1)) w
    obtain ⟨x, hx, hst⟩ := hn
    intro hc
    cases x with
    | elapse dt =>
      obtain ⟨hdt, rfl⟩ := Lts.clocked_elapse.mp hst
      exact (ih hc).elapse hstart (fun w => (htracked w).inv) hdt hx.1 hx.2
    | act x =>
      obtain ⟨u, hu, rfl⟩ := Lts.clocked_act.mp hst
      cases x with
      | load x =>
        obtain ⟨v, hv, hvu, -⟩ := step_load hu
        have hold : s.state.load.cancelled = false := by
          rw [hvu] at hc
          exact (Load.effect_of_step hv).not_cancelled hc
        exact (ih hold).load hgate he (fun w => (htracked w).inv) hc hu
      | drain w =>
        have hload : u.load = s.state.load := by
          obtain ⟨d, d', -, -, -, rfl⟩ := step_drain hu
          rfl
        exact (ih (hload ▸ hc)).drain htracked hu

/-- In every run that is not cancelled, whose tasks run as soon as they can and whose UDP
sends complete at once, and whose plan has a duration and no cap on the rate: over
UDP and over DoH every actor has returned when the duration and the timeout have
passed. -/
theorem ends_in_time {t : Clocked (Ending run)} (h : Reachable (fun s x => Eager s x ∧ SendsAtOnce s x) t)
    (hp : run.plan.config.proto.isPunctual)
    (hqps : run.plan.config.qpsCap = none) {d : ℚ≥0} (hd : run.plan.config.duration = some d)
    (hc : t.state.load.cancelled = false) (hnow : run.start + d + run.timeout < t.now) (w : run.Worker) :
    (t.state.actor w).pc.hasEnded := by
  have hgate : run.work.gate = none := by
    have hnone : run.plan.qps = none := by rw [ValidatedLoadPlan.qps, hqps]
    rw [LoadRun.work, hnone, Option.map_none]
  have he : run.work.deadline = some (run.start + d) := by simp only [LoadRun.work, hd]; rfl
  have hstart : run.start ≤ run.start + d := le_add_of_nonneg_right (NNRat.cast_nonneg d)
  have hstanding := (h.due hp hgate he hstart hc).standing w
  cases hpc : (t.state.actor w).pc with
  | connecting | closing =>
    rw [Actor.Standing, hpc] at hstanding
    exact absurd hstanding.1 (not_le.mpr hnow)
  | filling | filled | selecting =>
    rw [Actor.Standing, hpc] at hstanding
    exact absurd hstanding (not_le.mpr hnow)
  | gated | draining =>
    rw [Actor.Standing, hpc] at hstanding
    exact hstanding.elim
  | done | failed | panicked => rfl

/-! A run of one second, whose one query times out after two. -/

open Dns (UdpResume)

def secondRun : LoadRun := sampleRun (sampleConfig .do53Udp 1 none (some 1) (some 3)) (by decide +kernel) rfl

def secondWorker : secondRun.Worker := ⟨0, by decide +kernel⟩

def timedOut : List (Timed (Act secondRun)) :=
  let act (x : Actor.Act secondRun.transport) : Timed (Act secondRun) := .act (.load (.actor secondWorker x))
  let call : Timed (Act secondRun) := .act (.load (.callNext secondWorker))
  [act .connected, call, act .guardFails, act .proceed, act (.poll 0), act (.resume 0 UdpResume.sent),
    act (.resume 0 (UdpResume.waiter .poll)), .elapse 2, act (.resume 0 (UdpResume.waiter .expire)),
    act (.resume 0 (UdpResume.waiter .check)), act (.settle 0), call, act .proceed, .act (.drain secondWorker),
    act .finish, .elapse 2]

/-- `ends_in_time` for it. -/
theorem ends_in_time_second : ∃ t, Lts.run (clocked step) ⟨secondRun.start, init secondRun⟩ timedOut = some t ∧
    t.now = 4 ∧ (t.state.actor secondWorker).recorder.timeouts = 1 ∧ (t.state.actor secondWorker).pc.hasEnded := by
  have hrun : ∃ t ∈ Lts.run (clocked step) ⟨secondRun.start, init secondRun⟩ timedOut,
      t.now = 4 ∧ (t.state.actor secondWorker).recorder.timeouts = 1 ∧ t.state.load.cancelled = false := by
    decide +kernel
  have hC : Lts.Along (clocked step) (fun s x => Eager s x ∧ SendsAtOnce s x) ⟨secondRun.start, init secondRun⟩
      timedOut := by
    decide +kernel
  obtain ⟨t, ht, hnow, htimeouts, hc⟩ := hrun
  refine ⟨t, ht, hnow, htimeouts,
    ends_in_time (.of_along ht hC) (by decide +kernel) rfl rfl hc ?_ secondWorker⟩
  rw [hnow]
  decide +kernel

end Ending

end WireSurge.Engine
