import WireSurge.Dns.Arrival
import WireSurge.Dns.Deadline
import WireSurge.Dns.Slots

/-!
# Exchanges that are over in time

Over UDP and DoH an exchange has its deadline from its first poll on, but for the
time that a datagram takes to be sent. `Punctual` says of a transport that an
exchange whose deadline is at most `b` can run by then, whatever else happens on
its connection. The framed transports have no such bound: an exchange may wait for
its place in the channel to the writer.
-/

namespace WireSurge.Dns

open Function (update)

namespace Session

variable {decode : HeaderDecoder} {now : Instant} {s t : Session} {a : Act} {q : Token}

/-- A query that was registered stays so until it is cancelled or awaits its response. -/
theorem registered_step (hph : (s.queries q).phase = .registered) (hcancel : a ≠ .cancel q)
    (hawait : ∀ timeout, a ≠ .awaitResponse q timeout) (h : s.step decode now a = some t) :
    (t.queries q).phase = .registered := by
  have hset {u : Session} {q' : Token} {p : Phase} (hu : u.queries = s.queries) (hne : q ≠ q') :
      ((u.setPhase q' p).queries q).phase = .registered := by
    rw [setPhase_queries_of_ne _ _ hne, hu]
    exact hph
  have hother {q' : Token} {p : Phase} (hp : (s.queries q').phase = p) (hreg : p ≠ .registered) : q ≠ q' := by
    rintro rfl
    exact hreg (hp.symm.trans hph)
  cases a with
  | register q' wire =>
    simp only [step, register] at h
    split at h <;> cases h
    rename_i hfresh _
    have hne := hother hfresh Phase.noConfusion
    simpa only [Function.update_of_ne hne] using hph
  | cancel q' =>
    have hne : q ≠ q' := fun heq => hcancel (heq ▸ rfl)
    simp only [step, cancel] at h
    split at h
    · split at h <;> cases h
      · rw [leave_of_ne hne]; exact hph
      · exact hset rfl hne
    · cases h
  | complete buf =>
    simp only [step, complete] at h
    split at h <;> cases h <;> exact hph
  | close =>
    cases h
    exact hph
  | notifyOne k =>
    simp only [step, notifyOne] at h
    split at h
    · cases h
    · split at h
      · cases h
        exact hph
      · split at h
        · rename_i hparked
          cases h
          exact hset rfl (hother hparked Phase.noConfusion)
        · cases h
          exact hph
  | awaitResponse q' timeout =>
    have hne : q ≠ q' := fun heq => hawait timeout (heq ▸ rfl)
    simp only [step, awaitResponse] at h
    split at h <;> cases h
    exact hset rfl hne
  | poll q' =>
    simp only [step, poll] at h
    split at h
    · rename_i hlooping
      cases h
      exact hset rfl (hother hlooping Phase.noConfusion)
    · cases h
  | wake q' =>
    simp only [step, wake] at h
    split at h
    · rename_i hnotified
      cases h
      exact hset rfl (hother hnotified Phase.noConfusion)
    · cases h
  | expire q' =>
    simp only [step, expire] at h
    split at h
    · rename_i hparked
      split at h <;> cases h
      exact hset rfl (hother hparked Phase.noConfusion)
    · cases h
  | check q' =>
    simp only [step, check] at h
    split at h
    · rename_i hrunning
      have hne := hother hrunning Phase.noConfusion
      split at h <;> cases h
      · exact hset rfl hne
      · rw [leave_of_ne hne]
        exact hph
      · exact hset rfl hne
    · cases h

end Session

/-- What is known of the deadlines of a transport's exchanges: `By b now c q` says that
the exchange `q` is over, or can run, at any time up to `b`, unless it is still being
sent. -/
structure Punctual {T : Transport} (K : SlotKeeper T) (R : Receiver T) where
  By : Instant → Instant → T.Conn → Token → Prop
  start {now b : Instant} {timeout : Duration} {c c' : T.Conn} {q : Token} {wire : Bytes} :
    K.Inv c → T.start now timeout c q wire = some c' → 0 ≤ timeout → now + timeout ≤ b →
    By b now c' q ∧ ∀ q' ≠ q, By b now c q' → By b now c' q'
  resume {now b : Instant} {c c' : T.Conn} {q q' : Token} {r : T.Resume} :
    K.Inv c → T.resume now c q r = some c' → By b now c q' → By b now c' q'
  react {now b : Instant} {c c' : T.Conn} {e : T.Event} {q : Token} :
    K.Inv c → T.react now c e = some c' → By b now c q → By b now c' q
  elapse {now before b : Instant} {c : T.Conn} {q : Token} :
    K.Inv c → By b now c q → R.ready before c q = false → R.sending c q = false → By b before c q ∧ before ≤ b

/-! ## UDP -/

namespace UdpConn

variable {target : Target} {now before b : Instant} {timeout : Duration} {c c' : UdpConn} {q q' : Token} {wire : Bytes}

/-- The exchange of `q` is over by the time `b`, if its datagram goes at once. -/
def By (b now : Instant) (c : UdpConn) (q : Token) : Prop :=
  ∃ call, c.calls q = some call ∧
    match call.stage with
    | .sending _ => (c.session.queries q).phase = .registered ∧ now + call.timeout ≤ b
    | .awaiting => ∃ d ≤ b, (c.session.queries q).phase.Until d
    | .failed _ => True

theorem By.setCall (h : c.By b now q') (hne : q' ≠ q) (call : Call) : (c.setCall q call).By b now q' := by
  obtain ⟨call', hcall, hstage⟩ := h
  exact ⟨call', (Function.update_of_ne hne ..).trans hcall, hstage⟩

/-- A step of the session that is not the exchange's own hand-over. -/
theorem By.step {session : Session} {a : Session.Act} (h : c.By b now q) (hs : c.session.Slots)
    (hstep : c.session.step target.decode now a = some session) (hcancel : a ≠ .cancel q)
    (hawait : ∀ timeout, a ≠ .awaitResponse q timeout) : ({ c with session } : UdpConn).By b now q := by
  obtain ⟨call, hcall, hstage⟩ := h
  refine ⟨call, hcall, ?_⟩
  cases hst : call.stage with
  | sending frame =>
    rw [hst] at hstage
    exact ⟨Session.registered_step hstage.1 hcancel hawait hstep, hstage.2⟩
  | awaiting =>
    rw [hst] at hstage
    obtain ⟨d, hd, huntil⟩ := hstage
    exact ⟨d, hd, Session.until_effect huntil (Session.step_effect hs hstep)⟩
  | failed error => trivial

theorem by_start (h : Held c.session c.calls) (hs : UdpConn.start target now timeout c q wire = some c')
    (hb : now + timeout ≤ b) : c'.By b now q ∧ ∀ q' ≠ q, c.By b now q' → c'.By b now q' := by
  simp only [UdpConn.start] at hs
  split at hs
  · cases hs
  · split at hs
    · cases hs
      exact ⟨⟨_, Function.update_self .., trivial⟩, fun q' hne hq' => hq'.setCall hne _⟩
    · obtain ⟨session, hregister, rfl⟩ := Option.map_eq_some_iff.mp hs
      have hstep : c.session.step target.decode now (.register q wire) = some session := hregister
      refine ⟨⟨_, Function.update_self .., ?_, hb⟩, fun q' hne hq' => ?_⟩
      · simp only [Session.register] at hregister
        split at hregister <;> cases hregister
        simp only [UdpConn.setCall, Function.update_self]
      · exact (hq'.step h.slots hstep Session.Act.noConfusion fun _ => Session.Act.noConfusion).setCall hne _

theorem by_resume {r : UdpResume} (h : Held c.session c.calls) (hs : UdpConn.resume target now c q r = some c')
    (hq : c.By b now q') : c'.By b now q' := by
  simp only [UdpConn.resume] at hs
  split at hs
  · rename_i begun timeout frame hcall
    obtain ⟨session, hawait, rfl⟩ := Option.map_eq_some_iff.mp hs
    have hstep : c.session.step target.decode now (.awaitResponse q timeout) = some session := hawait
    by_cases hne : q' = q
    · subst hne
      obtain ⟨call, hcall', hstage⟩ := hq
      cases hcall.symm.trans hcall'
      refine ⟨_, Function.update_self .., now + timeout, hstage.2, ?_⟩
      simp only [Session.awaitResponse, hstage.1, Option.some.injEq] at hawait
      subst hawait
      show ((c.session.setPhase q' (.looping (now + timeout))).queries q').phase.Until (now + timeout)
      rw [Session.setPhase_phase]
      rfl
    · refine (hq.step h.slots hstep Session.Act.noConfusion fun _ heq => ?_).setCall hne _
      cases heq
      exact hne rfl
  · rename_i begun timeout frame message hcall
    obtain ⟨session, hcancel, rfl⟩ := Option.map_eq_some_iff.mp hs
    have hstep : c.session.step target.decode now (.cancel q) = some session := hcancel
    by_cases hne : q' = q
    · subst hne
      exact ⟨_, Function.update_self .., trivial⟩
    · refine (hq.step h.slots hstep (fun heq => ?_) fun _ => Session.Act.noConfusion).setCall hne _
      cases heq
      exact hne rfl
  · rename_i w _
    obtain ⟨session, hstep, rfl⟩ := Option.map_eq_some_iff.mp hs
    refine hq.step h.slots hstep ?_ fun timeout => ?_
    · cases w <;> exact Session.Act.noConfusion
    · cases w <;> exact Session.Act.noConfusion
  · cases hs

theorem by_react {e : Reader} (h : Held c.session c.calls) (hs : UdpConn.react target now c e = some c')
    (hq : c.By b now q) : c'.By b now q := by
  obtain ⟨session, hstep, rfl⟩ := Option.map_eq_some_iff.mp hs
  refine hq.step h.slots hstep ?_ fun timeout => ?_
  · cases e <;> exact Session.Act.noConfusion
  · cases e <;> exact Session.Act.noConfusion

/-- Only a query that is parked waits once it is sent, and that is until its deadline. -/
theorem by_elapse (h : Held c.session c.calls) (hq : c.By b now q) (hready : c.ready before q = false)
    (hsent : c.sending q = false) : c.By b before q ∧ before ≤ b := by
  obtain ⟨call, hcall, hstage⟩ := hq
  rw [ready, hsent, Bool.not_false, Bool.true_and, Session.ready] at hready
  split at hready
  · rename_i deadline hph
    have hle : before ≤ deadline := not_lt.mp (of_decide_eq_false hready)
    obtain ⟨call', hcall', hnot⟩ := h.active (q := q) (by rw [hph]; rfl)
    cases hcall.symm.trans hcall'
    cases hst : call.stage with
    | sending frame =>
      rw [hst, hph] at hstage
      cases hstage.1
    | awaiting =>
      rw [hst] at hstage
      obtain ⟨d, hd, huntil⟩ := hstage
      have heq : deadline = d := by rwa [hph] at huntil
      exact ⟨⟨call, hcall, by rw [hst]; exact ⟨d, hd, huntil⟩⟩, hle.trans (heq.trans_le hd)⟩
    | failed error => exact absurd hst (hnot error)
  · cases hready

end UdpConn

/-- A UDP exchange is over after its timeout. -/
def udpPunctual (target : Target) : Punctual (udpKeeper target) (udpReceiver target) where
  By := UdpConn.By
  start h hs _ hb := UdpConn.by_start h hs hb
  resume h hs hq := UdpConn.by_resume h hs hq
  react h hs hq := UdpConn.by_react h hs hq
  elapse h hq hready hsent := UdpConn.by_elapse h hq hready hsent

/-! ## DoH -/

namespace DohConn

variable {target : Target} {now before b : Instant} {timeout : Duration} {c c' : DohConn} {q q' : Token} {wire : Bytes}

/-- The exchange of `q` is over by the time `b`. -/
def By (b : Instant) (c : DohConn) (q : Token) : Prop := ∃ call, c.calls q = some call ∧ call.deadline ≤ b

theorem by_setCall {call : DohCall} (hcall : q' = q → call.deadline ≤ b) (h : q' ≠ q → c.By b q') :
    (c.setCall q call).By b q' := by
  by_cases hne : q' = q
  · exact ⟨call, by rw [hne, calls_setCall, Function.update_self], hcall hne⟩
  · obtain ⟨call', hcall', hle⟩ := h hne
    exact ⟨call', by rw [calls_setCall, Function.update_of_ne hne, hcall'], hle⟩

theorem by_start (hs : DohConn.start target now timeout c q wire = some c') (htimeout : 0 ≤ timeout)
    (hb : now + timeout ≤ b) : c'.By b q ∧ ∀ q' ≠ q, c.By b q' → c'.By b q' := by
  have hset (call : DohCall) (hcall : call.deadline ≤ b) :
      (c.setCall q call).By b q ∧ ∀ q' ≠ q, c.By b q' → (c.setCall q call).By b q' :=
    ⟨by_setCall (fun _ => hcall) fun hne => absurd rfl hne, fun q' hne hq' => by_setCall (fun _ => hcall) fun _ => hq'⟩
  have hnow : now ≤ b := (le_add_of_nonneg_right htimeout).trans hb
  simp only [start] at hs
  split at hs
  · cases hs
  · split at hs
    · cases hs
      exact hset _ hnow
    · split at hs <;> cases hs
      · exact hset _ hnow
      · exact hset _ hb

/-- An exchange that gets on keeps its deadline. -/
theorem by_kept {old call : DohCall} (hold : c.calls q = some old) (hdeadline : call.deadline = old.deadline)
    (hq : c.By b q') : (c.setCall q call).By b q' := by
  refine by_setCall (fun heq => ?_) fun _ => hq
  obtain ⟨call', hcall', hle⟩ := hq
  rw [heq, hold, Option.some.injEq] at hcall'
  rw [hdeadline, hcall']
  exact hle

theorem by_resume {r : DohResume} (hs : DohConn.resume target now c q r = some c') (hq : c.By b q') : c'.By b q' := by
  simp only [resume] at hs
  split at hs
  · rename_i hcall
    split at hs <;> cases hs
    exact by_kept hcall rfl hq
  · rename_i hcall
    cases hs
    exact by_kept hcall rfl hq
  · rename_i hcall
    split at hs <;> cases hs
    exact by_kept hcall rfl hq
  · cases hs

theorem by_react {e : DohEvent} (hs : c.react e = some c') (hq : c.By b q') : c'.By b q' := by
  cases e with
  | closed => cases hs; exact hq
  | responds q status body =>
    simp only [react] at hs
    split at hs <;> cases hs
    rename_i hcall
    exact by_kept hcall rfl hq

theorem by_elapse (hq : c.By b q) (hready : c.ready before q = false) : c.By b q ∧ before ≤ b := by
  obtain ⟨call, hcall, hle⟩ := hq
  simp only [ready, hcall, Option.all_some, Bool.or_eq_false_iff, decide_eq_false_iff_not, not_lt] at hready
  exact ⟨⟨call, hcall, hle⟩, hready.2.trans hle⟩

end DohConn

/-- A DoH exchange is over after its timeout. -/
def dohPunctual (target : Target) : Punctual (dohKeeper target) (dohReceiver target) where
  By b _ := DohConn.By b
  start _ hs htimeout hb := DohConn.by_start hs htimeout hb
  resume _ hs hq := DohConn.by_resume hs hq
  react _ hs hq := DohConn.by_react hs hq
  elapse _ hq hready _ := DohConn.by_elapse hq hready

/-- The transports whose exchanges have a deadline from their first poll on, or over UDP
from the time when the datagram is sent. -/
def LoadProto.isPunctual : LoadProto → Bool
  | .do53Udp | .doh => true
  | .do53Tcp | .dot => false

/-- The protocols whose exchanges are over in time. -/
def LoadProto.punctual (target : Target) :
    (proto : LoadProto) → proto.isPunctual → Punctual (proto.keeper target) (proto.receiver target)
  | .do53Udp, _ => udpPunctual target
  | .doh, _ => dohPunctual target

end WireSurge.Dns
