import WireSurge.Dns.Question

/-!
# Exchanges before their first poll

An exchange future does nothing before its first poll, and nothing else touches its
query until then (`Unstarted`). Its first poll gets through `register` if its question
fits the buffer and there are ids left (`Starter.starts`), whatever the state of the
connection.
-/

namespace WireSurge.Dns

open Function (update)

namespace Correlator

/-- `register` completes on a wire that fits, when there is an id left. -/
theorem exists_register {c : Correlator} {wire : Bytes} (hout : c.outstanding < 2 ^ 16) (hlen : 2 ≤ wire.length)
    (hfits : Fits wire) : ∃ r c', c.register wire = some (.ok (r, c')) := by
  obtain ⟨k, hk, hfree, hbusy⟩ := exists_probed hout c.counter
  have hprobe := probe_eq (Nat.lt_of_le_of_lt hk hout) hbusy hfree
  match wire, hlen with
  | b0 :: b1 :: rest, _ =>
    have hpatched : Fits ((probed c.counter k >>> 8).toUInt8 :: (probed c.counter k &&& 0xff).toUInt8 :: rest) := by
      unfold Fits
      rw [questionRange_patch _ _ b0 b1]
      exact hfits
    obtain ⟨slot, hslot⟩ := slotFor_ok_iff.mpr hpatched
    exact ⟨_, _, register_ok hprobe hslot⟩

end Correlator

namespace Session

variable {decode : HeaderDecoder} {now : Instant} {s t : Session} {a : Act} {q : Token}

/-- Only its `register` touches a query that is fresh. -/
theorem fresh_effect (h : Effect decode now s a t) (hph : (s.queries q).phase = .fresh)
    (hr : ∀ wire, a ≠ .register q wire) : (t.queries q).phase = .fresh := by
  have hother {q' : Token} {p : Phase} (hp : (s.queries q').phase = p) (hne : p ≠ .fresh) : q ≠ q' := by
    rintro rfl
    exact hne (hp.symm.trans hph)
  cases h with
  | turn ht => exact (ht.moved.phase_eq_iff rfl).mpr hph
  | @registered q' wire _ _ _ ha =>
    have hne : q ≠ q' := by
      rintro rfl
      exact hr wire ha
    simpa only [Function.update_of_ne hne] using hph
  | cancelled hp | returned hp =>
    rw [leave_of_ne (hother hp Phase.noConfusion)]
    exact hph
  | ignored | stored | closed => exact hph

theorem exists_register (hph : (s.queries q).phase = .fresh) (hout : s.corr.outstanding < 2 ^ 16) {wire : Bytes}
    (hlen : 2 ≤ wire.length) (hfits : Fits wire) :
    ∃ t, s.register q wire = some t ∧ (t.queries q).phase = .registered := by
  obtain ⟨r, corr, hr⟩ := Correlator.exists_register hout hlen hfits
  refine ⟨_, by simp only [register, hph, hr]; rfl, ?_⟩
  simp only [Function.update_self]

theorem exists_awaitResponse (hph : (s.queries q).phase = .registered) (timeout : Duration) :
    ∃ t, s.awaitResponse now q timeout = some t :=
  ⟨_, by simp only [awaitResponse, hph]; rfl⟩

theorem exists_cancel (hph : (s.queries q).phase = .registered) : ∃ t, s.cancel q = some t := by
  simp only [cancel, hph]
  split <;> exact ⟨_, rfl⟩

end Session

/-- The exchange has no call, and its query is fresh. -/
structure Unstarted (session : Session) (calls : Token → Option Call) (q : Token) : Prop where
  call : calls q = none
  query : (session.queries q).phase = .fresh

namespace Unstarted

variable {decode : HeaderDecoder} {now : Instant} {session session' : Session} {calls : Token → Option Call}
  {q q' : Token}

theorem effect {a : Session.Act} (h : Unstarted session calls q) (he : Session.Effect decode now session a session')
    (hr : ∀ wire, a ≠ .register q wire) : Unstarted session' calls q :=
  ⟨h.call, Session.fresh_effect he h.query hr⟩

theorem setCall (h : Unstarted session calls q) (hne : q ≠ q') (call : Call) :
    Unstarted session (update calls q' (some call)) q :=
  ⟨by rw [Function.update_of_ne hne, h.call], h.query⟩

/-- Another exchange registers. -/
theorem register (h : Unstarted session calls q) (hne : q ≠ q') {wire : Bytes}
    (hr : session.register q' wire = some session') : Unstarted session' calls q := by
  have he : Session.Effect rfc1035Header 0 session (.register q' wire) session' := Session.register_effect hr
  refine h.effect he fun wire' heq => ?_
  cases heq
  exact hne rfl

theorem awaitResponse (h : Unstarted session calls q) {timeout : Duration}
    (ha : session.awaitResponse now q' timeout = some session') : Unstarted session' calls q := by
  have he : Session.Effect rfc1035Header now session (.awaitResponse q' timeout) session' :=
    .turn (Session.awaitResponse_turn ha)
  exact h.effect he fun _ => Session.Act.noConfusion

theorem cancel (h : Unstarted session calls q) (hc : session.cancel q' = some session') :
    Unstarted session' calls q := by
  refine ⟨h.call, ?_⟩
  simp only [Session.cancel] at hc
  split at hc
  · rename_i hph
    have hne : q ≠ q' := by
      rintro rfl
      cases h.query.symm.trans hph
    split at hc <;> cases hc
    · rw [Session.leave_of_ne hne, h.query]
    · rw [Session.setPhase_queries_of_ne _ _ hne, h.query]
  · cases hc

end Unstarted

/-- What is known of a transport about exchanges before their first poll. -/
structure Starter {T : Transport} (K : SlotKeeper T) where
  Fresh : T.Conn → Token → Prop
  connect (q : Token) : Fresh T.connect q
  start {now : Instant} {timeout : Duration} {c c' : T.Conn} {q q' : Token} {wire : Bytes} :
    K.Inv c → T.start now timeout c q wire = some c' → q' ≠ q → Fresh c q' → Fresh c' q'
  resume {now : Instant} {c c' : T.Conn} {q q' : Token} {r : T.Resume} :
    K.Inv c → T.resume now c q r = some c' → Fresh c q' → Fresh c' q'
  react {now : Instant} {c c' : T.Conn} {e : T.Event} {q : Token} :
    K.Inv c → T.react now c e = some c' → Fresh c q → Fresh c' q
  starts {c : T.Conn} {q : Token} {wire : Bytes} (now : Instant) (timeout : Duration) :
    Fresh c q → (∀ corr, K.correlator c = some corr → corr.outstanding < 2 ^ 16) → Fits wire →
      ∃ c', T.start now timeout c q wire = some c'

/-! ## UDP -/

namespace UdpConn

variable {target : Target} {now : Instant} {timeout : Duration} {c c' : UdpConn} {q q' : Token} {wire : Bytes}

theorem unstarted_start (hs : UdpConn.start target now timeout c q wire = some c') (hne : q' ≠ q)
    (h : Unstarted c.session c.calls q') : Unstarted c'.session c'.calls q' := by
  simp only [UdpConn.start] at hs
  split at hs
  · cases hs
  · split at hs
    · cases hs
      exact h.setCall hne _
    · obtain ⟨session, hr, rfl⟩ := Option.map_eq_some_iff.mp hs
      exact (h.register hne hr).setCall hne _

theorem unstarted_resume {r : UdpResume} (hheld : Held c.session c.calls)
    (hs : UdpConn.resume target now c q r = some c') (h : Unstarted c.session c.calls q') :
    Unstarted c'.session c'.calls q' := by
  have hne {call : Call} (hcall : c.calls q = some call) : q' ≠ q := by
    rintro rfl
    cases h.call.symm.trans hcall
  simp only [UdpConn.resume] at hs
  split at hs
  · rename_i hcall
    obtain ⟨session, ha, rfl⟩ := Option.map_eq_some_iff.mp hs
    exact (h.awaitResponse ha).setCall (hne hcall) _
  · rename_i hcall
    obtain ⟨session, hc, rfl⟩ := Option.map_eq_some_iff.mp hs
    exact (h.cancel hc).setCall (hne hcall) _
  · obtain ⟨session, ha, rfl⟩ := Option.map_eq_some_iff.mp hs
    exact h.effect (Session.step_effect hheld.slots ha) (Waiter.act_ne_register _ _ _)
  · cases hs

theorem unstarted_starts (h : Unstarted c.session c.calls q) (hout : c.session.corr.outstanding < 2 ^ 16)
    (hfits : Fits wire) : ∃ c', UdpConn.start target now timeout c q wire = some c' := by
  simp only [UdpConn.start, h.call]
  split
  · exact ⟨_, rfl⟩
  · rename_i hlen
    obtain ⟨session, hr, -⟩ := Session.exists_register h.query hout (not_lt.mp hlen) hfits
    exact ⟨_, by rw [hr]; rfl⟩

end UdpConn

/-- A query begins without a call over UDP. -/
def udpStarter (target : Target) : Starter (udpKeeper target) where
  Fresh c := Unstarted c.session c.calls
  connect _ := ⟨rfl, rfl⟩
  start _ hs hne h := UdpConn.unstarted_start hs hne h
  resume hheld hs h := UdpConn.unstarted_resume hheld hs h
  react hheld hs h := by
    obtain ⟨session, ha, rfl⟩ := Option.map_eq_some_iff.mp hs
    exact h.effect (Session.step_effect hheld.slots ha) (Reader.act_ne_register _ _)
  starts _ _ h hout hfits := UdpConn.unstarted_starts h (hout _ rfl) hfits

/-! ## TCP and DoT -/

namespace Framed

variable {now : Instant} {timeout : Duration} {s t : Framed} {q q' : Token} {wire : Bytes} {call : Call}

theorem unstarted_handOver {frame : Bytes} (hs : s.handOver now q call frame = some t) (hne : q' ≠ q)
    (h : Unstarted s.session s.calls q') : Unstarted t.session t.calls q' := by
  obtain ⟨session, ha, rfl⟩ := Option.map_eq_some_iff.mp hs
  exact (h.awaitResponse ha).setCall hne _

theorem unstarted_giveUp (hs : s.giveUp q call = some t) (hne : q' ≠ q) (h : Unstarted s.session s.calls q') :
    Unstarted t.session t.calls q' := by
  obtain ⟨session, hc, rfl⟩ := Option.map_eq_some_iff.mp hs
  exact (h.cancel hc).setCall hne _

theorem unstarted_exchange (hs : s.exchange now q wire timeout = some t) (hne : q' ≠ q)
    (h : Unstarted s.session s.calls q') : Unstarted t.session t.calls q' := by
  simp only [exchange] at hs
  split at hs
  · cases hs
  · split at hs
    · cases hs
      exact h.setCall hne _
    · split at hs
      · cases hs
        exact h.setCall hne _
      · obtain ⟨session, hr, hs⟩ := Option.bind_eq_some_iff.mp hs
        have hreg : Unstarted session s.calls q' := h.register hne hr
        split at hs
        · exact unstarted_giveUp hs hne hreg
        · exact unstarted_handOver hs hne hreg
        · cases hs
          exact hreg.setCall hne _

theorem unstarted_resume (hs : s.resume now q = some t) (h : Unstarted s.session s.calls q') :
    Unstarted t.session t.calls q' := by
  simp only [resume] at hs
  split at hs
  · rename_i call hcall
    have hne : q' ≠ q := by
      rintro rfl
      cases h.call.symm.trans hcall
    split at hs
    · split at hs
      · exact unstarted_handOver hs hne h
      · split at hs
        · exact unstarted_giveUp hs hne h
        · cases hs
    · cases hs
  · cases hs

/-- A waiter, the reader or the writer gets on. -/
theorem unstarted_step {decode : HeaderDecoder} {a : Act} (hheld : Held s.session s.calls)
    (ha : (∃ b, a = .session b) ∨ a = .recv ∨ (∃ ok, a = .wrote ok) ∨ (∃ ok, a = .flushed ok) ∨ a = .shutdown)
    (hs : s.step decode now a = some t) (h : Unstarted s.session s.calls q') : Unstarted t.session t.calls q' := by
  rcases ha with ⟨b, rfl⟩ | rfl | ⟨ok, rfl⟩ | ⟨ok, rfl⟩ | rfl
  · obtain ⟨session, hb, rfl⟩ := session_of_step hs
    refine h.effect (Session.step_effect hheld.slots hb) fun wire hreg => ?_
    subst hreg
    cases hs
  · simp only [step, recv] at hs
    split at hs
    · obtain ⟨⟨frame, chan⟩, -, rfl⟩ := Option.map_eq_some_iff.mp hs
      exact h
    · cases hs
  · simp only [step, wrote] at hs
    split at hs
    · split at hs <;> cases hs <;> exact h
    · cases hs
      exact h
    · cases hs
  · simp only [step, flushed] at hs
    split at hs
    · cases hs
      exact h
    · cases hs
  · simp only [step, shutdown] at hs
    split at hs
    · cases hs
      exact h
    · cases hs

theorem unstarted_starts (h : Unstarted s.session s.calls q) (hout : s.session.corr.outstanding < 2 ^ 16)
    (hfits : Fits wire) : ∃ t, s.exchange now q wire timeout = some t := by
  simp only [exchange, h.call]
  split
  · exact ⟨_, rfl⟩
  · rename_i hlen
    split
    · exact ⟨_, rfl⟩
    · obtain ⟨session, hr, hph⟩ := Session.exists_register h.query hout (not_lt.mp hlen) hfits
      simp only [hr, Option.bind_some]
      split
      · obtain ⟨u, hu⟩ := Session.exists_cancel hph
        exact ⟨_, by simp only [giveUp, hu]; rfl⟩
      · obtain ⟨u, hu⟩ : ∃ u, session.awaitResponse now q timeout = some u := Session.exists_awaitResponse hph timeout
        exact ⟨_, by simp only [handOver, hu]; rfl⟩
      · exact ⟨_, rfl⟩

end Framed

/-- And on a stream. -/
def framedStarter (target : Target) (maxInFlight : Nat) : Starter (framedKeeper target maxInFlight) where
  Fresh c := Unstarted c.session c.calls
  connect _ := ⟨rfl, rfl⟩
  start _ hs hne h := Framed.unstarted_exchange hs hne h
  resume {_ _ _ _ _ r} hheld hs h := by
    cases r with
    | send => exact Framed.unstarted_resume hs h
    | waiter w => exact Framed.unstarted_step hheld (.inl ⟨_, rfl⟩) hs h
  react {_ _ _ e _} hheld hs h := by
    refine Framed.unstarted_step hheld ?_ hs h
    cases e <;> simp [FramedEvent.act]
  starts _ _ h hout hfits := Framed.unstarted_starts h (hout _ rfl) hfits

/-! ## DoH -/

namespace DohConn

variable {target : Target} {now : Instant} {timeout : Duration} {c c' : DohConn} {q q' : Token} {wire : Bytes}

theorem none_setCall {call : DohCall} (hne : q' ≠ q) (h : c.calls q' = none) : (c.setCall q call).calls q' = none :=
  (Function.update_of_ne hne ..).trans h

theorem none_start (hs : DohConn.start target now timeout c q wire = some c') (hne : q' ≠ q) (h : c.calls q' = none) :
    c'.calls q' = none := by
  simp only [start] at hs
  split at hs
  · cases hs
  · split at hs
    · cases hs
      exact none_setCall hne h
    · split at hs <;> cases hs <;> exact none_setCall hne h

theorem none_resume {r : DohResume} (hs : DohConn.resume target now c q r = some c') (h : c.calls q' = none) :
    c'.calls q' = none := by
  have hne {call : DohCall} (hcall : c.calls q = some call) : q' ≠ q := by
    rintro rfl
    cases h.symm.trans hcall
  simp only [resume] at hs
  split at hs
  · rename_i hcall
    split at hs <;> cases hs
    exact none_setCall (hne hcall) h
  · rename_i hcall
    cases hs
    exact none_setCall (hne hcall) h
  · rename_i hcall
    split at hs <;> cases hs
    exact none_setCall (hne hcall) h
  · cases hs

theorem none_react {e : DohEvent} (hs : c.react e = some c') (h : c.calls q' = none) : c'.calls q' = none := by
  cases e with
  | closed =>
    cases hs
    exact h
  | responds q status body =>
    simp only [react] at hs
    split at hs <;> cases hs
    rename_i hcall
    refine none_setCall ?_ h
    rintro rfl
    cases h.symm.trans hcall

theorem none_starts (h : c.calls q = none) : ∃ c', DohConn.start target now timeout c q wire = some c' := by
  simp only [start, h]
  split
  · exact ⟨_, rfl⟩
  · split <;> exact ⟨_, rfl⟩

end DohConn

/-- And over DoH. -/
def dohStarter (target : Target) : Starter (dohKeeper target) where
  Fresh c q := c.calls q = none
  connect _ := rfl
  start _ hs hne h := DohConn.none_start hs hne h
  resume _ hs h := DohConn.none_resume hs h
  react _ hs h := DohConn.none_react hs h
  starts _ _ h _ _ := DohConn.none_starts h

/-- A query begins without a call over each protocol. -/
def LoadProto.starter (target : Target) : (proto : LoadProto) → Starter (proto.keeper target)
  | .do53Udp => udpStarter target
  | .do53Tcp => framedStarter target tcpInFlight
  | .dot => framedStarter target dotInFlight
  | .doh => dohStarter target

end WireSurge.Dns
