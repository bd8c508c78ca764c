import WireSurge.Dns.Transport

/-!
# Pending slots

How many slots a correlator has, and whose they are. The probe of `register`
goes on as long as the ids it meets are outstanding: with fewer than `2 ^ 16`
of them it ends after at most one probe more than there are, at any value of
the counter (`exists_probed`, `probe_eq`). And a slot belongs to an exchange that was started
and has not returned: `SlotKeeper` says so of a transport, whichever way its
exchanges end.
-/

namespace WireSurge.Dns

open Function (update)

/-! ## The probe -/

namespace Correlator

variable {pending : Pending}

/-- The number of pending slots. -/
def outstanding (c : Correlator) : Nat := c.pending.keys.length

/-- The id of the probe after `k` others. -/
def probed (counter : UInt32) (k : Nat) : UInt16 := (counter + UInt32.ofNat k).toUInt16

theorem probed_toNat (counter : UInt32) (k : Nat) : (probed counter k).toNat = (counter.toNat + k) % 2 ^ 16 := by
  rw [probed, UInt32.toNat_toUInt16, UInt32.toNat_add, UInt32.toNat_ofNat', Nat.add_mod_mod,
    Nat.mod_mod_of_dvd _ (by decide)]

theorem probed_succ (counter : UInt32) (k : Nat) : probed (counter + 1) k = probed counter (k + 1) := by
  refine UInt16.toNat_inj.mp ?_
  rw [probed_toNat, probed_toNat, UInt32.toNat_add, show (1 : UInt32).toNat = 1 from rfl]
  omega

/-- The first id that is not outstanding is taken, and the counter is one further. -/
theorem probe_eq {k : Nat} : ∀ {fuel : Nat} {counter : UInt32}, k < fuel → (∀ i < k, probed counter i ∈ pending) →
    probed counter k ∉ pending →
    probe pending fuel counter = some (probed counter k, counter + UInt32.ofNat (k + 1)) := by
  induction k with
  | zero =>
    intro fuel counter hk _ hfree
    obtain ⟨fuel, rfl⟩ : ∃ n, fuel = n + 1 := ⟨fuel - 1, by omega⟩
    have h0 : probed counter 0 = counter.toUInt16 := by simp [probed]
    rw [probe, if_neg (h0 ▸ hfree), h0]
    rfl
  | succ k ih =>
    intro fuel counter hk hbusy hfree
    obtain ⟨fuel, rfl⟩ : ∃ n, fuel = n + 1 := ⟨fuel - 1, by omega⟩
    have h0 : counter.toUInt16 ∈ pending := by simpa [probed] using hbusy 0 (by omega)
    have hbusy' : ∀ i < k, probed (counter + 1) i ∈ pending := fun i hi => by
      rw [probed_succ]
      exact hbusy (i + 1) (by omega)
    rw [probe, if_pos h0, ih (by omega) hbusy' (by rw [probed_succ]; exact hfree), probed_succ]
    refine congrArg some (Prod.ext rfl (UInt32.toNat_inj.mp ?_))
    simp only [UInt32.toNat_add, UInt32.toNat_ofNat', show (1 : UInt32).toNat = 1 from rfl]
    omega

/-- The ids of `2 ^ 16` successive probes are distinct, so one of the first
`n + 1` is not among `n`. -/
theorem exists_probed (h : pending.keys.length < 2 ^ 16) (counter : UInt32) :
    ∃ k ≤ pending.keys.length, probed counter k ∉ pending ∧ ∀ i < k, probed counter i ∈ pending := by
  have hsome : ∃ k, k ≤ pending.keys.length ∧ probed counter k ∉ pending := by
    by_contra hall
    simp only [not_exists, not_and, not_not] at hall
    have hnodup : ((List.range (pending.keys.length + 1)).map (probed counter)).Nodup := by
      refine List.Nodup.map_on (fun i hi j hj hij => ?_) List.nodup_range
      have := congrArg UInt16.toNat hij
      rw [probed_toNat, probed_toNat] at this
      rw [List.mem_range] at hi hj
      omega
    have hsub : (List.range (pending.keys.length + 1)).map (probed counter) ⊆ pending.keys := by
      intro id hid
      obtain ⟨k, hk, rfl⟩ := List.mem_map.mp hid
      exact hall k (Nat.lt_succ_iff.mp (List.mem_range.mp hk))
    have := (hnodup.subperm hsub).length_le
    rw [List.length_map, List.length_range] at this
    omega
  have hleast := Nat.find_spec hsome
  refine ⟨Nat.find hsome, hleast.1, hleast.2, fun i hi => ?_⟩
  have hmin := Nat.find_min hsome hi
  by_contra hfree
  exact hmin ⟨by omega, hfree⟩

/-- `register` takes the first id that is not outstanding. -/
theorem register_of_probed {c : Correlator} {counter : UInt32} {k : Nat} (hfree : probed counter k ∉ c.pending)
    (hbusy : ∀ i < k, probed counter i ∈ c.pending) (hk : k < 2 ^ 16) (wire : Bytes) :
    ∃ result, register { c with counter } wire = some result ∧
      ∀ r c', result = .ok (r, c') → r.id = probed counter k ∧ c'.counter = counter + UInt32.ofNat (k + 1) := by
  refine ⟨_, by rw [register, probe_eq hk hbusy hfree, Option.map_some], fun r c' hr => ?_⟩
  simp only [bind, Except.bind, pure, Except.pure] at hr
  -- the two bytes of the id, and the slot
  iterate 3
    split at hr
    · cases hr
  cases hr
  exact ⟨rfl, rfl⟩

end Correlator

/-! ## Active queries -/

namespace Session

variable {decode : HeaderDecoder} {now : Instant} {s t : Session} {a : Act}

/-- A query becomes active by its `register` only. -/
theorem active_effect (h : Effect decode now s a t) {q : Token} (hq : (t.queries q).phase.isActive) :
    (s.queries q).phase.isActive ∨ ∃ wire, a = .register q wire := by
  have left {q' : Token} {corr : Correlator} {phase : Phase} {source : Option Nat} (hp : phase.isActive = false)
      (hq : ((s.leave q' corr phase source).queries q).phase.isActive) : (s.queries q).phase.isActive := by
    by_cases hne : q = q'
    · subst hne
      rw [leave_self, hp] at hq
      cases hq
    · rwa [leave_of_ne hne] at hq
  cases h with
  | turn ht => exact .inl (ht.moved.isActive q ▸ hq)
  | @registered q' wire r corr slot ha =>
    by_cases hne : q = q'
    · subst hne
      exact .inr ⟨wire, ha⟩
    · exact .inl (by simpa only [Function.update_of_ne hne] using hq)
  | cancelled => exact .inl (left rfl hq)
  | returned => exact .inl (left rfl hq)
  | ignored | stored | closed => exact .inl hq

theorem not_active_of_cancel {q : Token} (h : s.cancel q = some t) : (t.queries q).phase.isActive = false := by
  simp only [cancel] at h
  split at h
  · split at h
    · cases h
      rw [leave_self]
      rfl
    · cases h
      simp [setPhase, Phase.isActive]
  · cases h

/-- The pending ids are those of the active queries, one for each. -/
theorem Slots.outstanding_le (h : s.Slots) {tokens : List Token}
    (ht : ∀ q, (s.queries q).phase.isActive → q ∈ tokens) : s.corr.outstanding ≤ tokens.length := by
  have hfind {id : UInt16} (hid : id ∈ s.corr.pending.keys) : ∃ slot, s.corr.pending.find id = some slot :=
    Option.isSome_iff_exists.mp (AList.lookup_isSome.mpr hid)
  have hnodup : (s.corr.pending.keys.map s.owner).Nodup := by
    refine List.Nodup.map_on (fun id hid id' hid' heq => ?_) s.corr.pending.nodupKeys
    obtain ⟨slot, hs⟩ := hfind hid
    obtain ⟨slot', hs'⟩ := hfind hid'
    rw [← (h.pending hs).2.1, heq, (h.pending hs').2.1]
  have hsub : s.corr.pending.keys.map s.owner ⊆ tokens := by
    intro q hq
    obtain ⟨id, hid, rfl⟩ := List.mem_map.mp hq
    obtain ⟨slot, hs⟩ := hfind hid
    exact ht _ (h.pending hs).1
  simpa [Correlator.outstanding] using (hnodup.subperm hsub).length_le

end Session

/-- The active queries of a connection are those of exchanges that have not
ended before `await_response`. -/
structure Held (session : Session) (calls : Token → Option Call) : Prop where
  slots : session.Slots
  active {q : Token} : (session.queries q).phase.isActive →
    ∃ call, calls q = some call ∧ ∀ error, call.stage ≠ .failed error

namespace Held

variable {decode : HeaderDecoder} {now : Instant} {session session' : Session} {calls : Token → Option Call}

theorem new : Held .new fun _ => none := ⟨.new, fun h => by cases h⟩

/-- The session gets on, with no query registered. -/
theorem effect {a : Session.Act} (h : Held session calls) (he : Session.Effect decode now session a session')
    (ha : ∀ q wire, a ≠ .register q wire) :
    Held session' calls ∧ ∀ q, (session'.queries q).phase.isActive → (session.queries q).phase.isActive := by
  have hold (q : Token) (hq : (session'.queries q).phase.isActive) : (session.queries q).phase.isActive :=
    (Session.active_effect he hq).resolve_right fun ⟨wire, hw⟩ => ha q wire hw
  exact ⟨⟨h.slots.effect he, fun hq => h.active (hold _ hq)⟩, hold⟩

/-- An exchange gets on, or ends where its query is not active. -/
theorem setCall (h : Held session calls) {q : Token} {call : Call}
    (hq : (session.queries q).phase.isActive → ∀ error, call.stage ≠ .failed error) :
    Held session (update calls q (some call)) := by
  refine ⟨h.slots, fun {q'} hq' => ?_⟩
  by_cases hne : q' = q
  · subst hne
    exact ⟨call, Function.update_self .., hq hq'⟩
  · rw [Function.update_of_ne hne]
    exact h.active hq'

/-- An exchange that has been started registers. -/
theorem register (h : Held session calls) {q : Token} {wire : Bytes} {call : Call}
    (hr : session.register q wire = some session') (hc : ∀ error, call.stage ≠ .failed error) :
    Held session' (update calls q (some call)) ∧
      ∀ q', (session'.queries q').phase.isActive → q' = q ∨ (session.queries q').phase.isActive := by
  have he : Session.Effect rfc1035Header 0 session (.register q wire) session' := Session.register_effect hr
  have hold (q' : Token) (hq' : (session'.queries q').phase.isActive) :
      q' = q ∨ (session.queries q').phase.isActive := by
    rcases Session.active_effect he hq' with hs | ⟨wire', hw⟩
    · exact .inr hs
    · cases hw
      exact .inl rfl
  refine ⟨⟨h.slots.effect he, fun {q'} hq' => ?_⟩, hold⟩
  by_cases hne : q' = q
  · subst hne
    exact ⟨call, Function.update_self .., hc⟩
  · rw [Function.update_of_ne hne]
    exact h.active ((hold q' hq').resolve_left hne)

/-- An exchange enters `await_response`. -/
theorem awaitResponse (h : Held session calls) {q : Token} {timeout : Duration} {call : Call}
    (ha : session.awaitResponse now q timeout = some session') (hc : ∀ error, call.stage ≠ .failed error) :
    Held session' (update calls q (some call)) ∧
      ∀ q', (session'.queries q').phase.isActive → (session.queries q').phase.isActive := by
  have he : Session.Effect rfc1035Header now session (.awaitResponse q timeout) session' :=
    .turn (Session.awaitResponse_turn ha)
  obtain ⟨h', hold⟩ := h.effect he fun _ _ => Session.Act.noConfusion
  exact ⟨h'.setCall fun _ => hc, hold⟩

/-- An exchange gives its slot back. -/
theorem cancel (h : Held session calls) {q : Token} {call : Call} (hc : session.cancel q = some session') :
    Held session' (update calls q (some call)) ∧
      ∀ q', (session'.queries q').phase.isActive → (session.queries q').phase.isActive := by
  have he : Session.Effect rfc1035Header 0 session (.cancel q) session' := Session.cancel_effect h.slots hc
  obtain ⟨h', hold⟩ := h.effect he fun _ _ => Session.Act.noConfusion
  exact ⟨h'.setCall fun hq => by simp [Session.not_active_of_cancel hc] at hq, hold⟩

/-- An exchange that has returned holds no slot. -/
theorem not_active_of_result (h : Held session calls) {q : Token} {result : Outcome}
    (hr : ((calls q).bind fun call => call.result (session.queries q).phase) = some result) :
    ¬(session.queries q).phase.isActive := by
  intro hq
  obtain ⟨call, hc, hstage⟩ := h.active hq
  rw [hc, Option.bind_some, Call.result.eq_def] at hr
  split at hr
  · rename_i error hst
    exact hstage error hst
  · rename_i hst hph
    rw [hph] at hq
    cases hq
  · cases hr

/-- An exchange that was not started holds no slot. -/
theorem not_active_of_none (h : Held session calls) {q : Token} (hc : calls q = none) :
    ¬(session.queries q).phase.isActive := by
  intro hq
  obtain ⟨call, hc', -⟩ := h.active hq
  rw [hc] at hc'
  cases hc'

end Held

/-! ## Transports -/

/-- The correlator behind a connection, if it has one, and the exchanges that
hold its slots: they come with the start of the exchange, and are gone when it
has returned. -/
structure SlotKeeper (T : Transport) where
  correlator : T.Conn → Option Correlator
  Inv : T.Conn → Prop
  Holds : T.Conn → Token → Prop
  connect : Inv T.connect ∧ ∀ q, ¬Holds T.connect q
  start {now : Instant} {timeout : Duration} {c c' : T.Conn} {q : Token} {wire : Bytes} :
    Inv c → T.start now timeout c q wire = some c' → Inv c' ∧ ∀ q', Holds c' q' → q' = q ∨ Holds c q'
  resume {now : Instant} {c c' : T.Conn} {q : Token} {r : T.Resume} :
    Inv c → T.resume now c q r = some c' → Inv c' ∧ ∀ q', Holds c' q' → Holds c q'
  react {now : Instant} {c c' : T.Conn} {e : T.Event} :
    Inv c → T.react now c e = some c' → Inv c' ∧ ∀ q', Holds c' q' → Holds c q'
  result {c : T.Conn} {q : Token} {result : Outcome} : Inv c → T.result c q = some result → ¬Holds c q
  outstanding_le {c : T.Conn} {corr : Correlator} : Inv c → correlator c = some corr →
    ∀ {tokens : List Token}, (∀ q, Holds c q → q ∈ tokens) → corr.outstanding ≤ tokens.length

section

variable {target : Target} {now : Instant}

theorem Waiter.act_ne_register (w : Waiter) (q q' : Token) (wire : Bytes) : w.act q ≠ .register q' wire := by
  cases w <;> exact Session.Act.noConfusion

theorem Reader.act_ne_register (e : Reader) (q : Token) (wire : Bytes) : e.act ≠ .register q wire := by
  cases e <;> exact Session.Act.noConfusion

theorem UdpConn.held_start {timeout : Duration} {c c' : UdpConn} {q : Token} {wire : Bytes}
    (h : Held c.session c.calls) (hs : UdpConn.start target now timeout c q wire = some c') :
    Held c'.session c'.calls ∧
      ∀ q', (c'.session.queries q').phase.isActive → q' = q ∨ (c.session.queries q').phase.isActive := by
  simp only [UdpConn.start] at hs
  split at hs
  · cases hs
  · rename_i hnone
    split at hs
    · cases hs
      exact ⟨h.setCall fun hq => absurd hq (h.not_active_of_none hnone), fun _ hq => .inr hq⟩
    · obtain ⟨session, hr, rfl⟩ := Option.map_eq_some_iff.mp hs
      exact h.register hr fun _ => Stage.noConfusion

theorem UdpConn.held_resume {c c' : UdpConn} {q : Token} {r : UdpResume} (h : Held c.session c.calls)
    (hs : UdpConn.resume target now c q r = some c') :
    Held c'.session c'.calls ∧
      ∀ q', (c'.session.queries q').phase.isActive → (c.session.queries q').phase.isActive := by
  simp only [UdpConn.resume] at hs
  split at hs
  · obtain ⟨session, ha, rfl⟩ := Option.map_eq_some_iff.mp hs
    exact h.awaitResponse ha fun _ => Stage.noConfusion
  · obtain ⟨session, hc, rfl⟩ := Option.map_eq_some_iff.mp hs
    exact h.cancel hc
  · obtain ⟨session, ha, rfl⟩ := Option.map_eq_some_iff.mp hs
    exact h.effect (Session.step_effect h.slots ha) (Waiter.act_ne_register _ _)
  · cases hs

/-- Over UDP, an exchange holds its slot while its query is active. -/
def udpKeeper (target : Target) : SlotKeeper (udpTransport target) where
  correlator c := some c.session.corr
  Inv c := Held c.session c.calls
  Holds c q := (c.session.queries q).phase.isActive
  connect := ⟨.new, fun _ => Bool.false_ne_true⟩
  start h hs := UdpConn.held_start h hs
  resume h hs := UdpConn.held_resume h hs
  react h hs := by
    obtain ⟨session, ha, rfl⟩ := Option.map_eq_some_iff.mp hs
    exact h.effect (Session.step_effect h.slots ha) (Reader.act_ne_register _)
  result h hr := h.not_active_of_result hr
  outstanding_le h hc _ ht := by
    cases hc
    exact h.slots.outstanding_le ht

namespace Framed

variable {s t : Framed} {q : Token} {call call' : Call}

theorem held_handOver {frame : Bytes} (h : Held s.session (update s.calls q (some call')))
    (hs : s.handOver now q call frame = some t) :
    Held t.session t.calls ∧ ∀ q', (t.session.queries q').phase.isActive → (s.session.queries q').phase.isActive := by
  obtain ⟨session, ha, rfl⟩ := Option.map_eq_some_iff.mp hs
  have h' : Held session (update _ q (some { call with stage := .awaiting })) ∧ _ :=
    h.awaitResponse ha fun _ => Stage.noConfusion
  simpa only [setCall, Function.update_idem] using h'

theorem held_giveUp (h : Held s.session (update s.calls q (some call'))) (hs : s.giveUp q call = some t) :
    Held t.session t.calls ∧ ∀ q', (t.session.queries q').phase.isActive → (s.session.queries q').phase.isActive := by
  obtain ⟨session, hc, rfl⟩ := Option.map_eq_some_iff.mp hs
  have h' : Held session (update _ q (some { call with stage := .failed .connectionClosed })) ∧ _ := h.cancel hc
  simpa only [setCall, Function.update_idem] using h'

theorem held_exchange {wire : Bytes} {timeout : Duration} (h : Held s.session s.calls)
    (hs : s.exchange now q wire timeout = some t) :
    Held t.session t.calls ∧
      ∀ q', (t.session.queries q').phase.isActive → q' = q ∨ (s.session.queries q').phase.isActive := by
  simp only [exchange] at hs
  split at hs
  · cases hs
  · rename_i hnone
    have hq := h.not_active_of_none hnone
    split at hs
    · cases hs
      exact ⟨h.setCall fun ha => absurd ha hq, fun _ => .inr⟩
    · split at hs
      · cases hs
        exact ⟨h.setCall fun ha => absurd ha hq, fun _ => .inr⟩
      · obtain ⟨session, hr, hs⟩ := Option.bind_eq_some_iff.mp hs
        have hreg :
            Held session (update s.calls q (some ⟨now, timeout, .sending (frameOf (session.queries q).wire)⟩)) ∧
            _ := h.register hr fun _ => Stage.noConfusion
        obtain ⟨h', hnew⟩ := hreg
        split at hs
        · obtain ⟨ht, hold⟩ := held_giveUp h' hs
          exact ⟨ht, fun q' hq' => hnew q' (hold q' hq')⟩
        · obtain ⟨ht, hold⟩ := held_handOver h' hs
          exact ⟨ht, fun q' hq' => hnew q' (hold q' hq')⟩
        · cases hs
          exact ⟨h', hnew⟩

theorem held_resume (h : Held s.session s.calls) (hs : s.resume now q = some t) :
    Held t.session t.calls ∧ ∀ q', (t.session.queries q').phase.isActive → (s.session.queries q').phase.isActive := by
  simp only [resume] at hs
  split at hs
  · rename_i call hc
    rw [← Function.update_eq_self q s.calls, hc] at h
    split at hs
    · split at hs
      · exact held_handOver h hs
      · split at hs
        · exact held_giveUp h hs
        · cases hs
    · cases hs
  · cases hs

/-- A waiter, the reader or the writer gets on. -/
theorem held_step {decode : HeaderDecoder} {a : Act} (h : Held s.session s.calls)
    (ha : (∃ b, a = .session b) ∨ a = .recv ∨ (∃ ok, a = .wrote ok) ∨ (∃ ok, a = .flushed ok) ∨ a = .shutdown)
    (hs : s.step decode now a = some t) :
    Held t.session t.calls ∧ ∀ q', (t.session.queries q').phase.isActive → (s.session.queries q').phase.isActive := by
  rcases ha with ⟨b, rfl⟩ | rfl | ⟨ok, rfl⟩ | ⟨ok, rfl⟩ | rfl
  · obtain ⟨session, hb, rfl⟩ := session_of_step hs
    refine h.effect (Session.step_effect h.slots hb) fun q wire hreg => ?_
    subst hreg
    cases hs
  · simp only [step, recv] at hs
    split at hs
    · obtain ⟨⟨frame, chan⟩, -, rfl⟩ := Option.map_eq_some_iff.mp hs
      exact ⟨h, fun _ => id⟩
    · cases hs
  · simp only [step, wrote] at hs
    split at hs
    · split at hs <;> cases hs <;> exact ⟨h, fun _ => id⟩
    · cases hs
      exact ⟨h, fun _ => id⟩
    · cases hs
  · simp only [step, flushed] at hs
    split at hs
    · cases hs
      exact ⟨h, fun _ => id⟩
    · cases hs
  · simp only [step, shutdown] at hs
    split at hs
    · cases hs
      exact ⟨h, fun _ => id⟩
    · cases hs

end Framed

/-- Nor is it otherwise over TCP and DoT. -/
def framedKeeper (target : Target) (maxInFlight : Nat) : SlotKeeper (framedTransport target maxInFlight) where
  correlator c := some c.session.corr
  Inv c := Held c.session c.calls
  Holds c q := (c.session.queries q).phase.isActive
  connect := ⟨.new, fun _ => Bool.false_ne_true⟩
  start h hs := Framed.held_exchange h hs
  resume {_ _ _ _ r} h hs := by
    cases r with
    | send => exact Framed.held_resume h hs
    | waiter w => exact Framed.held_step h (.inl ⟨_, rfl⟩) hs
  react {_ _ _ e} h hs := by
    refine Framed.held_step h ?_ hs
    cases e <;> simp [FramedEvent.act]
  result h hr := h.not_active_of_result hr
  outstanding_le h hc _ ht := by
    cases hc
    exact h.slots.outstanding_le ht

/-- DoH has no correlator. -/
def dohKeeper (target : Target) : SlotKeeper (dohTransport target) where
  correlator _ := none
  Inv _ := True
  Holds _ _ := False
  connect := ⟨trivial, fun _ => id⟩
  start _ _ := ⟨trivial, fun _ => False.elim⟩
  resume _ _ := ⟨trivial, fun _ => id⟩
  react _ _ := ⟨trivial, fun _ => id⟩
  result _ _ := id
  outstanding_le _ hc := by cases hc

def LoadProto.keeper (target : Target) : (proto : LoadProto) → SlotKeeper (proto.transport target)
  | .do53Udp => udpKeeper target
  | .do53Tcp => framedKeeper target tcpInFlight
  | .dot => framedKeeper target dotInFlight
  | .doh => dohKeeper target

end

end WireSurge.Dns
