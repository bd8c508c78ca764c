import WireSurge.Dns.Transport
import WireSurge.Dns.Wakeup

/-!
# When a reply has come

Of a connection one can tell which exchanges have their reply (`answered`), and
whether a poll of an exchange gets on (`ready`) or a task behind the connection does
(`busy`). On every transport a reply that has come stays, an exchange returns a
reply only when it has come, and no wake-up for it is lost: as long as the exchange
has not returned, it is ready, or a task is busy that will wake it
(`Receiver.ready_of_answered`).
-/

namespace WireSurge.Dns

open Function (update)

/-- In `await_response`. -/
def Phase.isAwaiting : Phase → Bool
  | .looping _ | .parked _ | .notified _ | .running _ _ => true
  | .fresh | .registered | .returned _ | .cancelled | .panicked => false

theorem Phase.isActive_of_isAwaiting {p : Phase} (h : p.isAwaiting) : p.isActive := by
  cases p <;> first | rfl | cases h

namespace Session

variable {decode : HeaderDecoder} {now : Instant} {s t : Session} {a : Act} {q : Token}

/-- The reply has come: it is in the slot, or the query has returned with it. One that
comes before the query has been handed over counts from then. -/
def answered (s : Session) (q : Token) : Bool :=
  match (s.queries q).phase with
  | .returned _ => (s.queries q).source.isSome
  | phase => phase.isAwaiting && ((s.corr.pending.find (s.queries q).id).bind Slot.response).isSome

/-- A poll of the query gets on, by the time `before` at the latest. -/
def ready (before : Instant) (s : Session) (q : Token) : Bool :=
  match (s.queries q).phase with
  | .parked deadline => deadline < before
  | _ => true

/-! ## Replies stay -/

theorem answered_of_returned {r : Outcome} (h : (s.queries q).phase = .returned r) :
    s.answered q = (s.queries q).source.isSome := by
  rw [answered, h]

theorem answered_of_awaiting (h : (s.queries q).phase.isAwaiting) :
    s.answered q = ((s.corr.pending.find (s.queries q).id).bind Slot.response).isSome := by
  rw [answered]
  split
  · rename_i hph
    rw [hph] at h
    cases h
  · rw [h, Bool.true_and]

theorem not_registered_of_answered (h : s.answered q) : (s.queries q).phase ≠ .registered := by
  intro hph
  rw [answered, hph] at h
  cases h

theorem answered_iff : s.answered q ↔
    (∃ r, (s.queries q).phase = .returned r ∧ (s.queries q).source.isSome) ∨
      (s.queries q).phase.isAwaiting ∧
        ∃ slot, s.corr.pending.find (s.queries q).id = some slot ∧ slot.response.isSome := by
  constructor
  · intro h
    rw [answered] at h
    split at h
    · rename_i r hph
      exact .inl ⟨r, hph, h⟩
    · obtain ⟨hphase, hresponse⟩ := Bool.and_eq_true_iff.mp h
      rw [Option.isSome_bind, Option.any_eq_true] at hresponse
      exact .inr ⟨hphase, hresponse⟩
  · rintro (⟨r, hph, hsource⟩ | ⟨hphase, slot, hslot, hresponse⟩)
    · rw [answered_of_returned hph]
      exact hsource
    · rw [answered_of_awaiting hphase, hslot, Option.bind_some]
      exact hresponse

/-- A query that awaits goes on to. -/
theorem Turn.isAwaiting (h : Turn now s t) (hq : (s.queries q).phase.isAwaiting) :
    (t.queries q).phase.isAwaiting := by
  have hset {u : Session} {q' : Token} {p : Phase} (hu : u.queries = s.queries) (hp : p.isAwaiting) :
      ((u.setPhase q' p).queries q).phase.isAwaiting := by
    by_cases hne : q = q'
    · rw [hne, setPhase_phase]
      exact hp
    · rwa [setPhase_queries_of_ne _ _ hne, hu]
  cases h with
  | permit | missed => exact hq
  | awaited | took | parked | woke | expired | again | notified => exact hset rfl rfl

/-- A query is changed by its own steps only, once it has returned. -/
theorem Effect.returned_kept (h : Effect decode now s a t) {r : Outcome} (hq : (s.queries q).phase = .returned r) :
    t.queries q = s.queries q := by
  have hne {q' : Token} (hactive : (s.queries q').phase ≠ .returned r) : q ≠ q' := by
    rintro rfl
    exact hactive hq
  cases h with
  | turn h =>
    rw [h.moved.kept q, (h.moved.phase_eq_iff rfl).mpr hq, ← hq]
  | registered _ hph => exact Function.update_of_ne (hne (by rw [hph]; exact Phase.noConfusion)) ..
  | cancelled hph => exact leave_of_ne (hne (by rw [hph]; exact Phase.noConfusion))
  | returned hph => exact leave_of_ne (hne (by rw [hph]; exact Phase.noConfusion))
  | ignored | stored | closed => rfl

/-- The slots of two active queries are two. -/
theorem Slots.id_ne (hs : s.Slots) {q' : Token} (hq : (s.queries q).phase.isActive)
    (hq' : (s.queries q').phase.isActive) (hne : q ≠ q') : (s.queries q).id ≠ (s.queries q').id := by
  intro hid
  apply hne
  rw [← (hs.active hq).1, hid, (hs.active hq').1]

/-- The slot of a query stays when another one leaves. -/
theorem find_leave (hs : s.Slots) {q' : Token} (slot : Slot) (phase : Phase) (source : Option Nat)
    (hq : (s.queries q).phase.isActive) (hq' : (s.queries q').phase.isActive) (hne : q ≠ q') :
    let t := s.leave q' (s.corr.recycle (s.queries q').id slot) phase source
    t.queries q = s.queries q ∧ t.corr.pending.find (s.queries q).id = s.corr.pending.find (s.queries q).id :=
  ⟨leave_of_ne hne, Correlator.find_recycle_of_ne (hs.id_ne hq hq' hne)⟩

/-- A reply that has come stays. -/
theorem answered_effect (hs : s.Slots) (he : Effect decode now s a t) (h : s.answered q) : t.answered q := by
  rcases answered_iff.mp h with ⟨r, hph, hsource⟩ | ⟨hphase, slot, hslot, hresponse⟩
  · rw [answered_of_returned (r := r) (by rw [he.returned_kept hph, hph]), he.returned_kept hph]
    exact hsource
  · have hactive := Phase.isActive_of_isAwaiting hphase
    have hstays (hquery : t.queries q = s.queries q) {slot' : Slot}
        (hfind : t.corr.pending.find (s.queries q).id = some slot') (hr : slot'.response.isSome) : t.answered q :=
      answered_iff.mpr (.inr ⟨by rwa [hquery], slot', by rwa [hquery], hr⟩)
    cases he with
    | turn ht =>
      refine answered_iff.mpr (.inr ⟨ht.isAwaiting hphase, slot, ?_, hresponse⟩)
      rw [ht.moved.corr, ht.moved.kept q]
      exact hslot
    | registered _ hph hid _ _ _ hpending =>
      refine hstays (Function.update_of_ne ?_ ..) ?_ hresponse
      · rintro rfl
        rw [hph] at hphase
        cases hphase
      · rw [hpending, Pending.find_insert_ne, hslot]
        rintro hsame
        rw [hsame, Pending.find_eq_none.mpr hid] at hslot
        cases hslot
    | @cancelled q' _ hph =>
      have hne : q ≠ q' := by
        rintro rfl
        rw [hph] at hphase
        cases hphase
      obtain ⟨hquery, hfind⟩ := find_leave hs _ _ _ hactive (by rw [hph]; rfl) hne
      exact hstays hquery (hfind.trans hslot) hresponse
    | @returned q' slot' _ _ result hph hslot' =>
      by_cases hne : q = q'
      · -- the query returns with what is in its slot
        subst hne
        cases hslot.symm.trans hslot'
        rw [answered_of_returned (r := result) (by rw [leave_self]), leave_self, Option.isSome_map]
        exact hresponse
      · obtain ⟨hquery, hfind⟩ := find_leave hs _ _ _ hactive (by rw [hph]; rfl) hne
        exact hstays hquery (hfind.trans hslot) hresponse
    | ignored | closed => exact hstays rfl hslot hresponse
    | @stored _ id slot' =>
      by_cases hid : (s.queries q).id = id
      · subst hid
        exact hstays rfl (Pending.find_insert ..) rfl
      · exact hstays rfl ((Pending.find_insert_ne hid).trans hslot) hresponse

/-! ## Wake-ups are not lost -/

/-- A query whose slot has a reply has a wake-up outstanding. -/
def Heard (s : Session) : Prop :=
  ∀ q slot, (s.queries q).phase.isActive → s.corr.pending.find (s.queries q).id = some slot →
    slot.response.isSome → WakeOutstanding s q

theorem verdict_ne_none {slot : Slot} {closed woke : Bool} (h : slot.response.isSome) :
    Correlator.verdict slot closed woke ≠ none := by
  obtain ⟨r, hr⟩ := Option.isSome_iff_exists.mp h
  rw [Correlator.verdict, hr]
  exact Option.some_ne_none r

theorem Heard.new : Heard .new := fun _ _ h => by cases h

theorem Heard.leave (hs : s.Slots) (h : Heard s) {q : Token} {slot : Slot} {phase : Phase} {source : Option Nat}
    (hq : (s.queries q).phase.isActive) (hphase : phase.isActive = false) :
    Heard (s.leave q (s.corr.recycle (s.queries q).id slot) phase source) := by
  intro q' slot' hactive hslot' hresponse
  have hne : q' ≠ q := by
    rintro rfl
    rw [leave_self, hphase] at hactive
    cases hactive
  rw [leave_of_ne hne] at hactive hslot'
  obtain ⟨hquery, hfind⟩ := find_leave hs slot phase source hactive hq hne
  have hwake : WakeOutstanding s q' := h q' slot' hactive (hfind.symm.trans hslot') hresponse
  exact hwake.of_eq hquery id

theorem Heard.effect (hs : s.Slots) (hh : s.Handles) (hqs : s.Queues) (h : Heard s)
    (he : Effect decode now s a t) : Heard t := by
  intro q slot hactive hslot hresponse
  have hold {slot : Slot} (hactive : (s.queries q).phase.isActive)
      (hslot : s.corr.pending.find (s.queries q).id = some slot) (hresponse : slot.response.isSome) :
      WakeOutstanding s q := h q slot hactive hslot hresponse
  cases he with
  | turn ht =>
    have hm := ht.moved
    rw [hm.isActive] at hactive
    rw [hm.corr, hm.kept q] at hslot
    refine (hold hactive hslot hresponse).turn hh hqs hactive ht fun slot' woke hslot' => ?_
    cases hslot.symm.trans hslot'
    exact verdict_ne_none hresponse
  | @registered q' _ r corr slot' _ hph hid _ _ _ hpending _ hnone =>
    by_cases hne : q = q'
    · subst hne
      simp only [Function.update_self, hpending, Pending.find_insert, Option.some.injEq] at hslot
      subst hslot
      rw [hnone] at hresponse
      cases hresponse
    · simp only [Function.update_of_ne hne, hpending] at hactive hslot
      obtain ⟨slot'', hfind, -⟩ := hs.slot_of hactive
      have hids : (s.queries q).id ≠ r.id := by
        intro hsame
        rw [hsame, Pending.find_eq_none.mpr hid] at hfind
        cases hfind
      rw [Pending.find_insert_ne hids] at hslot
      exact (hold hactive hslot hresponse).of_eq (Function.update_of_ne hne ..) id
  | cancelled hph => exact h.leave hs (by rw [hph]; rfl) rfl q slot hactive hslot hresponse
  | returned hph => exact h.leave hs (by rw [hph]; rfl) rfl q slot hactive hslot hresponse
  | ignored => exact (hold hactive hslot hresponse).of_eq rfl id
  | @stored _ id slot' _ _ hslot' =>
    by_cases hid : (s.queries q).id = id
    · -- the query whose reply it is will be notified
      obtain ⟨own, hown, -, hnotify, -⟩ := hs.slot_of hactive
      rw [hid] at hown
      cases hown.symm.trans hslot'
      exact .of_primed (.inr (by rw [hnotify]; exact List.mem_cons_self))
    · rw [Pending.find_insert_ne hid] at hslot
      exact (hold hactive hslot hresponse).of_eq rfl fun hp => hp.imp_right (List.mem_cons_of_mem _)
  | closed => exact (hold hactive hslot hresponse).of_eq rfl fun hp => hp.imp_right (List.mem_append_right _)

/-- What holds of every session. -/
structure Sound (decode : HeaderDecoder) (s : Session) : Prop where
  slots : s.Slots
  handles : s.Handles
  queues : s.Queues
  provenance : Provenance decode s
  heard : Heard s

namespace Sound

theorem new (decode : HeaderDecoder) : Sound decode .new := ⟨.new, .new, .new, .new decode, .new⟩

theorem step (h : Sound decode s) (hs : s.step decode now a = some t) : Sound decode t := by
  have he := step_effect h.slots hs
  exact ⟨h.slots.effect he, h.handles.effect h.slots he, h.queues.effect h.handles he,
    h.provenance.effect h.slots he, h.heard.effect h.slots h.handles h.queues he⟩

/-- A reply is returned only when it has come. -/
theorem answered_of_ok (h : Sound decode s) {r : DnsResponse} (hq : (s.queries q).phase = .returned (.ok r)) :
    s.answered q := by
  obtain ⟨k, hk⟩ := h.provenance.ok hq
  rw [answered_of_returned hq, hk]
  rfl

/-- A query whose reply has come gets on, or will be notified. -/
theorem ready_or_inHand (h : Sound decode s) (hq : s.answered q) (before : Instant) :
    s.ready before q ∨ s.inHand ≠ [] := by
  by_cases hready : s.ready before q
  · exact .inl hready
  · obtain ⟨deadline, hparked⟩ : ∃ deadline, (s.queries q).phase = .parked deadline := by
      rw [ready] at hready
      split at hready
      · rename_i deadline hph
        exact ⟨deadline, hph⟩
      · exact absurd rfl hready
    rcases answered_iff.mp hq with ⟨r, hph, -⟩ | ⟨hphase, slot, hslot, hresponse⟩
    · rw [hparked] at hph
      cases hph
    · have hwoken := h.heard q slot (Phase.isActive_of_isAwaiting hphase) hslot hresponse
      simp only [WakeOutstanding, hparked] at hwoken
      rcases hwoken with hpermit | hmem
      · -- a permit is stored only while nobody is parked
        have hmem := h.queues.mem.mpr ⟨⟨deadline, hparked⟩, rfl⟩
        rw [Notify.queue_of_permit hpermit] at hmem
        cases hmem
      · exact .inr (List.ne_nil_of_mem hmem)

end Sound

/-- One session becomes another by steps of it. -/
def Becomes (decode : HeaderDecoder) : Session → Session → Prop :=
  Lts.Reach (fun s (a : Instant × Act) => s.step decode a.1 a.2) Lts.Any

theorem Becomes.one (now : Instant) (a : Act) (h : s.step decode now a = some t) : Becomes decode s t :=
  (Lts.Reach.refl s).tail (a := (now, a)) trivial h

theorem Becomes.kept (h : Becomes decode s t) (hs : Sound decode s) :
    Sound decode t ∧ ∀ q, s.answered q → t.answered q := by
  refine Lts.Reach.inv (I := fun t => Sound decode t ∧ ∀ q, s.answered q → t.answered q) h ⟨hs, fun _ => id⟩ ?_
  rintro u ⟨now, a⟩ v ⟨hu, hold⟩ - hstep
  exact ⟨hu.step hstep, fun q hq => answered_effect hu.slots (step_effect hu.slots hstep) (hold q hq)⟩

end Session

/-! ## Transports -/

/-- What one can tell of a connection: which exchanges have their reply, for which a
poll gets on by a given time, which wait until the socket takes their datagram, and
whether a task behind the connection gets on by itself, with what the operations
keep of it. -/
structure Receiver (T : Transport) where
  answered : T.Conn → Token → Bool
  ready : Instant → T.Conn → Token → Bool
  sending : T.Conn → Token → Bool
  busy : T.Conn → Bool
  Inv : T.Conn → Prop
  connect : Inv T.connect
  start {now : Instant} {timeout : Duration} {c c' : T.Conn} {q : Token} {wire : Bytes} :
    Inv c → T.start now timeout c q wire = some c' → Inv c' ∧ ∀ q', answered c q' → answered c' q'
  resume {now : Instant} {c c' : T.Conn} {q : Token} {r : T.Resume} :
    Inv c → T.resume now c q r = some c' → Inv c' ∧ ∀ q', answered c q' → answered c' q'
  react {now : Instant} {c c' : T.Conn} {e : T.Event} :
    Inv c → T.react now c e = some c' → Inv c' ∧ ∀ q', answered c q' → answered c' q'
  answered_of_ok {c : T.Conn} {q : Token} {r : DnsResponse} : Inv c → T.result c q = some (.ok r) → answered c q
  ready_of_answered {c : T.Conn} {q : Token} :
    Inv c → answered c q → ∀ before, ready before c q ∨ busy c

section

variable {target : Target} {now : Instant} {timeout : Duration} {q : Token} {wire : Bytes}

/-- The reply that an exchange with a query returns is that of the query. -/
theorem Call.returned_of_ok {call : Call} {phase : Phase} {r : DnsResponse} (h : call.result phase = some (.ok r)) :
    phase = .returned (.ok r) := by
  rw [Call.result.eq_def] at h
  split at h <;> cases h
  rfl

theorem returned_of_result {session : Session} {calls : Token → Option Call} {r : DnsResponse}
    (h : ((calls q).bind fun call => call.result (session.queries q).phase) = some (.ok r)) :
    (session.queries q).phase = .returned (.ok r) := by
  obtain ⟨call, -, hresult⟩ := Option.bind_eq_some_iff.mp h
  exact Call.returned_of_ok hresult

theorem UdpConn.becomes_start {c c' : UdpConn} (h : UdpConn.start target now timeout c q wire = some c') :
    Session.Becomes target.decode c.session c'.session := by
  simp only [UdpConn.start] at h
  split at h
  · cases h
  · split at h
    · cases h
      exact .refl _
    · obtain ⟨session, hregister, rfl⟩ := Option.map_eq_some_iff.mp h
      exact .one now (.register q wire) hregister

theorem UdpConn.becomes_resume {c c' : UdpConn} {r : UdpResume} (h : UdpConn.resume target now c q r = some c') :
    Session.Becomes target.decode c.session c'.session := by
  simp only [UdpConn.resume] at h
  split at h
  · rename_i timeout _ _
    obtain ⟨session, hawait, rfl⟩ := Option.map_eq_some_iff.mp h
    exact .one now (.awaitResponse q timeout) hawait
  · obtain ⟨session, hcancel, rfl⟩ := Option.map_eq_some_iff.mp h
    exact .one now (.cancel q) hcancel
  · obtain ⟨session, hstep, rfl⟩ := Option.map_eq_some_iff.mp h
    exact .one now _ hstep
  · cases h

/-- An exchange is in `socket.send`, which waits while the socket takes no datagram. -/
def UdpConn.sending (c : UdpConn) (q : Token) : Bool := (c.session.queries q).phase = .registered

def UdpConn.ready (before : Instant) (c : UdpConn) (q : Token) : Bool :=
  !c.sending q && c.session.ready before q

/-- What the receiver of a UDP connection owes. -/
def udpReceiver (target : Target) : Receiver (udpTransport target) where
  answered c := c.session.answered
  ready := UdpConn.ready
  sending := UdpConn.sending
  busy c := !c.session.inHand.isEmpty
  Inv c := c.session.Sound target.decode
  connect := .new _
  start h hs := (UdpConn.becomes_start hs).kept h
  resume h hs := (UdpConn.becomes_resume hs).kept h
  react h hs := by
    obtain ⟨session, hstep, rfl⟩ := Option.map_eq_some_iff.mp hs
    exact (Session.Becomes.one _ _ hstep).kept h
  answered_of_ok h hr := h.answered_of_ok (returned_of_result hr)
  ready_of_answered h hq before := by
    have hsent : ¬ UdpConn.sending _ _ := fun hph => Session.not_registered_of_answered hq (of_decide_eq_true hph)
    simpa [UdpConn.ready, hsent] using h.ready_or_inHand hq before

namespace Framed

variable {decode : HeaderDecoder} {s t : Framed} {call : Call}

theorem becomes_handOver {frame : Bytes} (h : s.handOver now q call frame = some t) :
    Session.Becomes decode s.session t.session := by
  obtain ⟨session, hawait, rfl⟩ := Option.map_eq_some_iff.mp h
  exact .one now (.awaitResponse q call.timeout) hawait

theorem becomes_giveUp (h : s.giveUp q call = some t) : Session.Becomes decode s.session t.session := by
  obtain ⟨session, hcancel, rfl⟩ := Option.map_eq_some_iff.mp h
  exact .one 0 (.cancel q) hcancel

theorem becomes_exchange (h : s.exchange now q wire timeout = some t) :
    Session.Becomes decode s.session t.session := by
  simp only [exchange] at h
  split at h
  · cases h
  · split at h
    · cases h
      exact .refl _
    · split at h
      · cases h
        exact .refl _
      · obtain ⟨session, hregister, h⟩ := Option.bind_eq_some_iff.mp h
        have hone : Session.Becomes decode s.session session := .one now (.register q wire) hregister
        split at h
        · exact hone.trans (becomes_giveUp (s := { s with session }) h)
        · rename_i chan _
          exact hone.trans (becomes_handOver (s := { s with session, chan }) h)
        · cases h
          exact hone

theorem becomes_resume (h : s.resume now q = some t) : Session.Becomes decode s.session t.session := by
  simp only [resume] at h
  split at h
  · split at h
    · split at h
      · exact becomes_handOver h
      · split at h
        · exact becomes_giveUp h
        · cases h
    · cases h
  · cases h

theorem becomes_step {a : Act} (ha : ∀ q wire timeout, a ≠ .exchange q wire timeout)
    (h : s.step decode now a = some t) : Session.Becomes decode s.session t.session := by
  cases a with
  | exchange q wire timeout => exact absurd rfl (ha q wire timeout)
  | resume q => exact becomes_resume h
  | session b =>
    obtain ⟨session, hb, rfl⟩ := session_of_step h
    exact .one now b hb
  | recv =>
    simp only [step, recv] at h
    split at h
    · obtain ⟨⟨frame, chan⟩, -, rfl⟩ := Option.map_eq_some_iff.mp h
      exact .refl _
    · cases h
  | wrote ok =>
    simp only [step, wrote] at h
    split at h
    · split at h <;> cases h <;> exact .refl _
    · cases h
      exact .refl _
    · cases h
  | flushed ok =>
    simp only [step, flushed] at h
    split at h <;> cases h
    exact .refl _
  | shutdown =>
    simp only [step, shutdown] at h
    split at h <;> cases h
    exact .refl _

/-- An exchange in `send` gets on when there is a place for it, or the channel is closed. -/
def ready (before : Instant) (s : Framed) (q : Token) : Bool :=
  match (s.session.queries q).phase with
  | .registered => q ∈ s.chan.granted || s.chan.closed
  | _ => s.session.ready before q

/-- The reader has queries to notify, or the writer has a frame to take. -/
def busy (s : Framed) : Bool := !s.session.inHand.isEmpty || s.writer = .receiving && !s.chan.queue.isEmpty

theorem ready_of_session {before : Instant} (hq : s.session.answered q) (h : s.session.ready before q) :
    s.ready before q := by
  rw [ready]
  split
  · rename_i hph
    exact absurd hph (Session.not_registered_of_answered hq)
  · exact h

end Framed

/-- What the receiver of a stream owes; a frame that waits for the writer is in the
channel. -/
def framedReceiver (target : Target) (maxInFlight : Nat) : Receiver (framedTransport target maxInFlight) where
  answered c := c.session.answered
  ready := Framed.ready
  sending _ _ := false
  busy := Framed.busy
  Inv c := c.session.Sound target.decode
  connect := .new _
  start h hs := (Framed.becomes_exchange hs).kept h
  resume {_ _ _ _ r} h hs := by
    cases r with
    | send => exact (Framed.becomes_resume hs).kept h
    | waiter w => exact (Framed.becomes_step (fun _ _ _ => Framed.Act.noConfusion) hs).kept h
  react {_ _ _ e} h hs := by
    refine (Framed.becomes_step (fun _ _ _ => ?_) hs).kept h
    cases e <;> exact Framed.Act.noConfusion
  answered_of_ok h hr := h.answered_of_ok (returned_of_result hr)
  ready_of_answered h hq before := by
    rcases h.ready_or_inHand hq before with hready | hnotify
    · exact .inl (Framed.ready_of_session hq hready)
    · refine .inr ?_
      simp [Framed.busy, hnotify]

namespace DohConn

/-- There is a response for the query `q`. -/
def answered (c : DohConn) (q : Token) : Bool := (c.calls q).any fun call => call.response.isSome

/-- The driver wakes an exchange for its response, the timer at its deadline. -/
def ready (before : Instant) (c : DohConn) (q : Token) : Bool :=
  (c.calls q).all fun call => call.result.isSome || call.response.isSome || call.deadline < before

/-- A reply is made of a response. -/
def Sound (c : DohConn) : Prop :=
  ∀ q call r, c.calls q = some call → call.result = some (.ok r) → call.response.isSome

variable {c c' : DohConn}

@[simp] theorem calls_setCall (call : DohCall) : (c.setCall q call).calls = update c.calls q (some call) := rfl

theorem sound_setCall (h : c.Sound) {call : DohCall}
    (hcall : ∀ r, call.result = some (.ok r) → call.response.isSome)
    (hresponse : ∀ old, c.calls q = some old → old.response.isSome → call.response.isSome) :
    (c.setCall q call).Sound ∧ ∀ q', c.answered q' → (c.setCall q call).answered q' := by
  refine ⟨fun q' call' r hc hr => ?_, fun q' hq' => ?_⟩
  · by_cases hne : q' = q
    · subst hne
      rw [calls_setCall, Function.update_self, Option.some.injEq] at hc
      subst hc
      exact hcall r hr
    · rw [calls_setCall, Function.update_of_ne hne] at hc
      exact h q' call' r hc hr
  · by_cases hne : q' = q
    · subst hne
      obtain ⟨old, hold, hsome⟩ := (Option.any_eq_true _ _).mp hq'
      rw [answered, calls_setCall, Function.update_self, Option.any_some]
      exact hresponse old hold hsome
    · rw [answered, calls_setCall, Function.update_of_ne hne]
      exact hq'

theorem sound_start (h : c.Sound) (hs : DohConn.start target now timeout c q wire = some c') :
    c'.Sound ∧ ∀ q', c.answered q' → c'.answered q' := by
  simp only [start] at hs
  split at hs
  · cases hs
  · rename_i hnone
    have hnew {call : DohCall} (hcall : ∀ r, call.result ≠ some (.ok r)) :
        (c.setCall q call).Sound ∧ ∀ q', c.answered q' → (c.setCall q call).answered q' :=
      sound_setCall h (fun r hr => absurd hr (hcall r)) fun old hold => by
        rw [hnone] at hold
        cases hold
    split at hs
    · cases hs
      exact hnew nofun
    · split at hs <;> cases hs <;> exact hnew nofun

theorem sound_resume {r : DohResume} (h : c.Sound) (hs : DohConn.resume target now c q r = some c') :
    c'.Sound ∧ ∀ q', c.answered q' → c'.answered q' := by
  simp only [resume] at hs
  split at hs
  · split at hs <;> cases hs
    exact sound_setCall h (fun _ _ => rfl) fun _ _ _ => rfl
  · rename_i hcall
    cases hs
    exact sound_setCall h nofun fun old hold hsome => by
      rw [hcall] at hold
      cases hold
      exact hsome
  · rename_i hcall
    split at hs <;> cases hs
    exact sound_setCall h nofun fun old hold hsome => by
      rw [hcall] at hold
      cases hold
      exact hsome
  · cases hs

theorem sound_react {e : DohEvent} (h : c.Sound) (hs : c.react e = some c') :
    c'.Sound ∧ ∀ q', c.answered q' → c'.answered q' := by
  cases e with
  | closed =>
    cases hs
    exact ⟨h, fun _ => id⟩
  | responds q status body =>
    simp only [react] at hs
    split at hs <;> cases hs
    exact sound_setCall h nofun fun _ _ _ => rfl

end DohConn

/-- What the HTTP/2 driver owes. -/
def dohReceiver (target : Target) : Receiver (dohTransport target) where
  answered := DohConn.answered
  ready := DohConn.ready
  sending _ _ := false
  busy _ := false
  Inv := DohConn.Sound
  connect _ _ _ h := by cases h
  start := DohConn.sound_start
  resume := DohConn.sound_resume
  react := DohConn.sound_react
  answered_of_ok {c q r} h hr := by
    obtain ⟨call, hcall, hresult⟩ := Option.bind_eq_some_iff.mp hr
    show (c.calls q).any (fun call => call.response.isSome) = true
    rw [hcall]
    exact h q call r hcall hresult
  ready_of_answered {c q} _ hq before := by
    obtain ⟨call, hcall, hsome⟩ := (Option.any_eq_true _ _).mp hq
    exact .inl (by simp [DohConn.ready, hcall, hsome])

/-- The receiver of a protocol. -/
def LoadProto.receiver (target : Target) : (proto : LoadProto) → Receiver (proto.transport target)
  | .do53Udp => udpReceiver target
  | .do53Tcp => framedReceiver target tcpInFlight
  | .dot => framedReceiver target dotInFlight
  | .doh => dohReceiver target

end

end WireSurge.Dns
