import WireSurge.Dns.Correlation

/-!
# From delivery to pick-up

A reply that `complete` has stored stays in its slot until the waiter takes
it, and `complete` stores the next one over it. So the waiter returns what the
last datagram for its id has for it (`latest`): `pickup_eq_iff` says for which
datagrams that is the reply stored first, and `overwritten` is a run in which
it is not.
-/

namespace WireSurge.Dns.Session

open Function (update)
open Lts (Clocked Timed clocked Reach)

variable {decode : HeaderDecoder} {now : Instant} {s t : Session} {a : Act}

/-- `complete` takes the datagram for a response to the query of this id. -/
def Addressed (decode : HeaderDecoder) (id : UInt16) (buf : Bytes) : Bool :=
  txid buf == some id && (headerOf decode buf id).isSome

/-- The last of the datagrams addressed to the query, if there is one, says
what the reply `r` says. -/
def Repeats (decode : HeaderDecoder) (id : UInt16) (expected : Bytes) (r : DnsResponse) (later : List Bytes) : Prop :=
  ∀ buf, (later.filter (Addressed decode id)).getLast? = some buf →
    questionBytes buf = some expected ∧ headerOf decode buf id = some ⟨r.rcode, r.truncated⟩ ∧
      buf.length = r.bytesIn

/-- What the slot holds after further datagrams. -/
def latest (decode : HeaderDecoder) (id : UInt16) (expected : Bytes) (r : Outcome) (later : List Bytes) : Outcome :=
  later.foldl (fun r buf => if txid buf = some id then (answer decode buf expected).getD r else r) r

theorem latest_concat (id : UInt16) (expected : Bytes) (r : Outcome) (later : List Bytes) (buf : Bytes) :
    latest decode id expected r (later ++ [buf]) =
      if txid buf = some id then (answer decode buf expected).getD (latest decode id expected r later)
      else latest decode id expected r later := by
  rw [latest, List.foldl_append]
  rfl

/-- A datagram has an answer for the query when it is addressed to it. -/
theorem answer_of_txid {id : UInt16} {buf expected : Bytes} (h : txid buf = some id) :
    answer decode buf expected = (headerOf decode buf id).map fun header =>
      responseOf id header buf.length (questionBytes buf == some expected) := by
  rw [answer, h, Option.bind_some]

theorem responseOf_eq_ok {id : UInt16} {header : ResponseHeader} {n : Nat} {matching : Bool} {r : DnsResponse}
    (hid : r.correlation = id) :
    responseOf id header n matching = .ok r ↔ matching = true ∧ header = ⟨r.rcode, r.truncated⟩ ∧ n = r.bytesIn := by
  obtain ⟨rid, rcode, truncated, bytesIn⟩ := r
  obtain ⟨hrcode, htruncated⟩ := header
  obtain rfl : rid = id := hid
  cases matching <;> simp [responseOf, and_assoc]

/-- The slot holds the same reply after the further datagrams when the last one
addressed to the query repeats it. -/
theorem latest_eq_iff {id : UInt16} {expected : Bytes} {r : DnsResponse} (hid : r.correlation = id)
    (later : List Bytes) :
    latest decode id expected (.ok r) later = .ok r ↔ Repeats decode id expected r later := by
  induction later using List.reverseRecOn with
  | nil => simp [latest, Repeats]
  | append_singleton later buf ih =>
    rw [latest_concat]
    by_cases hx : txid buf = some id
    · rw [if_pos hx, answer_of_txid hx]
      cases hh : headerOf decode buf id with
      | none =>
        have ha : Addressed decode id buf = false := by simp [Addressed, hh]
        simpa [Repeats, List.filter_append, ha] using ih
      | some header =>
        have ha : Addressed decode id buf = true := by simp [Addressed, hx, hh]
        simp only [Option.map_some, Option.getD_some, responseOf_eq_ok hid, Repeats, List.filter_append,
          List.filter_cons_of_pos ha, List.filter_nil, List.getLast?_concat, Option.some.injEq, forall_eq', hh,
          beq_iff_eq]
    · have ha : Addressed decode id buf = false := by simp [Addressed, hx]
      rw [if_neg hx]
      simpa [Repeats, List.filter_append, ha] using ih

/-- The query `q` of `s₀`, whose slot held `r`, is over, or its slot holds what
the datagrams since then have made of `r`. -/
structure Held (decode : HeaderDecoder) (s₀ : Session) (q : Token) (r : Outcome) (s : Session) : Prop where
  sameId : (s.queries q).id = (s₀.queries q).id
  sameWire : (s.queries q).wire = (s₀.queries q).wire
  begun : (s.queries q).phase ≠ .fresh
  held : ∃ later, s.datagrams = s₀.datagrams ++ later ∧ ((s.queries q).phase.isActive →
    ∃ slot, s.corr.pending.find (s₀.queries q).id = some slot ∧
      slot.response = some (latest decode (s₀.queries q).id (s₀.queries q).expected r later))

/-- The removal of a slot, by `q` or by another query. -/
theorem Held.leave {s₀ : Session} {q q' : Token} {r : Outcome} {slot : Slot} {phase : Phase} {source : Option Nat}
    (hs : s.Slots) (hh : Held decode s₀ q r s) (hq : (s.queries q').phase.isActive) (hp : phase ≠ .fresh)
    (ha : phase.isActive = false) :
    Held decode s₀ q r (s.leave q' (s.corr.recycle (s.queries q').id slot) phase source) := by
  obtain ⟨hid, hw, hf, later, hd, hslot⟩ := hh
  by_cases h : q = q'
  · subst h
    exact ⟨by simp [hid], by simp [hw], by simpa using hp,
      later, hd, by simp [ha]⟩
  · refine ⟨by simp [leave_of_ne h, hid], by simp [leave_of_ne h, hw], by simpa [leave_of_ne h] using hf,
      later, hd, fun hact => ?_⟩
    simp only [leave_of_ne h] at hact ⊢
    obtain ⟨slot', hl, hr⟩ := hslot hact
    refine ⟨slot', ?_, hr⟩
    rw [leave_corr, Correlator.find_recycle_of_ne, hl]
    intro h'
    rw [← hid] at h'
    exact h (((hs.active hact).1.symm.trans (congrArg s.owner h')).trans (hs.active hq).1)

theorem Held.effect {s₀ : Session} {q : Token} {r : Outcome} (hs : s.Slots) (hh : Held decode s₀ q r s)
    (h : Effect decode now s a t) : Held decode s₀ q r t := by
  obtain ⟨hid, hw, hf, later, hd, hslot⟩ := id hh
  have hexp : (s.queries q).expected = (s₀.queries q).expected := by rw [Query.expected, Query.expected, hw]
  cases h with
  | turn h =>
    have h := h.moved
    refine ⟨by rw [h.kept q]; exact hid, by rw [h.kept q]; exact hw, fun h0 => hf ((h.phase_eq_iff rfl).mp h0), later,
      by rw [h.datagrams, hd], fun ha => ?_⟩
    rw [h.isActive] at ha
    rw [h.corr]
    exact hslot ha
  | @registered q' wire r' corr slot _ hf' hid' _ _ _ hi _ _ _ =>
    have hne : q ≠ q' := fun h => hf (h ▸ hf')
    refine ⟨by simp [hne, hid], by simp [hne, hw], by simp [hne, hf], later, hd, fun ha => ?_⟩
    simp only [Function.update_of_ne hne] at ha
    obtain ⟨slot', hl, hr⟩ := hslot ha
    refine ⟨slot', ?_, hr⟩
    rw [hi, Pending.find_insert_ne, hl]
    intro h
    rw [h, Pending.find_eq_none.mpr hid'] at hl
    cases hl
  | cancelled hph hl => exact Held.leave hs hh (by rw [hph]; rfl) (by simp) rfl
  | returned hph hl _ => exact Held.leave hs hh (by rw [hph]; rfl) (by simp) rfl
  | @ignored buf hn =>
    refine ⟨hid, hw, hf, later ++ [buf], by simp [hd], fun ha => ?_⟩
    obtain ⟨slot, hl, hr⟩ := hslot ha
    refine ⟨slot, hl, ?_⟩
    rw [latest_concat, hr]
    split
    · rename_i hx
      obtain ⟨slot', hl', -, -, he⟩ := hs.slot_of ha
      rw [hid, hl, Option.some.injEq] at hl'
      rw [← hexp, ← he, ← hl', hn _ _ hx hl, Option.getD_none]
    · rfl
  | @stored buf id slot response hx hl hans =>
    refine ⟨hid, hw, hf, later ++ [buf], by simp [hd], fun ha => ?_⟩
    obtain ⟨slot₁, hl₁, hr⟩ := hslot ha
    rw [latest_concat]
    by_cases h : (s₀.queries q).id = id
    · obtain ⟨slot', hl', -, -, he⟩ := hs.slot_of ha
      rw [hid, h, hl, Option.some.injEq] at hl'
      refine ⟨_, by rw [h, Pending.find_insert], ?_⟩
      rw [if_pos (by rw [hx, h]), ← hexp, ← he, ← hl', hans, Option.getD_some]
    · refine ⟨slot₁, by rw [Pending.find_insert_ne h, hl₁], ?_⟩
      rw [hr, if_neg]
      rw [hx, Option.some.injEq]
      exact fun h' => h h'.symm
  | closed => exact ⟨hid, hw, hf, later, hd, hslot⟩

/-- A reply in a slot is the reply the query gets, whatever else happens before
it looks, exactly when the last of the later datagrams addressed to it, if
there is one, repeats the reply. -/
theorem pickup_eq_iff {start : Instant} {t u v : Clocked Session} {id : UInt16} {slot : Slot} {r : DnsResponse}
    (h : Reachable decode Lts.Any start t) (hl : t.state.corr.pending.find id = some slot)
    (hr : slot.response = some (.ok r)) (hu : Reach (clocked (step decode)) Lts.Any t u)
    (hv : clocked (step decode) u (.act (.check (t.state.owner id))) = some v) :
    (v.state.queries (t.state.owner id)).phase = .returned (.ok r) ↔
      Repeats decode id slot.expected r (u.state.datagrams.drop t.state.datagrams.length) := by
  obtain ⟨ha, hid, -, hexp⟩ := h.slots.pending hl
  obtain ⟨buf, -, hx, hans, -⟩ := h.correlation.1.stored hl hr
  obtain ⟨id', header, hx', -, -, hreq⟩ := answer_eq_ok.mp hans
  have hrid : r.correlation = id := by
    rw [hreq, ← hid]
    exact Option.some.inj (hx'.symm.trans hx)
  -- what the slot holds when the query looks
  obtain ⟨hs, hh⟩ : u.state.Slots ∧ Held decode t.state (t.state.owner id) (.ok r) u.state := by
    refine Lts.clocked_inv
      (I := fun (_ : Instant) (s : Session) => s.Slots ∧ Held decode t.state (t.state.owner id) (.ok r) s) hu
      ⟨h.slots, rfl, rfl, (fun hf => by rw [hf] at ha; cases ha), [], by simp, fun _ => ⟨slot, by rw [hid, hl], hr⟩⟩
      (fun _ _ _ _ hi => hi) (fun s a w _ hw ⟨hsl, hi⟩ => ?_)
    have he := step_effect hsl hw
    exact ⟨hsl.effect he, hi.effect hsl he⟩
  obtain ⟨w, hw, rfl⟩ := Lts.clocked_act.mp hv
  obtain ⟨hid', -, -, later, hd, hslot⟩ := hh
  have hdrop : u.state.datagrams.drop t.state.datagrams.length = later := by rw [hd, List.drop_left]
  rw [hid] at hid' hslot
  simp only [step, check] at hw
  split at hw
  · rename_i deadline woke hph
    obtain ⟨slot', hl', hr'⟩ := hslot (by rw [hph]; rfl)
    have hver : Correlator.verdict slot' u.state.corr.closed woke =
        some (latest decode id (t.state.queries (t.state.owner id)).expected (.ok r) later) := by
      rw [Correlator.verdict, hr']
    rw [hid', Correlator.check_of_lookup hl', hver, Option.some.injEq] at hw
    rw [← hw, hdrop, ← hexp, ← latest_eq_iff hrid]
    simp
  · cases hw

/-- A run to `pickup_eq_iff`: no further datagram, and the reply is picked up. -/
theorem pickup_delivered : ∃ t u v,
    Lts.run (clocked (step rfc1035Header)) ⟨0, .new⟩ delivered = some t ∧
      Lts.run (clocked (step rfc1035Header)) t [.act (.notifyOne 0), .act (.wake 0)] = some u ∧
      clocked (step rfc1035Header) u (.act (.check 0)) = some v ∧
      (v.state.queries 0).phase = .returned (.ok ⟨0, 0, false, 19⟩) := by
  have hrun : ∃ t ∈ Lts.run (clocked (step rfc1035Header)) ⟨0, .new⟩ delivered,
      (∃ slot ∈ t.state.corr.pending.find 0, slot.response = some (.ok ⟨0, 0, false, 19⟩)) ∧
        t.state.owner 0 = 0 ∧
        ∃ u ∈ Lts.run (clocked (step rfc1035Header)) t [.act (.notifyOne 0), .act (.wake 0)],
          u.state.datagrams.drop t.state.datagrams.length = [] ∧
            ∃ v ∈ clocked (step rfc1035Header) u (.act (.check 0)), v.state.removals = [(0, 0)] := by
    decide +kernel
  obtain ⟨t, ht, ⟨slot, hl, hr⟩, ho, u, hu, hd, v, hv, -⟩ := hrun
  have h := pickup_eq_iff (Lts.Reach.of_run ht) hl hr (Lts.Reach.of_run hu) (by rw [ho]; exact hv)
  rw [ho, hd] at h
  exact ⟨t, u, v, ht, hu, hv, h.mpr fun _ h0 => by cases h0⟩

/-- A second datagram for the id, with another RCODE, takes the place of a
reply that is not yet picked up. -/
theorem overwritten :
    ¬ ∀ (start : Instant) (t u v : Clocked Session) (id : UInt16) (slot : Slot) (r : DnsResponse),
      Reachable rfc1035Header Lts.Any start t → t.state.corr.pending.find id = some slot →
      slot.response = some (.ok r) → Reach (clocked (step rfc1035Header)) Lts.Any t u →
      clocked (step rfc1035Header) u (.act (.check (t.state.owner id))) = some v →
      (v.state.queries (t.state.owner id)).phase = .returned (.ok r) := by
  intro h
  have hrun : ∃ t ∈ Lts.run (clocked (step rfc1035Header)) ⟨0, .new⟩ delivered,
      (∃ slot ∈ t.state.corr.pending.find 0, slot.response = some (.ok ⟨0, 0, false, 19⟩)) ∧
        t.state.owner 0 = 0 ∧
        ∃ u ∈ Lts.run (clocked (step rfc1035Header)) t
            [.act (.complete (replyA 2)), .act (.notifyOne 0), .act (.wake 0)],
          ∃ v ∈ clocked (step rfc1035Header) u (.act (.check 0)),
            (v.state.queries 0).phase = .returned (.ok ⟨0, 2, false, 19⟩) := by
    decide +kernel
  obtain ⟨t, ht, ⟨slot, hl, hr⟩, ho, u, hu, v, hv, hph⟩ := hrun
  have h := h 0 t u v 0 slot _ (Lts.Reach.of_run ht) hl hr (Lts.Reach.of_run hu) (by rw [ho]; exact hv)
  rw [ho, hph] at h
  simp at h

end WireSurge.Dns.Session
