import WireSurge.Dns.Exchange

/-!
# Which reply a query gets

Two invariants of the exchanges on one correlator. `Provenance` follows every
reply, in a slot or returned, to the datagram it came from: one that
`complete` processed while the query was registered, with its id and its
question. `Lifetimes` says when queries are registered: two that took the
same id were never so at the same time. Together they give
`exact_correlation`.
-/

namespace WireSurge.Dns.Session

open Function (update)
open Lts (Clocked Timed clocked Reach)

variable {decode : HeaderDecoder} {now : Instant} {s t : Session} {a : Act}

/-! ## Provenance -/

/-- The result `r` is what datagram `k` has for the query `q`, which was
registered by then. -/
def Carries (decode : HeaderDecoder) (s : Session) (q : Token) (k : Nat) (r : Outcome) : Prop :=
  ∃ buf, s.datagrams[k]? = some buf ∧ txid buf = some (s.queries q).id ∧
    answer decode buf (s.queries q).expected = some r ∧ (s.queries q).registeredAt ≤ k

structure Provenance (decode : HeaderDecoder) (s : Session) : Prop where
  born (q : Token) : (s.queries q).registeredAt ≤ s.datagrams.length
  wire {q : Token} : (s.queries q).phase ≠ .fresh → txid (s.queries q).wire = some (s.queries q).id
  stored {id : UInt16} {slot : Slot} {r : Outcome} : s.corr.pending.find id = some slot →
    slot.response = some r → Carries decode s (s.owner id) (s.source id) r
  returned {q : Token} {k : Nat} : (s.queries q).source = some k →
    ∃ r e, (s.queries q).phase = .returned r ∧ (s.queries q).removedAt = some e ∧ k < e ∧ Carries decode s q k r
  ok {q : Token} {r : DnsResponse} : (s.queries q).phase = .returned (.ok r) → ∃ k, (s.queries q).source = some k

theorem Provenance.new (decode : HeaderDecoder) : Provenance decode .new where
  born _ := Nat.le_refl 0
  wire h := absurd rfl h
  stored h := by cases h
  returned h := by cases h
  ok h := by cases h

/-- What a query is registered with: a step that keeps it, and adds datagrams
at most at the end, keeps what the query's datagrams carry. -/
theorem Carries.mono {q : Token} {k : Nat} {r : Outcome} (h : Carries decode s q k r)
    (hd : ∃ more, t.datagrams = s.datagrams ++ more) (hid : (t.queries q).id = (s.queries q).id)
    (hw : (t.queries q).wire = (s.queries q).wire)
    (hb : (t.queries q).registeredAt = (s.queries q).registeredAt) : Carries decode t q k r := by
  obtain ⟨buf, hk, hx, ha, hr⟩ := h
  obtain ⟨more, hd⟩ := hd
  refine ⟨buf, ?_, by rw [hid]; exact hx, by rw [Query.expected, hw]; exact ha, by rw [hb]; exact hr⟩
  rw [hd, List.getElem?_append_left (List.getElem?_eq_some_iff.mp hk).1, hk]

theorem Carries.lt {q : Token} {k : Nat} {r : Outcome} (h : Carries decode s q k r) :
    k < s.datagrams.length := by
  obtain ⟨buf, hk, -⟩ := h
  exact (List.getElem?_eq_some_iff.mp hk).1

theorem Provenance.moved (hp : Provenance decode s) (h : Moved s t) : Provenance decode t := by
  have rest (q : Token) : (t.queries q).id = (s.queries q).id ∧ (t.queries q).wire = (s.queries q).wire ∧
      (t.queries q).registeredAt = (s.queries q).registeredAt ∧ (t.queries q).source = (s.queries q).source ∧
      (t.queries q).removedAt = (s.queries q).removedAt := by
    rw [h.kept q]
    exact ⟨rfl, rfl, rfl, rfl, rfl⟩
  have carries {q k r} (hc : Carries decode s q k r) : Carries decode t q k r :=
    hc.mono ⟨[], by rw [h.datagrams, List.append_nil]⟩ (rest q).1 (rest q).2.1 (rest q).2.2.1
  constructor
  · intro q
    rw [h.datagrams, (rest q).2.2.1]
    exact hp.born q
  · intro q hq
    rw [(rest q).1, (rest q).2.1]
    exact hp.wire fun hf => hq ((h.phase_eq_iff rfl).mpr hf)
  · intro id slot r hl hr
    rw [h.corr] at hl
    rw [h.owner, h.source]
    exact carries (hp.stored hl hr)
  · intro q k hk
    rw [(rest q).2.2.2.1] at hk
    obtain ⟨r, e, hr, he, hke, hc⟩ := hp.returned hk
    exact ⟨r, e, (h.phase_eq_iff rfl).mpr hr, by rw [(rest q).2.2.2.2, he], hke, carries hc⟩
  · intro q r hr
    rw [(rest q).2.2.2.1]
    exact hp.ok ((h.phase_eq_iff rfl).mp hr)

/-- The removal of a slot by its query, with a result that is the slot's reply
where there is one. -/
theorem Provenance.leave (hs : s.Slots) (hp : Provenance decode s) {q : Token} {slot : Slot} {phase : Phase}
    {source : Option Nat} (hq : (s.queries q).phase.isActive)
    (hl : s.corr.pending.find (s.queries q).id = some slot)
    (hsrc : ∀ k, source = some k → k = s.source (s.queries q).id ∧ ∃ r, slot.response = some r ∧ phase = .returned r)
    (hok : ∀ r, phase = .returned (.ok r) → ∃ k, source = some k) :
    Provenance decode (s.leave q (s.corr.recycle (s.queries q).id slot) phase source) := by
  have ho := (hs.active hq).1
  have carries {q' k r} (hc : Carries decode s q' k r) :
      Carries decode (s.leave q (s.corr.recycle (s.queries q).id slot) phase source) q' k r := by
    by_cases h : q' = q
    · subst h; exact hc.mono ⟨[], by simp⟩ (by simp) (by simp) (by simp)
    · exact hc.mono ⟨[], by simp⟩ (by simp [leave_of_ne h]) (by simp [leave_of_ne h]) (by simp [leave_of_ne h])
  constructor
  · intro q'
    by_cases h : q' = q
    · subst h; simpa using hp.born q'
    · simpa [leave_of_ne h] using hp.born q'
  · intro q' hq'
    by_cases h : q' = q
    · subst h
      simpa using hp.wire (q := q') fun hf => by rw [hf] at hq; cases hq
    · simp only [leave_of_ne h] at hq' ⊢
      exact hp.wire hq'
  · intro id slot' r hl' hr
    have hid : id ≠ (s.queries q).id := by
      rintro rfl
      rw [leave_corr, Correlator.find_recycle_self] at hl'
      cases hl'
    rw [leave_corr, Correlator.find_recycle_of_ne hid] at hl'
    exact carries (hp.stored hl' hr)
  · intro q' k hk
    by_cases h : q' = q
    · subst h
      simp only [leave_self] at hk
      obtain ⟨rfl, r, hr, rfl⟩ := hsrc k hk
      have hc := hp.stored hl hr
      rw [ho] at hc
      exact ⟨r, _, by simp, by simp, hc.lt, carries hc⟩
    · simp only [leave_of_ne h] at hk
      obtain ⟨r, e, hr, he, hke, hc⟩ := hp.returned hk
      exact ⟨r, e, by simp [leave_of_ne h, hr], by simp [leave_of_ne h, he], hke, carries hc⟩
  · intro q' r hr
    by_cases h : q' = q
    · subst h
      simp only [leave_self] at hr ⊢
      exact hok r hr
    · simp only [leave_of_ne h] at hr ⊢
      exact hp.ok hr

/-- A reply is returned only from the slot. -/
theorem response_of_verdict {slot : Slot} {closed woke : Bool} {r : DnsResponse}
    (h : Correlator.verdict slot closed woke = some (.ok r)) : slot.response = some (.ok r) := by
  unfold Correlator.verdict at h
  cases hr : slot.response with
  | some result => rwa [hr] at h
  | none =>
    rw [hr] at h
    cases closed <;> cases woke <;> cases h

theorem Provenance.effect (hs : s.Slots) (hp : Provenance decode s) (h : Effect decode now s a t) :
    Provenance decode t := by
  cases h with
  | turn h => exact hp.moved h.moved
  | @registered q wire r corr slot _ hf hid hw _ _ hi _ hresp _ =>
    have carries {q' k r'} (hne : q' ≠ q) (hc : Carries decode s q' k r') := hc.mono (t := { s with
      corr
      queries := update s.queries q
        { id := r.id, notify := r.notify, wire := r.wire, phase := .registered,
          registeredAt := s.datagrams.length, removedAt := none, source := none }
      owner := update s.owner r.id q }) ⟨[], by simp⟩ (by simp [hne]) (by simp [hne]) (by simp [hne])
    constructor
    · intro q'
      by_cases h : q' = q
      · subst h; simp
      · simpa [h] using hp.born q'
    · intro q' hq'
      by_cases h : q' = q
      · subst h; simpa using hw
      · simp only [Function.update_of_ne h] at hq' ⊢
        exact hp.wire hq'
    · intro id slot' r' hl hr
      by_cases h : id = r.id
      · subst h
        rw [hi, Pending.find_insert, Option.some.injEq] at hl
        rw [← hl, hresp] at hr
        cases hr
      · rw [hi, Pending.find_insert_ne h] at hl
        have hne : s.owner id ≠ q := by
          intro hq
          have ha := (hs.pending hl).1
          rw [hq, hf] at ha
          cases ha
        simp only [Function.update_of_ne h]
        exact carries hne (hp.stored hl hr)
    · intro q' k hk
      by_cases h : q' = q
      · subst h; simp at hk
      · simp only [Function.update_of_ne h] at hk ⊢
        obtain ⟨r', e, hr, he, hke, hc⟩ := hp.returned hk
        exact ⟨r', e, hr, he, hke, carries h hc⟩
    · intro q' r' hr
      by_cases h : q' = q
      · subst h; simp at hr
      · simp only [Function.update_of_ne h] at hr ⊢
        exact hp.ok hr
  | @cancelled q slot hph hl =>
    exact hp.leave hs (by rw [hph]; rfl) hl (fun _ h => by cases h) (fun _ h => by cases h)
  | @returned q slot deadline woke result hph hl hv =>
    refine hp.leave hs (by rw [hph]; rfl) hl (fun k hk => ?_) (fun r hr => ?_)
    · obtain ⟨r, hr, rfl⟩ := Option.map_eq_some_iff.mp hk
      simp only [Correlator.verdict, hr, Option.some.injEq] at hv
      exact ⟨rfl, r, hr, by rw [hv]⟩
    · obtain rfl := Phase.returned.inj hr
      exact ⟨_, by rw [response_of_verdict hv]; rfl⟩
  | @ignored buf _ =>
    have carries {q k r} (hc : Carries decode s q k r) :=
      hc.mono (t := { s with datagrams := s.datagrams ++ [buf] }) ⟨[buf], rfl⟩ rfl rfl rfl
    refine ⟨fun q => ?_, hp.wire, fun hl hr => carries (hp.stored hl hr), fun hk => ?_, hp.ok⟩
    · rw [List.length_append]
      exact Nat.le_add_right_of_le (hp.born q)
    · obtain ⟨r, e, hr, he, hke, hc⟩ := hp.returned hk
      exact ⟨r, e, hr, he, hke, carries hc⟩
  | @stored buf id slot response hid hl ha =>
    obtain ⟨-, hoid, -, hexp⟩ := hs.pending hl
    have carries {q k r} (hc : Carries decode s q k r) := hc.mono (t := { s with
      corr := { s.corr with pending := s.corr.pending.insert id { slot with response := some response } }
      inHand := slot.notify :: s.inHand
      datagrams := s.datagrams ++ [buf]
      source := update s.source id s.datagrams.length }) ⟨[buf], rfl⟩ rfl rfl rfl
    refine ⟨fun q => ?_, hp.wire, ?_, fun hk => ?_, hp.ok⟩
    · rw [List.length_append]
      exact Nat.le_add_right_of_le (hp.born q)
    · intro id' slot' r hl' hr
      by_cases h : id' = id
      · subst h
        rw [Pending.find_insert, Option.some.injEq] at hl'
        subst hl'
        obtain rfl := Option.some.inj hr
        refine ⟨buf, ?_, by rw [hid, hoid], by rw [hexp]; exact ha, ?_⟩
        · simp
        · simpa using hp.born _
      · rw [Pending.find_insert_ne h] at hl'
        simp only [Function.update_of_ne h]
        exact carries (hp.stored hl' hr)
    · obtain ⟨r, e, hr, he, hke, hc⟩ := hp.returned hk
      exact ⟨r, e, hr, he, hke, carries hc⟩
  | closed => exact ⟨hp.born, hp.wire, hp.stored, hp.returned, hp.ok⟩

/-! ## Lifetimes -/

/-- A query is removed once, by itself, and no other query has its id before. -/
structure Lifetimes (s : Session) : Prop where
  sound (q : Token) : (s.queries q).phase ≠ .panicked
  here {q : Token} : (s.queries q).phase = .fresh ∨ (s.queries q).phase.isActive → (s.queries q).removedAt = none
  gone {q : Token} : (s.queries q).phase ≠ .fresh → ¬ (s.queries q).phase.isActive →
    ∃ e, (s.queries q).removedAt = some e ∧ e ≤ s.datagrams.length
  apart {q q' : Token} : q ≠ q' → (s.queries q).phase ≠ .fresh → (s.queries q').phase ≠ .fresh →
    (s.queries q).id = (s.queries q').id →
    (∃ e, (s.queries q).removedAt = some e ∧ e ≤ (s.queries q').registeredAt) ∨
      ∃ e, (s.queries q').removedAt = some e ∧ e ≤ (s.queries q).registeredAt
  own {m : Token × Token} : m ∈ s.removals → m.1 = m.2
  once : (s.removals.map Prod.fst).Nodup
  removed (q : Token) : q ∈ s.removals.map Prod.fst ↔ (s.queries q).removedAt.isSome

theorem Lifetimes.new : Lifetimes .new where
  sound _ h := by cases h
  here _ := rfl
  gone h := absurd rfl h
  apart _ h := absurd rfl h
  own h := by cases h
  once := List.nodup_nil
  removed _ := by simp [Session.new]

theorem Lifetimes.moved (hl : Lifetimes s) (h : Moved s t) : Lifetimes t := by
  have rest (q : Token) : (t.queries q).id = (s.queries q).id ∧
      (t.queries q).registeredAt = (s.queries q).registeredAt ∧
      (t.queries q).removedAt = (s.queries q).removedAt := by
    rw [h.kept q]
    exact ⟨rfl, rfl, rfl⟩
  have fresh (q : Token) : (t.queries q).phase = .fresh ↔ (s.queries q).phase = .fresh := h.phase_eq_iff rfl
  constructor
  · exact fun q hq => hl.sound q ((h.phase_eq_iff rfl).mp hq)
  · intro q hq
    rw [fresh, h.isActive] at hq
    rw [(rest q).2.2]
    exact hl.here hq
  · intro q hf ha
    rw [ne_eq, fresh] at hf
    rw [h.isActive] at ha
    rw [(rest q).2.2, h.datagrams]
    exact hl.gone hf ha
  · intro q q' hne hf hf' hid
    rw [ne_eq, fresh] at hf hf'
    rw [(rest q).1, (rest q').1] at hid
    rw [(rest q).2.1, (rest q').2.1, (rest q).2.2, (rest q').2.2]
    exact hl.apart hne hf hf' hid
  · rw [h.removals]; exact hl.own
  · rw [h.removals]; exact hl.once
  · intro q
    rw [h.removals, (rest q).2.2]
    exact hl.removed q

theorem Lifetimes.leave (hs : s.Slots) (hl : Lifetimes s) {q : Token} {corr : Correlator} {phase : Phase}
    {source : Option Nat} (hq : (s.queries q).phase.isActive) (hp : phase ≠ .panicked) (hf : phase ≠ .fresh)
    (ha : phase.isActive = false) : Lifetimes (s.leave q corr phase source) := by
  have hfresh : (s.queries q).phase ≠ .fresh := fun h => by rw [h] at hq; cases hq
  have hnone : (s.queries q).removedAt = none := hl.here (.inr hq)
  constructor
  · intro q'
    by_cases h : q' = q
    · subst h; simpa using hp
    · simpa [leave_of_ne h] using hl.sound q'
  · intro q' hq'
    by_cases h : q' = q
    · subst h
      simp only [leave_self, ha] at hq'
      exact absurd hq' (by simpa using hf)
    · simp only [leave_of_ne h] at hq' ⊢
      exact hl.here hq'
  · intro q' hf' ha'
    by_cases h : q' = q
    · subst h; exact ⟨s.datagrams.length, by simp, Nat.le_refl _⟩
    · simp only [leave_of_ne h] at hf' ha' ⊢
      exact hl.gone hf' ha'
  · intro q1 q2 hne hf1 hf2 hid
    by_cases h1 : q1 = q
    · -- `q` was not removed before, so the other query was
      subst h1
      have h2 : q2 ≠ q1 := hne.symm
      simp only [leave_of_ne h2, leave_self] at hf2 hid ⊢
      rcases hl.apart hne hfresh hf2 hid with ⟨e, he, -⟩ | he
      · rw [hnone] at he; cases he
      · exact .inr he
    · by_cases h2 : q2 = q
      · subst h2
        simp only [leave_of_ne h1, leave_self] at hf1 hid ⊢
        rcases hl.apart hne hf1 hfresh hid with he | ⟨e, he, -⟩
        · exact .inl he
        · rw [hnone] at he; cases he
      · simp only [leave_of_ne h1, leave_of_ne h2] at hf1 hf2 hid ⊢
        exact hl.apart hne hf1 hf2 hid
  · intro m hm
    rcases List.mem_cons.mp hm with rfl | hm
    · exact (hs.active hq).1.symm
    · exact hl.own hm
  · refine List.nodup_cons.mpr ⟨?_, hl.once⟩
    rw [hl.removed, hnone]
    exact Bool.false_ne_true
  · intro q'
    by_cases h : q' = q
    · subst h; simp
    · simpa [leave_of_ne h, h] using hl.removed q'

theorem Lifetimes.effect (hs : s.Slots) (hl : Lifetimes s) (h : Effect decode now s a t) : Lifetimes t := by
  cases h with
  | turn h => exact hl.moved h.moved
  | @registered q wire r corr slot _ hf hid _ _ _ _ _ _ _ =>
    have gone {q' : Token} (hne : (s.queries q').phase ≠ .fresh) (h : (s.queries q').id = r.id) :
        ∃ e, (s.queries q').removedAt = some e ∧ e ≤ s.datagrams.length := by
      refine hl.gone hne fun ha => ?_
      obtain ⟨-, slot, hs'⟩ := hs.active ha
      rw [h, Pending.find_eq_none.mpr hid] at hs'
      cases hs'
    constructor
    · intro q'
      by_cases h : q' = q
      · subst h; simp
      · simpa [h] using hl.sound q'
    · intro q' hq'
      by_cases h : q' = q
      · subst h; simp
      · simp only [Function.update_of_ne h] at hq' ⊢
        exact hl.here hq'
    · intro q' hf' ha'
      by_cases h : q' = q
      · subst h; simp [Phase.isActive] at ha'
      · simp only [Function.update_of_ne h] at hf' ha' ⊢
        exact hl.gone hf' ha'
    · intro q1 q2 hne hf1 hf2 hid'
      by_cases h1 : q1 = q
      · subst h1
        simp only [Function.update_of_ne hne.symm, Function.update_self] at hf2 hid' ⊢
        exact .inr (gone hf2 hid'.symm)
      · by_cases h2 : q2 = q
        · subst h2
          simp only [Function.update_of_ne hne, Function.update_self] at hf1 hid' ⊢
          exact .inl (gone hf1 hid')
        · simp only [Function.update_of_ne h1, Function.update_of_ne h2] at hf1 hf2 hid' ⊢
          exact hl.apart hne hf1 hf2 hid'
    · exact hl.own
    · exact hl.once
    · intro q'
      by_cases h : q' = q
      · subst h; simp [hl.removed q', hl.here (.inl hf)]
      · simpa [h] using hl.removed q'
  | @cancelled q slot hph _ => exact hl.leave hs (by rw [hph]; rfl) (by simp) (by simp) rfl
  | @returned q slot _ _ _ hph _ _ => exact hl.leave hs (by rw [hph]; rfl) (by simp) (by simp) rfl
  | ignored | stored =>
    refine ⟨hl.sound, hl.here, fun hf ha => ?_, hl.apart, hl.own, hl.once, hl.removed⟩
    obtain ⟨e, he, hle⟩ := hl.gone hf ha
    exact ⟨e, he, by rw [List.length_append]; omega⟩
  | closed => exact ⟨hl.sound, hl.here, hl.gone, hl.apart, hl.own, hl.once, hl.removed⟩

/-! ## Exact correlation -/

theorem questionBytes_ne_nil {msg : Bytes} : questionBytes msg ≠ some [] := by
  rcases questionBytes_spec msg with ⟨-, h⟩ | ⟨e, bytes, -, -, -, -, h, hne⟩
  · simp [h]
  · rw [h, ne_eq, Option.some.injEq]; exact hne

/-- What a datagram with a reply for a query is. -/
theorem answer_eq_ok {buf expected : Bytes} {r : DnsResponse} :
    answer decode buf expected = some (.ok r) ↔ ∃ id header, txid buf = some id ∧
      headerOf decode buf id = some header ∧ questionBytes buf = some expected ∧
      r = { correlation := id, rcode := header.rcode, truncated := header.truncated, bytesIn := buf.length } := by
  simp only [answer, Option.bind_eq_some_iff, Option.map_eq_some_iff, responseOf]
  constructor
  · rintro ⟨id, hid, header, hh, h⟩
    split at h
    · rename_i hq
      exact ⟨id, header, hid, hh, by simpa using hq, (Except.ok.inj h).symm⟩
    · cases h
  · rintro ⟨id, header, hid, hh, hq, rfl⟩
    exact ⟨id, hid, header, hh, by rw [if_pos (by simpa using hq)]⟩

/-- No two results come from one datagram: two queries with its id are not
registered together. -/
theorem source_injective (hp : Provenance decode s) (hl : Lifetimes s) {q q' : Token} {k : Nat}
    (h : (s.queries q).source = some k) (h' : (s.queries q').source = some k) : q = q' := by
  obtain ⟨r, e, hph, he, hke, buf, hk, hx, -, hb⟩ := hp.returned h
  obtain ⟨r', e', hph', he', hke', buf', hk', hx', -, hb'⟩ := hp.returned h'
  obtain rfl := Option.some.inj (hk.symm.trans hk')
  by_contra hne
  have hid : (s.queries q).id = (s.queries q').id := Option.some.inj (hx.symm.trans hx')
  rcases hl.apart hne (by simp [hph]) (by simp [hph']) hid with ⟨d, hd, hle⟩ | ⟨d, hd, hle⟩
  · rw [he, Option.some.injEq] at hd; omega
  · rw [he', Option.some.injEq] at hd; omega

theorem Reachable.correlation {C : Clocked Session → Timed Act → Prop} {start : Instant} {t : Clocked Session}
    (h : Reachable decode C start t) : Provenance decode t.state ∧ Lifetimes t.state :=
  (h.inv (I := fun s => Provenance decode s ∧ Lifetimes s) ⟨.new decode, .new⟩
    fun _ _ _ _ hs hi he => ⟨hi.1.effect hs he, hi.2.effect hs he⟩).2

/-- In every run of queries that are each cancelled or awaited once: a query
that returns a reply returns what a datagram of its own lifetime, its own id
and its own question says; no datagram resolves two queries; every query
removes its own slot, once, when it is over, and finds it there. -/
theorem exact_correlation {start : Instant} {t : Clocked Session} (h : Reachable decode Lts.Any start t) :
    (∀ q r, (t.state.queries q).phase = .returned (.ok r) →
      ∃ k e buf id header question,
        (t.state.queries q).source = some k ∧ t.state.datagrams[k]? = some buf ∧
        (t.state.queries q).registeredAt ≤ k ∧ (t.state.queries q).removedAt = some e ∧ k < e ∧
        (t.state.queries q).id = id ∧ txid (t.state.queries q).wire = some id ∧ txid buf = some id ∧
        questionBytes (t.state.queries q).wire = some question ∧ questionBytes buf = some question ∧
        headerOf decode buf id = some header ∧
        r = { correlation := id, rcode := header.rcode, truncated := header.truncated, bytesIn := buf.length }) ∧
    (∀ q q' k, (t.state.queries q).source = some k → (t.state.queries q').source = some k → q = q') ∧
    (∀ m ∈ t.state.removals, m.1 = m.2) ∧ (t.state.removals.map Prod.fst).Nodup ∧
    (∀ q, q ∈ t.state.removals.map Prod.fst ↔
      (t.state.queries q).phase = .cancelled ∨ ∃ result, (t.state.queries q).phase = .returned result) ∧
    ∀ q, (t.state.queries q).phase ≠ .panicked := by
  obtain ⟨hp, hl⟩ := h.correlation
  refine ⟨fun q r hr => ?_, fun q q' k => source_injective hp hl, fun m => hl.own, hl.once, fun q => ?_, hl.sound⟩
  · obtain ⟨k, hk⟩ := hp.ok hr
    obtain ⟨_, e, hr', he, hke, buf, hbuf, hx, ha, hb⟩ := hp.returned hk
    obtain rfl := Phase.returned.inj (hr.symm.trans hr')
    obtain ⟨id, header, hid, hh, hq, rfl⟩ := answer_eq_ok.mp ha
    obtain rfl : (t.state.queries q).id = id := Option.some.inj (hx.symm.trans hid)
    refine ⟨k, e, buf, _, header, (t.state.queries q).expected, hk, hbuf, hb, he, hke, rfl,
      hp.wire (by simp [hr]), hx, ?_, hq, hh, rfl⟩
    cases hw : questionBytes (t.state.queries q).wire with
    | none =>
      -- no question to compare with: every reply is a mismatch
      rw [Query.expected, hw] at hq
      exact absurd hq questionBytes_ne_nil
    | some question => simp [Query.expected, hw]
  · rw [hl.removed]
    have hsound := hl.sound q
    have hhere := hl.here (q := q)
    have hgone := hl.gone (q := q)
    cases hph : (t.state.queries q).phase with
    | fresh => simp [hhere (.inl hph)]
    | registered | looping | parked | notified | running => simp [hhere (.inr (by rw [hph]; rfl))]
    | returned | cancelled =>
      obtain ⟨e, he, -⟩ := hgone (by simp [hph]) (by simp [hph, Phase.isActive])
      simp [he]
    | panicked => exact absurd hph hsound

/-- A query for the name `a`, as the client builds it. -/
def queryA : Bytes := [0, 0, 1, 0, 0, 1, 0, 0, 0, 0, 0, 0, 1, 97, 0, 0, 1, 0, 1]

/-- A reply to it under id 0, with the given RCODE. -/
def replyA (rcode : UInt8) : Bytes := [0, 0, 0x81, rcode, 0, 1, 0, 0, 0, 0, 0, 0, 1, 97, 0, 0, 1, 0, 1]

/-- Query 0 is registered and its reply processed. -/
def delivered : List (Timed Act) :=
  [.act (.register 0 queryA), .act (.awaitResponse 0 5), .act (.poll 0), .act (.complete (replyA 0))]

/-- The reply is picked up. -/
def pickedUp : List (Timed Act) := [.act (.notifyOne 0), .act (.wake 0), .act (.check 0)]

/-- A run to `exact_correlation`: the reply is the one the query gets. -/
theorem exact_correlation_delivered : ∃ t,
    Lts.run (clocked (step rfc1035Header)) ⟨0, .new⟩ (delivered ++ pickedUp) = some t ∧
      (t.state.queries 0).phase = .returned (.ok ⟨0, 0, false, 19⟩) ∧
      ∃ k buf question, t.state.datagrams[k]? = some buf ∧ questionBytes buf = some question ∧
        questionBytes (t.state.queries 0).wire = some question ∧
        ∀ q, (t.state.queries q).source = some k → q = 0 := by
  have hrun : ∃ t ∈ Lts.run (clocked (step rfc1035Header)) ⟨0, .new⟩ (delivered ++ pickedUp),
      (t.state.queries 0).phase = .returned (.ok ⟨0, 0, false, 19⟩) := by decide +kernel
  obtain ⟨t, ht, hph⟩ := hrun
  obtain ⟨hok, hone, -⟩ := exact_correlation (Lts.Reach.of_run ht)
  obtain ⟨k, e, buf, id, header, question, hk, hbuf, -, -, -, -, -, -, hw, hq, -⟩ := hok 0 _ hph
  exact ⟨t, ht, hph, k, buf, question, hbuf, hq, hw, fun q h => hone q 0 k h hk⟩

end WireSurge.Dns.Session
