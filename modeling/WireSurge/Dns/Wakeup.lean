import WireSurge.Dns.Correlation
import WireSurge.Dns.Deadline

/-!
# Who is woken by the close

`close` notifies the handles of the slots that are there, once. Two
invariants carry what follows from it: `Handles`, an active query has its
handle to itself, and `Queues`, a query is in the queue of its handle exactly
while it is parked. With them a wake-up that is outstanding for a query stays
so until the query runs (`Awake`), and once the correlator is closed every
query has one (`awake_of_registers`) provided that those registered after the
close came by a handle with a wake-up on it (`Woken`). `asleep` is a run in
which one did not, and sleeps until its timeout.
-/

namespace WireSurge.Dns.Session

open Function (update)
open Lts (Clocked Timed clocked Reach)

variable {decode : HeaderDecoder} {now : Instant} {s t : Session} {a : Act}

/-! ## Handles -/

/-- A handle is free or belongs to one active query. -/
structure Handles (s : Session) : Prop where
  free_lt {h : Handle} : h ∈ s.corr.free → h < s.corr.created
  active_lt {q : Token} : (s.queries q).phase.isActive → (s.queries q).notify < s.corr.created
  nodup : s.corr.free.Nodup
  apart {q : Token} : (s.queries q).phase.isActive → (s.queries q).notify ∉ s.corr.free
  own {q q' : Token} : (s.queries q).phase.isActive → (s.queries q').phase.isActive →
    (s.queries q).notify = (s.queries q').notify → q = q'

theorem Handles.new : Session.new.Handles where
  free_lt h := by cases h
  active_lt h := by cases h
  nodup := List.nodup_nil
  apart h := by cases h
  own h := by cases h

theorem Handles.moved (hh : s.Handles) (h : Moved s t) : t.Handles := by
  have notify (q : Token) : (t.queries q).notify = (s.queries q).notify := by rw [h.kept q]
  refine ⟨?_, ?_, ?_, ?_, ?_⟩
  · rw [h.corr]; exact hh.free_lt
  · intro q hq
    rw [h.isActive] at hq
    rw [h.corr, notify]
    exact hh.active_lt hq
  · rw [h.corr]; exact hh.nodup
  · intro q hq
    rw [h.isActive] at hq
    rw [h.corr, notify]
    exact hh.apart hq
  · intro q q' hq hq' hn
    rw [h.isActive] at hq hq'
    rw [notify, notify] at hn
    exact hh.own hq hq' hn

/-- The slot's handle goes back to the free list, and its query is over. -/
theorem Handles.leave (hs : s.Slots) (hh : s.Handles) {q : Token} {slot : Slot} {phase : Phase} {source : Option Nat}
    (hq : (s.queries q).phase.isActive) (hl : s.corr.pending.find (s.queries q).id = some slot)
    (ha : phase.isActive = false) :
    (s.leave q (s.corr.recycle (s.queries q).id slot) phase source).Handles := by
  obtain ⟨slot', hl', -, hn, -⟩ := hs.slot_of hq
  obtain rfl := Option.some.inj (hl.symm.trans hl')
  have old {q' : Token} (hq' : ((s.leave q (s.corr.recycle (s.queries q).id slot) phase source).queries
      q').phase.isActive) :
      (s.leave q (s.corr.recycle (s.queries q).id slot) phase source).queries q' = s.queries q' ∧ q' ≠ q := by
    by_cases h : q' = q
    · subst h
      simp [ha] at hq'
    · exact ⟨by simp [leave_of_ne h], h⟩
  refine ⟨?_, ?_, ?_, ?_, ?_⟩
  · intro h hf
    rcases List.mem_cons.mp hf with rfl | hf
    · rw [hn]; exact hh.active_lt hq
    · exact hh.free_lt hf
  · intro q' hq'
    obtain ⟨he, -⟩ := old hq'
    rw [he] at hq' ⊢
    exact hh.active_lt hq'
  · refine List.nodup_cons.mpr ⟨?_, hh.nodup⟩
    rw [hn]; exact hh.apart hq
  · intro q' hq'
    obtain ⟨he, hne⟩ := old hq'
    rw [he] at hq' ⊢
    refine fun hm => ?_
    rcases List.mem_cons.mp hm with hm | hm
    · exact hne (hh.own hq' hq (hm.trans hn))
    · exact hh.apart hq' hm
  · intro q1 q2 h1 h2 hne
    obtain ⟨he1, -⟩ := old h1
    obtain ⟨he2, -⟩ := old h2
    rw [he1] at h1
    rw [he2] at h2
    rw [he1, he2] at hne
    exact hh.own h1 h2 hne

theorem Handles.effect (hs : s.Slots) (hh : s.Handles) (h : Effect decode now s a t) : t.Handles := by
  cases h with
  | turn h => exact hh.moved h.moved
  | @registered q wire r corr slot _ hf _ _ hp _ _ _ _ _ =>
    -- the handle was free or is new: no active query has it
    have free : ∀ h ∈ corr.free, h ∈ s.corr.free ∧ h ≠ r.notify := by
      intro h hm
      rcases hp with ⟨hc, -⟩ | ⟨-, hc, -⟩
      · have hd := hh.nodup
        rw [hc] at hd ⊢
        exact ⟨List.mem_cons_of_mem _ hm, fun h' => (List.nodup_cons.mp hd).1 (h' ▸ hm)⟩
      · rw [hc] at hm; cases hm
    have lt : r.notify < corr.created ∧ s.corr.created ≤ corr.created := by
      rcases hp with ⟨hc, hcr⟩ | ⟨-, -, hn, hcr⟩
      · rw [hcr]
        exact ⟨hh.free_lt (by rw [hc]; exact List.mem_cons_self), Nat.le_refl _⟩
      · rw [hn, hcr]
        exact ⟨Nat.lt_succ_self _, Nat.le_succ _⟩
    have ne {q' : Token} (hq' : (s.queries q').phase.isActive) : (s.queries q').notify ≠ r.notify := by
      intro h
      rcases hp with ⟨hc, -⟩ | ⟨-, -, hn, -⟩
      · exact hh.apart hq' (by rw [hc, h]; exact List.mem_cons_self)
      · exact absurd (hh.active_lt hq') (by rw [h, hn]; exact Nat.lt_irrefl _)
    refine ⟨?_, ?_, ?_, ?_, ?_⟩
    · exact fun hm => Nat.lt_of_lt_of_le (hh.free_lt (free _ hm).1) lt.2
    · intro q' hq'
      by_cases h : q' = q
      · subst h; simpa using lt.1
      · simp only [Function.update_of_ne h] at hq' ⊢
        exact Nat.lt_of_lt_of_le (hh.active_lt hq') lt.2
    · rcases hp with ⟨hc, -⟩ | ⟨-, hc, -⟩
      · have hd := hh.nodup
        rw [hc] at hd
        exact (List.nodup_cons.mp hd).2
      · simp only [hc, List.nodup_nil]
    · intro q' hq'
      by_cases h : q' = q
      · subst h
        simp only [Function.update_self]
        exact fun hm => (free _ hm).2 rfl
      · simp only [Function.update_of_ne h] at hq' ⊢
        exact fun hm => hh.apart hq' (free _ hm).1
    · intro q1 q2 h1 h2 hn
      by_cases hq1 : q1 = q <;> by_cases hq2 : q2 = q
      · rw [hq1, hq2]
      · subst hq1
        simp only [Function.update_of_ne hq2, Function.update_self] at h2 hn
        exact absurd hn.symm (ne h2)
      · subst hq2
        simp only [Function.update_of_ne hq1, Function.update_self] at h1 hn
        exact absurd hn (ne h1)
      · simp only [Function.update_of_ne hq1, Function.update_of_ne hq2] at h1 h2 hn
        exact hh.own h1 h2 hn
  | cancelled hph hl => exact hh.leave hs (by rw [hph]; rfl) hl rfl
  | returned hph hl _ => exact hh.leave hs (by rw [hph]; rfl) hl rfl
  | ignored | stored | closed => exact ⟨hh.free_lt, hh.active_lt, hh.nodup, hh.apart, hh.own⟩

/-! ## Queues -/

/-- A query is in the queue of its handle while it is parked. -/
structure Queues (s : Session) : Prop where
  mem {h : Handle} {q : Token} :
    q ∈ (s.notifies h).queue ↔ (∃ deadline, (s.queries q).phase = .parked deadline) ∧ (s.queries q).notify = h
  nodup (h : Handle) : (s.notifies h).queue.Nodup

theorem Queues.new : Session.new.Queues where
  mem := by simp [Session.new]
  nodup _ := List.nodup_nil

/-- A step of other queries than the parked ones. -/
theorem Queues.of_parked (hq : s.Queues) (hn : ∀ h, (t.notifies h).queue = (s.notifies h).queue)
    (hp : ∀ q d, ((t.queries q).phase = .parked d ↔ (s.queries q).phase = .parked d) ∧
      ((s.queries q).phase = .parked d → (t.queries q).notify = (s.queries q).notify)) : t.Queues := by
  refine ⟨fun {h q} => ?_, fun h => by rw [hn]; exact hq.nodup h⟩
  rw [hn, hq.mem]
  constructor
  · rintro ⟨⟨d, hd⟩, rfl⟩
    exact ⟨⟨d, (hp q d).1.mpr hd⟩, (hp q d).2 hd⟩
  · rintro ⟨⟨d, hd⟩, rfl⟩
    have hd := (hp q d).1.mp hd
    exact ⟨⟨d, hd⟩, ((hp q d).2 hd).symm⟩

/-- One query changes its phase, and the queue of its handle with it. -/
theorem Queues.of_update {q : Token} {p : Phase} (hq : s.Queues)
    (ht : ∀ q', (t.queries q').phase = ((s.setPhase q p).queries q').phase ∧
      (t.queries q').notify = (s.queries q').notify)
    (hn : ∀ h, h ≠ (s.queries q).notify → t.notifies h = s.notifies h)
    (hmem : ∀ q', q' ∈ (t.notifies (s.queries q).notify).queue ↔
      (q' = q ∧ ∃ d, p = .parked d) ∨ (q' ≠ q ∧ q' ∈ (s.notifies (s.queries q).notify).queue))
    (hnd : (t.notifies (s.queries q).notify).queue.Nodup) : t.Queues := by
  have phase_ne {q' : Token} (h : q' ≠ q) : (t.queries q').phase = (s.queries q').phase := by
    rw [(ht q').1, setPhase_queries_of_ne _ _ h]
  refine ⟨fun {h q'} => ?_, fun h => ?_⟩
  · rw [(ht q').2]
    by_cases hh : h = (s.queries q).notify
    · rw [hh, hmem q']
      by_cases h' : q' = q
      · subst h'
        rw [(ht q').1, setPhase_phase]
        simp
      · rw [phase_ne h', hq.mem]
        simp [h']
    · rw [hn h hh, hq.mem]
      by_cases h' : q' = q
      · subst h'
        simp [Ne.symm hh]
      · rw [phase_ne h']
  · by_cases hh : h = (s.queries q).notify
    · rw [hh]; exact hnd
    · rw [hn h hh]; exact hq.nodup h

/-- The queue of a handle with a parked query is that query alone. -/
theorem Queues.head (hh : s.Handles) (hq : s.Queues) {h : Handle} {q : Token} {queue : List Token}
    (hc : (s.notifies h).queue = q :: queue) :
    (∃ d, (s.queries q).phase = .parked d) ∧ (s.queries q).notify = h ∧ queue = [] := by
  obtain ⟨⟨d, hd⟩, hn⟩ := hq.mem.mp (show q ∈ (s.notifies h).queue by simp [hc])
  refine ⟨⟨d, hd⟩, hn, List.eq_nil_iff_forall_not_mem.mpr fun q' hm => ?_⟩
  obtain ⟨⟨d', hd'⟩, hn'⟩ := hq.mem.mp (show q' ∈ (s.notifies h).queue by simp [hc, hm])
  have := hh.own (by rw [hd']; rfl) (by rw [hd]; rfl) (hn'.trans hn.symm)
  subst this
  have hnd := hq.nodup h
  rw [hc] at hnd
  exact (List.nodup_cons.mp hnd).1 hm

theorem Queues.setPhase {q : Token} {p : Phase} (hq : s.Queues) (hs : ∀ d, (s.queries q).phase ≠ .parked d)
    (hp : ∀ d, p ≠ .parked d) : (s.setPhase q p).Queues := by
  refine hq.of_parked (fun _ => rfl) fun q' d => ⟨?_, fun _ => setPhase_notify ..⟩
  by_cases h : q' = q
  · subst h
    simp [hs d, hp d]
  · rw [setPhase_queries_of_ne _ _ h]

theorem Queues.turn (hh : s.Handles) (hq : s.Queues) (h : Turn now s t) : t.Queues := by
  cases h with
  | awaited timeout hph => exact hq.setPhase (by simp [hph]) (by simp)
  | woke hph => exact hq.setPhase (by simp [hph]) (by simp)
  | again hph => exact hq.setPhase (by simp [hph]) (by simp)
  | @took q deadline hph hp =>
    refine hq.of_update (q := q) (p := .running deadline true) (fun q' => ?_) (fun h hne => ?_) (fun q' => ?_) ?_
    · exact ⟨rfl, setPhase_notify ..⟩
    · simp [hne]
    · simp [Notify.queue_of_permit hp]
    · simp
  | @parked q deadline hph hp =>
    have hnot : q ∉ (s.notifies (s.queries q).notify).queue := fun hm => by
      obtain ⟨⟨d, hd⟩, -⟩ := hq.mem.mp hm
      rw [hph] at hd
      cases hd
    refine hq.of_update (q := q) (p := .parked deadline) (fun q' => ?_) (fun h hne => ?_) (fun q' => ?_) ?_
    · exact ⟨rfl, setPhase_notify ..⟩
    · simp [hne]
    · by_cases h : q' = q
      · subst h; simp
      · simp [h]
    · simpa [List.nodup_append] using ⟨hq.nodup _, fun q' hm h => hnot (h ▸ hm)⟩
  | @expired q deadline hph _ =>
    refine hq.of_update (q := q) (p := .running deadline false) (fun q' => ?_) (fun h hne => ?_) (fun q' => ?_) ?_
    · exact ⟨rfl, setPhase_notify ..⟩
    · simp [hne]
    · simp [(hq.nodup _).mem_erase_iff]
    · simpa using (hq.nodup _).erase q
  | @permit k h hk hnil =>
    refine hq.of_parked (fun h' => ?_) fun q d => ⟨Iff.rfl, fun _ => rfl⟩
    by_cases hne : h' = h
    · subst hne; simp [hnil]
    · simp [hne]
  | @notified k h q queue deadline hk hc hph =>
    obtain ⟨-, rfl, rfl⟩ := hq.head hh hc
    refine hq.of_update (q := q) (p := .notified deadline) (fun q' => ?_) (fun h hne => ?_) (fun q' => ?_) ?_
    · refine ⟨?_, by simp⟩
      by_cases h : q' = q
      · subst h; simp
      · rw [setPhase_queries_of_ne _ _ h, setPhase_queries_of_ne _ _ h]; rfl
    · simp [hne]
    · simp [hc]
    · simp
  | missed hk hc hph =>
    obtain ⟨⟨d, hd⟩, -⟩ := hq.head hh hc
    exact absurd hd (hph d)

theorem Queues.leave {q : Token} {corr : Correlator} {p : Phase} {source : Option Nat} (hq : s.Queues)
    (hs : ∀ d, (s.queries q).phase ≠ .parked d) (hp : ∀ d, p ≠ .parked d) : (s.leave q corr p source).Queues := by
  refine hq.of_parked (fun _ => rfl) fun q' d => ?_
  by_cases h : q' = q
  · subst h
    simp [hs d, hp d]
  · simp [leave_of_ne h]

theorem Queues.effect (hh : s.Handles) (hq : s.Queues) (h : Effect decode now s a t) : t.Queues := by
  cases h with
  | turn h => exact hq.turn hh h
  | @registered q wire r corr slot _ hf _ _ _ _ _ _ _ _ =>
    refine hq.of_parked (fun _ => rfl) fun q' d => ?_
    by_cases h : q' = q
    · subst h; simp [hf]
    · simp [h]
  | cancelled hph => exact hq.leave (by simp [hph]) (by simp)
  | returned hph => exact hq.leave (by simp [hph]) (by simp)
  | ignored | stored | closed => exact ⟨hq.mem, hq.nodup⟩

/-! ## Wake-ups -/

/-- A handle with a wake-up on it: a permit, or a notification about to be
issued. -/
def Primed (s : Session) (h : Handle) : Prop := (s.notifies h).permit = true ∨ h ∈ s.inHand

/-- The query will run without its timer: it has been notified or runs already,
or there is a wake-up on its handle. -/
def WakeOutstanding (s : Session) (q : Token) : Prop :=
  match (s.queries q).phase with
  | .notified _ | .running _ _ => True
  | _ => Primed s (s.queries q).notify

/-- Once the correlator is closed, every query has a wake-up outstanding. -/
def Awake (s : Session) : Prop :=
  s.corr.closed = true → ∀ q, (s.queries q).phase.isActive → WakeOutstanding s q

theorem WakeOutstanding.of_primed {q : Token} (h : Primed s (s.queries q).notify) : WakeOutstanding s q := by
  unfold WakeOutstanding
  split
  · trivial
  · trivial
  · exact h

/-- A step that leaves the query alone, and what is outstanding on its handle. -/
theorem WakeOutstanding.of_eq {q : Token} (h : WakeOutstanding s q) (hq : t.queries q = s.queries q)
    (hp : Primed s (s.queries q).notify → Primed t (s.queries q).notify) : WakeOutstanding t q := by
  unfold WakeOutstanding at h ⊢
  rw [hq]
  cases hph : (s.queries q).phase with
  | notified | running => trivial
  | fresh | registered | looping | parked | returned | cancelled | panicked => rw [hph] at h; exact hp h

theorem mem_eraseIdx_of_ne {l : List Handle} {k : Nat} {h h' : Handle} (hm : h ∈ l) (hk : l[k]? = some h')
    (hne : h ≠ h') : h ∈ l.eraseIdx k := by
  obtain ⟨i, hi⟩ := List.mem_iff_getElem?.mp hm
  refine List.mem_eraseIdx_iff_getElem?.mpr ⟨i, fun hik => hne ?_, hi⟩
  subst hik
  exact Option.some.inj (hi.symm.trans hk)

/-- A wake-up that is outstanding stays so, unless its query finds nothing to return
and waits on. -/
theorem WakeOutstanding.turn (hh : s.Handles) (hq : s.Queues) {q' : Token} (hact : (s.queries q').phase.isActive)
    (hw : WakeOutstanding s q') (h : Turn now s t)
    (hdone : ∀ slot woke, s.corr.pending.find (s.queries q').id = some slot →
      Correlator.verdict slot s.corr.closed woke ≠ none) : WakeOutstanding t q' := by
  -- the handle of another query than the one whose turn it is
  have other {q : Token} (hq : (s.queries q).phase.isActive) (hne : q' ≠ q) :
      (s.queries q').notify ≠ (s.queries q).notify := fun h => hne (hh.own hact hq h)
  cases h with
  | @awaited q timeout hph =>
    by_cases h : q' = q
    · subst h
      simp only [WakeOutstanding, hph] at hw
      exact .of_primed (by rw [setPhase_notify]; exact hw)
    · exact hw.of_eq (setPhase_queries_of_ne _ _ h) fun hp => hp
  | @took q deadline hph hp =>
    by_cases h : q' = q
    · subst h; simp [WakeOutstanding]
    · refine hw.of_eq (by rw [setPhase_queries_of_ne _ _ h]; rfl) fun hp => ?_
      simpa [Primed, other (by rw [hph]; rfl) h] using hp
  | @parked q deadline hph hp =>
    by_cases h : q' = q
    · subst h
      simp only [WakeOutstanding, hph, Primed, hp, Bool.false_eq_true, false_or] at hw
      exact .of_primed (by simpa [Primed] using hw)
    · refine hw.of_eq (by rw [setPhase_queries_of_ne _ _ h]; rfl) fun hp => ?_
      simpa [Primed, other (by rw [hph]; rfl) h] using hp
  | @woke q deadline hph =>
    by_cases h : q' = q
    · subst h; simp [WakeOutstanding]
    · exact hw.of_eq (setPhase_queries_of_ne _ _ h) fun hp => hp
  | @expired q deadline hph _ =>
    by_cases h : q' = q
    · subst h; simp [WakeOutstanding]
    · refine hw.of_eq (by rw [setPhase_queries_of_ne _ _ h]; rfl) fun hp => ?_
      simpa [Primed, other (by rw [hph]; rfl) h] using hp
  | @again q slot deadline woke hph hl hv =>
    by_cases h : q' = q
    · subst h
      exact absurd hv (hdone slot woke hl)
    · exact hw.of_eq (setPhase_queries_of_ne _ _ h) fun hp => hp
  | @permit k h hk hnil =>
    refine hw.of_eq rfl fun hp => ?_
    by_cases hne : (s.queries q').notify = h
    · exact .inl (by simp [hne])
    · exact hp.imp (fun hp => by simpa [hne] using hp) fun hp => mem_eraseIdx_of_ne hp hk hne
  | @notified k h q queue deadline hk hcons hph =>
    obtain ⟨-, rfl, -⟩ := hq.head hh hcons
    by_cases h : q' = q
    · subst h; simp [WakeOutstanding]
    · have hne := other (q := q) (by rw [hph]; rfl) h
      refine hw.of_eq (by rw [setPhase_queries_of_ne _ _ h]; rfl) fun hp => ?_
      exact hp.imp (fun hp => by simpa [hne] using hp) fun hp => mem_eraseIdx_of_ne hp hk hne
  | missed hk hcons hph =>
    obtain ⟨⟨d, hd⟩, -⟩ := hq.head hh hcons
    exact absurd hd (hph d)

theorem Awake.turn (hh : s.Handles) (hq : s.Queues) (ha : Awake s) (h : Turn now s t) : Awake t := by
  intro hc q hq'
  have hm := h.moved
  have hact : (s.queries q).phase.isActive := hm.isActive q ▸ hq'
  rw [hm.corr] at hc
  refine (ha hc q hact).turn hh hq hact h fun slot woke _ hv => ?_
  -- a query that looks after the close does not go on
  unfold Correlator.verdict at hv
  rw [hc] at hv
  split at hv <;> cases hv

/-- The condition on a step: a query registered after the close comes by a
handle with a wake-up on it. -/
def Woken (s : Session) : Act → Prop
  | .register _ _ => s.corr.closed = true → Primed s s.corr.popNotify.1
  | _ => True

theorem Awake.leave {q : Token} {slot : Slot} {p : Phase} {source : Option Nat} (ha : Awake s)
    (hp : p.isActive = false) :
    Awake (s.leave q (s.corr.recycle (s.queries q).id slot) p source) := by
  intro hc q' hq'
  by_cases h : q' = q
  · subst h
    simp [hp] at hq'
  · have he : (s.leave q (s.corr.recycle (s.queries q).id slot) p source).queries q' = s.queries q' := by
      simp [leave_of_ne h]
    rw [he] at hq'
    exact (ha hc q' hq').of_eq he fun hp => hp

theorem Awake.effect (hs : s.Slots) (hh : s.Handles) (hq : s.Queues) (ha : Awake s) (hw : Woken s a)
    (h : Effect decode now s a t) : Awake t := by
  cases h with
  | turn h => exact ha.turn hh hq h
  | @registered q wire r corr slot hreg hf _ _ hp hcl _ _ _ _ =>
    intro hc q' hq'
    rw [hcl] at hc
    by_cases h : q' = q
    · subst h
      subst hreg
      have hprimed := hw hc
      rw [hp.popNotify_eq] at hprimed
      exact .of_primed (by simpa [Primed] using hprimed)
    · simp only [Function.update_of_ne h] at hq'
      exact (ha hc q' hq').of_eq (by simp [h]) fun hp => hp
  | cancelled => exact ha.leave rfl
  | returned => exact ha.leave rfl
  | ignored => exact fun hc q hq => (ha hc q hq).of_eq rfl fun hp => hp
  | stored => exact fun hc q hq => (ha hc q hq).of_eq rfl fun hp => hp.imp_right (List.mem_cons_of_mem _)
  | closed =>
    -- every active query has a slot, and its handle is among those `close` notifies
    intro _ q hq
    obtain ⟨slot, hl, -, hn, -⟩ := hs.slot_of hq
    refine .of_primed (.inr (show (s.queries q).notify ∈ s.corr.close.2 ++ s.inHand from ?_))
    rw [← hn]
    exact List.mem_append_left _ (Correlator.mem_close hl)

/-- A query registered after the close has a wake-up outstanding exactly when
its handle came with one. -/
theorem register_awake_iff {q : Token} {wire : Bytes} (h : s.register q wire = some t) :
    WakeOutstanding t q ↔ Primed s s.corr.popNotify.1 := by
  simp only [register] at h
  split at h <;> cases h
  rename_i r corr _ hr
  obtain ⟨-, -, hp, -⟩ := Correlator.register_spec hr
  rw [hp.popNotify_eq]
  simp [WakeOutstanding, Primed]

/-! ## The way out -/

/-- A step that does not wait for a timer. -/
def Prompt : Act → Prop
  | .expire _ => False
  | _ => True

/-- What a query finds once the correlator is closed. -/
def closingResult (slot : Slot) : Outcome := slot.response.getD (.error .connectionClosed)

theorem returns_of_running {q : Token} {slot : Slot} {deadline : Instant} {woke : Bool}
    (hc : s.corr.closed = true) (hl : s.corr.pending.find (s.queries q).id = some slot)
    (hph : (s.queries q).phase = .running deadline woke) : Returns decode Prompt now s q (closingResult slot) := by
  have hv : Correlator.verdict slot s.corr.closed woke = some (closingResult slot) := by
    rw [Correlator.verdict, hc, closingResult]
    cases slot.response <;> rfl
  have hs : s.step decode now (.check q) = some (s.leave q (s.corr.recycle (s.queries q).id slot)
      (.returned (closingResult slot)) (slot.response.map fun _ => s.source (s.queries q).id)) := by
    simp only [step, check, hph, Correlator.check_of_lookup hl, hv, hl, Option.bind_some]
  exact .step (by trivial) hs ⟨_, .refl _, by simp⟩

theorem returns_of_notified {q : Token} {slot : Slot} {deadline : Instant} (hc : s.corr.closed = true)
    (hl : s.corr.pending.find (s.queries q).id = some slot) (hph : (s.queries q).phase = .notified deadline) :
    Returns decode Prompt now s q (closingResult slot) := by
  have hs : s.step decode now (.wake q) = some (s.setPhase q (.running deadline true)) := by
    simp only [step, wake, hph]
  exact .step (by trivial) hs (returns_of_running hc (by simpa [Session.setPhase] using hl) (setPhase_phase ..))

theorem returns_of_permit {q : Token} {slot : Slot} {deadline : Instant} (hc : s.corr.closed = true)
    (hl : s.corr.pending.find (s.queries q).id = some slot) (hph : (s.queries q).phase = .looping deadline)
    (hp : (s.notifies (s.queries q).notify).permit = true) : Returns decode Prompt now s q (closingResult slot) := by
  have hs : s.step decode now (.poll q) = some ((s.setNotify (s.queries q).notify .new).setPhase q
      (.running deadline true)) := by
    simp only [step, poll, hph, Notify.notified_of_permit hp, if_true]
  exact .step (by trivial) hs
    (returns_of_running hc (by simpa [Session.setPhase, Session.setNotify] using hl) (setPhase_phase ..))

/-- The notification in hand is issued: it wakes the query, or stores a permit. -/
theorem returns_of_inHand (hh : s.Handles) (hq : s.Queues) {q : Token} {slot : Slot} (hc : s.corr.closed = true)
    (hl : s.corr.pending.find (s.queries q).id = some slot) (hm : (s.queries q).notify ∈ s.inHand)
    (hph : ∃ deadline, (s.queries q).phase = .looping deadline ∨ (s.queries q).phase = .parked deadline) :
    Returns decode Prompt now s q (closingResult slot) := by
  obtain ⟨k, hk⟩ := List.mem_iff_getElem?.mp hm
  obtain ⟨deadline, hph⟩ := hph
  have hact : (s.queries q).phase.isActive := by rcases hph with h | h <;> rw [h] <;> rfl
  cases hcons : (s.notifies (s.queries q).notify).queue with
  | nil =>
    -- nobody is parked on the handle, so the query is at the top of the loop
    have hloop : (s.queries q).phase = .looping deadline := by
      refine hph.resolve_right fun h => ?_
      have := hq.mem.mpr ⟨⟨deadline, h⟩, rfl⟩
      rw [hcons] at this
      cases this
    have hs : s.step decode now (.notifyOne k) =
        some ({ s with inHand := s.inHand.eraseIdx k }.setNotify (s.queries q).notify .stored) := by
      simp only [step, notifyOne, hk, Notify.notifyOne_of_nil hcons]
    exact .step (by trivial) hs (returns_of_permit hc hl hloop (by simp))
  | cons q' queue =>
    obtain ⟨⟨d, hd⟩, hn, -⟩ := hq.head hh hcons
    obtain rfl : q' = q := hh.own (by rw [hd]; rfl) hact hn
    have hs : s.step decode now (.notifyOne k) = some (({ s with inHand := s.inHand.eraseIdx k }.setNotify
        (s.queries q').notify (.waiting queue)).setPhase q' (.notified d)) := by
      simp only [step, notifyOne, hk, Notify.notifyOne_of_cons hcons, hd]
    exact .step (by trivial) hs
      (returns_of_notified hc (by simpa [Session.setPhase, Session.setNotify] using hl) (setPhase_phase ..))

/-- With a wake-up outstanding, a query returns a reply or that the connection
is closed, and does not sleep for it. -/
theorem WakeOutstanding.returns (hs : s.Slots) (hh : s.Handles) (hq : s.Queues) {q : Token}
    (hc : s.corr.closed = true) (ha : (s.queries q).phase.isActive) (hw : WakeOutstanding s q) :
    ∃ slot, s.corr.pending.find (s.queries q).id = some slot ∧
      Returns decode Prompt now s q (closingResult slot) := by
  obtain ⟨slot, hl, -⟩ := hs.slot_of ha
  refine ⟨slot, hl, ?_⟩
  have loop {s : Session} (hh : s.Handles) (hq : s.Queues) (hc : s.corr.closed = true)
      (hl : s.corr.pending.find (s.queries q).id = some slot) {d : Instant}
      (hph : (s.queries q).phase = .looping d) (hw : Primed s (s.queries q).notify) :
      Returns decode Prompt now s q (closingResult slot) :=
    hw.elim (fun hp => returns_of_permit hc hl hph hp) fun hm => returns_of_inHand hh hq hc hl hm ⟨d, .inl hph⟩
  cases hph : (s.queries q).phase with
  | running d woke => exact returns_of_running hc hl hph
  | notified d => exact returns_of_notified hc hl hph
  | looping d =>
    simp only [WakeOutstanding, hph] at hw
    exact loop hh hq hc hl hph hw
  | parked d =>
    simp only [WakeOutstanding, hph] at hw
    refine hw.elim (fun hp => ?_) fun hm => returns_of_inHand hh hq hc hl hm ⟨d, .inr hph⟩
    have := hq.mem.mpr ⟨⟨d, hph⟩, rfl⟩
    rw [Notify.queue_of_permit hp] at this
    cases this
  | registered =>
    simp only [WakeOutstanding, hph] at hw
    have hst : s.step decode now (.awaitResponse q 0) = some (s.setPhase q (.looping (now + 0))) := by
      simp only [step, awaitResponse, hph]
    have hturn := awaitResponse_turn hst
    refine .step (by trivial) hst (loop (hh.moved hturn.moved) (hq.turn hh hturn) hc ?_ (setPhase_phase ..) ?_)
    · simpa [Session.setPhase] using hl
    · rw [setPhase_notify]; exact hw
  | fresh | returned | cancelled | panicked => rw [hph] at ha; cases ha

/-! ## Close reaches everyone -/

/-- `Woken`, for the steps of the clocked system. -/
def WokenAt (s : Clocked Session) : Timed Act → Prop
  | .elapse _ => True
  | .act a => Woken s.state a

theorem Reachable.awake {start : Instant} {t : Clocked Session} (h : Reachable decode WokenAt start t) :
    t.state.Slots ∧ t.state.Handles ∧ t.state.Queues ∧ Awake t.state :=
  h.inv (I := fun s => s.Handles ∧ s.Queues ∧ Awake s) ⟨.new, .new, fun hc => by cases hc⟩
    fun _ _ _ hC hs ⟨hh, hq, ha⟩ he => ⟨hh.effect hs he, hq.effect hh he, ha.effect hs hh hq hC he⟩

/-- In every run in which the queries registered after the close come by handles
with a wake-up on them, every query of a closed correlator has a wake-up
outstanding, and returns by it. -/
theorem close_reaches {start : Instant} {t : Clocked Session} (h : Reachable decode WokenAt start t)
    (hc : t.state.corr.closed = true) {q : Token} (hq : (t.state.queries q).phase.isActive) :
    WakeOutstanding t.state q ∧
      ∃ slot, t.state.corr.pending.find (t.state.queries q).id = some slot ∧
        Returns decode Prompt t.now t.state q (closingResult slot) := by
  obtain ⟨hs, hh, hqs, ha⟩ := h.awake
  have hw := ha hc q hq
  exact ⟨hw, hw.returns hs hh hqs hc hq⟩

/-- A run to `close_reaches`: the query is parked when the connection closes. -/
theorem close_reaches_parked : ∃ t,
    Lts.run (clocked (step rfc1035Header)) ⟨0, .new⟩
      [.act (.register 0 queryA), .act (.awaitResponse 0 5), .act (.poll 0), .act .close] = some t ∧
      (t.state.queries 0).phase = .parked 5 ∧ WakeOutstanding t.state 0 := by
  have hrun : ∃ t ∈ Lts.run (clocked (step rfc1035Header)) ⟨0, .new⟩
      [.act (.register 0 queryA), .act (.awaitResponse 0 5), .act (.poll 0), .act .close],
      (t.state.queries 0).phase = .parked 5 ∧ t.state.corr.closed = true := by decide +kernel
  obtain ⟨t, ht, hph, hc⟩ := hrun
  -- the one query is registered before the close
  have hr : Reachable rfc1035Header WokenAt 0 t := .of_along ht
    ⟨(fun hc => by cases hc), fun _ _ => ⟨trivial, fun _ _ => ⟨trivial, fun _ _ => ⟨trivial, fun _ _ => trivial⟩⟩⟩⟩
  exact ⟨t, ht, hph, (close_reaches hr hc (by rw [hph]; rfl)).1⟩

/-- A query registered after the close on a new handle: it parks, and nothing
but its timer will wake it. -/
theorem asleep :
    ¬ ∀ (start : Instant) (t : Clocked Session), Reachable rfc1035Header Lts.Any start t →
      t.state.corr.closed = true → ∀ q, (t.state.queries q).phase.isActive → WakeOutstanding t.state q := by
  intro h
  have hrun : ∃ t ∈ Lts.run (clocked (step rfc1035Header)) ⟨0, .new⟩
      [.act .close, .act (.register 0 queryA), .act (.awaitResponse 0 5), .act (.poll 0)],
      (t.state.queries 0).phase = .parked 5 ∧ t.state.corr.closed = true ∧ t.state.inHand = [] ∧
        (t.state.notifies (t.state.queries 0).notify).permit = false := by decide +kernel
  obtain ⟨t, ht, hph, hc, hin, hp⟩ := hrun
  have hw := h 0 t (Lts.Reach.of_run ht) hc 0 (by rw [hph]; rfl)
  simp [WakeOutstanding, hph, Primed, hin, hp] at hw

end WireSurge.Dns.Session
