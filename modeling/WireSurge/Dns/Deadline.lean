import WireSurge.Dns.Exchange

/-!
# The deadline of `await_response`

The deadline is computed once, on entry, and no step after that moves it
(`until_effect`). Once it has passed, the query's own steps take it to a
result (`times_out`): its timer fires, and it looks into its slot.
-/

namespace WireSurge.Dns

/-- In `await_response` with the deadline `d`, or over. -/
def Phase.Until (d : Instant) : Phase → Prop
  | .looping deadline | .parked deadline | .notified deadline | .running deadline _ => deadline = d
  | .returned _ => True
  | .fresh | .registered | .cancelled | .panicked => False

namespace Session

open Function (update)

variable {decode : HeaderDecoder} {now : Instant} {s t : Session} {a : Act}

section

variable (s : Session) (q q' : Token) (p : Phase) (h : Handle) (n : Notify Token)

@[simp] theorem setPhase_phase : ((s.setPhase q p).queries q).phase = p := by simp [setPhase]
@[simp] theorem setPhase_id : ((s.setPhase q p).queries q').id = (s.queries q').id := by
  by_cases h : q' = q
  · subst h; simp [setPhase]
  · simp [setPhase, h]
@[simp] theorem setPhase_notify : ((s.setPhase q p).queries q').notify = (s.queries q').notify := by
  by_cases h : q' = q
  · subst h; simp [setPhase]
  · simp [setPhase, h]

variable {q q'} in
theorem setPhase_queries_of_ne (h : q' ≠ q) : (s.setPhase q p).queries q' = s.queries q' := by simp [setPhase, h]

@[simp] theorem setPhase_corr : (s.setPhase q p).corr = s.corr := rfl
@[simp] theorem setPhase_notifies : (s.setPhase q p).notifies = s.notifies := rfl
@[simp] theorem setPhase_inHand : (s.setPhase q p).inHand = s.inHand := rfl
@[simp] theorem setNotify_queries : (s.setNotify h n).queries = s.queries := rfl
@[simp] theorem setNotify_inHand : (s.setNotify h n).inHand = s.inHand := rfl
@[simp] theorem setNotify_notifies : (s.setNotify h n).notifies = update s.notifies h n := rfl

end

theorem until_setPhase {q q' : Token} {p : Phase} {d : Instant} (hs : t.queries = s.queries)
    (h : (s.queries q').phase.Until d) (hp : (s.queries q).phase.Until d → p.Until d) :
    ((t.setPhase q p).queries q').phase.Until d := by
  by_cases hq : q' = q
  · subst hq
    rw [setPhase_phase]
    exact hp h
  · rwa [setPhase_queries_of_ne _ _ hq, hs]

theorem until_turn {q : Token} {d : Instant} (h : (s.queries q).phase.Until d) (ht : Turn now s t) :
    (t.queries q).phase.Until d := by
  cases ht with
  | awaited _ hph => exact until_setPhase (s := s) rfl h fun hu => by rw [hph] at hu; exact hu.elim
  | woke hph | again hph | took hph | parked hph | expired hph | notified _ _ hph =>
    exact until_setPhase (s := s) rfl h fun hu => by rw [hph] at hu; exact hu
  | permit | missed => exact h

theorem until_leave {q q' : Token} {corr : Correlator} {p : Phase} {source : Option Nat} {d : Instant}
    (h : (s.queries q').phase.Until d) (hp : (s.queries q).phase.Until d → p.Until d) :
    ((s.leave q corr p source).queries q').phase.Until d := by
  by_cases hq : q' = q
  · subst hq
    simpa [leave] using hp h
  · simpa [leave, hq] using h

/-- No step moves a deadline. -/
theorem until_effect {q : Token} {d : Instant} (h : (s.queries q).phase.Until d) (he : Effect decode now s a t) :
    (t.queries q).phase.Until d := by
  cases he with
  | turn ht => exact until_turn h ht
  | @registered q' wire r corr slot _ hf =>
    have hne : q ≠ q' := by
      rintro rfl
      rw [hf] at h
      exact h
    simpa [hne] using h
  | cancelled hph => exact until_leave h fun hu => by rw [hph] at hu; exact hu.elim
  | returned => exact until_leave h fun _ => trivial
  | ignored | stored | closed => exact h

/-! ## Timing out -/

/-- The steps a waiter takes by itself. -/
def Own (q : Token) (a : Act) : Prop := a = .poll q ∨ a = .wake q ∨ a = .expire q ∨ a = .check q

/-- The query `q` returns something, by its own steps and without time passing. -/
def Finishes (decode : HeaderDecoder) (now : Instant) (s : Session) (q : Token) : Prop :=
  ∃ result, Returns decode (Own q) now s q result

theorem Finishes.step {q : Token} (ha : Own q a) (hs : s.step decode now a = some t)
    (h : Finishes decode now t q) : Finishes decode now s q :=
  h.imp fun _ hr => hr.step ha hs

variable {q : Token} {d : Instant}

/-- The look into the slot: a result, or back to the top of the loop with the
handle as it is. -/
theorem finishes_of_running {woke : Bool} (hl : ∃ slot, s.corr.pending.find (s.queries q).id = some slot)
    (hph : (s.queries q).phase = .running d woke)
    (hnext : woke = true → Finishes decode now (s.setPhase q (.looping d)) q) : Finishes decode now s q := by
  obtain ⟨slot, hl⟩ := hl
  cases hv : Correlator.verdict slot s.corr.closed woke with
  | none =>
    cases woke with
    | true =>
      refine (hnext rfl).step (a := .check q) (.inr (.inr (.inr rfl))) ?_
      simp only [Session.step, check, hph, Correlator.check_of_lookup hl, hv]
    | false =>
      -- the time is up
      unfold Correlator.verdict at hv
      split at hv
      · cases hv
      · split at hv <;> cases hv
  | some result =>
    have hs : s.step decode now (.check q) = some (s.leave q (s.corr.recycle (s.queries q).id slot)
        (.returned result) (slot.response.map fun _ => s.source (s.queries q).id)) := by
      simp only [Session.step, check, hph, Correlator.check_of_lookup hl, hv, hl, Option.bind_some]
    exact ⟨result, .step (.inr (.inr (.inr rfl))) hs ⟨_, .refl _, by simp⟩⟩

theorem finishes_of_parked (hl : ∃ slot, s.corr.pending.find (s.queries q).id = some slot)
    (hph : (s.queries q).phase = .parked d) (hd : d ≤ now) : Finishes decode now s q := by
  refine .step (a := .expire q) (.inr (.inr (.inl rfl))) (by simp only [Session.step, expire, hph, if_pos hd]; rfl) ?_
  exact finishes_of_running (by simpa [setNotify] using hl) (setPhase_phase ..) fun h => by cases h

theorem finishes_of_looping (hl : ∃ slot, s.corr.pending.find (s.queries q).id = some slot)
    (hph : (s.queries q).phase = .looping d) (hd : d ≤ now) : Finishes decode now s q := by
  -- without a permit it parks and its timer fires; with one it looks, and then comes back without
  have noPermit {s : Session} (hl : ∃ slot, s.corr.pending.find (s.queries q).id = some slot)
      (hph : (s.queries q).phase = .looping d) (hp : (s.notifies (s.queries q).notify).permit = false) :
      Finishes decode now s q := by
    refine .step (a := .poll q) (.inl rfl) (by
      simp only [Session.step, poll, hph, Notify.notified_of_not_permit hp, Bool.false_eq_true, if_false]; rfl) ?_
    exact finishes_of_parked (by simpa [setNotify] using hl) (setPhase_phase ..) hd
  cases hp : (s.notifies (s.queries q).notify).permit with
  | false => exact noPermit hl hph hp
  | true =>
    refine .step (a := .poll q) (.inl rfl) (by
      simp only [Session.step, poll, hph, Notify.notified_of_permit hp, if_true]; rfl) ?_
    refine finishes_of_running (by simpa [setNotify] using hl) (setPhase_phase ..) fun _ => ?_
    exact noPermit (by simpa [setNotify] using hl) (setPhase_phase ..) (by simp)

/-- Once its deadline has passed, a query finishes by its own steps. -/
theorem times_out (hs : s.Slots) (hu : (s.queries q).phase.Until d) (hd : d ≤ now) : Finishes decode now s q := by
  have slot (h : (s.queries q).phase.isActive) := (hs.active h).2
  cases hph : (s.queries q).phase with
  | fresh | registered | cancelled | panicked => rw [hph] at hu; exact hu.elim
  | returned result => exact ⟨result, s, .refl _, hph⟩
  | looping deadline =>
    rw [hph] at hu
    exact finishes_of_looping (slot (by rw [hph]; rfl)) (by rw [hph, hu]) hd
  | parked deadline =>
    rw [hph] at hu
    exact finishes_of_parked (slot (by rw [hph]; rfl)) (by rw [hph, hu]) hd
  | notified deadline =>
    rw [hph] at hu
    have hl := slot (by rw [hph]; rfl)
    refine .step (a := .wake q) (.inr (.inl rfl)) (by simp only [Session.step, wake, hph]; rfl) ?_
    refine finishes_of_running (by simpa using hl) (setPhase_phase ..) fun _ => ?_
    exact finishes_of_looping (by simpa using hl) (setPhase_phase ..) (by rw [hu]; exact hd)
  | running deadline woke =>
    rw [hph] at hu
    have hl := slot (by rw [hph]; rfl)
    refine finishes_of_running hl hph fun _ => ?_
    exact finishes_of_looping (by simpa using hl) (setPhase_phase ..) (by rw [hu]; exact hd)

end Session

end WireSurge.Dns
