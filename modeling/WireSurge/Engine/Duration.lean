import WireSurge.Engine.Budget

/-!
# The duration of a run

A gated call of `next` looks at the slot of its index, and not at the clock; a
slot that is before the deadline in doubles may be the deadline in nanoseconds.
So where waits end at their slot (`Punctual`), a request comes before the
deadline exactly when its call and its slot do (`returned_lt_iff`), and a run in
which this is so of every call that waits has no late request
(`requests_in_time`). An actor whose window was full calls late
(`late_request`).
-/

namespace WireSurge.Engine

open Lts (Clocked Timed)
open WireSurge.Dns (Instant)

/-- The slot that is waited for. -/
def Pc.scheduled? : Pc → Option Instant
  | .gated _ scheduled _ => some scheduled
  | _ => none

/-- The call goes on to wait at the gate. -/
def Begin.waits : Begin → Bool
  | .wait _ => true
  | _ => false

namespace Load

variable {run : LoadRun}

/-- No time passes beyond a slot that is waited for. -/
def Punctual (s : Clocked (Load run)) : Timed (Act run) → Prop
  | .elapse dt => ∀ w, ∀ scheduled ∈ (s.state.actors w).pc.scheduled?, s.now + dt ≤ scheduled
  | .act _ => True

/-- The instant of an index's slot lies before `d`, where the rate is capped. -/
def SlotBefore (run : LoadRun) (index : Nat) (d : Instant) : Prop :=
  ∀ gate ∈ run.work.gate, ∀ scheduled ∈ (gate.scheduled index).toOption, scheduled < d

instance (index : Nat) (d : Instant) : Decidable (SlotBefore run index d) :=
  inferInstanceAs (Decidable (∀ gate ∈ run.work.gate, ∀ scheduled ∈ (gate.scheduled index).toOption, scheduled < d))

/-- A call that goes on to wait is made before the deadline, and for a slot before it. -/
def InTime (s : Clocked (Load run)) : Timed (Act run) → Prop
  | .act (.callNext _) => (run.work.begin s.state.seq s.now).waits →
    ∀ d ∈ run.work.deadline, s.now < d ∧ SlotBefore run s.state.seq d
  | _ => True

instance (s : Clocked (Load run)) : ∀ x, Decidable (Punctual s x)
  | .elapse dt =>
    inferInstanceAs (Decidable (∀ w, ∀ scheduled ∈ (s.state.actors w).pc.scheduled?, s.now + dt ≤ scheduled))
  | .act _ => inferInstanceAs (Decidable True)

instance (s : Clocked (Load run)) : ∀ x, Decidable (InTime s x)
  | .act (.callNext _) =>
    inferInstanceAs (Decidable ((run.work.begin s.state.seq s.now).waits →
      ∀ d ∈ run.work.deadline, s.now < d ∧ SlotBefore run s.state.seq d))
  | .elapse _ | .act .cancel | .act (.gateOpens _) | .act (.gateCancelled _) | .act (.actor _ _) =>
    inferInstanceAs (Decidable True)

/-! ## Waits end at their slot -/

/-- A request is returned in its call, or at its slot. -/
def Prompt (a : Admission run) : Prop :=
  a.called ≤ a.returned ∧ (a.returned = a.called ∨ run.work.begin a.index a.called = .wait a.returned)

theorem Reachable.prompt {t : Clocked (Load run)} (h : Reachable Punctual t) :
    ∀ a ∈ t.state.admissions, Prompt a := by
  have hcalls := h.inv (I := fun now s => Calls (fun index scheduled called =>
    run.work.begin index called = .wait scheduled ∧ called ≤ now ∧ (now = called ∨ now ≤ scheduled)) Prompt s) .init
    (fun s dt hC hdt hi => ?_) fun s x t _ hi he => hi.effect he ?_ ?_ ?_
  · exact hcalls.admitted
  · refine ⟨fun w {_ _ _} hpc => ?_, hi.admitted⟩
    obtain ⟨hb, hle, -⟩ := hi.gated w hpc
    exact ⟨hb, hle.trans (le_add_of_nonneg_right hdt), .inr (hC w _ (by rw [hpc]; rfl))⟩
  · exact fun _ _ _ hb => ⟨hb, le_rfl, .inl rfl⟩
  · exact fun _ _ _ _ => ⟨le_rfl, .inl rfl⟩
  · rintro w index scheduled called wire ⟨hb, hle, hnow⟩ hopen -
    refine ⟨hle, hnow.imp_right fun hnow => ?_⟩
    -- the wait ends at its slot
    rw [hb, le_antisymm hopen hnow]

/-- Where waits end at their slot, a request comes before the deadline exactly
when its call and its slot do. -/
theorem Reachable.returned_lt_iff {t : Clocked (Load run)} (h : Reachable Punctual t) {d : Instant}
    {a : Admission run} (ha : a ∈ t.state.admissions) :
    a.returned < d ↔ a.called < d ∧ SlotBefore run a.index d := by
  have hdrawn : Drawn a := h.called.admitted a ha
  obtain ⟨hle, hreturned⟩ := h.prompt a ha
  refine ⟨fun hlt => ⟨hle.trans_lt hlt, fun gate hg scheduled hs => ?_⟩, fun ⟨hcalled, hslot⟩ => ?_⟩
  · obtain ⟨scheduled', hs', hle'⟩ := hdrawn.slot_le hg
    rw [hs'] at hs
    cases hs
    exact hle'.trans_lt hlt
  · rcases hreturned with heq | hb
    · rwa [heq]
    · obtain ⟨gate, hg, hs, -⟩ := WorkSource.begin_wait hb
      exact hslot gate hg a.returned (by rw [hs]; rfl)

theorem Reachable.called_lt {t : Clocked (Load run)} (h : Reachable InTime t) {d : Instant}
    (hd : run.work.deadline = some d) : ∀ a ∈ t.state.admissions, a.called < d ∧ SlotBefore run a.index d := by
  have hcalls := h.inv (I := fun _ s => Calls (fun index _ called => called < d ∧ SlotBefore run index d)
    (fun a => a.called < d ∧ SlotBefore run a.index d) s) .init
    (fun _ _ _ _ hi => hi) fun s x t hC hi he => hi.effect he ?_ ?_ ?_
  · exact hcalls.admitted
  · rintro w scheduled rfl hb
    exact hC (by rw [hb]; rfl) d hd
  · intro w wire hb _
    obtain ⟨hg, hlt⟩ := WorkSource.begin_ready hb
    refine ⟨hlt d hd, fun gate hg' => ?_⟩
    rw [hg] at hg'
    cases hg'
  · exact fun _ _ _ _ _ hlt _ _ => hlt

/-- In every run whose waits end at their slot, a request comes before the
deadline exactly when its call and its slot do; when every call that goes on to
wait is made before the deadline for a slot before it, every request comes
before it. -/
theorem requests_in_time {d : Instant} (hd : run.work.deadline = some d) (t : Clocked (Load run)) :
    (Reachable Punctual t → ∀ a ∈ t.state.admissions,
      (a.returned < d ↔ a.called < d ∧ SlotBefore run a.index d)) ∧
    (Reachable (fun s x => Punctual s x ∧ InTime s x) t → ∀ a ∈ t.state.admissions, a.returned < d) := by
  refine ⟨fun h a ha => h.returned_lt_iff ha, fun h a ha => ?_⟩
  have hp : Reachable Punctual t := h.mono fun _ _ hC => hC.1
  have hi : Reachable InTime t := h.mono fun _ _ hC => hC.2
  exact (hp.returned_lt_iff ha).mpr (hi.called_lt hd a ha)

/-! A run of one second at 10 queries a second, with a window of one: the first
query times out after two seconds, and only then `next` is called again. -/

/-- Queries over DoH at 10 qps for a second, one at a time. -/
def lateRun : LoadRun := sampleRun (sampleConfig .doh 1 (some (.ofRat 10)) (some 1) none) (by decide +kernel) rfl

/-- Its worker. -/
def lateWorker : lateRun.Worker := ⟨0, by decide +kernel⟩

/-- The first query times out after two seconds. -/
def firstQuery : List (Timed (Act lateRun)) :=
  [.act (.actor lateWorker .connected), .act (.callNext lateWorker), .act (.gateOpens lateWorker),
    .act (.actor lateWorker .guardFails), .act (.actor lateWorker .proceed), .act (.actor lateWorker (.poll 0)),
    .elapse 2, .act (.actor lateWorker (.resume 0 Dns.DohResume.timedOut)), .act (.actor lateWorker (.settle 0))]

/-- The second is returned at once. -/
def secondQuery : List (Timed (Act lateRun)) := [.act (.callNext lateWorker), .act (.gateOpens lateWorker)]

/-- A run to `requests_in_time`: the first query. -/
theorem requests_in_time_first : ∃ t,
    Lts.run (Lts.clocked step) ⟨0, init lateRun⟩ firstQuery = some t ∧
      t.state.admissions.map Admission.index = [0] ∧ ∀ a ∈ t.state.admissions, a.returned < 1 := by
  have hrun : ∃ t ∈ Lts.run (Lts.clocked step) ⟨0, init lateRun⟩ firstQuery,
      t.state.admissions.map Admission.index = [0] := by decide +kernel
  obtain ⟨t, ht, hi⟩ := hrun
  have hr : Reachable (fun s x => Punctual s x ∧ InTime s x) t := .of_along ht (by decide +kernel)
  exact ⟨t, ht, hi, (requests_in_time (by decide +kernel : lateRun.work.deadline = some 1) t).2 hr⟩

/-- The second request comes a second after the deadline. -/
theorem late_request :
    ¬ ∀ (run : LoadRun) (d : Instant), run.work.deadline = some d → ∀ t : Clocked (Load run),
      Reachable Punctual t → ∀ a ∈ t.state.admissions, a.returned < d := by
  intro h
  have hrun : ∃ t ∈ Lts.run (Lts.clocked step) ⟨0, init lateRun⟩ (firstQuery ++ secondQuery),
      ∃ a ∈ t.state.admissions, a.returned = 2 := by decide +kernel
  obtain ⟨t, ht, a, ha, hret⟩ := hrun
  have hr : Reachable Punctual t := .of_along ht (by decide +kernel)
  have hlt := h lateRun 1 (by decide +kernel) t hr a ha
  rw [hret] at hlt
  exact absurd hlt (by norm_num)

end Load

end WireSurge.Engine
