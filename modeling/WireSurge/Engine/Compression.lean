import WireSurge.Engine.Budget
import WireSurge.Engine.Duration

/-!
# Missed slots

With exact arithmetic, where waits end at their slot (`Punctual`) and no call is
made later than the slot of its index (`OnTime`), every request is returned at
its slot (`Reachable.slotted`), and so the rate cap holds in every window of time
(`admitted_in_window`). A call that is late is not made to wait
(`Reachable.returned_eq`): the slots that an actor missed are returned at once
(`missed_at_once`).
-/

namespace WireSurge.Engine

open Lts (Clocked Timed)
open WireSurge.Dns (Instant)

/-- Numbers that lie close together are few. -/
theorem length_le_of_close {l : List ℕ} (hl : l.Nodup) {b : ℚ} (hb : 0 ≤ b)
    (h : ∀ i ∈ l, ∀ j ∈ l, (j : ℚ) - i ≤ b) : (l.length : ℚ) ≤ b + 1 := by
  rcases l.toFinset.eq_empty_or_nonempty with hempty | hne
  · rw [(List.toFinset_eq_empty_iff l).mp hempty, List.length_nil, Nat.cast_zero]
    linarith
  · have hlow := List.mem_toFinset.mp (l.toFinset.min'_mem hne)
    have hhigh := List.mem_toFinset.mp (l.toFinset.max'_mem hne)
    have hsub : l.toFinset ⊆ Finset.Icc (l.toFinset.min' hne) (l.toFinset.max' hne) := fun i hi =>
      Finset.mem_Icc.mpr ⟨l.toFinset.min'_le i hi, l.toFinset.le_max' i hi⟩
    have hcard := Finset.card_le_card hsub
    rw [List.toFinset_card_of_nodup hl, Nat.card_Icc] at hcard
    have hle := l.toFinset.min'_le _ (l.toFinset.max'_mem hne)
    have hlength : (l.length : ℚ) ≤ (l.toFinset.max' hne : ℚ) + 1 - l.toFinset.min' hne := by
      rw [← Nat.cast_add_one, ← Nat.cast_sub (by omega)]
      exact_mod_cast hcard
    linarith [h _ hlow _ hhigh]

/-- The slot a call goes on to wait for, if it does. -/
def Begin.scheduled? : Begin → Option Instant
  | .wait scheduled => some scheduled
  | _ => none

namespace Load

variable {run : LoadRun}

/-- A call that goes on to wait is made no later than its slot. -/
def OnTime (s : Clocked (Load run)) : Timed (Act run) → Prop
  | .act (.callNext _) => ∀ scheduled ∈ (run.work.begin s.state.seq s.now).scheduled?, s.now ≤ scheduled
  | _ => True

instance (s : Clocked (Load run)) : ∀ x, Decidable (OnTime s x)
  | .act (.callNext _) =>
    inferInstanceAs (Decidable (∀ scheduled ∈ (run.work.begin s.state.seq s.now).scheduled?, s.now ≤ scheduled))
  | .elapse _ | .act .cancel | .act (.gateOpens _) | .act (.gateCancelled _) | .act (.actor _ _) =>
    inferInstanceAs (Decidable True)

section

variable {qps : ℚ} (hexact : run.arithmetic = .exact) (hq : run.plan.qps = some qps)

include hexact hq

theorem scheduled_eq {index : Nat} {called scheduled : Instant} (h : run.work.begin index called = .wait scheduled) :
    scheduled = run.start + index / qps := by
  obtain ⟨gate, hg, rfl, -⟩ := run.begin_wait h
  cases (run.gate_eq hq).symm.trans hg
  rw [RateGate.delay_of_exact hexact]

/-- A request is returned at its slot, or at once when its call is late. -/
theorem Reachable.returned_eq {t : Clocked (Load run)} (h : Reachable Punctual t) :
    ∀ a ∈ t.state.admissions, a.returned = max a.called (run.start + a.index / qps) := by
  intro a ha
  have hdrawn : Drawn a := h.called.admitted a ha
  obtain ⟨hle, heq | hb⟩ := h.prompt a ha
  · rcases hdrawn.drew with ⟨hready, -⟩ | ⟨scheduled, hwait, hslot⟩
    · have hnone := (WorkSource.begin_ready hready).1
      rw [run.gate_eq hq] at hnone
      cases hnone
    · rw [scheduled_eq hexact hq hwait] at hslot
      rw [heq, max_eq_left (heq ▸ hslot)]
  · rw [← scheduled_eq hexact hq hb, max_eq_right hle]

theorem Reachable.called_le {t : Clocked (Load run)} (h : Reachable OnTime t) :
    ∀ a ∈ t.state.admissions, a.called ≤ run.start + a.index / qps := by
  have hcalls := h.inv (I := fun _ s => Calls (fun index _ called => called ≤ run.start + index / qps)
    (fun a => a.called ≤ run.start + a.index / qps) s) .init
    (fun _ _ _ _ hi => hi) fun s x t hC hi he => hi.effect he ?_ ?_ ?_
  · exact hcalls.admitted
  · rintro w scheduled rfl hb
    rw [← scheduled_eq hexact hq hb]
    exact hC scheduled (by rw [hb]; rfl)
  · intro w wire hb _
    have hnone := (WorkSource.begin_ready hb).1
    rw [run.gate_eq hq] at hnone
    cases hnone
  · exact fun _ _ _ _ _ hle _ _ => hle

/-- A request is returned at its slot. -/
theorem Reachable.slotted {t : Clocked (Load run)} (h : Reachable (fun s x => Punctual s x ∧ OnTime s x) t) :
    ∀ a ∈ t.state.admissions, a.returned = run.start + a.index / qps := by
  have hp : Reachable Punctual t := h.mono fun _ _ hC => hC.1
  have ho : Reachable OnTime t := h.mono fun _ _ hC => hC.2
  intro a ha
  rw [hp.returned_eq hexact hq a ha, max_eq_right (ho.called_le hexact hq a ha)]

end

/-- The requests returned from `x` on for a time of `width`. -/
def admittedIn (s : Load run) (x width : ℚ) : List (Admission run) :=
  s.admissions.filter fun a => x ≤ a.returned ∧ a.returned ≤ x + width

/-- In every run with exact arithmetic whose waits end at their slot and in which
no call that goes on to wait is made later than its slot, the cap holds in every
window of time. -/
theorem admitted_in_window {qps : ℚ} (hexact : run.arithmetic = .exact) (hq : run.plan.qps = some qps)
    {t : Clocked (Load run)} (h : Reachable (fun s x => Punctual s x ∧ OnTime s x) t) (x : ℚ) {width : ℚ}
    (hwidth : 0 ≤ width) :
    ((t.state.admittedIn x width).length : ℚ) ≤ width * qps + 1 := by
  have hpos := ValidatedLoadPlan.qps_pos hq
  rw [← List.length_map Admission.index]
  refine length_le_of_close ?_ (mul_nonneg hwidth hpos.le) fun i hi j hj => ?_
  · exact h.tickets.1.nodup.sublist (List.filter_sublist.map _)
  · obtain ⟨a, ha, rfl⟩ := List.mem_map.mp hi
    obtain ⟨b, hb, rfl⟩ := List.mem_map.mp hj
    obtain ⟨ha, hwa⟩ := List.mem_filter.mp ha
    obtain ⟨hb, hwb⟩ := List.mem_filter.mp hb
    simp only [decide_eq_true_eq, h.slotted hexact hq a ha, h.slotted hexact hq b hb] at hwa hwb
    have hclose : ((b.index : ℚ) - a.index) / qps ≤ width := by
      rw [sub_div]
      linarith
    rwa [div_le_iff₀ hpos] at hclose

/-! A run at 10 queries a second, with a window of two: both queries time out at
2.1 seconds, and `next` is called for two slots that have passed. -/

/-- Four queries over DoH at 10 qps, two at a time, with exact slots. -/
def missedRun : LoadRun :=
  { sampleRun (sampleConfig .doh 2 (some (.ofRat 10)) none (some 4)) (by decide +kernel) rfl with
    arithmetic := .exact }

/-- Its worker. -/
def missedWorker : missedRun.Worker := ⟨0, by decide +kernel⟩

/-- Two queries leave at their slots and get no response. -/
def windowFills : List (Timed (Act missedRun)) :=
  [.act (.actor missedWorker .connected), .act (.callNext missedWorker), .act (.gateOpens missedWorker),
    .act (.callNext missedWorker), .elapse (1 / 10), .act (.gateOpens missedWorker),
    .act (.actor missedWorker .guardFails), .act (.actor missedWorker .proceed),
    .act (.actor missedWorker (.poll 0)), .act (.actor missedWorker (.poll 1))]

/-- The query `tok` times out, and the next one is handed out in its place. -/
def timesOut (tok : Dns.Token) : List (Timed (Act missedRun)) :=
  [.act (.actor missedWorker (.resume tok Dns.DohResume.timedOut)), .act (.actor missedWorker (.settle tok)),
    .act (.callNext missedWorker), .act (.gateOpens missedWorker), .act (.actor missedWorker .guardFails),
    .act (.actor missedWorker .proceed)]

/-- A run to `admitted_in_window`: the first two queries. -/
theorem admitted_in_window_two : ∃ t,
    Lts.run (Lts.clocked step) ⟨0, init missedRun⟩ windowFills = some t ∧
      (t.state.admittedIn 0 (1 / 10)).length = 2 ∧ ((t.state.admittedIn 0 (1 / 10)).length : ℚ) ≤ 1 / 10 * 10 + 1 := by
  have hrun : ∃ t ∈ Lts.run (Lts.clocked step) ⟨0, init missedRun⟩ windowFills,
      (t.state.admittedIn 0 (1 / 10)).length = 2 := by decide +kernel
  obtain ⟨t, ht, htwo⟩ := hrun
  have hr : Reachable (fun s x => Punctual s x ∧ OnTime s x) t := .of_along ht (by decide +kernel)
  exact ⟨t, ht, htwo, admitted_in_window rfl (by decide +kernel : missedRun.plan.qps = some 10) hr 0 (by norm_num)⟩

/-- Both missed slots are returned at 2.1 seconds. -/
theorem missed_at_once :
    ¬ ∀ (run : LoadRun) (qps : ℚ), run.arithmetic = .exact → run.plan.qps = some qps →
      ∀ t : Clocked (Load run), Reachable Punctual t → ∀ x width : ℚ, 0 ≤ width →
        ((t.state.admittedIn x width).length : ℚ) ≤ width * qps + 1 := by
  intro h
  have hrun : ∃ t ∈ Lts.run (Lts.clocked step) ⟨0, init missedRun⟩
      (windowFills ++ .elapse 2 :: timesOut 0 ++ timesOut 1), (t.state.admittedIn (21 / 10) 0).length = 2 := by
    decide +kernel
  obtain ⟨t, ht, htwo⟩ := hrun
  have hr : Reachable Punctual t := .of_along ht (by decide +kernel)
  have hle := h missedRun 10 rfl (by decide +kernel) t hr (21 / 10) 0 le_rfl
  rw [htwo] at hle
  norm_num at hle

end Load

end WireSurge.Engine
