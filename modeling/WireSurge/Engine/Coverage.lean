import Mathlib.Data.Int.CardIntervalMod
import WireSurge.Engine.Asking
import WireSurge.Engine.Budget

/-!
# The rows of a corpus

A run without `--randomize` takes the rows of its corpus in turn, by the number of the
query. As its tickets are distinct, no row is asked more often than the numbers drawn so
far come to it, whatever the actors do; and a run that only its count has ended has asked
each row as often as the count comes to it (`rows_in_turn`).
-/

namespace WireSurge.Engine

open Lts (Clocked Timed clocked)
open WireSurge.Dns (MessageLib)

/-! ## Turns -/

/-- How often the numbers below `n` come to place `v`, of `k` places in turn. -/
def turns (k v n : Nat) : Nat := n / k + if v < n % k then 1 else 0

theorem countP_range (p : Nat → Prop) [DecidablePred p] (n : Nat) : (List.range n).countP (p ·) = n.count p := by
  induction n with
  | zero => rfl
  | succ n ih =>
    rw [List.range_succ, List.countP_append, ih, Nat.count_succ, List.countP_singleton]
    simp only [decide_eq_true_eq]

theorem countP_mod {k v : Nat} (hv : v < k) (n : Nat) : (List.range n).countP (· % k = v) = turns k v n := by
  have hcount := Nat.count_modEq_card n (Nat.zero_lt_of_lt hv) v
  rw [Nat.mod_eq_of_lt hv] at hcount
  rw [countP_range, turns, ← hcount]
  congr 1
  funext i
  rw [Nat.ModEq, Nat.mod_eq_of_lt hv]

namespace Load

variable {run : LoadRun} {t : Clocked (Load run)}

/-- The row of an index. -/
def rowOf (run : LoadRun) (index : Nat) : Option Nat :=
  run.plan.config.corpus.selectIndex (UInt64.ofNat index) run.plan.config.seed run.work.mode

/-- How often a row was asked. -/
def asked (s : Load run) (row : Nat) : Nat := s.admissions.countP fun a => rowOf run a.index = some row

/-- The rows go around. -/
theorem rowOf_eq (hmode : run.plan.config.randomize = false) {index : Nat} (hindex : index < 2 ^ 64) :
    rowOf run index = some (index % run.plan.config.corpus.len) := by
  have hlen : (UInt64.ofNat run.plan.config.corpus.len).toNat = run.plan.config.corpus.len := by
    have hrows := run.plan.admitted.rows
    rw [maxCorpusRows] at hrows
    exact UInt64.toNat_ofNat_of_lt' (Nat.lt_of_le_of_lt hrows (by decide))
  have hwork : run.work.mode = .sequential := by simp only [LoadRun.work, hmode]; rfl
  rw [rowOf, hwork, Corpus.Corpus.selectIndex, UInt64.toNat_mod, hlen, UInt64.toNat_ofNat_of_lt' hindex]

theorem asked_eq (hmode : run.plan.config.randomize = false) {s : Load run}
    (hlt : ∀ a ∈ s.admissions, a.index < 2 ^ 64) (row : Nat) :
    s.asked row = (s.admissions.map Admission.index).countP (· % run.plan.config.corpus.len = row) := by
  rw [asked, List.countP_map]
  refine List.countP_congr fun a ha => ?_
  rw [rowOf_eq hmode (hlt a ha)]
  simp

/-- A run without `--randomize` over the queries of `build_query`: every request asks for
the name in the row of its index, and there is one; no row is asked more often than its
turn came among the numbers drawn; and a run that only its count has ended has asked
each row exactly as often as its turn came among the count. -/
theorem rows_in_turn {lib : MessageLib} (hlib : lib.Documented) (hbuild : run.buildQuery = Dns.buildQuery lib)
    (hmode : run.plan.config.randomize = false) (h : Reachable Lts.Any t) :
    (∀ a ∈ t.state.admissions, ∃ row text name, rowOf run a.index = some row ∧
      run.plan.config.corpus.row row = .ok text ∧ lib.fromAscii (Dns.absoluteName text) = .ok name ∧
      Dns.Asks a.wire 0 name run.plan.config.qtype run.plan.config.ednsOptions) ∧
    (t.state.seq ≤ 2 ^ 64 →
      (∀ row < run.plan.config.corpus.len,
        t.state.asked row ≤ turns run.plan.config.corpus.len row t.state.seq) ∧
      ∀ n, run.plan.config.count = some n → run.plan.config.duration = none →
        (∀ qps, run.plan.qps = some qps → (n : ℚ) ≤ qps * maxRunSecs) → t.state.cancelled = false →
        (∀ w, (t.state.actors w).pc = .done ∨ (t.state.actors w).pc = .failed) →
        (∃ w, (t.state.actors w).noMoreWork = true) →
        ∀ row < run.plan.config.corpus.len, t.state.asked row = turns run.plan.config.corpus.len row n) := by
  have hvalid := h.tickets.1
  refine ⟨fun a ha => ?_, fun hseq => ?_⟩
  · have hdrawn := h.called.admitted a ha
    obtain ⟨row, -, hrow, hwire⟩ := hdrawn.row
    obtain ⟨text, htext, hbuilt⟩ := run.wire_built hwire
    rw [hbuild] at hbuilt
    rcases Dns.buildQuery_cases hlib 0 run.plan.config.qtype text run.plan.config.ednsOptions with
      ⟨name, packet, hname, -, hasks, hb⟩ | ⟨error, -, hb⟩
    · cases hb.symm.trans hbuilt
      exact ⟨row, text, name, hrow, htext, hname, hasks⟩
    · cases hb.symm.trans hbuilt
  have hlt : ∀ a ∈ t.state.admissions, a.index < t.state.seq := fun a ha =>
    hvalid.used_lt (List.mem_map_of_mem ha)
  have hasked := asked_eq hmode fun a ha => (hlt a ha).trans_le hseq
  refine ⟨fun row hrow => ?_, fun n hn hd hq hc hw ho row hrow => ?_⟩
  · have hsub : (t.state.admissions.map Admission.index).Subperm (List.range t.state.seq) :=
      hvalid.nodup.subperm fun i hi => List.mem_range.mpr (hvalid.used_lt hi)
    rw [hasked, ← countP_mod hrow]
    exact hsub.countP_le _
  · rw [hasked, (h.spent hn hd hq hc hw ho).countP_eq, countP_mod hrow]

/-! Three queries over two rows. -/

def turnsRun : LoadRun where
  plan := ⟨{ sampleConfig .do53Udp 1 none none (some 3) with corpus := ⟨[97, 98], [(0, 1), (1, 2)], by simp⟩ },
    by decide +kernel⟩
  target := ⟨Dns.rfc1035Header, [], fun _ => .ok ()⟩
  buildQuery := Dns.buildQuery Dns.plainLib
  start := 0
  wires := [Dns.Session.queryA, [0, 0, 1, 0, 0, 1, 0, 0, 0, 0, 0, 0, 1, 98, 0, 0, 1, 0, 1]]
  built := by decide +kernel
  progress := false
  arithmetic := .rounded

def turnsWorker : turnsRun.Worker := ⟨0, by decide +kernel⟩

/-- A query that is not sent. -/
def sendsNot (q : Dns.Token) : List (Timed (Act turnsRun)) :=
  [.act (.callNext turnsWorker), .act (.actor turnsWorker .guardFails), .act (.actor turnsWorker .proceed),
    .act (.actor turnsWorker (.poll q)),
    .act (.actor turnsWorker (.resume q (Dns.UdpResume.sendFailed "Connection refused (os error 111)"))),
    .act (.actor turnsWorker (.settle q))]

def threeTurns : List (Timed (Act turnsRun)) :=
  [.act (.actor turnsWorker .connected)] ++ sendsNot 0 ++ sendsNot 1 ++ sendsNot 2 ++
    [.act (.callNext turnsWorker), .act (.actor turnsWorker .proceed), .act (.actor turnsWorker .finish)]

/-- `rows_in_turn` for them. -/
theorem rows_in_turn_three : ∃ t, Lts.run (clocked step) ⟨0, init turnsRun⟩ threeTurns = some t ∧
    t.state.asked 0 = 2 ∧ t.state.asked 1 = 1 := by
  have hrun : ∃ t ∈ Lts.run (clocked step) ⟨0, init turnsRun⟩ threeTurns,
      t.state.seq = 4 ∧ t.state.cancelled = false ∧
        (∀ w ∈ List.finRange turnsRun.concurrency, (t.state.actors w).pc = .done) ∧
        (t.state.actors turnsWorker).noMoreWork = true := by decide +kernel
  obtain ⟨t, ht, hseq, hc, hw, ho⟩ := hrun
  obtain ⟨-, hturns⟩ := rows_in_turn Dns.plainLib_documented rfl rfl (Lts.Reach.of_run ht)
  obtain ⟨-, hall⟩ := hturns (by rw [hseq]; decide)
  have hrows := hall 3 rfl rfl (fun _ hq => by cases hq) hc (fun w => .inl (hw w (List.mem_finRange w)))
    ⟨turnsWorker, ho⟩
  exact ⟨t, ht, hrows 0 (by decide), hrows 1 (by decide)⟩

end Load

end WireSurge.Engine
