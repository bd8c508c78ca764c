import WireSurge.Dns.Asked
import WireSurge.Dns.Unstarted
import WireSurge.Engine.Window

/-!
# The queries of a run

The wires of a run whose queries come from `build_query`: an exchange in flight carries
the query for the name of its row (`Asking.drawn`), and nothing but its own first poll
touches its part of the connection (`Actor.Primed`). So its first poll, whenever it
comes, gets through `register` (`queries_start`).
-/

namespace WireSurge.Engine

open Lts (Clocked Timed clocked)
open WireSurge.Dns (Bytes Duration Instant MessageLib SlotKeeper Starter Token Transport)

/-! ## Exchanges before their first poll -/

namespace Actor

variable {T : Transport} {a b : Actor T} {K : SlotKeeper T} {P : Starter K} {now : Instant} {timeout : Duration}

/-- The connection knows nothing of the exchanges that were not polled, nor of those to come. -/
structure Primed (P : Starter K) (a : Actor T) : Prop where
  token_lt : ∀ f ∈ a.inflight, f.token < a.recorder.sent
  fresh {q : Token} : (a.recorder.sent ≤ q ∨ ∃ f ∈ a.inflight, f.token = q ∧ f.polled = false) → P.Fresh a.conn q

namespace Primed

theorem new (P : Starter K) (progress : Bool) : Primed P (.new T progress) :=
  ⟨fun _ h => absurd h List.not_mem_nil, fun _ => P.connect _⟩

/-- The connection and the window stay, and so does the number of the queries sent. -/
theorem kept (h : Primed P a) (hc : b.conn = a.conn) (hi : ∀ f ∈ b.inflight, f ∈ a.inflight)
    (hs : b.recorder.sent = a.recorder.sent) : Primed P b := by
  refine ⟨fun f hf => hs ▸ h.token_lt f (hi f hf), fun hq => hc ▸ h.fresh ?_⟩
  rw [hs] at hq
  exact hq.imp_right fun ⟨f, hf, hrest⟩ => ⟨f, hi f hf, hrest⟩

theorem push (h : Primed P a) (index : Nat) (wire : Bytes) : Primed P (a.pushExchange now index wire) := by
  refine ⟨fun f hf => ?_, fun {q} hq => h.fresh ?_⟩
  · rcases List.mem_append.mp hf with hf | hf
    · exact Nat.lt_succ_of_lt (h.token_lt f hf)
    · rw [List.mem_singleton.mp hf]
      exact Nat.lt_succ_self _
  · rcases hq with hq | ⟨f, hf, hrest⟩
    · exact .inl (Nat.le_of_succ_le hq)
    · rcases List.mem_append.mp hf with hf | hf
      · exact .inr ⟨f, hf, hrest⟩
      · rw [List.mem_singleton.mp hf] at hrest
        exact .inl hrest.1.le

theorem turn (h : Primed P a) (hinv : K.Inv a.conn) (ht : Turn now timeout a b)
    (hs : b.recorder.sent = a.recorder.sent) : Primed P b := by
  cases ht with
  | kept hc hi => exact h.kept hc (fun f hf => hi ▸ hf) hs
  | @started f hf hstart hi =>
    refine ⟨fun g hg => ?_, fun {q} hq => ?_⟩
    · rw [hi] at hg
      obtain ⟨g', hg', rfl⟩ := List.mem_map.mp hg
      rw [hs, markPolled]
      split <;> exact h.token_lt g' hg'
    · have hne : q ≠ f.token := by
        rintro rfl
        rcases hq with hq | ⟨g, hg, htoken, hpolled⟩
        · rw [hs] at hq
          exact absurd (h.token_lt f hf) (not_lt.mpr hq)
        · rw [hi] at hg
          obtain ⟨g', -, rfl⟩ := List.mem_map.mp hg
          rw [markPolled] at htoken hpolled
          split at hpolled
          · cases hpolled
          · rename_i hg'
            rw [if_neg hg'] at htoken
            exact hg' htoken
      refine P.start hinv hstart hne (h.fresh ?_)
      rcases hq with hq | ⟨g, hg, htoken, hpolled⟩
      · exact .inl (hs ▸ hq)
      · rw [hi] at hg
        obtain ⟨g', hg', rfl⟩ := List.mem_map.mp hg
        rw [markPolled] at htoken hpolled
        split at hpolled
        · cases hpolled
        · rename_i hne'
          rw [if_neg hne'] at htoken
          exact .inr ⟨g', hg', htoken, hpolled⟩
  | resumed hr hi =>
    exact ⟨fun f hf => hs ▸ h.token_lt f (hi ▸ hf), fun hq => P.resume hinv hr (h.fresh (by rwa [hs, hi] at hq))⟩
  | reacted hr hi =>
    exact ⟨fun f hf => hs ▸ h.token_lt f (hi ▸ hf), fun hq => P.react hinv hr (h.fresh (by rwa [hs, hi] at hq))⟩
  | settled _ hc hi => exact h.kept hc (fun f hf => List.mem_of_mem_eraseP (hi ▸ hf)) hs

end Primed

end Actor

/-! ## Runs -/

namespace LoadRun

theorem getElem?_of_mapM {ε α β : Type} {f : α → Except ε β} {xs : List α} {ys : List β} (h : xs.mapM f = .ok ys)
    {i : Nat} {y : β} (hy : ys[i]? = some y) : ∃ x, xs[i]? = some x ∧ f x = .ok y := by
  induction xs generalizing ys i with
  | nil =>
    cases h
    cases hy
  | cons x xs ih =>
    rw [List.mapM_cons] at h
    cases hx : f x with
    | error e =>
      rw [hx] at h
      cases h
    | ok y' =>
      cases hxs : xs.mapM f with
      | error e =>
        rw [hx, hxs] at h
        cases h
      | ok zs =>
        rw [hx, hxs] at h
        cases h
        cases i with
        | zero =>
          cases hy
          exact ⟨x, rfl, hx⟩
        | succ i => exact ih hxs hy

/-- The wire of a row is what the builder made of the name in the row. -/
theorem wire_built (run : LoadRun) {row : Nat} {wire : Bytes} (h : run.wires[row]? = some wire) :
    ∃ text, run.plan.config.corpus.row row = .ok text ∧
      run.buildQuery 0 text run.plan.config.qtype run.plan.config.ednsOptions = .ok wire := by
  have hbuilt := run.built
  unfold ValidatedLoadPlan.wires at hbuilt
  cases hr : run.plan.config.corpus.iterRows with
  | error e =>
    rw [hr] at hbuilt
    cases hbuilt
  | ok names =>
    rw [hr] at hbuilt
    obtain ⟨text, htext, hwire⟩ := getElem?_of_mapM (Except.ok.inj hbuilt) h
    obtain ⟨i, hi, hrow⟩ := getElem?_of_mapM hr htext
    obtain ⟨hlt, heq⟩ := List.getElem?_eq_some_iff.mp hi
    rw [List.getElem_range] at heq
    exact ⟨text, heq ▸ hrow, hwire⟩

end LoadRun

/-- What the transport of a run knows of exchanges before their first poll. -/
def LoadRun.starter (run : LoadRun) : Starter run.keeper := run.plan.config.proto.starter run.target

namespace Load

variable {run : LoadRun} {s t : Load run} {now : Instant} {x : Act run}

/-- The exchanges in flight are primed, and have the wires of their indices. -/
structure Asking (s : Load run) : Prop where
  primed (w : run.Worker) : (s.actors w).Primed run.starter
  drawn (w : run.Worker) : ∀ f ∈ (s.actors w).inflight, run.work.request f.index = some (.ok f.wire)

namespace Asking

theorem init (run : LoadRun) : Asking (init run) where
  primed _ := .new _ _
  drawn _ _ h := absurd h List.not_mem_nil

/-- An actor gets on, with some of its exchanges. -/
theorem setActor (h : Asking s) {w : run.Worker} {a : Actor run.transport} (hprimed : a.Primed run.starter)
    (hi : ∀ f ∈ a.inflight, ∃ g ∈ (s.actors w).inflight, f.index = g.index ∧ f.wire = g.wire) :
    Asking (s.setActor w a) where
  primed := forall_setActor (P := fun _ a => a.Primed run.starter) h.primed hprimed
  drawn := forall_setActor (P := fun _ a => ∀ f ∈ a.inflight, run.work.request f.index = some (.ok f.wire)) h.drawn
    fun f hf => by
      obtain ⟨g, hg, hindex, hwire⟩ := hi f hf
      rw [hindex, hwire]
      exact h.drawn w g hg

theorem returns (h : Asking s) {w : run.Worker} {index : Nat} {called : Instant} {wire : Bytes}
    (hr : Returns s now w index called wire t) : Asking t := by
  obtain ⟨hrequest, rfl⟩ := hr
  refine ⟨forall_setActor (P := fun _ a => a.Primed run.starter) h.primed ((h.primed w).push index wire),
    forall_setActor (P := fun _ a => ∀ f ∈ a.inflight, run.work.request f.index = some (.ok f.wire)) h.drawn ?_⟩
  intro f hf
  rcases List.mem_append.mp hf with hf | hf
  · exact h.drawn w f hf
  · rw [List.mem_singleton.mp hf]
    exact hrequest

theorem step (h : Asking s) (hinv : ∀ w, run.keeper.Inv (s.actors w).conn) (hs : s.step now x = some t) :
    Asking t := by
  have hnext : Asking { s with seq := s.seq + 1 } := ⟨h.primed, h.drawn⟩
  cases effect_of_step hs with
  | cancel => exact ⟨h.primed, h.drawn⟩
  | @refused w => exact hnext.setActor ((h.primed w).kept rfl (fun _ hf => hf) rfl) fun f hf => ⟨f, hf, rfl, rfl⟩
  | @waits w => exact hnext.setActor ((h.primed w).kept rfl (fun _ hf => hf) rfl) fun f hf => ⟨f, hf, rfl, rfl⟩
  | ready _ _ _ hr => exact hnext.returns hr
  | opens _ _ _ hr => exact h.returns hr
  | @given w => exact h.setActor ((h.primed w).kept rfl (fun _ hf => hf) rfl) fun f hf => ⟨f, hf, rfl, rfl⟩
  | @actor w x a hl =>
    obtain ⟨a', ha, heq⟩ := Option.map_eq_some_iff.mp hs
    rw [← heq]
    have hturn := Actor.turn_of_step ha
    refine h.setActor ((h.primed w).turn (hinv w) hturn (Actor.local_of_step ha).kept.1) fun f hf => ?_
    cases hturn with
    | kept _ hi | resumed _ hi | reacted _ hi => exact ⟨f, hi ▸ hf, rfl, rfl⟩
    | started _ _ hi =>
      rw [hi] at hf
      obtain ⟨g, hg, rfl⟩ := List.mem_map.mp hf
      refine ⟨g, hg, ?_⟩
      rw [Actor.markPolled]
      split <;> exact ⟨rfl, rfl⟩
    | settled _ _ hi => exact ⟨f, List.mem_of_mem_eraseP (hi ▸ hf), rfl, rfl⟩

end Asking

theorem Reachable.asking {C : Clocked (Load run) → Timed (Act run) → Prop} {t : Clocked (Load run)}
    (h : Reachable C t) : Asking t.state := by
  have hboth := Lts.clocked_inv (I := fun _ s => Asking s ∧ ∀ w, (s.actors w).Tracked run.keeper) h
    ⟨.init run, fun _ => .new _ _⟩ (fun _ _ _ _ hi => hi)
    fun _ _ _ _ hs hi => ⟨hi.1.step (fun w => (hi.2 w).inv) hs, tracked_step hi.2 hs⟩
  exact hboth.1

/-- In every state of every run over the queries of `build_query`, an exchange in flight
has the query for the name in its row, with the type and the options of the plan; and
if it was not polled yet, its first poll gets through, over any transport. -/
theorem queries_start {lib : MessageLib} (hlib : lib.Documented) (hbuild : run.buildQuery = Dns.buildQuery lib)
    {t : Clocked (Load run)} (h : Reachable Lts.Any t) {w : run.Worker} {f : Flight}
    (hf : f ∈ (t.state.actors w).inflight) :
    (∃ row text name, run.plan.config.corpus.selectIndex (UInt64.ofNat f.index) run.plan.config.seed run.work.mode =
        some row ∧ run.plan.config.corpus.row row = .ok text ∧ lib.fromAscii (Dns.absoluteName text) = .ok name ∧
      f.wire.length ≤ 65535 ∧ Dns.Asks f.wire 0 name run.plan.config.qtype run.plan.config.ednsOptions) ∧
    (f.polled = false → ∃ conn,
      run.transport.start t.now run.timeout (t.state.actors w).conn f.token f.wire = some conn) := by
  have hasking := h.asking
  obtain ⟨row, wire, hrow, hwire, hrequest⟩ := run.request_ok f.index
  have heq : f.wire = wire := by
    have hdrawn := (hasking.drawn w f hf).symm.trans hrequest
    exact Except.ok.inj (Option.some.inj hdrawn)
  obtain ⟨text, htext, hbuilt⟩ := run.wire_built hwire
  rw [hbuild, ← heq] at hbuilt
  rcases Dns.buildQuery_cases hlib 0 run.plan.config.qtype text run.plan.config.ednsOptions with
    ⟨name, packet, hname, hle, hasks, hb⟩ | ⟨error, -, hb⟩
  · cases hb.symm.trans hbuilt
    refine ⟨⟨row, text, name, hrow, htext, hname, hle, hasks⟩, fun hpolled => ?_⟩
    have hfresh := (hasking.primed w).fresh (.inr ⟨f, hf, rfl, hpolled⟩)
    refine run.starter.starts _ _ hfresh (fun corr hcorr => ?_) hasks.fits
    -- the slots are those of the window, which is small
    have hout := (h.tracked w).outstanding_le hcorr
    have hwindow := ((h.conserved w).window).trans (min_le_right _ _)
    have hin := run.plan.admitted.inFlight.2
    rw [maxInFlight] at hin
    omega
  · cases hb.symm.trans hbuilt

/-! A run whose one query is built. -/

def builtRun : LoadRun where
  plan := ⟨sampleConfig .do53Udp 1 none none (some 1), by decide +kernel⟩
  target := ⟨Dns.rfc1035Header, [], fun _ => .ok ()⟩
  buildQuery := Dns.buildQuery Dns.plainLib
  start := 0
  wires := [Dns.Session.queryA]
  built := by decide +kernel
  progress := false
  arithmetic := .rounded

def builtWorker : builtRun.Worker := ⟨0, by decide +kernel⟩

/-- `queries_start` for it. -/
theorem queries_start_one : ∃ t f name conn,
    Lts.run (clocked step) ⟨0, init builtRun⟩ [.act (.actor builtWorker .connected), .act (.callNext builtWorker)] =
      some t ∧ f ∈ (t.state.actors builtWorker).inflight ∧ Dns.plainName "a." = .ok name ∧ Dns.Asks f.wire 0 name 1 [] ∧
      builtRun.transport.start t.now builtRun.timeout (t.state.actors builtWorker).conn f.token f.wire = some conn := by
  have hrun : ∃ t ∈ Lts.run (clocked step) ⟨0, init builtRun⟩
      [.act (.actor builtWorker .connected), .act (.callNext builtWorker)],
      ∃ f ∈ (t.state.actors builtWorker).inflight, f.polled = false ∧ f.index = 0 := by decide +kernel
  obtain ⟨t, ht, f, hf, hpolled, hindex⟩ := hrun
  obtain ⟨⟨row, text, name, hrow, htext, hname, -, hasks⟩, hstart⟩ :=
    queries_start Dns.plainLib_documented rfl (Lts.Reach.of_run ht) hf
  obtain ⟨conn, hconn⟩ := hstart hpolled
  have hzero : builtRun.plan.config.corpus.selectIndex (UInt64.ofNat 0) builtRun.plan.config.seed
      builtRun.work.mode = some 0 := by decide +kernel
  rw [hindex, hzero, Option.some.injEq] at hrow
  subst hrow
  have hone : builtRun.plan.config.corpus.row 0 = .ok "a" := by decide +kernel
  cases hone.symm.trans htext
  exact ⟨t, f, name, conn, ht, hf, hname, hasks, hconn⟩

end Load

end WireSurge.Engine
