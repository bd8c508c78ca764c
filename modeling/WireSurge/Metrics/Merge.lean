import Mathlib.Algebra.BigOperators.Fin
import Mathlib.Algebra.BigOperators.Group.List.Basic
import WireSurge.Metrics.Hist

/-!
# Merged recorders

Recorders are a commutative monoid under `merge`, and an event adds the
recorder that saw nothing else (`apply_eq`). So it does not matter which
recorder an event goes to, nor in which order the recorders are merged:
`sum_distribute`. `Balanced` is what holds in every recorder built so.
-/

namespace WireSurge.Metrics.LoadRecorder

theorem merge_assoc (r s t : LoadRecorder) : (r.merge s).merge t = r.merge (s.merge t) := by
  simp only [merge, add_assoc]

theorem merge_comm (r s : LoadRecorder) : r.merge s = s.merge r := by
  simp only [merge, add_comm]

theorem merge_new (r : LoadRecorder) : r.merge new = r := by
  simp only [merge, new, add_zero]

instance : Zero LoadRecorder := ⟨new⟩

instance : Add LoadRecorder := ⟨merge⟩

instance : AddCommMonoid LoadRecorder where
  add_assoc := merge_assoc
  add_zero := merge_new
  zero_add r := (merge_comm new r).trans (merge_new r)
  add_comm := merge_comm
  nsmul := nsmulRec

theorem add_eq (r s : LoadRecorder) : r + s = r.merge s := rfl

theorem zero_eq : (0 : LoadRecorder) = new := rfl

/-- What a recorder is told. -/
inductive Event
  | sent
  | response (rcode : UInt16) (truncated : Bool) (bytesIn latencyUs : Nat)
  | timeout
  | error
  | connError

def apply (r : LoadRecorder) : Event → LoadRecorder
  | .sent => r.onSent
  | .response rcode truncated bytesIn latencyUs => r.onResponse rcode truncated bytesIn latencyUs
  | .timeout => r.onTimeout
  | .error => r.onError
  | .connError => r.onConnError

/-- The recorder that saw all of `events`. -/
def replay (events : List Event) : LoadRecorder := events.foldl apply new

/-- An event counts the same whatever was recorded before. -/
theorem apply_eq (r : LoadRecorder) (e : Event) : r.apply e = r + new.apply e := by
  rw [add_eq]
  cases e with
  | response rcode truncated bytesIn latencyUs =>
    have hrcodes : Function.update r.rcodes (bucket rcode) (r.rcodes (bucket rcode) + 1) =
        fun i => r.rcodes i + Function.update (fun _ => 0) (bucket rcode) (0 + 1) i := by
      funext i
      by_cases hi : i = bucket rcode
      · rw [hi, Function.update_self, Function.update_self]
      · rw [Function.update_of_ne hi, Function.update_of_ne hi, Nat.add_zero]
    simp only [apply, onResponse, merge, new, hrcodes, add_zero, zero_add,
      ← Multiset.singleton_add, add_comm r.hist]
  | sent => simp only [apply, onSent, merge, new, add_zero, zero_add]
  | timeout => simp only [apply, onTimeout, merge, new, add_zero, zero_add]
  | error => simp only [apply, onError, merge, new, add_zero, zero_add]
  | connError => simp only [apply, onConnError, merge, new, add_zero, zero_add]

theorem replay_eq_sum (events : List Event) : replay events = (events.map new.apply).sum := by
  suffices h : ∀ r : LoadRecorder, events.foldl apply r = r + (events.map new.apply).sum by
    rw [replay, h, ← zero_eq, zero_add]
  induction events with
  | nil => exact fun r => (add_zero r).symm
  | cons e es ih =>
    intro r
    rw [List.foldl_cons, ih, apply_eq r e, List.map_cons, List.sum_cons, add_assoc]

/-! ## Many recorders -/

section
variable {ι : Type}

/-- The recorders merged one after the other into a fresh one. -/
def mergeAll (order : List ι) (rs : ι → LoadRecorder) : LoadRecorder :=
  order.foldl (fun aggregate i => aggregate.merge (rs i)) new

theorem mergeAll_eq_sum (order : List ι) (rs : ι → LoadRecorder) : mergeAll order rs = (order.map rs).sum := by
  rw [mergeAll, List.sum_eq_foldl, List.foldl_map]
  rfl

variable [DecidableEq ι]

/-- Every event of `log` recorded at the recorder it is for. -/
def distribute (log : List (Event × ι)) : ι → LoadRecorder :=
  log.foldl (fun rs e => Function.update rs e.2 ((rs e.2).apply e.1)) fun _ => new

/-- An event at one of the recorders shows once in their sum. -/
theorem sum_map_update {order : List ι} (nodup : order.Nodup) {i : ι} (hi : i ∈ order) (rs : ι → LoadRecorder)
    (r : LoadRecorder) : (order.map (Function.update rs i (rs i + r))).sum = (order.map rs).sum + r := by
  have hother : ∀ l : List ι, i ∉ l → l.map (Function.update rs i (rs i + r)) = l.map rs := by
    intro l hl
    refine List.map_congr_left fun j hj => Function.update_of_ne ?_ _ _
    exact fun h : j = i => hl (h ▸ hj)
  obtain ⟨before, after, rfl⟩ := List.append_of_mem hi
  obtain ⟨-, hafter, hdisjoint⟩ := List.nodup_append.mp nodup
  have hbefore : i ∉ before := fun h => hdisjoint i h i List.mem_cons_self rfl
  simp only [List.map_append, List.map_cons, List.sum_append, List.sum_cons, Function.update_self,
    hother before hbefore, hother after (List.nodup_cons.mp hafter).1]
  ac_rfl

theorem sum_distribute {order : List ι} (nodup : order.Nodup) (log : List (Event × ι))
    (covers : ∀ e ∈ log, e.2 ∈ order) :
    (order.map (distribute log)).sum = ((log.map Prod.fst).map new.apply).sum := by
  induction log using List.reverseRecOn with
  | nil =>
    show (order.map fun _ => (0 : LoadRecorder)).sum = 0
    rw [List.map_const', List.sum_replicate, nsmul_zero]
  | append_singleton log e ih =>
    have hlog := ih fun e' he' => covers e' (List.mem_append_left _ he')
    have he : e.2 ∈ order := covers e (List.mem_append_right _ (List.mem_singleton_self e))
    have hstep : distribute (log ++ [e]) =
        Function.update (distribute log) e.2 (distribute log e.2 + new.apply e.1) := by
      rw [← apply_eq, distribute, List.foldl_append]
      rfl
    rw [hstep, sum_map_update nodup he, hlog]
    simp only [List.map_append, List.sum_append, List.map_cons, List.map_nil, List.sum_singleton]

theorem mergeAll_distribute {order : List ι} (nodup : order.Nodup) (log : List (Event × ι))
    (covers : ∀ e ∈ log, e.2 ∈ order) : mergeAll order (distribute log) = replay (log.map Prod.fst) := by
  rw [mergeAll_eq_sum, sum_distribute nodup log covers, replay_eq_sum]

end

/-! ## What holds of every recorder -/

/-- The recorders that events and merges make. -/
inductive Reached : LoadRecorder → Prop
  | new : Reached new
  | apply {r : LoadRecorder} (h : Reached r) (e : Event) : Reached (r.apply e)
  | merge {r other : LoadRecorder} (h : Reached r) (hother : Reached other) : Reached (r.merge other)

/-- Every response is in one bucket and in the histogram. -/
structure Balanced (r : LoadRecorder) : Prop where
  rcodes : ∑ i, r.rcodes i = r.received
  hist : r.hist.card = r.received
  truncated : r.truncated ≤ r.received

theorem Balanced.merge {r other : LoadRecorder} (h : r.Balanced) (hother : other.Balanced) :
    (r.merge other).Balanced where
  rcodes := by
    show ∑ i, (r.rcodes i + other.rcodes i) = r.received + other.received
    rw [Finset.sum_add_distrib, h.rcodes, hother.rcodes]
  hist := by
    show (r.hist + other.hist).card = r.received + other.received
    rw [Multiset.card_add, h.hist, hother.hist]
  truncated := Nat.add_le_add h.truncated hother.truncated

theorem balanced_new : new.Balanced where
  rcodes := Finset.sum_const_zero
  hist := Multiset.card_zero
  truncated := Nat.le_refl 0

/-- An event that is no response leaves all of it as it was. -/
theorem balanced_single (e : Event) : (new.apply e).Balanced := by
  cases e with
  | response rcode truncated bytesIn latencyUs =>
    refine ⟨?_, Multiset.card_singleton _, ?_⟩
    · show ∑ i, Function.update (fun _ => 0) (bucket rcode) (0 + 1) i = 0 + 1
      rw [Finset.sum_update_of_mem (Finset.mem_univ _), Finset.sum_const_zero, Nat.add_zero]
    · show 0 + truncated.toNat ≤ 0 + 1
      have := truncated.toNat_le
      omega
  | sent => exact ⟨balanced_new.rcodes, balanced_new.hist, balanced_new.truncated⟩
  | timeout => exact ⟨balanced_new.rcodes, balanced_new.hist, balanced_new.truncated⟩
  | error => exact ⟨balanced_new.rcodes, balanced_new.hist, balanced_new.truncated⟩
  | connError => exact ⟨balanced_new.rcodes, balanced_new.hist, balanced_new.truncated⟩

theorem Reached.balanced {r : LoadRecorder} (h : Reached r) : r.Balanced := by
  induction h with
  | new => exact balanced_new
  | apply _ e ih => exact apply_eq _ e ▸ ih.merge (balanced_single e)
  | merge _ _ ih ihother => exact ih.merge ihother

/-- However the events are spread over the recorders, and in whatever order
the recorders are merged, the aggregate is the recorder that saw them all. -/
theorem merged_eq_single :
    (∀ {ι : Type} [DecidableEq ι] (log : List (Event × ι)) (order : List ι), order.Nodup →
      (∀ e ∈ log, e.2 ∈ order) → mergeAll order (distribute log) = replay (log.map Prod.fst)) ∧
    ∀ r, Reached r → r.Balanced :=
  ⟨fun log _ nodup covers => mergeAll_distribute nodup log covers, fun _ h => h.balanced⟩

theorem merged_eq_single_pair :
    mergeAll [1, 0] (distribute [(.sent, 0), (.response 23 true 64 70_000_000, 1), (.connError, 0)]) =
        replay [.sent, .response 23 true 64 70_000_000, .connError] ∧
      ∀ r, Reached r → r.Balanced :=
  ⟨merged_eq_single.1 _ _ (by decide) (by decide), merged_eq_single.2⟩

end WireSurge.Metrics.LoadRecorder
