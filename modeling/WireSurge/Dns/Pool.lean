import WireSurge.Dns.Slots

/-!
# The pool of handles

The handles of a correlator through any sequence of its operations (`Op`), in
any order and with any arguments. A handle is in the free list or in a slot:
the two lists together are the handles allocated, each once (`Pooled`). Handles
are allocated only when the free list is empty, so that there are as many as
there were queries pending at once (`pool_partition`). The correlator of a
session goes through such a sequence (`Session.Reachable.watched`).
-/

namespace WireSurge.Dns

open Lts (Clocked Timed Reach)

namespace Correlator

/-- What is done to a correlator under its lock. -/
inductive Op
  | register (wire : Bytes)
  | cancel (id : UInt16)
  | complete (buf : Bytes)
  | close
  /-- The look at the slot in `await_response`. -/
  | check (id : UInt16) (woke : Bool)

/-- The state after an operation that returns. -/
def apply (decode : HeaderDecoder) (c : Correlator) : Op → Option Correlator
  | .register wire =>
    match c.register wire with
    | some (.ok (_, c')) => some c'
    | _ => none
  | .cancel id => some (c.cancel id)
  | .complete buf =>
    match c.complete decode buf with
    | .ok (c', _) => some c'
    | .error _ => none
  | .close => some c.close.1
  | .check id woke =>
    match c.check id woke with
    | .ok (_, c') => some c'
    | .error _ => none

/-- A correlator, and the largest number of queries that were pending at once. -/
structure Watched where
  corr : Correlator
  peak : Nat

def Watched.new : Watched := ⟨.new, 0⟩

def Watched.step (decode : HeaderDecoder) (s : Watched) (op : Op) : Option Watched :=
  (s.corr.apply decode op).map fun c => ⟨c, max s.peak c.outstanding⟩

/-- The handles in the slots. -/
def inSlots (c : Correlator) : List Handle := c.pending.entries.map fun entry => entry.2.notify

/-- Each handle allocated is in one place, once in the free list or in one slot,
no other handle is in either, and no two slots share one. -/
structure Partitioned (c : Correlator) : Prop where
  place {notify : Handle} : notify < c.created →
    c.free.count notify = 1 ∧ (∀ id slot, c.pending.find id = some slot → slot.notify ≠ notify) ∨
    notify ∉ c.free ∧ ∃! id, ∃ slot, c.pending.find id = some slot ∧ slot.notify = notify
  allocated {notify : Handle} :
    notify ∈ c.free ∨ (∃ id slot, c.pending.find id = some slot ∧ slot.notify = notify) → notify < c.created
  apart {id id' : UInt16} {slot slot' : Slot} : c.pending.find id = some slot → c.pending.find id' = some slot' →
    slot.notify = slot'.notify → id = id'

/-- The handles allocated are those of the free list and the slots, each once. -/
structure Pooled (s : Watched) : Prop where
  perm : (s.corr.free ++ s.corr.inSlots).Perm (List.range s.corr.created)
  peak : s.corr.created = s.peak

/-! ## Slots that come and go -/

section

variable {c : Correlator} {id : UInt16} {slot slot' : Slot}

theorem length_inSlots (c : Correlator) : c.inSlots.length = c.outstanding := by
  rw [inSlots, List.length_map, outstanding, AList.keys, List.keys, List.length_map]

theorem entries_perm {p : Pending} (h : p.find id = some slot) :
    p.entries.Perm (⟨id, slot⟩ :: (p.erase id).entries) := by
  have hmem : id ∈ p.entries.keys := AList.lookup_isSome.mp (Option.isSome_of_eq_some h)
  obtain ⟨slot', before, after, -, hp, hk⟩ := List.exists_of_kerase hmem
  have hslot : p.find id = some slot' :=
    AList.mem_lookup_iff.mpr (by rw [hp]; exact List.mem_append_right _ List.mem_cons_self)
  cases h.symm.trans hslot
  rw [show (p.erase id).entries = before ++ after from hk, hp]
  exact List.perm_middle

theorem inSlots_perm (h : c.pending.find id = some slot) :
    c.inSlots.Perm (slot.notify :: (c.recycle id slot).inSlots) :=
  (entries_perm h).map _

/-- A slot that is written again keeps its handle. -/
theorem inSlots_rewrite (h : c.pending.find id = some slot) (hn : slot'.notify = slot.notify) :
    ({ c with pending := c.pending.insert id slot' } : Correlator).inSlots.Perm c.inSlots := by
  have hnew : ({ c with pending := c.pending.insert id slot' } : Correlator).inSlots =
      slot.notify :: (c.recycle id slot).inSlots := by
    rw [inSlots, AList.entries_insert, List.map_cons, hn]
    rfl
  rw [hnew]
  exact (inSlots_perm h).symm

theorem mem_inSlots {notify : Handle} :
    notify ∈ c.inSlots ↔ ∃ id slot, c.pending.find id = some slot ∧ slot.notify = notify := by
  rw [inSlots, List.mem_map]
  constructor
  · rintro ⟨⟨id, slot⟩, hmem, rfl⟩
    exact ⟨id, slot, AList.mem_lookup_iff.mpr hmem, rfl⟩
  · rintro ⟨id, slot, h, rfl⟩
    exact ⟨⟨id, slot⟩, AList.mem_lookup_iff.mp h, rfl⟩

/-- With no handle twice in the slots, no two slots share one. -/
theorem id_unique (hd : c.inSlots.Nodup) {id id' : UInt16} (h : c.pending.find id = some slot)
    (h' : c.pending.find id' = some slot') (hn : slot.notify = slot'.notify) : id = id' := by
  by_contra hne
  have hrest : slot'.notify ∈ (c.recycle id slot).inSlots := by
    apply mem_inSlots.mpr
    exact ⟨id', slot', (find_recycle_of_ne (Ne.symm hne)).trans h', rfl⟩
  have hnodup := (inSlots_perm h).nodup hd
  rw [List.nodup_cons, hn] at hnodup
  exact hnodup.1 hrest

end

/-! ## The operations -/

variable {decode : HeaderDecoder} {s t : Watched}

theorem Pooled.outstanding_le (h : Pooled s) : s.corr.outstanding ≤ s.corr.created := by
  have hlen := h.perm.length_eq
  rw [List.length_append, List.length_range, length_inSlots] at hlen
  omega

/-- The handles are the ones they were, in other places. -/
theorem Pooled.of_perm (h : Pooled s) {c : Correlator} (hc : c.created = s.corr.created)
    (hp : (c.free ++ c.inSlots).Perm (s.corr.free ++ s.corr.inSlots)) :
    Pooled ⟨c, max s.peak c.outstanding⟩ := by
  have hperm : (c.free ++ c.inSlots).Perm (List.range c.created) := by
    rw [hc]
    exact hp.trans h.perm
  have hle : c.outstanding ≤ c.created := Pooled.outstanding_le (s := ⟨c, c.created⟩) ⟨hperm, rfl⟩
  refine ⟨hperm, ?_⟩
  show c.created = max s.peak c.outstanding
  rw [hc, h.peak] at hle ⊢
  exact (Nat.max_eq_left hle).symm

/-- A slot is removed, and its handle goes to the free list. -/
theorem Pooled.recycle (h : Pooled s) {id : UInt16} {slot : Slot} (hs : s.corr.pending.find id = some slot) :
    Pooled ⟨s.corr.recycle id slot, max s.peak (s.corr.recycle id slot).outstanding⟩ := by
  apply h.of_perm (c := s.corr.recycle id slot) rfl
  show (slot.notify :: s.corr.free ++ (s.corr.recycle id slot).inSlots).Perm _
  exact List.perm_middle.symm.trans ((inSlots_perm hs).symm.append_left _)

/-- A new slot takes a handle of the free list, or, when there is none, a new one. -/
theorem Pooled.register (h : Pooled s) {wire : Bytes} {r : Registered} {c : Correlator}
    (hr : s.corr.register wire = some (.ok (r, c))) : Pooled ⟨c, max s.peak c.outstanding⟩ := by
  obtain ⟨hid, -, hpops, -, slot, hpending, hnotify, -, -⟩ := register_spec hr
  have hslots : c.inSlots = r.notify :: s.corr.inSlots := by
    rw [inSlots, hpending, AList.entries_insert_of_notMem hid, List.map_cons, hnotify]
    rfl
  rcases hpops with ⟨hfree, hcreated⟩ | ⟨hfree, hfree', hnew, hcreated⟩
  · apply h.of_perm hcreated
    rw [hslots, hfree]
    exact List.perm_middle
  · have hold : s.corr.inSlots.Perm (List.range s.corr.created) := by simpa [hfree] using h.perm
    have hout : c.outstanding = s.corr.created + 1 := by
      rw [← length_inSlots, hslots, List.length_cons, hold.length_eq, List.length_range]
    refine ⟨?_, ?_⟩
    · show (c.free ++ c.inSlots).Perm _
      rw [hfree', hslots, hcreated, hnew, List.nil_append, List.range_succ]
      exact (hold.cons _).trans (List.perm_append_singleton _ _).symm
    · show c.created = max s.peak c.outstanding
      rw [hout, hcreated, ← h.peak]
      omega

theorem Pooled.step (h : Pooled s) {op : Op} (hs : s.step decode op = some t) : Pooled t := by
  obtain ⟨c, hc, rfl⟩ := Option.map_eq_some_iff.mp hs
  cases op with
  | register wire =>
    simp only [apply] at hc
    split at hc
    · rename_i r c' hr
      cases hc
      exact h.register hr
    · cases hc
  | cancel id =>
    cases hc
    unfold cancel
    split
    · rename_i slot hslot
      exact h.recycle hslot
    · exact h.of_perm rfl (List.Perm.refl _)
  | complete buf =>
    simp only [apply] at hc
    rcases complete_spec decode s.corr buf with ⟨hn, -⟩ | ⟨id, slot, response, -, hslot, -, hn⟩
    · rw [hn] at hc
      cases hc
      exact h.of_perm rfl (List.Perm.refl _)
    · rw [hn] at hc
      cases hc
      exact h.of_perm rfl ((inSlots_rewrite hslot rfl).append_left _)
  | close =>
    cases hc
    exact h.of_perm rfl (List.Perm.refl _)
  | check id woke =>
    simp only [apply] at hc
    cases hslot : s.corr.pending.find id with
    | none =>
      simp only [check, hslot] at hc
      cases hc
    | some slot =>
      rw [check_of_lookup hslot] at hc
      cases hv : verdict slot s.corr.closed woke with
      | none =>
        rw [hv] at hc
        cases hc
        exact h.of_perm rfl (List.Perm.refl _)
      | some result =>
        rw [hv] at hc
        cases hc
        exact h.recycle hslot

theorem Pooled.new : Pooled .new where
  perm := List.Perm.refl _
  peak := rfl

theorem pooled (h : Reach (Watched.step decode) Lts.Any .new t) : Pooled t :=
  h.inv .new fun _ _ _ hp _ hs => hp.step hs

/-- The pool is in order after any sequence of operations on a fresh correlator,
and as many handles were allocated as there were queries pending at once. -/
theorem pool_partition (h : Reach (Watched.step decode) Lts.Any .new t) :
    t.corr.Partitioned ∧ t.corr.created = t.peak := by
  have hp := pooled h
  have hnodup : (t.corr.free ++ t.corr.inSlots).Nodup := hp.perm.symm.nodup List.nodup_range
  obtain ⟨hfree, hslots, hdisjoint⟩ := List.nodup_append'.mp hnodup
  have hmem (notify : Handle) : notify ∈ t.corr.free ∨ notify ∈ t.corr.inSlots ↔ notify < t.corr.created := by
    rw [← List.mem_append, hp.perm.mem_iff, List.mem_range]
  refine ⟨⟨fun {notify} hn => ?_, fun {notify} hn => ?_, fun h h' => id_unique hslots h h'⟩, hp.peak⟩
  · rcases (hmem notify).mpr hn with hin | hin
    · refine .inl ⟨List.count_eq_one_of_mem hfree hin, fun id slot hs heq => ?_⟩
      exact hdisjoint hin (mem_inSlots.mpr ⟨id, slot, hs, heq⟩)
    · refine .inr ⟨fun hf => hdisjoint hf hin, ?_⟩
      obtain ⟨id, slot, hs, heq⟩ := mem_inSlots.mp hin
      refine ⟨id, ⟨slot, hs, heq⟩, ?_⟩
      rintro id' ⟨slot', hs', heq'⟩
      exact id_unique hslots hs' hs (heq'.trans heq.symm)
  · apply (hmem notify).mp
    exact hn.imp_right mem_inSlots.mpr

/-- `pool_partition` on two queries at once, and a third on the handle of the first. -/
theorem pool_partition_reused :
    ∃ t, Lts.run (Watched.step rfc1035Header) .new
        [.register [0, 0], .register [0, 0], .cancel 0, .register [0, 0], .close, .check 1 true] = some t ∧
      t.corr.Partitioned ∧ t.corr.created = t.peak := by
  obtain ⟨t, ht⟩ := Option.isSome_iff_exists.mp
    (show (Lts.run (Watched.step rfc1035Header) .new
      [.register [0, 0], .register [0, 0], .cancel 0, .register [0, 0], .close, .check 1 true]).isSome by
        decide +kernel)
  exact ⟨t, ht, pool_partition (Reach.of_run ht)⟩

end Correlator

/-! ## The correlator of a session -/

namespace Session

open Correlator (Watched)

variable {decode : HeaderDecoder}

/-- A step of a session leaves its correlator alone, or is an operation on it. -/
theorem corr_step {now : Instant} {s t : Session} {a : Act} (h : s.step decode now a = some t) :
    t.corr = s.corr ∨ ∃ op, s.corr.apply decode op = some t.corr := by
  cases a with
  | register q wire =>
    simp only [step, register] at h
    split at h <;> cases h
    rename_i r corr _ hr
    exact .inr ⟨.register wire, by rw [Correlator.apply, hr]⟩
  | cancel q =>
    simp only [step, cancel] at h
    split at h
    · split at h
      · cases h
        exact .inr ⟨.cancel (s.queries q).id, rfl⟩
      · cases h
        exact .inl rfl
    · cases h
  | complete buf =>
    simp only [step, complete] at h
    split at h
    · rename_i corr handle _ hc _
      cases h
      exact .inr ⟨.complete buf, by rw [Correlator.apply, hc]⟩
    · rename_i hc _
      cases h
      exact .inr ⟨.complete buf, by rw [Correlator.apply, hc]⟩
    · cases h
  | close =>
    cases h
    exact .inr ⟨.close, rfl⟩
  | check q =>
    simp only [step, check] at h
    split at h
    · rename_i deadline woke _
      split at h
      · cases h
        exact .inl rfl
      · rename_i hc
        cases h
        exact .inr ⟨.check (s.queries q).id woke, by rw [Correlator.apply, hc]; rfl⟩
      · rename_i hc
        cases h
        exact .inr ⟨.check (s.queries q).id woke, by rw [Correlator.apply, hc]; rfl⟩
    · cases h
  | notifyOne k => exact .inl (notifyOne_turn h : Turn now s t).moved.corr
  | awaitResponse q timeout => exact .inl (awaitResponse_turn h).moved.corr
  | poll q => exact .inl (poll_turn h : Turn now s t).moved.corr
  | wake q => exact .inl (wake_turn h : Turn now s t).moved.corr
  | expire q => exact .inl (expire_turn h).moved.corr

/-- Whatever the interleaving, the correlator goes through a sequence of operations. -/
theorem Reachable.watched {C : Clocked Session → Timed Act → Prop} {start : Instant} {t : Clocked Session}
    (h : Reachable decode C start t) :
    ∃ peak, Reach (Watched.step decode) Lts.Any .new ⟨t.state.corr, peak⟩ := by
  refine Lts.clocked_inv (I := fun (_ : Instant) (s : Session) =>
    ∃ peak, Reach (Watched.step decode) Lts.Any .new ⟨s.corr, peak⟩) h ⟨0, .refl _⟩ (fun _ _ _ _ hi => hi) ?_
  rintro s a u - ha ⟨peak, hpeak⟩
  rcases corr_step ha with hc | ⟨op, hop⟩
  · exact ⟨peak, by rw [hc]; exact hpeak⟩
  · refine ⟨max peak u.corr.outstanding, hpeak.tail (a := op) trivial ?_⟩
    rw [Watched.step, hop]
    rfl

end Session

end WireSurge.Dns
