import WireSurge.Dns.Slots

/-!
# Questions in slots

`register` copies the question of a query into a buffer of fixed size, behind
which a name without a limit on its length may go: `register_safe_iff` says when
it completes. What it stores is compared with the replies as DoH compares the
queries themselves (`matching_agrees`), and the walk over a name that finds a
question ends where the scan of the records starts (`skipName_of_walk`).
-/

namespace WireSurge.Dns

open Checked (Checked slice range? slice_of_le put_of_lt range?_eq_some)

variable {msg wire : Bytes}

/-! ## The two walks over a name -/

/-- A name without pointers ends in the same place for both. -/
theorem skipName_of_walk {pos e : Nat} (h : walkUncompressedName msg pos = some e) : skipName msg pos = some e := by
  fun_induction walkUncompressedName msg pos with
  | case1 | case2 | case4 => cases h
  | case3 pos hp h0 =>
    rw [skipName]
    split
    · rename_i hp'
      rw [hp] at hp'
      cases hp'
    · rename_i len hp'
      cases hp.symm.trans hp'
      exact h
  | case5 pos len hp h0 hne hle ih =>
    have hz : len &&& 0xC0 = 0 := not_not.mp h0
    rw [skipName]
    split
    · rename_i hp'
      rw [hp] at hp'
      cases hp'
    · rename_i len' hp'
      cases hp.symm.trans hp'
      rw [if_neg (by rw [hz]; decide), if_pos hz, if_neg hne, if_neg hle]
      exact ih h

/-! ## What is compared -/

/-- The id has no part in the question. -/
theorem questionBytes_patch (a b a' b' : UInt8) (rest : Bytes) :
    questionBytes (a :: b :: rest) = questionBytes (a' :: b' :: rest) := by
  rcases questionBytes_spec (a' :: b' :: rest) with ⟨h, hb⟩ | ⟨e, bytes, h, h12, hle, hr, hb, -⟩
  · rw [hb, questionBytes, questionRange_patch a b a' b', h]
  · rw [hb, questionBytes, questionRange_patch a b a' b', h]
    refine range?_eq_some.mpr ⟨h12, hle, (range?_eq_some.mp hr).2.2⟩

theorem responseQuestionMatches_eq (response query : Bytes) :
    responseQuestionMatches response query =
      .ok (match questionBytes query with
        | some question => questionBytes response == some question
        | none => false) := by
  rcases questionBytes_spec response with ⟨hr, hrb⟩ | ⟨_, _, hr, -, -, hrr, hrb, -⟩
  · rw [hrb]
    simp only [responseQuestionMatches, hr, bind, Except.bind, pure, Except.pure]
    cases questionBytes query <;> rfl
  · rcases questionBytes_spec query with ⟨hq, hqb⟩ | ⟨_, _, hq, -, -, hqr, hqb, -⟩
    · simp only [responseQuestionMatches, hr, hq, hqb, bind, Except.bind, pure, Except.pure]
    · simp only [responseQuestionMatches, hr, hrb, hrr, hq, hqb, hqr, bind, Except.bind, pure, Except.pure]

/-- A reply has the question of a query, or none, which is not the empty one. -/
theorem questionMatches_eq (response query : Bytes) :
    questionMatchesResponse response ((questionBytes query).getD []) = responseQuestionMatches response query := by
  rw [questionMatchesResponse_eq, responseQuestionMatches_eq]
  cases hq : questionBytes query with
  | some question => rfl
  | none =>
    rcases questionBytes_spec response with ⟨-, hb⟩ | ⟨-, bytes, -, -, -, -, hb, hne⟩
    · rw [hb]
      rfl
    · have hneq : (some bytes == some ([] : Bytes)) = false := by simpa using hne
      rw [hb, Option.getD_none, hneq]

/-! ## What is stored -/

/-- The question of the wire, if it has one, is not longer than the buffer. -/
def Fits (wire : Bytes) : Prop :=
  ∀ range, questionRange wire = .ok (some range) → range.2 - range.1 ≤ maxQuestionLen

namespace Correlator

variable {c : Correlator}

theorem slotFor_ok_iff {notify : Handle} : (∃ slot, slotFor notify wire = .ok slot) ↔ Fits wire := by
  rcases questionBytes_spec wire with ⟨h, -⟩ | ⟨e, bytes, h, h12, hle, hr, -, -⟩
  · refine iff_of_true ?_ (fun range hrange => by rw [h] at hrange; cases hrange)
    simp only [slotFor, h, bind, Except.bind]
    exact ⟨_, rfl⟩
  · have hlen : bytes.length = e - 12 := by
      rw [(range?_eq_some.mp hr).2.2, List.length_take, List.length_drop]
      omega
    have hslice : slice wire 12 e = .ok bytes := by
      rw [slice_of_le h12 hle, (range?_eq_some.mp hr).2.2]
    have hfits : Fits wire ↔ bytes.length ≤ maxQuestionLen := by
      rw [hlen]
      constructor
      · exact fun hf => hf _ h
      · intro hl range hrange
        cases h.symm.trans hrange
        exact hl
    rw [hfits]
    simp only [slotFor, h, hslice, copyQuestion, bind, Except.bind]
    by_cases hl : bytes.length ≤ maxQuestionLen
    · rw [if_pos hl]
      exact iff_of_true ⟨_, rfl⟩ hl
    · rw [if_neg hl]
      refine iff_of_false ?_ hl
      rintro ⟨slot, hslot⟩
      cases hslot

theorem exists_probe_iff : (probe c.pending (2 ^ 16) c.counter).isSome ↔ ∃ id, id ∉ c.pending := by
  constructor
  · intro h
    obtain ⟨r, hr⟩ := Option.isSome_iff_exists.mp h
    exact ⟨r.1, probe_spec hr⟩
  · rintro ⟨id, hid⟩
    -- the pending ids and this one are among the `2 ^ 16` that there are
    have hlt : c.pending.keys.length < 2 ^ 16 := by
      have hnodup : ((id :: c.pending.keys).map UInt16.toNat).Nodup :=
        (List.nodup_cons.mpr ⟨hid, c.pending.nodupKeys⟩).map fun _ _ => UInt16.toNat_inj.mp
      have hsub : (id :: c.pending.keys).map UInt16.toNat ⊆ List.range (2 ^ 16) := by
        intro n hn
        obtain ⟨id', -, rfl⟩ := List.mem_map.mp hn
        exact List.mem_range.mpr id'.toNat_lt
      have hle := (hnodup.subperm hsub).length_le
      rw [List.length_map, List.length_cons, List.length_range] at hle
      exact hle
    obtain ⟨k, hk, hfree, hbusy⟩ := exists_probed hlt c.counter
    rw [probe_eq (by omega) hbusy hfree]
    rfl

/-- `register` completes on the wire, changes nothing but the id in it, and
stores the bytes of its question range, or none when it has none. -/
def RegistersSafely (c : Correlator) (wire : Bytes) : Prop :=
  ∃ r c' slot, c.register wire = some (.ok (r, c')) ∧ r.wire.length = wire.length ∧ r.wire.drop 2 = wire.drop 2 ∧
    c'.pending.find r.id = some slot ∧ slot.expected = (questionBytes wire).getD []

/-- It does so when there is an id left and the question fits the buffer. -/
theorem register_safe_iff (h : 2 ≤ wire.length) :
    c.RegistersSafely wire ↔ (∃ id, id ∉ c.pending) ∧ Fits wire := by
  obtain ⟨b0, b1, rest, rfl⟩ : ∃ b0 b1 rest, wire = b0 :: b1 :: rest := by
    match wire, h with
    | b0 :: b1 :: rest, _ => exact ⟨b0, b1, rest, rfl⟩
  have hfits (a b : UInt8) : Fits (a :: b :: rest) ↔ Fits (b0 :: b1 :: rest) := by
    unfold Fits
    rw [questionRange_patch a b b0 b1]
  constructor
  · rintro ⟨r, c', slot, hr, -⟩
    obtain ⟨_, _, _, slot, hwire, hrwire, hid, -, hslot, -⟩ := register_inv hr
    cases hwire
    refine ⟨⟨r.id, hid⟩, (hfits (r.id >>> 8).toUInt8 (r.id &&& 0xff).toUInt8).mp ?_⟩
    rw [← slotFor_ok_iff]
    exact ⟨slot, hrwire ▸ hslot⟩
  · rintro ⟨hid, hfit⟩
    obtain ⟨⟨id, counter⟩, hp⟩ := Option.isSome_iff_exists.mp (exists_probe_iff.mpr hid)
    obtain ⟨slot, hslot⟩ := slotFor_ok_iff.mpr ((hfits (id >>> 8).toUInt8 (id &&& 0xff).toUInt8).mpr hfit)
    refine ⟨_, _, slot, register_ok hp hslot, rfl, rfl, Pending.find_insert, ?_⟩
    rw [(slotFor_spec hslot).2.2, questionBytes_patch _ _ b0 b1]

/-- `register_safe_iff` on a query, and on a fresh correlator. -/
theorem register_safe_queryA : RegistersSafely .new Session.queryA ∧ (∃ id, id ∉ Correlator.new.pending) ∧
    Fits Session.queryA := by
  have hfits : Fits Session.queryA := by
    have hq : questionRange Session.queryA = .ok (some (12, 19)) := by decide +kernel
    intro range hrange
    cases hq.symm.trans hrange
    decide
  have hid : ∃ id, id ∉ Correlator.new.pending := ⟨0, AList.notMem_empty 0⟩
  exact ⟨(register_safe_iff (by decide)).mpr ⟨hid, hfits⟩, hid, hfits⟩

/-- A query whose name has five labels of 63 bytes. -/
def longQuery : Bytes :=
  [0, 0, 1, 0, 0, 1, 0, 0, 0, 0, 0, 0] ++ (List.replicate 5 (63 :: List.replicate 63 97)).flatten ++ [0, 0, 1, 0, 1]

/-- The buffer is too small for its question, and `register` panics. -/
theorem register_panics :
    2 ≤ longQuery.length ∧ longQuery.length ≤ 65535 ∧ ¬ RegistersSafely .new longQuery := by
  have hpanic : (Correlator.new.register longQuery).map Except.toBool = some false := by decide +kernel
  refine ⟨by decide +kernel, by decide +kernel, ?_⟩
  rintro ⟨r, c', slot, hr, -⟩
  rw [hr] at hpanic
  cases hpanic

/-- The question bytes stored for a query match the replies that the query itself
matches, before and after its id is written into it; and where the name of a
question ends, the scan of the records goes on. -/
theorem matching_agrees :
    (∀ {c c' : Correlator} {wire : Bytes} {r : Registered} {slot : Slot}, c.register wire = some (.ok (r, c')) →
      c'.pending.find r.id = some slot → ∀ response,
        questionMatchesResponse response slot.expected = responseQuestionMatches response wire ∧
        questionMatchesResponse response slot.expected = responseQuestionMatches response r.wire) ∧
    ∀ {msg : Bytes} {pos e : Nat}, walkUncompressedName msg pos = some e → skipName msg pos = some e := by
  refine ⟨fun {c c' wire r slot} hr hs response => ?_, skipName_of_walk⟩
  obtain ⟨-, -, -, -, slot', hpending, -, -, hexpected⟩ := register_spec hr
  rw [hpending, Pending.find_insert] at hs
  cases hs
  have hwire : questionBytes r.wire = questionBytes wire := by
    obtain ⟨b0, b1, rest, -, rfl, hrwire, -⟩ := register_inv hr
    rw [hrwire]
    exact questionBytes_patch ..
  constructor
  · rw [hexpected, hwire]
    exact questionMatches_eq response wire
  · rw [hexpected]
    exact questionMatches_eq response r.wire

/-- `matching_agrees` on a query and the reply to it. -/
theorem matching_agrees_queryA :
    (∃ r c' slot, Correlator.new.register Session.queryA = some (.ok (r, c')) ∧ c'.pending.find r.id = some slot ∧
      questionMatchesResponse (Session.replyA 0) slot.expected =
        responseQuestionMatches (Session.replyA 0) Session.queryA ∧
      responseQuestionMatches (Session.replyA 0) Session.queryA = .ok true) ∧
    skipName Session.queryA 12 = some 15 := by
  obtain ⟨r, c', hr⟩ := Framed.register_queryA (c := Correlator.new) fun id => rfl
  obtain ⟨-, -, -, -, slot, hpending, -, -, -⟩ := register_spec hr
  have hs : c'.pending.find r.id = some slot := by rw [hpending, Pending.find_insert]
  refine ⟨⟨r, c', slot, hr, hs, (matching_agrees.1 hr hs _).1, ?_⟩, matching_agrees.2 ?_⟩
  · rw [responseQuestionMatches_eq]
    decide +kernel
  · decide +kernel

end Correlator

end WireSurge.Dns
