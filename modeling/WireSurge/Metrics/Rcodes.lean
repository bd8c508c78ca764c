import Std.Data.ExtTreeMap
import Std.Data.String.ToNat
import WireSurge.Metrics.Merge

/-!
# RCODEs by name

`rcodeBreakdown`, the RCODE counts of a recorder as they are reported, and when
every RCODE that occurred is reported under its own name (`byValue_iff`): the
last bucket holds all RCODEs from 16 on.
-/

namespace WireSurge.Metrics.LoadRecorder

/-- The RCODEs that have names. -/
def rcodeNames : List String :=
  ["NOERROR", "FORMERR", "SERVFAIL", "NXDOMAIN", "NOTIMP", "REFUSED", "YXDOMAIN",
    "YXRRSET", "NXRRSET", "NOTAUTH", "NOTZONE"]

/-- The name that an RCODE is reported under. -/
def rcodeName (code : Nat) : String := rcodeNames[code]?.getD ("rcode" ++ toString code)

/-- The buckets that are not empty, by name. -/
def rcodeEntries (r : LoadRecorder) : List (String × Nat) :=
  ((List.finRange 17).filter fun code => r.rcodes code > 0).map fun code => (rcodeName code.val, r.rcodes code)

/-- `rcode_breakdown`. -/
def rcodeBreakdown (r : LoadRecorder) : Std.ExtTreeMap String Nat := Std.ExtTreeMap.ofList r.rcodeEntries

theorem rcodeName_of_lt {code : Nat} (h : code < 11) : rcodeName code ∈ rcodeNames := by
  have hlt : code < rcodeNames.length := h
  rw [rcodeName, List.getElem?_eq_getElem hlt, Option.getD_some]
  exact List.getElem_mem hlt

theorem rcodeName_of_le {code : Nat} (h : 11 ≤ code) : rcodeName code = "rcode" ++ toString code := by
  have hlen : rcodeNames.length ≤ code := h
  rw [rcodeName, List.getElem?_eq_none hlen, Option.getD_none]

theorem rcodeName_of_mem (code : Nat) : ∀ name ∈ rcodeNames, name ≠ "rcode" ++ toString code := by
  have hfirst : ∀ name ∈ rcodeNames, name.toList.head? ≠ some 'r' := by decide
  intro name hname h
  apply hfirst name hname
  rw [h, String.toList_append]
  rfl

/-- No two RCODEs have one name. -/
theorem rcodeName_inj {code other : Nat} (h : rcodeName code = rcodeName other) : code = other := by
  rcases Nat.lt_or_ge code 11 with hcode | hcode <;> rcases Nat.lt_or_ge other 11 with hother | hother
  · have hnames : ∀ i < 11, ∀ j < 11, rcodeName i = rcodeName j → i = j := by decide
    exact hnames code hcode other hother h
  · exact absurd (h.trans (rcodeName_of_le hother)) (rcodeName_of_mem other _ (rcodeName_of_lt hcode))
  · exact absurd (h.symm.trans (rcodeName_of_le hcode)) (rcodeName_of_mem code _ (rcodeName_of_lt hother))
  · rw [rcodeName_of_le hcode, rcodeName_of_le hother, String.append_right_inj] at h
    exact Nat.repr_injective h

theorem mem_rcodeEntries {r : LoadRecorder} {entry : String × Nat} :
    entry ∈ r.rcodeEntries ↔ ∃ code : Fin 17, 0 < r.rcodes code ∧ (rcodeName code.val, r.rcodes code) = entry := by
  simp only [rcodeEntries, List.mem_map, List.mem_filter, List.mem_finRange, true_and, gt_iff_lt,
    decide_eq_true_eq]

theorem pairwise_rcodeEntries (r : LoadRecorder) :
    r.rcodeEntries.Pairwise fun a b => ¬ compare a.1 b.1 = .eq := by
  refine List.pairwise_map.mpr ((List.nodup_finRange 17).filter _ |>.imp fun hne heq => hne ?_)
  exact Fin.ext (rcodeName_inj (Std.LawfulEqOrd.eq_of_compare heq))

theorem getElem?_rcodeBreakdown {r : LoadRecorder} {code : Fin 17} (h : 0 < r.rcodes code) :
    r.rcodeBreakdown[rcodeName code.val]? = some (r.rcodes code) :=
  Std.ExtTreeMap.getElem?_ofList_of_mem Std.ReflCmp.compare_self r.pairwise_rcodeEntries
    (mem_rcodeEntries.mpr ⟨code, h, rfl⟩)

theorem mem_rcodeBreakdown {r : LoadRecorder} {name : String} :
    name ∈ r.rcodeBreakdown ↔ ∃ code : Fin 17, 0 < r.rcodes code ∧ rcodeName code.val = name := by
  rw [rcodeBreakdown, Std.ExtTreeMap.mem_ofList, List.contains_iff_mem, List.mem_map]
  constructor
  · rintro ⟨entry, hentry, hname⟩
    obtain ⟨code, hcode, rfl⟩ := mem_rcodeEntries.mp hentry
    exact ⟨code, hcode, hname⟩
  · rintro ⟨code, hcode, hname⟩
    exact ⟨_, mem_rcodeEntries.mpr ⟨code, hcode, rfl⟩, hname⟩

/-! ## What was recorded -/

/-- The RCODE of a response. -/
def Event.rcode? : Event → Option UInt16
  | .response rcode _ _ _ => some rcode
  | _ => none

/-- The RCODEs of the responses among `events`. -/
def rcodesOf (events : List Event) : List UInt16 := events.filterMap Event.rcode?

theorem rcodes_replay (events : List Event) (code : Fin 17) :
    (replay events).rcodes code = (rcodesOf events).countP fun rcode => bucket rcode = code := by
  induction events using List.reverseRecOn with
  | nil => rfl
  | append_singleton events e ih =>
    rw [replay, List.foldl_append, List.foldl_cons, List.foldl_nil, ← replay, rcodesOf, List.filterMap_append,
      List.countP_append, ← rcodesOf, ← ih]
    cases e with
    | response rcode truncated bytesIn latencyUs =>
      show Function.update (replay events).rcodes _ _ code = _ + List.countP _ [rcode]
      rw [List.countP_singleton]
      by_cases hcode : bucket rcode = code
      · rw [if_pos (decide_eq_true hcode), ← hcode, Function.update_self]
      · rw [if_neg (by simpa using hcode), Function.update_of_ne (Ne.symm hcode), Nat.add_zero]
    | sent => rfl
    | timeout => rfl
    | error => rfl
    | connError => rfl

/-- Each RCODE that occurred is reported under its own name with the number of
its responses, and nothing else is. -/
structure ByValue (rcodes : List UInt16) (breakdown : Std.ExtTreeMap String Nat) : Prop where
  count : ∀ rcode ∈ rcodes, breakdown[rcodeName rcode.toNat]? = some (rcodes.count rcode)
  only : ∀ name ∈ breakdown, ∃ rcode ∈ rcodes, rcodeName rcode.toNat = name

theorem bucket_of_le {rcode : UInt16} (h : rcode ≤ 16) : (bucket rcode).val = rcode.toNat :=
  Nat.min_eq_left h

theorem byValue_replay_iff (events : List Event) :
    ByValue (rcodesOf events) (replay events).rcodeBreakdown ↔ ∀ rcode ∈ rcodesOf events, rcode ≤ 16 := by
  constructor
  · -- an RCODE above 16 has no bucket of its own, so nothing is reported under its name
    intro h rcode hrcode
    have hname : rcodeName rcode.toNat ∈ (replay events).rcodeBreakdown := by
      rw [Std.ExtTreeMap.mem_iff_isSome_getElem?, h.count rcode hrcode]
      rfl
    obtain ⟨code, -, hcode⟩ := mem_rcodeBreakdown.mp hname
    have := rcodeName_inj hcode
    exact UInt16.le_iff_toNat_le.mpr (by have := code.isLt; show rcode.toNat ≤ 16; omega)
  · intro h
    have hbucket : ∀ rcode ∈ rcodesOf events, ∀ other ∈ rcodesOf events,
        bucket other = bucket rcode ↔ other = rcode := by
      intro rcode hrcode other hother
      refine ⟨fun heq => ?_, fun heq => heq ▸ rfl⟩
      have heq := congrArg Fin.val heq
      rw [bucket_of_le (h other hother), bucket_of_le (h rcode hrcode)] at heq
      exact UInt16.toNat_inj.mp heq
    have hcount : ∀ rcode ∈ rcodesOf events,
        (replay events).rcodes (bucket rcode) = (rcodesOf events).count rcode := by
      intro rcode hrcode
      rw [rcodes_replay, List.count]
      refine List.countP_congr fun other hother => ?_
      simp only [hbucket rcode hrcode other hother, decide_eq_true_eq, beq_iff_eq]
    refine ⟨fun rcode hrcode => ?_, fun name hname => ?_⟩
    · have hpos : 0 < (replay events).rcodes (bucket rcode) := by
        rw [hcount rcode hrcode]
        exact List.count_pos_iff.mpr hrcode
      rw [← bucket_of_le (h rcode hrcode), getElem?_rcodeBreakdown hpos, hcount rcode hrcode]
    · obtain ⟨code, hpos, rfl⟩ := mem_rcodeBreakdown.mp hname
      rw [rcodes_replay, List.countP_pos_iff] at hpos
      obtain ⟨rcode, hrcode, hcode⟩ := hpos
      refine ⟨rcode, hrcode, ?_⟩
      rw [← of_decide_eq_true hcode, bucket_of_le (h rcode hrcode)]

/-- However the events are spread over recorders and these are merged, each RCODE that
occurred is reported under its own name, and no other, just when none is above 16. -/
theorem byValue_iff {ι : Type} [DecidableEq ι] (log : List (Event × ι)) {order : List ι} (nodup : order.Nodup)
    (covers : ∀ e ∈ log, e.2 ∈ order) :
    ByValue (rcodesOf (log.map Prod.fst)) (mergeAll order (distribute log)).rcodeBreakdown ↔
      ∀ rcode ∈ rcodesOf (log.map Prod.fst), rcode ≤ 16 := by
  rw [mergeAll_distribute nodup log covers]
  exact byValue_replay_iff _

/-- A BADVERS and a BADCOOKIE, one at each of two recorders. -/
def extendedLog : List (Event × Nat) := [(.response 16 false 64 900, 0), (.response 23 false 64 900, 1)]

theorem byValue_iff_extendedLog :
    ByValue (rcodesOf (extendedLog.map Prod.fst)) (mergeAll [0, 1] (distribute extendedLog)).rcodeBreakdown ↔
      ∀ rcode ∈ rcodesOf (extendedLog.map Prod.fst), rcode ≤ 16 :=
  byValue_iff extendedLog (by decide) (by decide)

/-- Both are reported as `rcode16`. -/
theorem extendedLog_not_byValue :
    (mergeAll [0, 1] (distribute extendedLog)).rcodeBreakdown["rcode16"]? = some 2 ∧
      ¬ ByValue [16, 23] (mergeAll [0, 1] (distribute extendedLog)).rcodeBreakdown := by
  have hboth : (mergeAll [0, 1] (distribute extendedLog)).rcodes (bucket 16) = 2 := by decide
  have hreported := getElem?_rcodeBreakdown (hboth ▸ Nat.two_pos)
  rw [hboth] at hreported
  refine ⟨hreported, fun h => ?_⟩
  have hone := h.count 16 List.mem_cons_self
  exact absurd (hreported.symm.trans hone) (by decide)

end WireSurge.Metrics.LoadRecorder
