import Mathlib.Data.List.Nodup
import WireSurge.Core.Template
import WireSurge.Lib.Hex

/-!
# Generated values

What `uuid` references are replaced by, over any run of expansions. An expansion
puts its values into the text (`expand_eq_weave`); it takes the successive values of
its scope's counter, and gives them up when it fails (`uuids_eq`). So the values of
one scope are numbered in the order in which they were made (`Numbered`). A value
has the numbers of its scope in it, between dashes that no hexadecimal number has
(`uuid_inj`): no two of them are equal (`uuids_distinct`).
-/

namespace WireSurge.Core

open Checked (map_eq_ok)
open Function (update)
open Str (Text)

/-! ## Values of an expansion -/

/-- The references that an expansion resolves, each with its value; an error ends them. -/
def values : List Piece → Scope → List (Text × Text)
  | [], _ => []
  | .char _ :: ps, scope => values ps scope
  | .unterminated :: _, _ => []
  | .ref key :: ps, scope =>
    match scope.resolve key with
    | (.ok value, scope) => (key, value) :: values ps scope
    | (.error _, _) => []

/-- The characters of a template, with values for its references in order. -/
def weave : List Piece → List Text → Text
  | [], _ => []
  | .char c :: ps, vs => c :: weave ps vs
  | .unterminated :: _, _ => []
  | .ref _ :: ps, vs => (vs.headD []) ++ weave ps vs.tail

theorem fill_eq_weave {ps : List Piece} {scope : Scope} {text : Text} (h : (fill ps scope).1 = .ok text) :
    text = weave ps ((values ps scope).map Prod.snd) := by
  induction ps generalizing scope text with
  | nil =>
    cases h
    rfl
  | cons p ps ih =>
    cases p with
    | char c =>
      obtain ⟨rest, hrest, rfl⟩ := map_eq_ok.mp h
      rw [values, weave, ← ih hrest]
    | unterminated => cases h
    | ref key =>
      rw [fill] at h
      rw [values]
      cases hr : scope.resolve key with
      | mk result scope' =>
        rw [hr] at h
        cases result with
        | error => cases h
        | ok value =>
          obtain ⟨rest, hrest, rfl⟩ := map_eq_ok.mp h
          rw [List.map_cons, weave, List.headD_cons, List.tail_cons, ← ih hrest]

/-- The text of an expansion has its values in it. -/
theorem expand_eq_weave {input text : String} {scope scope' : Scope}
    (h : expand input scope = some (.ok (.ok text, scope'))) :
    text.toList = weave (pieces input.toList) ((values (pieces input.toList) scope).map Prod.snd) := by
  rw [expand_eq, Option.some.injEq, Except.ok.injEq, Prod.mk.injEq] at h
  obtain ⟨filled, hfilled, rfl⟩ := map_eq_ok.mp h.1
  rw [String.toList_ofList]
  exact fill_eq_weave hfilled

/-- The values for `uuid`. -/
def uuids (ps : List Piece) (scope : Scope) : List Text :=
  ((values ps scope).filter fun reference => reference.1 = "uuid".toList).map Prod.snd

namespace Scope

/-- The value that is made after `i` others. -/
def uuidAt (scope : Scope) (i : Nat) : Text :=
  ({ scope with uuidCounter := scope.uuidCounter + UInt64.ofNat i } : Scope).nextUuid.1

/-- The scope after `n` ids were made. -/
def advance (scope : Scope) (n : Nat) : Scope := { scope with uuidCounter := scope.uuidCounter + UInt64.ofNat n }

theorem advance_zero (scope : Scope) : scope.advance 0 = scope := by
  simp [advance]

theorem advance_advance (scope : Scope) (m n : Nat) : (scope.advance m).advance n = scope.advance (m + n) := by
  simp [advance, UInt64.add_assoc]

theorem uuidAt_eq (scope : Scope) (i : Nat) : scope.uuidAt i = (scope.advance i).nextUuid.1 := rfl

theorem nextUuid_snd (scope : Scope) : scope.nextUuid.2 = scope.advance 1 := rfl

theorem resolve_uuidAt (scope : Scope) : scope.resolve "uuid".toList = (.ok (scope.uuidAt 0), scope.advance 1) := by
  rw [resolve_uuid, uuidAt_eq, advance_zero, nextUuid_snd]

theorem resolve_of_ne (scope : Scope) {key : Text} (h : key ≠ "uuid".toList) : (scope.resolve key).2 = scope := by
  unfold resolve
  split
  · rfl
  · split <;> rfl

end Scope

/-- An expansion takes the successive values of the counter of its scope, and leaves
the counter behind them. -/
theorem uuids_eq (ps : List Piece) (scope : Scope) :
    uuids ps scope = (List.range (uuids ps scope).length).map scope.uuidAt ∧
      (fill ps scope).2 = scope.advance (uuids ps scope).length := by
  induction ps generalizing scope with
  | nil => exact ⟨rfl, (scope.advance_zero).symm⟩
  | cons p ps ih =>
    cases p with
    | char c => exact ih scope
    | unterminated => exact ⟨rfl, (scope.advance_zero).symm⟩
    | ref key =>
      by_cases hkey : key = "uuid".toList
      · subst hkey
        obtain ⟨hvalues, hscope⟩ := ih (scope.advance 1)
        have hcons : uuids (.ref "uuid".toList :: ps) scope = scope.uuidAt 0 :: uuids ps (scope.advance 1) := by
          rw [uuids, values, scope.resolve_uuidAt]
          rfl
        have hnext (i : Nat) : (scope.advance 1).uuidAt i = scope.uuidAt (i + 1) := by
          rw [Scope.uuidAt_eq, Scope.advance_advance, Nat.add_comm, ← Scope.uuidAt_eq]
        rw [hcons, List.length_cons]
        constructor
        · rw [List.range_succ_eq_map, List.map_cons, List.map_map]
          refine congrArg _ (hvalues.trans (List.map_congr_left fun i _ => hnext i))
        · rw [fill, scope.resolve_uuidAt]
          simp only
          rw [hscope, Scope.advance_advance, Nat.add_comm]
      · have hsame := scope.resolve_of_ne hkey
        rw [uuids, values, fill]
        cases hr : scope.resolve key with
        | mk result scope' =>
          rw [hr] at hsame
          subst hsame
          cases result with
          | error => exact ⟨rfl, (Scope.advance_zero _).symm⟩
          | ok value =>
            simp only [List.filter_cons, hkey, decide_false, Bool.false_eq_true, if_false]
            exact ih _

/-! ## Runs -/

/-- What a scope is made from. -/
structure Birth where
  vars : BTreeMap String
  secrets : BTreeMap String
  workerId : Nat
  iteration : UInt64
  millis : Nat

/-- The scope that is born. -/
def Birth.scope (b : Birth) : Scope := .new b.vars b.secrets b.workerId b.iteration b.millis

/-- The use of one of the scopes `κ`. -/
inductive Use (κ : Type)
  | expand (k : κ) (template : String)
  | setExtract (k : κ) (name value : String)

/-- The scopes, and the values that were made for `uuid`, each with its scope. -/
structure Uses (κ : Type) where
  scopes : κ → Scope
  made : List (κ × Text)

namespace Uses

variable {κ : Type} [DecidableEq κ]

/-- No template was expanded. -/
def start (births : κ → Birth) : Uses κ where
  scopes k := (births k).scope
  made := []

/-- A template is expanded in a scope, which goes on with its counter. -/
def step (s : Uses κ) : Use κ → Uses κ
  | .expand k template =>
    match expand template (s.scopes k) with
    | some (.ok (_, scope)) =>
      { scopes := update s.scopes k scope
        made := s.made ++ (uuids (pieces template.toList) (s.scopes k)).map fun value => (k, value) }
    | _ => s
  | .setExtract k name value => { s with scopes := update s.scopes k ((s.scopes k).setExtract name value) }

/-- Uses, one after the other. -/
def run (births : κ → Birth) (uses : List (Use κ)) : Uses κ := uses.foldl step (start births)

/-- The values made for one of the scopes. -/
def count (s : Uses κ) (k : κ) : Nat := s.made.countP fun entry => entry.1 = k

/-- What an expansion adds to the counts. -/
theorem count_append (s : Uses κ) (scopes : κ → Scope) (k k' : κ) (n : Nat) (f : Nat → Text) :
    count { scopes, made := s.made ++ (List.range n).map fun i => (k, f i) } k' =
      s.count k' + if k' = k then n else 0 := by
  rw [count, List.countP_append, List.countP_map, count]
  split
  · rename_i hk
    subst hk
    simp [Function.comp_def]
  · rename_i hk
    simp [Function.comp_def, Ne.symm hk]

theorem step_expand (s : Uses κ) (k : κ) (template : String) : ∃ n,
    s.step (.expand k template) =
      { scopes := update s.scopes k ((s.scopes k).advance n)
        made := s.made ++ (List.range n).map fun i => (k, (s.scopes k).uuidAt i) } := by
  obtain ⟨hvalues, hscope⟩ := uuids_eq (pieces template.toList) (s.scopes k)
  refine ⟨(uuids (pieces template.toList) (s.scopes k)).length, ?_⟩
  rw [step, expand_eq]
  simp only [hscope, Uses.mk.injEq, List.append_cancel_left_eq, true_and]
  conv_lhs => rw [hvalues, List.map_map]
  rfl

end Uses

/-! ## No value is made twice -/

/-- The value that a scope of this birth makes after `i` others. -/
def Birth.uuid (b : Birth) (i : Nat) : Text := b.scope.uuidAt i

theorem uuidAt_congr {s t : Scope} (hmillis : s.createdMillis = t.createdMillis) (hworker : s.workerId = t.workerId)
    (hiteration : s.iteration = t.iteration) {i j : Nat}
    (hcounter : s.uuidCounter + UInt64.ofNat i = t.uuidCounter + UInt64.ofNat j) : s.uuidAt i = t.uuidAt j := by
  simp only [Scope.uuidAt, Scope.nextUuid, hmillis, hworker, hiteration, hcounter]

theorem hex_inj {m n : Nat} (h : Scope.hex m = Scope.hex n) : m = n :=
  Hex.toDigits_injective (by decide) (by decide) h

theorem dash_notMem_hex (n : Nat) : '-' ∉ Scope.hex n :=
  Hex.notMem_toDigits (by decide) (by decide) (by decide) n

theorem Birth.uuid_eq (b : Birth) {i : Nat} (hi : i < 2 ^ 64) : b.uuid i =
    ['-'].intercalate [Scope.hex b.millis, Scope.hex b.workerId, Scope.hex b.iteration.toNat, Scope.hex i] := by
  have hcounter : (0 + UInt64.ofNat i).toNat = i := by
    rw [UInt64.zero_add]
    exact UInt64.toNat_ofNat_of_lt' hi
  rw [Birth.uuid, Scope.uuidAt, Scope.nextUuid, Birth.scope, Scope.new]
  simp only [hcounter, List.intercalate_cons_cons, List.intercalate_singleton, List.append_assoc,
    List.cons_append, List.nil_append]

/-- A value tells its worker, its iteration and its number. -/
theorem Birth.uuid_inj {b c : Birth} {i j : Nat} (hi : i < 2 ^ 64) (hj : j < 2 ^ 64) (h : b.uuid i = c.uuid j) :
    (b.workerId, b.iteration) = (c.workerId, c.iteration) ∧ i = j := by
  have hdash (w x y z : Nat) : ∀ part ∈ [Scope.hex w, Scope.hex x, Scope.hex y, Scope.hex z], '-' ∉ part := by
    intro part hpart
    simp only [List.mem_cons, List.not_mem_nil, or_false] at hpart
    rcases hpart with rfl | rfl | rfl | rfl <;> exact dash_notMem_hex _
  have hparts := congrArg (List.splitOn '-') h
  rw [b.uuid_eq hi, c.uuid_eq hj, List.splitOn_intercalate '-' (hdash _ _ _ _) (List.cons_ne_nil _ _),
    List.splitOn_intercalate '-' (hdash _ _ _ _) (List.cons_ne_nil _ _)] at hparts
  simp only [List.cons.injEq, and_true] at hparts
  obtain ⟨-, hworker, hiteration, hnumber⟩ := hparts
  rw [hex_inj hworker, UInt64.toNat_inj.mp (hex_inj hiteration)]
  exact ⟨rfl, hex_inj hnumber⟩

namespace Uses

variable {κ : Type} [DecidableEq κ] {births : κ → Birth} {s : Uses κ}

/-- A part of the scopes that an update of one of them does not change. -/
theorem apply_update {σ α : Type} (f : σ → α) (scopes : κ → σ) {k : κ} {scope : σ} (h : f scope = f (scopes k))
    (k' : κ) : f (update scopes k scope k') = f (scopes k') := by
  by_cases hk : k' = k
  · subst hk
    rw [Function.update_self, h]
  · rw [Function.update_of_ne hk]

/-- Each value made has its own number in its scope, below the scope's counter. -/
structure Numbered (births : κ → Birth) (s : Uses κ) : Prop where
  millis (k : κ) : (s.scopes k).createdMillis = (births k).millis
  worker (k : κ) : (s.scopes k).workerId = (births k).workerId
  iteration (k : κ) : (s.scopes k).iteration = (births k).iteration
  counter (k : κ) : (s.scopes k).uuidCounter = UInt64.ofNat (s.count k)
  made : ∃ log : List (κ × Nat), log.Nodup ∧ (∀ entry ∈ log, entry.2 < s.count entry.1) ∧
    s.made = log.map fun entry => (entry.1, (births entry.1).uuid entry.2)

namespace Numbered

theorem start (births : κ → Birth) : Numbered births (start births) where
  millis _ := rfl
  worker _ := rfl
  iteration _ := rfl
  counter _ := rfl
  made := ⟨[], List.nodup_nil, nofun, rfl⟩

theorem setExtract (h : Numbered births s) (k : κ) (name value : String) :
    Numbered births (s.step (.setExtract k name value)) := by
  have hscope {α : Type} (f : Scope → α) (hf : f ((s.scopes k).setExtract name value) = f (s.scopes k)) :=
    apply_update f s.scopes hf
  exact ⟨fun k' => (hscope Scope.createdMillis rfl k').trans (h.millis k'),
    fun k' => (hscope Scope.workerId rfl k').trans (h.worker k'),
    fun k' => (hscope Scope.iteration rfl k').trans (h.iteration k'),
    fun k' => (hscope Scope.uuidCounter rfl k').trans (h.counter k'), h.made⟩

theorem expand (h : Numbered births s) (k : κ) (template : String) :
    Numbered births (s.step (.expand k template)) := by
  obtain ⟨n, hstep⟩ := s.step_expand k template
  rw [hstep]
  have hscope {α : Type} (f : Scope → α) (hf : f ((s.scopes k).advance n) = f (s.scopes k)) :=
    apply_update f s.scopes hf
  refine ⟨fun k' => (hscope Scope.createdMillis rfl k').trans (h.millis k'),
    fun k' => (hscope Scope.workerId rfl k').trans (h.worker k'),
    fun k' => (hscope Scope.iteration rfl k').trans (h.iteration k'), fun k' => ?_, ?_⟩
  · rw [count_append]
    show (update s.scopes k ((s.scopes k).advance n) k').uuidCounter = _
    by_cases hk : k' = k
    · subst hk
      rw [Function.update_self, if_pos rfl, UInt64.ofNat_add, ← h.counter]
      rfl
    · rw [Function.update_of_ne hk, if_neg hk, Nat.add_zero]
      exact h.counter k'
  · obtain ⟨log, hnodup, hlt, hmade⟩ := h.made
    refine ⟨log ++ (List.range n).map fun i => (k, s.count k + i), ?_, fun entry hentry => ?_, ?_⟩
    · refine List.Nodup.append hnodup (List.Nodup.map (fun i j hij => ?_) List.nodup_range) fun entry hlog hnew => ?_
      · simpa using hij
      · -- the numbers go on from the counter
        obtain ⟨i, -, rfl⟩ := List.mem_map.mp hnew
        have hbelow : s.count k + i < s.count k := hlt _ hlog
        omega
    · rw [count_append]
      rcases List.mem_append.mp hentry with hlog | hnew
      · exact Nat.lt_add_right _ (hlt entry hlog)
      · obtain ⟨i, hi, rfl⟩ := List.mem_map.mp hnew
        have := List.mem_range.mp hi
        simp only [if_true]
        omega
    · simp only [hmade, List.map_append, List.map_map]
      refine congrArg _ (List.map_congr_left fun i _ => ?_)
      refine congrArg _ (uuidAt_congr (h.millis k) (h.worker k) (h.iteration k) ?_)
      rw [h.counter, UInt64.ofNat_add]
      exact (UInt64.zero_add _).symm

theorem step (h : Numbered births s) : ∀ use, Numbered births (s.step use)
  | .expand k template => h.expand k template
  | .setExtract k name value => h.setExtract k name value

end Numbered

theorem run_numbered (births : κ → Birth) (uses : List (Use κ)) : Numbered births (run births uses) := by
  have hfold (s : Uses κ) (h : Numbered births s) : Numbered births (uses.foldl Uses.step s) := by
    induction uses generalizing s with
    | nil => exact h
    | cons use uses ih => exact ih _ (h.step use)
  exact hfold _ (.start births)

/-- Where no two scopes have the same worker and iteration, the values that any run of
expansions makes for `uuid` are all different, with fewer than `2 ^ 64` of them for
each scope. -/
theorem uuids_distinct {births : κ → Birth}
    (hbirths : Function.Injective fun k => ((births k).workerId, (births k).iteration)) (uses : List (Use κ))
    (hfew : ∀ k, (run births uses).count k < 2 ^ 64) : ((run births uses).made.map Prod.snd).Nodup := by
  obtain ⟨log, hnodup, hlt, hmade⟩ := (run_numbered births uses).made
  rw [hmade, List.map_map]
  refine List.Nodup.map_on (fun x hx y hy hxy => ?_) hnodup
  obtain ⟨hscope, hnumber⟩ := Birth.uuid_inj ((hlt x hx).trans (hfew x.1)) ((hlt y hy).trans (hfew y.1)) hxy
  exact Prod.ext (hbirths hscope) hnumber

/-- Two iterations of a worker, created in the same millisecond; one of the expansions fails. -/
def twoBirths (k : Bool) : Birth := ⟨∅, ∅, 0, UInt64.ofNat k.toNat, 255⟩

/-- The first expansion fails behind its id, which is not given twice. -/
def threeUses : List (Use Bool) :=
  [.expand false "\x7b\x7buuid\x7d\x7d \x7b\x7bnone\x7d\x7d", .expand false "\x7b\x7b uuid \x7d\x7d",
    .expand true "\x7b\x7buuid\x7d\x7d"]

theorem uuids_distinct_three : (run twoBirths threeUses).made.length = 3 ∧
    ((run twoBirths threeUses).made.map Prod.snd).Nodup := by
  refine ⟨by decide +kernel, uuids_distinct (fun i j h => ?_) _ fun k => ?_⟩
  · exact (by decide : ∀ i j : Bool, UInt64.ofNat i.toNat = UInt64.ofNat j.toNat → i = j) i j (Prod.mk.inj h).2
  · exact (by decide +kernel : ∀ k : Bool, (run twoBirths threeUses).count k < 2 ^ 64) k

end Uses

end WireSurge.Core
