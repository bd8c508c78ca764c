import WireSurge.Core.Request

/-!
# Templates

`expand`: the `{{ key }}` references of a text replaced by what they resolve
to in a `Scope`. The loop of the source goes by byte offsets and copies runs of
plain text at once (`turn`).

What it computes is said by a reader that goes by characters: `pieces` reads a
template once, from left to right, and `fill` replaces the references.
`expand_eq_reader` is the refinement.
-/

namespace WireSurge.Core

open Checked (Checked)
open Str (Text size sliceFrom sliceTo splitOnce trim)

/-! ## Scopes -/

/-- What a template resolves against. -/
structure Scope where
  vars : BTreeMap String
  secrets : BTreeMap String
  workerId : Nat
  iteration : UInt64
  extracts : BTreeMap String
  createdMillis : Nat
  uuidCounter : UInt64
  deriving DecidableEq

namespace Scope

/-- `Scope::new`, at a time. -/
def new (vars secrets : BTreeMap String) (workerId : Nat) (iteration : UInt64) (millis : Nat) : Scope :=
  { vars, secrets, workerId, iteration, extracts := ∅, createdMillis := millis, uuidCounter := 0 }

/-- `set_extract`. -/
def setExtract (s : Scope) (name value : String) : Scope := { s with extracts := s.extracts.insert name value }

/-- `format!("{n:x}")`. -/
def hex (n : Nat) : Text := Nat.toDigits 16 n

/-- `next_uuid`: four numbers, of which the last is counted on and wraps. -/
def nextUuid (s : Scope) : Text × Scope :=
  (hex s.createdMillis ++ '-' :: hex s.workerId ++ '-' :: hex s.iteration.toNat ++ '-' :: hex s.uuidCounter.toNat,
    { s with uuidCounter := s.uuidCounter + 1 })

end Scope

/-- A key as a message shows it. -/
def braced (key : Text) : String := "\x7b\x7b" ++ String.ofList key ++ "\x7d\x7d"

/-- The error of a variable that is not set. -/
def unknownVar (key : Text) : WireSurgeError :=
  ((WireSurgeError.new "unknown_var" ("template references undefined variable '" ++ braced key ++ "'")).atPath
    (String.ofList key)).withHint "Declare it in vars, pass --var/--secret, or extract it in an earlier step."

/-- The error of a secret that was not given. -/
def missingSecret (key : Text) : WireSurgeError :=
  ((WireSurgeError.new "missing_secret"
    ("template references secret '" ++ braced key ++ "' that was not provided")).atPath
    (String.ofList key)).withHint "Pass it with --secret NAME=VALUE; never store secret values in the file."

/-- The error of a reference without a name. -/
def emptyTemplateRef : WireSurgeError :=
  .new "empty_template_ref" "template contains an empty '\x7b\x7b\x7d\x7d' reference"

/-- The error of a reference without an end. -/
def templateUnterminated : WireSurgeError :=
  .new "template_unterminated" "unterminated '\x7b\x7b' in template (missing closing '\x7d\x7d')"

namespace Scope

/-- A variable of one of the maps. -/
def var (m : BTreeMap String) (name : Text) (error : WireSurgeError) : Except WireSurgeError Text :=
  okOr (m[String.ofList name]?.map String.toList) error

/-- A key of a namespace. -/
def resolveIn (s : Scope) (key nmspace rest : Text) : Except WireSurgeError Text :=
  if nmspace = "vars".toList then var s.vars rest (unknownVar key)
  else if nmspace = "secrets".toList then var s.secrets rest (missingSecret key)
  else if nmspace = "worker".toList then
    if rest = "id".toList then .ok (toString s.workerId).toList
    else if rest = "iteration".toList then .ok (toString s.iteration.toNat).toList
    else .error (unknownVar key)
  else .error (unknownVar key)

/-- A key resolved, and the scope with its counter. -/
def resolve (s : Scope) (key : Text) : Except WireSurgeError Text × Scope :=
  if key = [] then (.error emptyTemplateRef, s)
  else if key = "uuid".toList then (.ok s.nextUuid.1, s.nextUuid.2)
  else
    match splitOnce ['.'] key with
    | some (nmspace, rest) => (s.resolveIn key nmspace rest, s)
    | none => (var s.extracts key (unknownVar key), s)

theorem resolve_uuid (s : Scope) : s.resolve "uuid".toList = (.ok s.nextUuid.1, s.nextUuid.2) := by
  rw [resolve, if_neg (by decide), if_pos rfl]

end Scope

/-! ## The loop -/

/-- What begins a reference. -/
def opener : Text := ['\x7b', '\x7b']

/-- What ends a reference. -/
def closer : Text := ['\x7d', '\x7d']

/-- What a turn of the loop does: the text it appends, or the reference it
replaces, and the index it goes on from. -/
inductive Turn
  | copy (text : Text) (next : Nat)
  | reference (key : Text) (next : Nat)
  | unterminated
  deriving DecidableEq

/-- The reference at `index`, where an opener is. -/
def referenceTurn (input : Text) (index : Nat) : Checked Turn := do
  let rest ← sliceFrom input (index + 2)
  match Str.find closer rest with
  | none => return .unterminated
  | some e =>
    let key ← sliceTo rest e
    return .reference (trim key) (index + (2 + e + 2))

/-- The opener or a backslash is at an offset: a run of plain text stops there. -/
def stopsAt (literal : Text) (offset : Nat) : Checked Bool := do
  let tail ← sliceFrom literal offset
  return opener.isPrefixOf tail || ['\\'].isPrefixOf tail

/-- The plain text from `index` on. -/
def literalTurn (input : Text) (index : Nat) : Checked Turn := do
  let literal ← sliceFrom input index
  let found ← ((Str.charIndices literal).drop 1).findM? fun entry => stopsAt literal entry.1
  let next := (found.map Prod.fst).getD (size literal)
  return .copy (← sliceTo literal next) (index + next)

/-- The turn at `index`, when it is no escape. -/
def plainTurn (input : Text) (index : Nat) : Checked Turn := do
  if opener.isPrefixOf (← sliceFrom input index) then referenceTurn input index else literalTurn input index

/-- One turn of the loop of `expand`. -/
def turn (input : Text) (index : Nat) : Checked Turn := do
  if (← Checked.index (Str.encode input) index) = '\\'.val.toUInt8 then
    let behind ← sliceFrom input (index + 1)
    if opener.isPrefixOf behind then return .copy opener (index + 3)
    else if ('\\' :: opener).isPrefixOf behind then return .copy ['\\'] (index + 2)
    else plainTurn input index
  else plainTurn input index

/-- The loop of `expand`, for `fuel` turns. -/
def expandLoop (input : Text) : Nat → Nat → Text → Scope → Option (Checked (Except WireSurgeError Text × Scope))
  | 0, _, _, _ => none
  | fuel + 1, index, out, scope =>
    if index < (Str.encode input).length then
      match turn input index with
      | .error panic => some (.error panic)
      | .ok (.copy text next) => expandLoop input fuel next (out ++ text) scope
      | .ok .unterminated => some (.ok (.error templateUnterminated, scope))
      | .ok (.reference key next) =>
        match scope.resolve key with
        | (.ok value, scope) => expandLoop input fuel next (out ++ value) scope
        | (.error error, scope) => some (.ok (.error error, scope))
    else some (.ok (.ok out, scope))

/-- `expand`: the text or the error, and the scope with its counter; `none` when
the loop has not ended after a turn for each byte. -/
def expand (input : String) (scope : Scope) : Option (Checked (Except WireSurgeError String × Scope)) :=
  (expandLoop input.toList ((Str.encode input.toList).length + 1) 0 [] scope).map fun r =>
    r.map fun (text, scope) => (text.map String.ofList, scope)

/-! ## The reader -/

/-- What a reader of a template finds. -/
inductive Piece
  | char (c : Char)
  | ref (key : Text)
  /-- An opener without its closer: the reader stops. -/
  | unterminated
  deriving DecidableEq

theorem length_splitOnce {pat s a b : Text} (h : splitOnce pat s = some (a, b)) : b.length ≤ s.length := by
  have := congrArg List.length (Str.splitOnce_eq_some h)
  simp only [List.length_append] at this
  omega

/-- A template, read once from left to right. -/
def pieces : Text → List Piece
  | [] => []
  | c :: s =>
    if '\\' :: '\\' :: opener <+: c :: s then .char '\\' :: pieces s.tail
    else if '\\' :: opener <+: c :: s then opener.map .char ++ pieces (s.drop 2)
    else if opener <+: c :: s then
      match _h : splitOnce closer s.tail with
      | some (key, rest) => .ref (trim key) :: pieces rest
      | none => [.unterminated]
    else .char c :: pieces s
termination_by s => s.length
decreasing_by
  all_goals simp only [List.length_tail, List.length_drop, List.length_cons]
  · omega
  · omega
  · have := length_splitOnce _h
    rw [List.length_tail] at this
    omega
  · omega

/-- The pieces put together, each reference replaced by its value; the first
error is all that is left of a template with one. -/
def fill : List Piece → Scope → Except WireSurgeError Text × Scope
  | [], scope => (.ok [], scope)
  | .char c :: ps, scope => ((fill ps scope).1.map (c :: ·), (fill ps scope).2)
  | .unterminated :: _, scope => (.error templateUnterminated, scope)
  | .ref key :: ps, scope =>
    match scope.resolve key with
    | (.ok value, scope) => ((fill ps scope).1.map (value ++ ·), (fill ps scope).2)
    | (.error error, scope) => (.error error, scope)

section

variable {c : Char} {s : Text}

theorem pieces_backslash (h : '\\' :: '\\' :: opener <+: c :: s) : pieces (c :: s) = .char '\\' :: pieces s.tail := by
  rw [pieces, if_pos h]

theorem pieces_escape (h1 : ¬ '\\' :: '\\' :: opener <+: c :: s) (h2 : '\\' :: opener <+: c :: s) :
    pieces (c :: s) = opener.map .char ++ pieces (s.drop 2) := by
  rw [pieces, if_neg h1, if_pos h2]

theorem pieces_ref (h1 : ¬ '\\' :: '\\' :: opener <+: c :: s) (h2 : ¬ '\\' :: opener <+: c :: s)
    (h3 : opener <+: c :: s) {key rest : Text} (h : splitOnce closer s.tail = some (key, rest)) :
    pieces (c :: s) = .ref (trim key) :: pieces rest := by
  rw [pieces, if_neg h1, if_neg h2, if_pos h3]
  split
  · rename_i h'
    rw [h] at h'
    cases h'
    rfl
  · rename_i h'
    rw [h] at h'
    cases h'

theorem pieces_unterminated (h1 : ¬ '\\' :: '\\' :: opener <+: c :: s) (h2 : ¬ '\\' :: opener <+: c :: s)
    (h3 : opener <+: c :: s) (h : splitOnce closer s.tail = none) : pieces (c :: s) = [.unterminated] := by
  rw [pieces, if_neg h1, if_neg h2, if_pos h3]
  split
  · rename_i h'
    rw [h] at h'
    cases h'
  · rfl

theorem pieces_char (h1 : ¬ '\\' :: '\\' :: opener <+: c :: s) (h2 : ¬ '\\' :: opener <+: c :: s)
    (h3 : ¬ opener <+: c :: s) : pieces (c :: s) = .char c :: pieces s := by
  rw [pieces, if_neg h1, if_neg h2, if_neg h3]

/-- Nothing but a backslash escapes. -/
theorem not_escape (h : c ≠ '\\') (t : Text) : ¬ '\\' :: t <+: c :: s := by
  rw [List.cons_prefix_cons]
  exact fun h' => h h'.1.symm

end

/-! ## The refinement -/

/-- What a turn does at `s`, the rest of the input. -/
inductive Does (input s : Text) : Turn → Prop
  | copy {text done rest : Text} : pieces s = text.map .char ++ pieces rest → input = done ++ rest →
    rest.length < s.length → Does input s (.copy text (size done))
  | reference {key done rest : Text} : pieces s = .ref key :: pieces rest → input = done ++ rest →
    rest.length < s.length → Does input s (.reference key (size done))
  | unterminated : pieces s = [.unterminated] → Does input s .unterminated

/-- The search for the end of a run finds it, at a boundary, and the reader
copies the run as well. -/
theorem findM?_stopsAt (a s : Text) : ∃ found run rest, s = run ++ rest ∧
    (Str.charIndicesFrom (size a) s).findM? (fun entry => stopsAt (a ++ s) entry.1) = .ok found ∧
    (found.map Prod.fst).getD (size (a ++ s)) = size (a ++ run) ∧ pieces s = run.map .char ++ pieces rest := by
  induction s generalizing a with
  | nil => exact ⟨none, [], [], rfl, rfl, rfl, rfl⟩
  | cons c s ih =>
    have hstop : stopsAt (a ++ c :: s) (size a) =
        .ok (opener.isPrefixOf (c :: s) || ['\\'].isPrefixOf (c :: s)) := by
      rw [stopsAt, Str.sliceFrom_append]
      rfl
    rw [Str.charIndicesFrom, List.findM?, hstop]
    cases hs : opener.isPrefixOf (c :: s) || ['\\'].isPrefixOf (c :: s) with
    | true => exact ⟨some (size a, c), [], c :: s, rfl, rfl, by simp, rfl⟩
    | false =>
      obtain ⟨found, run, rest, hsr, hf, hn, hp⟩ := ih (a ++ [c])
      simp only [List.append_assoc, List.singleton_append, Str.size_append, Str.size, Nat.add_zero] at hf hn
      rw [Bool.or_eq_false_iff, ← Bool.not_eq_true, ← Bool.not_eq_true, List.isPrefixOf_iff_prefix,
        List.isPrefixOf_iff_prefix, List.cons_prefix_cons] at hs
      have hc : c ≠ '\\' := fun h => hs.2 ⟨h.symm, List.nil_prefix⟩
      refine ⟨found, c :: run, rest, by rw [hsr, List.cons_append], hf, ?_, ?_⟩
      · simp only [Str.size_append, Str.size]
        omega
      · rw [pieces_char (not_escape hc _) (not_escape hc _) hs.1, hp, List.map_cons, List.cons_append]

section

variable {pre s : Text} {c : Char}

theorem referenceTurn_does (h1 : ¬ '\\' :: '\\' :: opener <+: c :: s) (h2 : ¬ '\\' :: opener <+: c :: s)
    (h3 : opener <+: c :: s) :
    ∃ t, referenceTurn (pre ++ c :: s) (size pre) = .ok t ∧ Does (pre ++ c :: s) (c :: s) t := by
  obtain ⟨rest, hrest⟩ := h3
  have htail : s.tail = rest := congrArg (fun t => t.tail.tail) hrest.symm
  have hfrom : sliceFrom (pre ++ c :: s) (size pre + 2) = .ok rest := by
    have : size (pre ++ opener) = size pre + 2 := by rw [Str.size_append]; rfl
    rw [← hrest, ← List.append_assoc, ← this, Str.sliceFrom_append]
  rw [referenceTurn, hfrom]
  simp only [bind, Except.bind, Str.find]
  cases hk : splitOnce closer rest with
  | none => exact ⟨_, rfl, .unterminated (pieces_unterminated h1 h2 ⟨rest, hrest⟩ (htail ▸ hk))⟩
  | some kr =>
    obtain ⟨key, behind⟩ := kr
    have hsplit := Str.splitOnce_eq_some hk
    have hto : sliceTo rest (size key) = .ok key := by rw [hsplit, List.append_assoc, Str.sliceTo_append]
    simp only [Option.map_some, hto]
    have hsize : size (pre ++ opener ++ key ++ closer) = size pre + (2 + size key + 2) := by
      simp only [Str.size_append, show size opener = 2 from rfl, show size closer = 2 from rfl]
      omega
    refine ⟨_, rfl, hsize ▸ .reference (pieces_ref h1 h2 ⟨rest, hrest⟩ (htail ▸ hk)) ?_ ?_⟩
    · rw [← hrest, hsplit]
      simp only [List.append_assoc]
    · rw [← hrest, hsplit]
      simp only [List.length_append, show opener.length = 2 from rfl]
      omega

theorem literalTurn_does (h1 : ¬ '\\' :: '\\' :: opener <+: c :: s) (h2 : ¬ '\\' :: opener <+: c :: s)
    (h3 : ¬ opener <+: c :: s) :
    ∃ t, literalTurn (pre ++ c :: s) (size pre) = .ok t ∧ Does (pre ++ c :: s) (c :: s) t := by
  obtain ⟨found, run, rest, hsr, hf, hn, hp⟩ := findM?_stopsAt [c] s
  rw [List.singleton_append] at hf hn
  have hdrop : (Str.charIndices (c :: s)).drop 1 = Str.charIndicesFrom (size [c]) s := by
    simp only [Str.charIndices, Str.charIndicesFrom, Str.size, Nat.zero_add, Nat.add_zero, List.drop_one,
      List.tail_cons]
  have hto : sliceTo (c :: s) (size ([c] ++ run)) = .ok ([c] ++ run) := by
    rw [hsr, ← List.singleton_append, ← List.append_assoc, Str.sliceTo_append]
  rw [literalTurn, Str.sliceFrom_append]
  simp only [bind, Except.bind, hdrop, hf, hn, hto]
  refine ⟨_, rfl, ?_⟩
  rw [← Str.size_append]
  refine @Does.copy _ _ _ _ rest ?_ ?_ ?_
  · rw [pieces_char h1 h2 h3, hp, List.map_append, List.append_assoc]
    rfl
  · rw [hsr, List.append_assoc, List.append_assoc]
    rfl
  · rw [hsr, List.length_cons, List.length_append]
    omega

theorem plainTurn_does (h1 : ¬ '\\' :: '\\' :: opener <+: c :: s) (h2 : ¬ '\\' :: opener <+: c :: s) :
    ∃ t, plainTurn (pre ++ c :: s) (size pre) = .ok t ∧ Does (pre ++ c :: s) (c :: s) t := by
  rw [plainTurn, Str.sliceFrom_append]
  simp only [bind, Except.bind, List.isPrefixOf_iff_prefix]
  split
  · rename_i h3
    exact referenceTurn_does h1 h2 h3
  · rename_i h3
    exact literalTurn_does h1 h2 h3

/-- Every turn gets on, and does what the reader does. -/
theorem turn_does : ∃ t, turn (pre ++ c :: s) (size pre) = .ok t ∧ Does (pre ++ c :: s) (c :: s) t := by
  obtain ⟨b, hb⟩ : ∃ b, (String.utf8EncodeChar c).head? = some b := by
    rcases Str.head?_encodeChar c with ⟨-, h⟩ | ⟨-, b, h, -⟩ <;> exact ⟨_, h⟩
  have hindex : Checked.index (Str.encode (pre ++ c :: s)) (size pre) = .ok b := by
    rw [Checked.index, Str.encode_getElem?, hb]
  have hbyte : b = '\\'.val.toUInt8 ↔ c = '\\' := by
    rw [← Str.head?_encodeChar_eq_iff (by decide), hb, Option.some.injEq]
  rw [turn, hindex]
  simp only [bind, Except.bind, hbyte, List.isPrefixOf_iff_prefix]
  split
  · rename_i hc
    subst hc
    have hfrom : sliceFrom (pre ++ '\\' :: s) (size pre + 1) = .ok s := by
      have : size (pre ++ ['\\']) = size pre + 1 := by rw [Str.size_append]; rfl
      rw [← this, ← List.singleton_append, ← List.append_assoc, Str.sliceFrom_append]
    simp only [hfrom]
    split
    · -- the escaped opener
      rename_i h2
      obtain ⟨rest, rfl⟩ := h2
      have hsize : size (pre ++ '\\' :: opener) = size pre + 3 := by rw [Str.size_append]; rfl
      refine ⟨_, rfl, hsize ▸ @Does.copy _ _ _ _ rest ?_ ?_ ?_⟩
      · exact pieces_escape (by simp [opener, List.cons_prefix_cons]) ⟨rest, rfl⟩
      · rw [List.append_assoc]
        rfl
      · simp [opener]
        omega
    · split
      · -- the escaped backslash; the opener behind it is left
        rename_i h1
        obtain ⟨rest, rfl⟩ := h1
        have hsize : size (pre ++ ['\\', '\\']) = size pre + 2 := by rw [Str.size_append]; rfl
        refine ⟨_, rfl, hsize ▸ @Does.copy _ _ _ _ (opener ++ rest) ?_ ?_ ?_⟩
        · exact pieces_backslash ⟨rest, rfl⟩
        · rw [List.append_assoc]
          rfl
        · simp [opener]
      · rename_i h2 h1
        exact plainTurn_does (fun h => h1 (List.cons_prefix_cons.mp h).2) (fun h => h2 (List.cons_prefix_cons.mp h).2)
  · rename_i hc
    exact plainTurn_does (not_escape hc _) (not_escape hc _)

end

theorem fill_append_char (text : Text) (ps : List Piece) (scope : Scope) :
    fill (text.map .char ++ ps) scope = ((fill ps scope).1.map (text ++ ·), (fill ps scope).2) := by
  induction text with
  | nil => cases h : (fill ps scope).1 <;> simp [Except.map, ← h]
  | cons c text ih =>
    rw [List.map_cons, List.cons_append, fill, ih]
    cases (fill ps scope).1 <;> rfl

/-- The loop, from any point of the input on. -/
theorem expandLoop_eq_fill {fuel : Nat} {pre s out : Text} {scope : Scope} (hf : s.length < fuel) :
    expandLoop (pre ++ s) fuel (size pre) out scope =
      some (.ok ((fill (pieces s) scope).1.map (out ++ ·), (fill (pieces s) scope).2)) := by
  induction fuel generalizing pre s out scope with
  | zero => exact absurd hf (Nat.not_lt_zero _)
  | succ fuel ih =>
    cases s with
    | nil => simp [expandLoop, Str.length_encode, pieces, fill, Except.map]
    | cons c s =>
      have hlt : size pre < (Str.encode (pre ++ c :: s)).length := by
        have := c.utf8Size_pos
        rw [Str.length_encode, Str.size_append, Str.size]
        omega
      obtain ⟨t, ht, hd⟩ := @turn_does pre s c
      cases hd with
      | @copy text done rest hp hdone hlen =>
        simp only [expandLoop, if_pos hlt, ht]
        rw [hdone, ih (Nat.lt_of_lt_of_le hlen (Nat.le_of_lt_succ hf)), hp, fill_append_char]
        cases (fill (pieces rest) scope).1 <;> simp [Except.map]
      | @reference key done rest hp hdone hlen =>
        simp only [expandLoop, if_pos hlt, ht]
        rw [hp, fill]
        cases hr : scope.resolve key with
        | mk result scope' =>
          cases result with
          | error error => rfl
          | ok value =>
            simp only
            rw [hdone, ih (Nat.lt_of_lt_of_le hlen (Nat.le_of_lt_succ hf))]
            cases (fill (pieces rest) scope').1 <;> simp [Except.map]
      | unterminated hp =>
        simp only [expandLoop, if_pos hlt, ht]
        rw [hp]
        rfl

theorem expand_eq (input : String) (scope : Scope) :
    expand input scope = some (.ok ((fill (pieces input.toList) scope).1.map String.ofList,
      (fill (pieces input.toList) scope).2)) := by
  have hlen := Str.length_le_size input.toList
  have hfuel : input.toList.length < (Str.encode input.toList).length + 1 := by
    rw [Str.length_encode]
    omega
  have h := @expandLoop_eq_fill _ [] _ [] scope hfuel
  rw [List.nil_append, show size [] = 0 from rfl] at h
  rw [expand, h]
  cases (fill (pieces input.toList) scope).1 <;> simp [Except.map]

/-! ## What follows -/

/-- Without an opener there is nothing to replace. -/
theorem pieces_of_no_opener {s : Text} (h : ¬ opener <:+: s) : pieces s = s.map .char := by
  induction s with
  | nil => rw [pieces]; rfl
  | cons c s ih =>
    have h3 : ¬ opener <+: c :: s := fun hp => h hp.isInfix
    have h1 : ¬ '\\' :: '\\' :: opener <+: c :: s := fun hp =>
      h ((List.suffix_append ['\\', '\\'] opener).isInfix.trans hp.isInfix)
    have h2 : ¬ '\\' :: opener <+: c :: s := fun hp =>
      h ((List.suffix_append ['\\'] opener).isInfix.trans hp.isInfix)
    rw [pieces_char h1 h2 h3, ih fun hi => h (hi.trans (List.suffix_cons c s).isInfix), List.map_cons]

/-- A scope gives no value for the piece. -/
def Piece.Fails (scope : Scope) : Piece → Prop
  | .char _ => False
  | .ref key => ∃ error, (scope.resolve key).1 = .error error
  | .unterminated => True

/-- Only the counter changes. -/
theorem Scope.resolve_snd (s : Scope) (key : Text) : ∃ n, (s.resolve key).2 = { s with uuidCounter := n } := by
  unfold resolve
  split
  · exact ⟨_, rfl⟩
  · split
    · exact ⟨_, rfl⟩
    · split <;> exact ⟨_, rfl⟩

/-- Whether a piece fails does not depend on the counter. -/
theorem Piece.fails_congr (p : Piece) (scope : Scope) (n : UInt64) :
    p.Fails { scope with uuidCounter := n } ↔ p.Fails scope := by
  cases p with
  | char | unterminated => exact Iff.rfl
  | ref key =>
    simp only [Fails, Scope.resolve]
    split
    · exact Iff.rfl
    · split
      · simp
      · split <;> exact Iff.rfl

theorem exists_error_map {ε α β : Type} {x : Except ε α} {f : α → β} :
    (∃ error, x.map f = .error error) ↔ ∃ error, x = .error error := by
  cases x <;> simp [Except.map]

theorem fill_error_iff (ps : List Piece) (scope : Scope) :
    (∃ error, (fill ps scope).1 = .error error) ↔ ∃ p ∈ ps, p.Fails scope := by
  induction ps generalizing scope with
  | nil => simp [fill]
  | cons p ps ih =>
    rw [List.exists_mem_cons_iff, ← ih scope]
    cases p with
    | char c => rw [fill, exists_error_map]; simp [Piece.Fails]
    | unterminated => simp [fill, Piece.Fails]
    | ref key =>
      obtain ⟨n, hn⟩ := scope.resolve_snd key
      have hps := ih { scope with uuidCounter := n }
      simp only [Piece.fails_congr, ← ih scope] at hps
      rw [fill]
      cases hr : scope.resolve key with
      | mk result scope' =>
        rw [hr] at hn
        subst hn
        cases result with
        | error e => simp [Piece.Fails, hr]
        | ok value =>
          rw [← hps, exists_error_map]
          simp [Piece.Fails, hr]

/-- `expand` ends without a panic, and gives what the reader gives. It gives an
error, and no text, exactly when an opener is not closed or a key does not
resolve; a template without an opener it leaves as it is. -/
theorem expand_eq_reader (input : String) (scope : Scope) :
    expand input scope = some (.ok ((fill (pieces input.toList) scope).1.map String.ofList,
      (fill (pieces input.toList) scope).2)) ∧
    ((∃ error scope', expand input scope = some (.ok (.error error, scope'))) ↔
      .unterminated ∈ pieces input.toList ∨
        ∃ key, .ref key ∈ pieces input.toList ∧ ∃ error, (scope.resolve key).1 = .error error) ∧
    (¬ opener <:+: input.toList → expand input scope = some (.ok (.ok input, scope))) := by
  have he := expand_eq input scope
  refine ⟨he, ?_, fun h => ?_⟩
  · have hfail : (∃ error scope', expand input scope = some (.ok (.error error, scope'))) ↔
        ∃ error, (fill (pieces input.toList) scope).1 = .error error := by
      rw [he, ← exists_error_map (f := String.ofList)]
      simp
    rw [hfail, fill_error_iff]
    constructor
    · rintro ⟨p, hp, hf⟩
      cases p with
      | char c => exact hf.elim
      | ref key => exact .inr ⟨key, hp, hf⟩
      | unterminated => exact .inl hp
    · rintro (hp | ⟨key, hp, hf⟩)
      · exact ⟨_, hp, trivial⟩
      · exact ⟨_, hp, hf⟩
  · have hfill := fill_append_char input.toList [] scope
    rw [List.append_nil] at hfill
    rw [he, pieces_of_no_opener h, hfill]
    simp [fill, Except.map]

/-- A scope with one variable. -/
def sampleScope : Scope := .new ((∅ : BTreeMap String).insert "base" "h") ∅ 7 3 255

/-- `expand_eq_reader` on a template with both escapes. -/
theorem expand_eq_reader_escapes :
    expand "\\\x7b\x7b \\\\\x7b\x7b vars.base \x7d\x7d" sampleScope =
      some (.ok (.ok "\x7b\x7b \\h", sampleScope)) := by
  rw [(expand_eq_reader _ _).1]
  decide +kernel

end WireSurge.Core
