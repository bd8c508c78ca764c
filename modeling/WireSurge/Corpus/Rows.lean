import Mathlib.Data.List.Infix
import WireSurge.Core.Error
import WireSurge.Corpus.Select

/-!
# The rows of a corpus file

`index_rows` goes through the bytes of a file with the start of the current line,
and records the range of a line at each newline and at the end (`push_row`). What
it has done at any point is what `rowsFrom` records of the lines so far
(`loop_eq`), so the ranges are those of the lines of the file, in order
(`indexRows_eq_names`): split at each newline, without one carriage return at their
end, those left out that are empty or not UTF-8.
-/

namespace WireSurge.Corpus

open Checked (Checked index slice)
open WireSurge.Core (WireSurgeError)

def newline : UInt8 := '\n'.val.toUInt8

def carriageReturn : UInt8 := '\r'.val.toUInt8

/-- `std::str::from_utf8`. -/
def fromUtf8 (bytes : List UInt8) : Option String := String.fromUTF8? ⟨bytes.toArray⟩

/-- `n as u32`. -/
def asU32 (n : Nat) : Nat := (UInt32.ofNat n).toNat

/-- The end of a row without a carriage return. -/
def trimEnd (bytes : List UInt8) (start stop : Nat) : Checked Nat :=
  if start < stop then do
    let last ← index bytes (stop - 1)
    return if last = carriageReturn then stop - 1 else stop
  else return stop

/-- A line that is not UTF-8, or is empty, is no row. -/
def pushRow (bytes : List UInt8) (rows : List (Nat × Nat)) (start stop : Nat) : Checked (List (Nat × Nat)) := do
  let stop ← trimEnd bytes start stop
  if start < stop then
    let row ← slice bytes start stop
    return if (fromUtf8 row).isSome then rows ++ [(asU32 start, asU32 stop)] else rows
  else return rows

/-- A turn of the loop of `index_rows`: the rows and the start of the current one. -/
def indexTurn (bytes : List UInt8) (state : List (Nat × Nat) × Nat) (entry : UInt8 × Nat) :
    Checked (List (Nat × Nat) × Nat) := do
  if entry.1 = newline then
    let rows ← pushRow bytes state.1 state.2 entry.2
    return (rows, entry.2 + 1)
  else return state

/-- `index_rows`: the last line may have no end. -/
def indexRows (bytes : List UInt8) : Checked (List (Nat × Nat)) := do
  let (rows, start) ← bytes.zipIdx.foldlM (indexTurn bytes) ([], 0)
  pushRow bytes rows start bytes.length

def u32Max : Nat := 2 ^ 32 - 1

/-- `Corpus::load`, from the opening of the file and the mapping of its bytes. -/
def load (opened : Except String Unit) (mapped : Except String (List UInt8)) :
    Checked (Except WireSurgeError Corpus) :=
  match opened, mapped with
  | .error error, _ => return .error ((WireSurgeError.new "corpus_open_failed" error).atPath "file")
  | .ok _, .error error => return .error ((WireSurgeError.new "corpus_map_failed" error).atPath "file")
  | .ok _, .ok map =>
    if u32Max < map.length then
      return .error ((WireSurgeError.new "corpus_too_large" "corpus file exceeds the 4 GiB limit").atPath "file")
    else do
      let rows ← indexRows map
      if h : rows = [] then
        return .error ((WireSurgeError.new "corpus_empty" "corpus file has no query rows").atPath "file")
      else return .ok { backing := map, rows, nonempty := h }

/-- `Corpus::single`. -/
def single (name : String) : Corpus where
  backing := name.toUTF8.data.toList
  rows := [(0, asU32 name.toUTF8.size)]
  nonempty := List.cons_ne_nil _ _

/-! ## The lines of a file -/

/-- A line without one carriage return at its end. -/
def stripCr (line : List UInt8) : List UInt8 := if line.getLast? = some carriageReturn then line.dropLast else line

/-- A line that is a row. -/
def isName (line : List UInt8) : Bool := line ≠ [] && (fromUtf8 line).isSome

/-- The names of a corpus file. -/
def names (bytes : List UInt8) : List (List UInt8) := ((bytes.splitOn newline).map stripCr).filter isName

/-- What is recorded of a line. -/
def rowOf (start : Nat) (line : List UInt8) : List (Nat × Nat) :=
  if isName (stripCr line) then [(start, start + (stripCr line).length)] else []

/-- What is recorded of some lines, the first of which is at `start`. -/
def rowsFrom : Nat → List (List UInt8) → List (Nat × Nat)
  | _, [] => []
  | start, line :: lines => rowOf start line ++ rowsFrom (start + line.length + 1) lines

/-- The bytes of a range. -/
def bytesOf (bytes : List UInt8) (row : Nat × Nat) : List UInt8 := (bytes.drop row.1).take (row.2 - row.1)

section

variable {bytes pre line post : List UInt8} {rows : List (Nat × Nat)}

theorem asU32_of_le {n : Nat} (h : n ≤ u32Max) : asU32 n = n := by
  rw [asU32, UInt32.toNat_ofNat', Nat.mod_eq_of_lt]
  rw [u32Max] at h
  omega

theorem slice_middle (pre line post : List UInt8) :
    slice (pre ++ line ++ post) pre.length (pre.length + line.length) = .ok line := by
  rw [Checked.slice_of_le (Nat.le_add_right _ _) (by simp)]
  simp

theorem bytesOf_middle (pre line post : List UInt8) :
    bytesOf (pre ++ line ++ post) (pre.length, pre.length + line.length) = line := by
  simp [bytesOf]

theorem stripCr_concat (init : List UInt8) (last : UInt8) :
    stripCr (init ++ [last]) = if last = carriageReturn then init else init ++ [last] := by
  simp [stripCr]

theorem trimEnd_eq (pre line post : List UInt8) :
    trimEnd (pre ++ line ++ post) pre.length (pre.length + line.length) = .ok (pre.length + (stripCr line).length) := by
  rw [trimEnd]
  rcases line.eq_nil_or_concat' with rfl | ⟨init, last, rfl⟩
  · simp [stripCr]
    rfl
  · have hindex : index (pre ++ (init ++ [last]) ++ post) (pre.length + (init ++ [last]).length - 1) = .ok last := by
      rw [index]
      simp
    rw [if_pos (by simp), hindex, stripCr_concat]
    simp only [bind, Except.bind, pure, Except.pure]
    split
    · simp
    · rfl

/-- `push_row` records what there is of a line. -/
theorem pushRow_eq (hbytes : bytes = pre ++ line ++ post) (hlen : bytes.length ≤ u32Max) :
    pushRow bytes rows pre.length (pre.length + line.length) = .ok (rows ++ rowOf pre.length line) := by
  have hstrip : ∃ tail, line = stripCr line ++ tail := by
    rw [stripCr]
    split
    · exact (List.dropLast_prefix line).imp fun _ h => h.symm
    · exact ⟨[], (List.append_nil line).symm⟩
  obtain ⟨tail, htail⟩ := hstrip
  have hbytes' : bytes = pre ++ stripCr line ++ (tail ++ post) := by
    have hline : line ++ post = stripCr line ++ (tail ++ post) := by rw [← List.append_assoc, ← htail]
    rw [hbytes, List.append_assoc, hline, ← List.append_assoc]
  have hle : pre.length + (stripCr line).length ≤ u32Max := by
    have := congrArg List.length hbytes'
    simp only [List.length_append] at this
    omega
  rw [pushRow, hbytes, trimEnd_eq, ← hbytes]
  simp only [bind, Except.bind, rowOf, isName]
  by_cases hnil : stripCr line = []
  · simp [hnil]
    rfl
  · have hpos := List.length_pos_iff.mpr hnil
    rw [if_pos (by omega), hbytes', slice_middle, asU32_of_le (by omega), asU32_of_le hle]
    simp only [pure, Except.pure, decide_not, hnil, decide_false, Bool.not_false, Bool.true_and]
    split <;> simp

/-- The loop from any point on: `pre` is behind it, `cur` is what there is of the
current line, and `rest` is ahead. -/
theorem loop_eq {cur rest : List UInt8} (hbytes : bytes = pre ++ cur ++ rest) (hlen : bytes.length ≤ u32Max)
    (hcur : newline ∉ cur) :
    ((rest.zipIdx (pre.length + cur.length)).foldlM (indexTurn bytes) (rows, pre.length) >>= fun state =>
      pushRow bytes state.1 state.2 bytes.length) =
      .ok (rows ++ rowsFrom pre.length ((cur ++ rest).splitOn newline)) := by
  induction rest generalizing pre cur rows with
  | nil =>
    have hend : bytes.length = pre.length + cur.length := by rw [hbytes]; simp
    rw [List.append_nil, List.splitOn_eq_singleton hcur, rowsFrom, rowsFrom, List.append_nil,
      ← pushRow_eq hbytes hlen, hend]
    rfl
  | cons b rest ih =>
    rw [List.zipIdx_cons, List.foldlM_cons, indexTurn]
    by_cases hb : b = newline
    · subst hb
      have hbytes' : bytes = pre ++ cur ++ [newline] ++ [] ++ rest := by rw [hbytes]; simp
      have hrest := @ih (pre ++ cur ++ [newline]) (rows ++ rowOf pre.length cur) [] hbytes' (by simp)
      have hstart : pre.length + cur.length + 1 = (pre ++ cur ++ [newline]).length := by simp [Nat.add_assoc]
      rw [if_pos rfl, pushRow_eq hbytes hlen, List.splitOn_append_cons_self_of_not_mem hcur, rowsFrom,
        ← List.append_assoc, hstart]
      exact hrest
    · have hbytes' : bytes = pre ++ (cur ++ [b]) ++ rest := by rw [hbytes]; simp
      have hcur' : newline ∉ cur ++ [b] := by
        rw [List.mem_append, List.mem_singleton, not_or]
        exact ⟨hcur, Ne.symm hb⟩
      have hrest := @ih pre rows (cur ++ [b]) hbytes' hcur'
      rw [List.append_assoc, List.singleton_append] at hrest
      rw [if_neg hb, ← hrest, List.length_append, List.length_singleton, Nat.add_assoc]
      rfl

/-- The rows recorded of a file. -/
theorem indexRows_eq (hlen : bytes.length ≤ u32Max) :
    indexRows bytes = .ok (rowsFrom 0 (bytes.splitOn newline)) := by
  have h := @loop_eq bytes [] [] [] bytes rfl hlen (by simp)
  exact h

/-! ## What the rows are -/

theorem isPrefix_stripCr (line : List UInt8) : stripCr line <+: line := by
  rw [stripCr]
  split
  · exact line.dropLast_prefix
  · exact List.prefix_rfl

theorem mem_rowOf {start : Nat} {row : Nat × Nat} (h : row ∈ rowOf start line) :
    row = (start, start + (stripCr line).length) ∧ isName (stripCr line) = true := by
  rw [rowOf] at h
  split at h
  · rename_i hname
    exact ⟨List.mem_singleton.mp h, hname⟩
  · cases h

/-- A row is inside its line. -/
theorem bounds_rowOf {start : Nat} {row : Nat × Nat} (h : row ∈ rowOf start line) :
    start ≤ row.1 ∧ row.1 < row.2 ∧ row.2 ≤ start + line.length := by
  obtain ⟨rfl, hname⟩ := mem_rowOf h
  have hpos : 0 < (stripCr line).length := by
    rw [isName, Bool.and_eq_true, decide_eq_true_eq] at hname
    exact List.length_pos_iff.mpr hname.1
  have hle := (isPrefix_stripCr line).length_le
  exact ⟨Nat.le_refl _, by omega, by omega⟩

theorem bounds_rowsFrom {start : Nat} {lines : List (List UInt8)} {row : Nat × Nat} (h : row ∈ rowsFrom start lines) :
    start ≤ row.1 ∧ row.1 < row.2 ∧ row.2 ≤ start + ([newline].intercalate lines).length := by
  induction lines generalizing start with
  | nil => cases h
  | cons line lines ih =>
    rw [rowsFrom, List.mem_append] at h
    have hlen : line.length ≤ ([newline].intercalate (line :: lines)).length ∧ (lines ≠ [] →
        line.length + 1 + ([newline].intercalate lines).length = ([newline].intercalate (line :: lines)).length) := by
      by_cases hnil : lines = []
      · simp [hnil]
      · rw [List.intercalate_cons_of_ne_nil hnil]
        simp
        omega
    rcases h with h | h
    · have := bounds_rowOf h
      omega
    · have := ih h
      have := hlen.2 (by rintro rfl; cases h)
      omega

/-- The rows of a file come one after the other. -/
theorem pairwise_rowsFrom (start : Nat) (lines : List (List UInt8)) :
    (rowsFrom start lines).Pairwise fun row later => row.2 < later.1 := by
  induction lines generalizing start with
  | nil => exact List.Pairwise.nil
  | cons line lines ih =>
    rw [rowsFrom, List.pairwise_append]
    refine ⟨?_, ih _, fun row hrow later hlater => ?_⟩
    · rw [rowOf]
      split
      · exact List.pairwise_singleton _ _
      · exact List.Pairwise.nil
    · have := bounds_rowOf hrow
      have := bounds_rowsFrom hlater
      omega

/-- The bytes of the rows of some lines are their names. -/
theorem bytesOf_rowsFrom (pre : List UInt8) (lines : List (List UInt8)) (bytes : List UInt8)
    (hbytes : bytes = pre ++ [newline].intercalate lines) :
    (rowsFrom pre.length lines).map (bytesOf bytes) = (lines.map stripCr).filter isName := by
  induction lines generalizing pre with
  | nil => rfl
  | cons line lines ih =>
    have hrow : (rowOf pre.length line).map (bytesOf bytes) =
        if isName (stripCr line) then [stripCr line] else [] := by
      have hline : line <+: [newline].intercalate (line :: lines) := by
        by_cases hnil : lines = []
        · rw [hnil, List.intercalate_singleton]
        · rw [List.intercalate_cons_of_ne_nil hnil, List.append_assoc]
          exact List.prefix_append _ _
      obtain ⟨post, hpost⟩ := (isPrefix_stripCr line).trans hline
      rw [rowOf]
      split
      · rw [List.map_singleton, hbytes, ← hpost, ← List.append_assoc, bytesOf_middle]
      · rfl
    have hrest : (rowsFrom (pre.length + line.length + 1) lines).map (bytesOf bytes) =
        (lines.map stripCr).filter isName := by
      by_cases hnil : lines = []
      · rw [hnil]
        rfl
      · have hnext : pre.length + line.length + 1 = (pre ++ line ++ [newline]).length := by simp [Nat.add_assoc]
        rw [hnext]
        refine ih (pre ++ line ++ [newline]) ?_
        rw [hbytes, List.intercalate_cons_of_ne_nil hnil]
        simp only [List.append_assoc]
    rw [rowsFrom, List.map_append, hrow, hrest, List.map_cons, List.filter_cons]
    split <;> rfl

end

/-- A text is the one with these bytes. -/
theorem toUtf8_of_fromUtf8 {line : List UInt8} {name : String} (h : fromUtf8 line = some name) :
    name.toUTF8.data.toList = line := by
  rw [fromUtf8, String.fromUTF8?] at h
  split at h
  · cases h
    rfl
  · cases h

/-- The ranges recorded of a file are those of its names, in order: they are in bounds,
each behind the one before, and a row is the text whose bytes the name is. -/
theorem indexRows_eq_names {bytes : List UInt8} (hlen : bytes.length ≤ u32Max) :
    ∃ rows, indexRows bytes = .ok rows ∧ rows.map (bytesOf bytes) = names bytes ∧
      (∀ row ∈ rows, row.1 < row.2 ∧ row.2 ≤ bytes.length) ∧
      (rows.Pairwise fun row later => row.2 < later.1) ∧
      ∀ (hne : rows ≠ []) (i : Nat) (line : List UInt8), (names bytes)[i]? = some line →
        ∃ name, Corpus.row ⟨bytes, rows, hne⟩ i = .ok name ∧ name ≠ "" ∧ name.toUTF8.data.toList = line := by
  have hnames : (rowsFrom 0 (bytes.splitOn newline)).map (bytesOf bytes) = names bytes :=
    bytesOf_rowsFrom [] (bytes.splitOn newline) bytes (List.intercalate_splitOn newline).symm
  have hbounds : ∀ row ∈ rowsFrom 0 (bytes.splitOn newline), row.1 < row.2 ∧ row.2 ≤ bytes.length := by
    intro row hrow
    have hrow := bounds_rowsFrom hrow
    rw [List.intercalate_splitOn newline, Nat.zero_add] at hrow
    exact hrow.2
  refine ⟨_, indexRows_eq hlen, hnames, hbounds, pairwise_rowsFrom 0 _, fun hne i line hline => ?_⟩
  have hname : isName line = true := (List.mem_filter.mp (List.mem_of_getElem? hline)).2
  rw [isName, Bool.and_eq_true, decide_eq_true_eq, Option.isSome_iff_exists] at hname
  obtain ⟨hnonempty, name, hdecode⟩ := hname
  have hbytes := toUtf8_of_fromUtf8 hdecode
  refine ⟨name, ?_, ?_, hbytes⟩
  · rw [← hnames, List.getElem?_map, Option.map_eq_some_iff] at hline
    obtain ⟨row, hrow, rfl⟩ := hline
    obtain ⟨hlt, hle⟩ := hbounds row (List.mem_of_getElem? hrow)
    have hindex : index (rowsFrom 0 (bytes.splitOn newline)) i = .ok row := by rw [index, hrow]
    rw [Corpus.row, hindex]
    simp only [bind, Except.bind]
    rw [Checked.slice_of_le (Nat.le_of_lt hlt) hle]
    exact congrArg Except.ok (congrArg (·.getD "") hdecode)
  · rintro rfl
    exact hnonempty hbytes.symm

/-- A file with a blank line, a carriage return, a line that is not UTF-8, and no
newline at its end. -/
theorem indexRows_eq_names_four :
    ∃ rows, indexRows [0x61, 10, 10, 0x62, 13, 10, 0xFF, 10, 0x63] = .ok rows ∧
      rows.map (bytesOf [0x61, 10, 10, 0x62, 13, 10, 0xFF, 10, 0x63]) = [[0x61], [0x62], [0x63]] := by
  obtain ⟨rows, hrows, hnames, -⟩ := @indexRows_eq_names [0x61, 10, 10, 0x62, 13, 10, 0xFF, 10, 0x63] (by decide)
  refine ⟨rows, hrows, hnames.trans ?_⟩
  decide +kernel

/-- No file stops the program. -/
theorem load_returns (opened : Except String Unit) (mapped : Except String (List UInt8)) :
    Checked.Returns (load opened mapped) := by
  unfold load
  split
  · exact ⟨_, rfl⟩
  · exact ⟨_, rfl⟩
  · rename_i map
    split
    · exact ⟨_, rfl⟩
    · rename_i hlen
      rw [indexRows_eq (Nat.not_lt.mp hlen)]
      simp only [bind, Except.bind]
      split <;> exact ⟨_, rfl⟩

/-- What `load` accepts is a file with the rows of its names. -/
theorem rows_of_load {opened : Except String Unit} {mapped : Except String (List UInt8)} {c : Corpus}
    (h : load opened mapped = .ok (.ok c)) :
    mapped = .ok c.backing ∧ c.backing.length ≤ u32Max ∧ c.rows.map (bytesOf c.backing) = names c.backing := by
  rw [load.eq_def] at h
  split at h
  · cases h
  · cases h
  · rename_i map
    split at h
    · cases h
    · rename_i hlen
      obtain ⟨rows, hrows, hnames, -⟩ := indexRows_eq_names (Nat.not_lt.mp hlen)
      simp only [hrows, bind, Except.bind] at h
      split at h
      · cases h
      · cases h
        exact ⟨rfl, Nat.not_lt.mp hlen, hnames⟩

end WireSurge.Corpus
