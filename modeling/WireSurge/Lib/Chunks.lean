import Mathlib.Data.List.Basic

/-!
# Streams in chunks

A stream arrives in chunks, of which none is empty: an empty one is its end.
`readExact` fills a buffer from as many of them as it takes; what it reads
depends on the stream only, not on where it was cut (`readExact_of_le`,
`readExact_of_lt`). `readFrames` reads messages that each follow a header of
fixed length with their size in it: from any chunks of their frames, and of a
part of one more, it reads those messages (`readFrames_eq`).
-/

namespace Chunks

variable {α : Type}

/-- `read_exact`: the next `n` items and the chunks left, unless the stream ends before. -/
def readExact : Nat → List (List α) → Option (List α × List (List α))
  | 0, chunks => some ([], chunks)
  | _ + 1, [] => none
  | n + 1, chunk :: chunks =>
    if chunk.isEmpty then none
    else if chunk.length ≤ n + 1 then
      (readExact (n + 1 - chunk.length) chunks).map fun (items, rest) => (chunk ++ items, rest)
    else some (chunk.take (n + 1), chunk.drop (n + 1) :: chunks)

/-- No chunk is the end. -/
def Open (chunks : List (List α)) : Prop := ∀ chunk ∈ chunks, chunk ≠ []

/-- The items come off the stream. -/
theorem readExact_eq_some {n : Nat} {chunks rest : List (List α)} {items : List α}
    (h : readExact n chunks = some (items, rest)) : chunks.flatten = items ++ rest.flatten ∧ items.length = n := by
  induction chunks generalizing n items with
  | nil =>
    cases n with
    | zero => cases h; exact ⟨rfl, rfl⟩
    | succ n => cases h
  | cons chunk chunks ih =>
    cases n with
    | zero => cases h; exact ⟨rfl, rfl⟩
    | succ n =>
      rw [readExact] at h
      split at h
      · cases h
      · split at h
        · rename_i hle
          obtain ⟨⟨items', rest'⟩, hread, heq⟩ := Option.map_eq_some_iff.mp h
          cases heq
          obtain ⟨hflat, hlen⟩ := ih hread
          refine ⟨by rw [List.flatten_cons, hflat, List.append_assoc], ?_⟩
          rw [List.length_append, hlen]
          omega
        · rename_i hlt
          cases h
          refine ⟨?_, by rw [List.length_take]; omega⟩
          rw [List.flatten_cons, List.flatten_cons, ← List.append_assoc, List.take_append_drop]

theorem readExact_of_lt {n : Nat} {chunks : List (List α)} (h : chunks.flatten.length < n) :
    readExact n chunks = none := by
  cases hr : readExact n chunks with
  | none => rfl
  | some r =>
    obtain ⟨hflat, hlen⟩ := readExact_eq_some hr
    rw [hflat, List.length_append] at h
    omega

theorem readExact_of_le {n : Nat} {chunks : List (List α)} (hopen : Open chunks) (h : n ≤ chunks.flatten.length) :
    ∃ rest, readExact n chunks = some (chunks.flatten.take n, rest) ∧ rest.flatten = chunks.flatten.drop n ∧
      Open rest := by
  induction chunks generalizing n with
  | nil =>
    obtain rfl : n = 0 := by simpa using h
    exact ⟨[], rfl, rfl, hopen⟩
  | cons chunk chunks ih =>
    cases n with
    | zero => exact ⟨_, rfl, rfl, hopen⟩
    | succ n =>
      have hne : chunk ≠ [] := hopen chunk List.mem_cons_self
      have htail : Open chunks := fun c hc => hopen c (List.mem_cons_of_mem _ hc)
      rw [List.flatten_cons, List.length_append] at h
      rw [readExact, if_neg (by simpa using hne), List.flatten_cons]
      split
      · rename_i hle
        obtain ⟨rest, hread, hflat, hrest⟩ := ih htail (show n + 1 - chunk.length ≤ _ by omega)
        refine ⟨rest, ?_, ?_, hrest⟩
        · rw [hread, Option.map_some, List.take_append, List.take_of_length_le hle]
        · rw [hflat, List.drop_append, List.drop_of_length_le hle, List.nil_append]
      · rename_i hlt
        refine ⟨chunk.drop (n + 1) :: chunks, ?_, ?_, ?_⟩
        · rw [List.take_append_of_le_length (by omega)]
        · rw [List.flatten_cons, List.drop_append_of_le_length (by omega)]
        · intro c hc
          rcases List.mem_cons.mp hc with rfl | hc
          · intro hnil
            have := List.drop_eq_nil_iff.mp hnil
            omega
          · exact htail c hc

/-! ## Frames -/

/-- A header of `hdr + 1` items tells the size of the message behind it. -/
structure Framing (α : Type) where
  hdr : Nat
  size : List α → Nat
  header : List α → List α

namespace Framing

variable (F : Framing α)

/-- The header and the message. -/
def frame (msg : List α) : List α := F.header msg ++ msg

/-- The messages up to the end of the stream. -/
def readFrames (chunks : List (List α)) : List (List α) :=
  match _h : readExact (F.hdr + 1) chunks with
  | none => []
  | some (head, rest) =>
    match _h' : readExact (F.size head) rest with
    | none => []
    | some (msg, rest) => msg :: readFrames rest
termination_by chunks.flatten.length
decreasing_by
  have h := readExact_eq_some _h
  have h' := readExact_eq_some _h'
  rw [h.1, h'.1]
  simp only [List.length_append]
  omega

variable {F} in
/-- The stream ends before a header, -/
theorem readFrames_of_none {chunks : List (List α)} (h : readExact (F.hdr + 1) chunks = none) :
    F.readFrames chunks = [] := by
  rw [readFrames]
  split
  · rfl
  · rename_i h'
    cases h.symm.trans h'

variable {F} in
/-- or before the message behind it, -/
theorem readFrames_of_head {chunks rest : List (List α)} {head : List α}
    (h : readExact (F.hdr + 1) chunks = some (head, rest)) (hnone : readExact (F.size head) rest = none) :
    F.readFrames chunks = [] := by
  rw [readFrames]
  split
  · rfl
  · rename_i h'
    cases h.symm.trans h'
    split
    · rfl
    · rename_i h'
      cases hnone.symm.trans h'

variable {F} in
/-- or it goes on. -/
theorem readFrames_of_msg {chunks rest rest' : List (List α)} {head msg : List α}
    (h : readExact (F.hdr + 1) chunks = some (head, rest)) (hmsg : readExact (F.size head) rest = some (msg, rest')) :
    F.readFrames chunks = msg :: F.readFrames rest' := by
  rw [readFrames]
  split
  · rename_i h'
    cases h.symm.trans h'
  · rename_i h'
    cases h.symm.trans h'
    split
    · rename_i h'
      cases hmsg.symm.trans h'
    · rename_i h'
      cases hmsg.symm.trans h'
      rfl

/-- The message can be framed: its header is as long as headers are, and tells its size. -/
structure Fits (msg : List α) : Prop where
  length : (F.header msg).length = F.hdr + 1
  size : F.size (F.header msg) = msg.length

/-- What is left of a stream that ends within a frame. -/
def Cut (part : List α) : Prop :=
  part.length < F.hdr + 1 ∨ part.length < F.hdr + 1 + F.size (part.take (F.hdr + 1))

variable {F}

/-- A part of a frame, but not all of it. -/
theorem Fits.cut {msg part : List α} (h : F.Fits msg) (hp : part <+: F.frame msg) (hne : part ≠ F.frame msg) :
    F.Cut part := by
  have hlt : part.length < F.hdr + 1 + msg.length := by
    have hle := hp.length_le
    have hlen : (F.frame msg).length = F.hdr + 1 + msg.length := by rw [frame, List.length_append, h.length]
    rcases Nat.lt_or_eq_of_le hle with hlt | heq
    · omega
    · exact absurd (hp.eq_of_length heq) hne
  by_cases hhdr : part.length < F.hdr + 1
  · exact .inl hhdr
  · refine .inr ?_
    have htake : part.take (F.hdr + 1) = F.header msg := by
      have hpre : part.take (F.hdr + 1) <+: F.frame msg := (List.take_prefix _ _).trans hp
      rw [frame] at hpre
      apply (List.prefix_of_prefix_length_le hpre (List.prefix_append _ _) ?_).eq_of_length
      · rw [List.length_take, h.length]
        omega
      · rw [List.length_take, h.length]
        omega
    rw [htake, h.size]
    exact hlt

theorem cut_nil : F.Cut [] := .inl (Nat.succ_pos _)

theorem readFrames_of_cut {chunks : List (List α)} (hcut : F.Cut chunks.flatten) : F.readFrames chunks = [] := by
  cases hread : readExact (F.hdr + 1) chunks with
  | none => exact readFrames_of_none hread
  | some r =>
    obtain ⟨hflat, hlen⟩ := readExact_eq_some hread
    apply readFrames_of_head hread
    apply readExact_of_lt
    have hhead : chunks.flatten.take (F.hdr + 1) = r.1 := by rw [hflat, ← hlen, List.take_left]
    rw [Cut, hhead, hflat, List.length_append] at hcut
    omega

/-- The first message of a stream that begins with its frame. -/
theorem readFrames_frame {chunks : List (List α)} {msg tail : List α} (hopen : Open chunks) (h : F.Fits msg)
    (hflat : chunks.flatten = F.frame msg ++ tail) :
    ∃ rest, F.readFrames chunks = msg :: F.readFrames rest ∧ rest.flatten = tail ∧ Open rest := by
  rw [frame, List.append_assoc] at hflat
  obtain ⟨rest, hread, hrest, hopen'⟩ := readExact_of_le hopen (show F.hdr + 1 ≤ _ by
    rw [hflat, List.length_append, h.length]
    omega)
  rw [hflat, ← h.length, List.take_left] at hread
  rw [hflat, ← h.length, List.drop_left] at hrest
  obtain ⟨rest', hread', hrest', hopen''⟩ := readExact_of_le hopen' (show msg.length ≤ _ by
    rw [hrest, List.length_append]
    omega)
  rw [hrest, List.take_left] at hread'
  rw [hrest, List.drop_left] at hrest'
  refine ⟨rest', readFrames_of_msg (h.length ▸ hread) ?_, hrest', hopen''⟩
  rw [h.size, hread']

/-- Wherever the stream is cut into chunks, the messages read are those framed. -/
theorem readFrames_eq {msgs : List (List α)} {part : List α} (hfit : ∀ msg ∈ msgs, F.Fits msg) (hcut : F.Cut part)
    {chunks : List (List α)} (hopen : Open chunks) (hflat : chunks.flatten = (msgs.map F.frame).flatten ++ part) :
    F.readFrames chunks = msgs := by
  induction msgs generalizing chunks with
  | nil =>
    apply readFrames_of_cut
    rwa [hflat]
  | cons msg msgs ih =>
    rw [List.map_cons, List.flatten_cons, List.append_assoc] at hflat
    obtain ⟨rest, hread, hrest, hopen'⟩ := readFrames_frame hopen (hfit msg List.mem_cons_self) hflat
    rw [hread, ih (fun m hm => hfit m (List.mem_cons_of_mem _ hm)) hopen' hrest]

end Framing

end Chunks
