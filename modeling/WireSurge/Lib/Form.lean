import WireSurge.Lib.Percent

/-!
# Query parameters

A query is its parameters between `&`, and a parameter has its name before the first
`=`. `serialize` is the encoding of a name or a value as form data, `appendPair` what
adds a parameter to a query. Separators pass through an encoding as they are, and the
letters of a name too, so that the parameters of a name (`named`) are those of the text
that was encoded (`named_encode`).
-/

namespace Form

open Str (Text)
open Percent (Ascii encode hexDigit mem_encode encode_append)

/-! ## Parameters -/

/-- What is in front of the first equals sign. -/
def name (param : Text) : Text := param.takeWhile (· ≠ '=')

/-- What is behind it. -/
def value (param : Text) : Text := (param.dropWhile (· ≠ '=')).drop 1

/-- The parameters of a query. -/
def params (query : Text) : List Text := query.splitOn '&'

/-- The parameters with this name, in any case. -/
def named (key query : Text) : List Text := (params query).filter fun param => (name param).map Char.toLower = key

variable {key query param s a b : Text} {escaped : UInt8 → Bool} {c : Char}

theorem named_append (key a b : Text) : named key (a ++ '&' :: b) = named key a ++ named key b := by
  rw [named, params, List.splitOn_append_cons_self, List.filter_append, named, named, params, params]

theorem params_single (h : '&' ∉ param) : params param = [param] := List.splitOn_eq_singleton h

theorem ne_of_notMem (h : c ∉ a) : ∀ d ∈ a, decide (d ≠ c) = true := by
  intro d hd
  exact decide_eq_true fun heq => h (heq ▸ hd)

theorem name_append (h : '=' ∉ a) : name (a ++ '=' :: b) = a := by
  rw [name, List.takeWhile_append_of_pos (ne_of_notMem h), List.takeWhile_cons_of_neg (by simp), List.append_nil]

theorem value_append (h : '=' ∉ a) : value (a ++ '=' :: b) = b := by
  rw [value, List.dropWhile_append_of_pos (ne_of_notMem h), List.dropWhile_cons_of_neg (by simp), List.drop_one,
    List.tail_cons]

/-! ## What passes through an encoding -/

/-- A character that is not escaped, and no part of an escape. -/
def Passes (escaped : UInt8 → Bool) (c : Char) : Prop :=
  c.toNat ≤ 127 ∧ escaped (UInt8.ofNat c.toNat) = false ∧ c ≠ '%' ∧ ∀ n < 16, hexDigit (UInt8.ofNat n) ≠ c

instance (escaped : UInt8 → Bool) (c : Char) : Decidable (Passes escaped c) := inferInstanceAs (Decidable (_ ∧ _))

theorem encode_self (hset : Ascii escaped)
    (h : ∀ c ∈ s, c.toNat ≤ 127 ∧ escaped (UInt8.ofNat c.toNat) = false) : encode escaped s = s := by
  rw [Percent.encode_eq_self_iff hset]
  intro byte hbyte
  obtain ⟨c, hc, hbyte⟩ := List.mem_flatMap.mp hbyte
  obtain ⟨hle, hno⟩ := h c hc
  rw [Str.encodeChar_of_ascii hle, List.mem_singleton] at hbyte
  rwa [hbyte]

theorem encode_passes (hset : Ascii escaped) (h : Passes escaped c) : encode escaped [c] = [c] := by
  refine encode_self hset fun d hd => ?_
  rw [List.mem_singleton.mp hd]
  exact ⟨h.1, h.2.1⟩

theorem mem_of_mem_encode (hset : Ascii escaped) (h : Passes escaped c) (hmem : c ∈ encode escaped s) : c ∈ s := by
  rcases mem_encode hset hmem with heq | ⟨n, hn, heq⟩ | ⟨hs, -⟩
  · exact absurd heq h.2.2.1
  · exact absurd heq (Percent.hexDigit_ne h.2.2.2 hn)
  · exact hs

/-- What is escaped is in no encoding, unless it is a part of escapes. -/
theorem notMem_encode (hset : Ascii escaped) (hpercent : c ≠ '%') (hdigits : ∀ n < 16, hexDigit (UInt8.ofNat n) ≠ c)
    (hescaped : escaped (UInt8.ofNat c.toNat) = true) : c ∉ encode escaped s := by
  intro hmem
  rcases mem_encode hset hmem with heq | ⟨n, hn, heq⟩ | ⟨-, -, hno⟩
  · exact hpercent heq
  · exact Percent.hexDigit_ne hdigits hn heq
  · rw [hno] at hescaped
    cases hescaped

theorem splitOn_append_of_notMem (h : c ∉ a) (b : Text) : (a ++ b).splitOn c = (b.splitOn c).modifyHead (a ++ ·) := by
  induction a with
  | nil =>
    rw [List.nil_append]
    cases b.splitOn c <;> rfl
  | cons d a ih =>
    rw [List.mem_cons, not_or] at h
    rw [List.cons_append, List.splitOn_cons_eq_if_modifyHead, if_neg (by simpa using Ne.symm h.1), ih h.2]
    cases b.splitOn c <;> rfl

/-- The parts of an encoding are the encodings of the parts. -/
theorem splitOn_encode (hset : Ascii escaped) (h : Passes escaped c) (s : Text) :
    (encode escaped s).splitOn c = (s.splitOn c).map (encode escaped) := by
  induction s with
  | nil => rfl
  | cons d s ih =>
    rw [← List.singleton_append, encode_append, List.singleton_append, List.splitOn_cons_eq_if_modifyHead]
    by_cases hd : d = c
    · subst hd
      rw [encode_passes hset h, if_pos (by simp), List.singleton_append, List.splitOn_cons_eq_if_modifyHead,
        if_pos (by simp), ih]
      rfl
    · have hnot : c ∉ encode escaped [d] := fun hmem =>
        hd (List.mem_singleton.mp (mem_of_mem_encode hset h hmem)).symm
      rw [if_neg (by simpa using hd), splitOn_append_of_notMem hnot, ih]
      cases s.splitOn c with
      | nil => rfl
      | cons part parts =>
        rw [List.map_cons, List.modifyHead_cons, List.modifyHead_cons, List.map_cons, ← encode_append]
        rfl

theorem name_encode (hset : Ascii escaped) (h : Passes escaped '=') (s : Text) :
    name (encode escaped s) = encode escaped (name s) := by
  induction s with
  | nil => rfl
  | cons d s ih =>
    rw [← List.singleton_append, encode_append, name, name, List.singleton_append]
    by_cases hd : d = '='
    · subst hd
      rw [encode_passes hset h, List.singleton_append, List.takeWhile_cons_of_neg (by simp),
        List.takeWhile_cons_of_neg (by simp)]
      rfl
    · have hnot : '=' ∉ encode escaped [d] := fun hmem =>
        hd (List.mem_singleton.mp (mem_of_mem_encode hset h hmem)).symm
      rw [List.takeWhile_append_of_pos (ne_of_notMem hnot), List.takeWhile_cons_of_pos (by simpa using hd), ← name, ih,
        ← encode_append]
      rfl

/-! ## Names of letters -/

/-- The letters of a name, in both cases, go through as they are. -/
def Plain (escaped : UInt8 → Bool) (key : Text) : Prop :=
  '%' ∉ key ∧ ∀ c : Char, c.toLower ∈ key → c.toNat ≤ 127 ∧ escaped (UInt8.ofNat c.toNat) = false

theorem eq_or_of_toLower {d : Char} (h : c.toLower = d) : c = d ∨ c = d.toUpper := by
  subst h
  unfold Char.toLower
  split
  · rename_i hc
    right
    unfold Char.toUpper
    simp only [UInt32.le_iff_toNat_le, ge_iff_le] at hc
    have hval : (c.val + ('a'.val - 'A'.val)).toNat = c.val.toNat + 32 := by
      rw [UInt32.toNat_add]
      simp at hc ⊢
      omega
    rw [dif_pos (by simp only [UInt32.le_iff_toNat_le, hval]; simp at hc ⊢; omega)]
    apply Char.ext
    apply UInt32.toNat_inj.mp
    simp only [UInt32.toNat_add, hval]
    simp at hc ⊢
    omega
  · exact .inl rfl

theorem Plain.of_letters (hpercent : '%' ∉ key)
    (h : key.all fun d => (d.toNat ≤ 127 ∧ escaped (UInt8.ofNat d.toNat) = false) ∧
      d.toUpper.toNat ≤ 127 ∧ escaped (UInt8.ofNat d.toUpper.toNat) = false) : Plain escaped key := by
  simp only [List.all_eq_true, decide_eq_true_eq] at h
  refine ⟨hpercent, fun c hc => ?_⟩
  rcases eq_or_of_toLower (c := c) rfl with heq | heq
  · rw [heq]
    exact (h _ hc).1
  · rw [heq]
    exact (h _ hc).2

theorem toLower_encode_iff (hset : Ascii escaped) (hkey : Plain escaped key) (s : Text) :
    (encode escaped s).map Char.toLower = key ↔ s.map Char.toLower = key := by
  constructor
  · intro h
    have hself : encode escaped s = s := by
      by_contra hne
      have hmem := List.mem_map_of_mem (f := Char.toLower) (Percent.percent_mem hset hne)
      rw [h] at hmem
      exact hkey.1 hmem
    rwa [hself] at h
  · intro h
    have hself : encode escaped s = s := by
      refine encode_self hset fun c hc => hkey.2 c ?_
      rw [← h]
      exact List.mem_map_of_mem hc
    rwa [hself]

/-- An encoding has the parameters of the text. -/
theorem named_encode (hset : Ascii escaped) (hamp : Passes escaped '&') (heq : Passes escaped '=')
    (hkey : Plain escaped key) (s : Text) : named key (encode escaped s) = (named key s).map (encode escaped) := by
  rw [named, params, splitOn_encode hset hamp, List.filter_map, named, params]
  congr 1
  refine List.filter_congr fun param _ => ?_
  simp only [Function.comp_apply, name_encode hset heq, toLower_encode_iff hset hkey]

/-! ## Form data -/

/-- What form data escapes: all but letters, digits and `*-._`. A space is written
as a plus. -/
def escapes (b : UInt8) : Bool :=
  !(('0'.val.toUInt8 ≤ b && b ≤ '9'.val.toUInt8) || ('A'.val.toUInt8 ≤ b && b ≤ 'Z'.val.toUInt8) ||
    ('a'.val.toUInt8 ≤ b && b ≤ 'z'.val.toUInt8) || b = '*'.val.toUInt8 || b = '-'.val.toUInt8 ||
    b = '.'.val.toUInt8 || b = '_'.val.toUInt8 || b = ' '.val.toUInt8)

/-- A space is written as a plus. -/
def spaceAsPlus (c : Char) : Char := if c = ' ' then '+' else c

/-- A name or a value, as a form writes it. -/
def serialize (s : Text) : Text := (encode escapes s).map spaceAsPlus

/-- A parameter behind those of a query. -/
def appendPair (query key value : Text) : Text :=
  (if query = [] then [] else query ++ ['&']) ++ (serialize key ++ '=' :: serialize value)

theorem ascii_escapes : Ascii escapes := by
  intro b hb
  simp only [escapes, UInt8.le_iff_toNat_le, ← UInt8.toNat_inj]
  simp
  omega

theorem notMem_serialize (hplus : c ≠ '+') (hpercent : c ≠ '%') (hdigits : ∀ n < 16, hexDigit (UInt8.ofNat n) ≠ c)
    (hescaped : escapes (UInt8.ofNat c.toNat) = true) : c ∉ serialize s := by
  intro hmem
  obtain ⟨d, hd, hdc⟩ := List.mem_map.mp hmem
  rw [spaceAsPlus] at hdc
  split at hdc
  · exact hplus hdc.symm
  · subst hdc
    exact notMem_encode ascii_escapes hpercent hdigits hescaped hd

/-- A name of letters is serialized from no other name. -/
theorem toLower_of_serialize (hplus : '+' ∉ key) (hkey : Plain escapes key)
    (h : (serialize s).map Char.toLower = key) : s.map Char.toLower = key := by
  rw [serialize, List.map_map] at h
  rw [← toLower_encode_iff ascii_escapes hkey, ← h]
  refine List.map_congr_left fun c hc => ?_
  rw [Function.comp_apply, spaceAsPlus]
  split
  · rename_i heq
    have hmem := List.mem_map_of_mem (f := Char.toLower ∘ spaceAsPlus) hc
    rw [h, heq] at hmem
    exact absurd hmem hplus
  · rfl

/-- A parameter of another name. -/
theorem named_appendPair {k v : Text} (hne : key ≠ []) (hplus : '+' ∉ key) (hkey : Plain escapes key)
    (hother : k.map Char.toLower ≠ key) (query : Text) : named key (appendPair query k v) = named key query := by
  have hamp (t : Text) : '&' ∉ serialize t := notMem_serialize (by decide) (by decide) (by decide) (by decide)
  have heq : '=' ∉ serialize k := notMem_serialize (by decide) (by decide) (by decide) (by decide)
  have hone : named key (serialize k ++ '=' :: serialize v) = [] := by
    have hparam : '&' ∉ serialize k ++ '=' :: serialize v := by
      rw [List.mem_append, List.mem_cons, not_or, not_or]
      exact ⟨hamp k, by decide, hamp v⟩
    have hname : (serialize k).map Char.toLower ≠ key := fun h => hother (toLower_of_serialize hplus hkey h)
    rw [named, params_single hparam, List.filter_cons_of_neg (by simpa [name_append heq] using hname), List.filter_nil]
  rw [appendPair]
  split
  · rename_i hnil
    have hempty : named key [] = [] := by
      rw [named, params, List.splitOn_nil, List.filter_cons_of_neg (by simpa [name] using hne.symm), List.filter_nil]
    rw [hnil, List.nil_append, hone, hempty]
  · rw [List.append_assoc, List.singleton_append, named_append, hone, List.append_nil]

theorem notMem_appendPair {k v : Text} (hquery : c ∉ query) (hamp : c ≠ '&') (heq : c ≠ '=')
    (hserialize : ∀ s, c ∉ serialize s) : c ∉ appendPair query k v := by
  have hbehind : c ∉ serialize k ++ '=' :: serialize v := by
    rw [List.mem_append, List.mem_cons, not_or, not_or]
    exact ⟨hserialize k, heq, hserialize v⟩
  rw [appendPair, List.mem_append, not_or]
  refine ⟨?_, hbehind⟩
  split
  · exact List.not_mem_nil
  · rw [List.mem_append, List.mem_singleton, not_or]
    exact ⟨hquery, hamp⟩

end Form
