/-
# The lines of bytes are those of the text

The bytes of a text are the codes of its characters, one after the other (`encode`).  A character
below 128 is its own code, and its byte occurs in no other code (`mem_encode_iff`).  So the ends
of line and the carriage returns among the bytes are those of the text, and the lines of its
bytes are the codes of its lines (`byteLines_encode`).  Bytes are those of a text exactly if each
of their lines is (`exists_encode_iff`).
-/
import Mathlib.Data.List.Basic
import ChomskyGrammar.Proofs.Text.Lines

namespace ChomskyGrammar

/-- The bytes of some characters. -/
def encode (cs : List Char) : List UInt8 := cs.flatMap String.utf8EncodeChar

variable {cs cs' : List Char} {bs : List UInt8} {c d : Char}

/-! ### Codes of characters -/

@[simp] lemma encode_nil : encode [] = [] := rfl

lemma encode_cons (c : Char) (cs : List Char) :
    encode (c :: cs) = String.utf8EncodeChar c ++ encode cs :=
  List.flatMap_cons

lemma encode_append (cs cs' : List Char) : encode (cs ++ cs') = encode cs ++ encode cs' :=
  List.flatMap_append

lemma data_utf8Encode (cs : List Char) : cs.utf8Encode.data.toList = encode cs :=
  List.toList_data_toByteArray

/-- Some bytes are decoded as the text whose bytes they are. -/
theorem fromUTF8?_eq_some_iff {bytes : ByteArray} {text : String} :
    String.fromUTF8? bytes = some text ↔ bytes.data.toList = encode text.toList := by
  have hbytes : bytes.data.toList = encode text.toList ↔ bytes = text.toByteArray := by
    rw [← data_utf8Encode, String.utf8Encode_toList, Array.toList_inj]
    exact ⟨ByteArray.ext, fun h => h ▸ rfl⟩
  rw [hbytes, String.fromUTF8?]
  constructor
  · intro h
    split at h
    · rw [← Option.some.inj h]
      rfl
    · exact absurd h (by simp)
  · rintro rfl
    rw [dif_pos text.isValidUTF8]
    rfl

lemma fromUTF8?_of_encode {bytes : ByteArray} (h : bytes.data.toList = encode cs) :
    String.fromUTF8? bytes = some (String.ofList cs) := by
  rw [fromUTF8?_eq_some_iff, h, String.toList_ofList]

lemma fromUTF8?_toUTF8 (text : String) : String.fromUTF8? text.toUTF8 = some text := by
  rw [fromUTF8?_eq_some_iff, ← data_utf8Encode, String.utf8Encode_toList]
  rfl

/-! ### Small characters -/

/-- The byte of a small character. -/
lemma utf8EncodeChar_of_lt (hd : d.toNat < 128) : String.utf8EncodeChar d = [d.toUInt8] := by
  rw [String.utf8EncodeChar.eq_1, if_pos (by exact Nat.le_of_lt_succ hd)]
  rfl

/-- The byte of a small character occurs in its own code only: the bytes of longer codes are all
larger. -/
lemma mem_utf8EncodeChar_iff (hd : d.toNat < 128) :
    d.toUInt8 ∈ String.utf8EncodeChar c ↔ c = d := by
  have hbyte : d.toUInt8.toNat = d.toNat := Nat.mod_eq_of_lt (Nat.lt_trans hd (by decide))
  have heq : ∀ n, d.toUInt8 = UInt8.ofNat n → d.toNat = n % 256 := by
    intro n hn
    rw [← hbyte, hn, UInt8.toNat_ofNat']
  constructor
  · intro h
    rw [String.utf8EncodeChar.eq_1] at h
    split at h
    · have hc := heq _ (List.mem_singleton.1 h)
      exact Char.toNat_inj.1 (by change c.val.toNat = _; omega)
    split at h
    · simp only [List.mem_cons, List.not_mem_nil, or_false] at h
      rcases h with h | h <;> have := heq _ h <;> omega
    split at h
    · simp only [List.mem_cons, List.not_mem_nil, or_false] at h
      rcases h with h | h | h <;> have := heq _ h <;> omega
    · simp only [List.mem_cons, List.not_mem_nil, or_false] at h
      rcases h with h | h | h | h <;> have := heq _ h <;> omega
  · rintro rfl
    simp [utf8EncodeChar_of_lt hd]

lemma mem_encode_iff (hd : d.toNat < 128) : d.toUInt8 ∈ encode cs ↔ d ∈ cs := by
  simp [encode, mem_utf8EncodeChar_iff hd]

lemma encode_eq_nil_iff : encode cs = [] ↔ cs = [] := by
  cases cs with
  | nil => simp
  | cons c cs => simp [encode_cons, String.utf8EncodeChar_ne_nil]

/-- The bytes of a text end with the byte of a small character if the text ends with it. -/
lemma getLast?_encode (hd : d.toNat < 128) :
    (encode cs).getLast? = some d.toUInt8 ↔ cs.getLast? = some d := by
  rcases List.eq_nil_or_concat cs with rfl | ⟨init, c, rfl⟩
  · simp
  have hlast : (encode (init.concat c)).getLast? = (String.utf8EncodeChar c).getLast? := by
    rw [List.concat_eq_append, encode_append, encode_cons, encode_nil, List.append_nil,
      List.getLast?_append_of_ne_nil _ String.utf8EncodeChar_ne_nil]
  rw [hlast, List.concat_eq_append, List.getLast?_concat, Option.some.injEq]
  constructor
  · intro h
    exact (mem_utf8EncodeChar_iff hd).1 (List.mem_of_getLast? h)
  · rintro rfl
    rw [utf8EncodeChar_of_lt hd, List.getLast?_singleton]

/-! ### Lines -/

lemma pieces_encode (hd : d.toNat < 128) (cs : List Char) :
    pieces d.toUInt8 (encode cs) = (pieces d cs).map encode := by
  induction cs using firstSeparator_induct d with
  | last cs h =>
    rw [pieces_of_not_mem h, pieces_of_not_mem (by rwa [mem_encode_iff hd])]
    rfl
  | cut before after h ih =>
    rw [pieces_append_cons h, encode_append, encode_cons, utf8EncodeChar_of_lt hd,
      List.singleton_append, pieces_append_cons (by rwa [mem_encode_iff hd]), ih]
    rfl

lemma dropReturn_encode (hd : d.toNat < 128) (line : List Char) :
    dropReturn d.toUInt8 (encode line) = encode (dropReturn d line) := by
  by_cases h : line.getLast? = some d
  · obtain ⟨init, rfl⟩ := List.getLast?_eq_some_iff.1 h
    rw [dropReturn, if_pos ((getLast?_encode hd).2 h), dropReturn, if_pos h, encode_append]
    simp [encode, utf8EncodeChar_of_lt hd]
  · rw [dropReturn_of_ne h, dropReturn_of_ne (by rwa [ne_eq, getLast?_encode hd])]

lemma closeLines_encode (hd : d.toNat < 128) (ps : List (List Char)) :
    closeLines d.toUInt8 (ps.map encode) = (closeLines d ps).map encode := by
  induction ps with
  | nil => rfl
  | cons p ps ih =>
    cases ps with
    | nil =>
      cases p with
      | nil => rfl
      | cons c cs =>
        have hne : encode (c :: cs) ≠ [] := by simp [encode_eq_nil_iff]
        simp [closeLines, hne]
    | cons q ps =>
      rw [List.map_cons] at ih
      rw [List.map_cons, List.map_cons, closeLines_cons_cons, closeLines_cons_cons,
        dropReturn_encode hd, ih]
      rfl

/-- The lines of the bytes of a text are the bytes of its lines. -/
theorem byteLines_encode (cs : List Char) : byteLines (encode cs) = (textLines cs).map encode := by
  have hpieces := pieces_encode (d := '\n') (by decide) cs
  have hclose := closeLines_encode (d := '\r') (by decide) (pieces '\n' cs)
  rw [← hpieces] at hclose
  exact hclose

lemma byteLines_toUTF8 (text : String) :
    byteLines text.toUTF8.data.toList = (textLines text.toList).map encode := by
  rw [fromUTF8?_eq_some_iff.1 (fromUTF8?_toUTF8 text), byteLines_encode]

/-- Bytes are those of a text exactly if each of their lines is. -/
theorem exists_encode_iff :
    (∃ cs, bs = encode cs) ↔ ∀ l ∈ byteLines bs, ∃ cs, l = encode cs := by
  constructor
  · rintro ⟨cs, rfl⟩ l hl
    rw [byteLines_encode] at hl
    obtain ⟨line, -, rfl⟩ := List.mem_map.1 hl
    exact ⟨line, rfl⟩
  · intro h
    induction bs using firstSeparator_induct (10 : UInt8) with
    | last bs hbs =>
      by_cases hnil : bs = []
      · exact ⟨[], hnil⟩
      · refine h bs ?_
        rw [byteLines, pieces_of_not_mem hbs]
        simp [closeLines, hnil]
    | cut before after hbefore ih =>
      rw [byteLines, closeLines_pieces_append hbefore] at h
      obtain ⟨cs, hcs⟩ := h _ List.mem_cons_self
      obtain ⟨cs', hcs'⟩ := ih fun l hl => h l (List.mem_cons_of_mem _ hl)
      have hline : ∃ line, before = encode line := by
        by_cases hlast : before.getLast? = some 13
        · -- the carriage return that was dropped is a character, too
          obtain ⟨init, rfl⟩ := List.getLast?_eq_some_iff.1 hlast
          rw [dropReturn, if_pos hlast, List.dropLast_concat] at hcs
          exact ⟨cs ++ ['\r'], by rw [encode_append, ← hcs]; rfl⟩
        · rw [dropReturn_of_ne hlast] at hcs
          exact ⟨cs, hcs⟩
      obtain ⟨line, rfl⟩ := hline
      exact ⟨line ++ '\n' :: cs', by rw [encode_append, encode_cons, hcs']; rfl⟩

end ChomskyGrammar
