/-
# Files are loaded as the texts that they hold

A file is cut into lines as bytes, and then each line is decoded on its own.  If the bytes are
those of a text, this finds the lines of the text, so the file is loaded as the text
(`loadLines_rawLines`).  If they are not, some line cannot be decoded.  The load then stops in
its first stage, with one fault for each line that cannot be decoded and one for each garbled
line, in the order of the lines (`loadFile_agrees_with_loadText`).
-/
import Mathlib
import ChomskyGrammar.Proofs.GrammarFile.FileReading
import ChomskyGrammar.Proofs.GrammarFile.Loading
import ChomskyGrammar.Proofs.Text.Encoding

namespace ChomskyGrammar

namespace GrammarFile

/-- The lines of a file with their numbers, starting from 1. -/
def numberedByteLines (bytes : ByteArray) : List (List UInt8 × Nat) :=
  (byteLines bytes.data.toList).zipIdx 1

/-- What there is to report of a numbered line of a file: that its bytes are not text, which is a
fault of the file as a whole, or what its text is garbled by. -/
inductive Reports (file : String) : List UInt8 × Nat → LocatedFault → Prop where
  | notText {bs : List UInt8} {number : Nat} (h : String.fromUTF8? ⟨bs.toArray⟩ = none) :
      Reports file (bs, number) ⟨⟨file, 0⟩, .unreadable .notText⟩
  | garbled {bs : List UInt8} {number : Nat} {text : String} {fault : Fault}
      (h : String.fromUTF8? ⟨bs.toArray⟩ = some text) (hgarbled : Garbled text.toList fault) :
      Reports file (bs, number) ⟨⟨file, number⟩, fault⟩

/-- The report of a numbered line, if there is one. -/
def report? (file : String) (l : List UInt8 × Nat) : Option LocatedFault :=
  match String.fromUTF8? ⟨l.1.toArray⟩ with
  | none => some ⟨⟨file, 0⟩, .unreadable .notText⟩
  | some text => (garble? text.toList).map fun fault => ⟨⟨file, l.2⟩, fault⟩

variable {bytes : ByteArray} {text file : String} {l : List UInt8 × Nat} {f : LocatedFault}

lemma report?_eq_some_iff : report? file l = some f ↔ Reports file l f := by
  obtain ⟨bs, number⟩ := l
  rw [report?]
  constructor
  · intro h
    cases hdecode : String.fromUTF8? ⟨bs.toArray⟩ with
    | none =>
      rw [hdecode] at h
      obtain rfl := Option.some.inj h
      exact .notText hdecode
    | some text =>
      rw [hdecode] at h
      obtain ⟨fault, hfault, rfl⟩ := Option.map_eq_some_iff.1 h
      exact .garbled hdecode (garble?_eq_some_iff.1 hfault)
  · intro h
    cases h with
    | notText h => rw [h]
    | garbled h hgarbled =>
      rw [h]
      exact Option.map_eq_some_iff.2 ⟨_, garble?_eq_some_iff.2 hgarbled, rfl⟩

/-! ### Lines of a file -/

lemma decodeLine_encode (line : List Char) : decodeLine (encode line) = .ok line := by
  rw [decodeLine, fromUTF8?_of_encode rfl]
  exact congrArg Except.ok String.toList_ofList

/-- The lines of the bytes of a text are decoded as its lines. -/
lemma rawLines_eq (h : String.fromUTF8? bytes = some text) :
    rawLines bytes = (textLines text.toList).map .ok := by
  rw [rawLines, fromUTF8?_eq_some_iff.1 h, byteLines_encode, List.map_map]
  exact List.map_congr_left fun line _ => decodeLine_encode line

/-- Bytes that are not a text have a line that is not. -/
lemma exists_line_not_text (h : String.fromUTF8? bytes = none) :
    ∃ bs ∈ byteLines bytes.data.toList, String.fromUTF8? ⟨bs.toArray⟩ = none := by
  refine Decidable.byContradiction fun hnone => ?_
  have hlines : ∀ bs ∈ byteLines bytes.data.toList, ∃ cs, bs = encode cs := by
    intro bs hbs
    obtain ⟨text, htext⟩ := Option.ne_none_iff_exists'.1 fun h' => hnone ⟨bs, hbs, h'⟩
    exact ⟨text.toList, fromUTF8?_eq_some_iff.1 htext⟩
  obtain ⟨cs, hcs⟩ := exists_encode_iff.2 hlines
  exact absurd (h.symm.trans (fromUTF8?_of_encode hcs)) (by simp)

lemma lineFault?_decodeLine (file : String) (l : List UInt8 × Nat) :
    lineFault? file (decodeLine l.1, l.2) = report? file l := by
  rw [decodeLine, report?]
  cases String.fromUTF8? ⟨l.1.toArray⟩ with
  | none => rfl
  | some text => exact lineFault?_ok file (text.toList, l.2)

/-- The first stage finds what there is to report of the lines of a file. -/
lemma readLines_bytes (file : String) (bytes : ByteArray) :
    (readLines file 1 (rawLines bytes)).1 = (numberedByteLines bytes).filterMap (report? file) := by
  rw [readLines_eq, rawLines, List.zipIdx_map, List.filterMap_map, numberedByteLines]
  exact congrArg (fun g => List.filterMap g _) (funext (lineFault?_decodeLine file))

/-! ### Loading a file -/

/-- The lines of the bytes of a text are loaded as the text, with the same records. -/
theorem loadLines_rawLines (file : String) (h : String.fromUTF8? bytes = some text) :
    loadLines file (rawLines bytes) = loadText text file := by
  rw [rawLines_eq h, loadText]

/-- Bytes that are not a text are not loaded. -/
theorem result_loadLines_of_not_text (file : String) (h : String.fromUTF8? bytes = none) :
    (loadLines file (rawLines bytes)).result =
      .error ((numberedByteLines bytes).filterMap (report? file)) := by
  obtain ⟨bs, hbs, hnot⟩ := exists_line_not_text h
  have hne : (numberedByteLines bytes).filterMap (report? file) ≠ [] := by
    rw [← List.zipIdx_map_fst 1 (byteLines bytes.data.toList)] at hbs
    obtain ⟨l, hl, rfl⟩ := List.mem_map.1 hbs
    exact List.ne_nil_of_mem (List.mem_filterMap.2 ⟨l, hl, report?_eq_some_iff.2 (.notText hnot)⟩)
  rw [result_loadLines]
  rw [← readLines_bytes] at hne ⊢
  split
  · rename_i hread
    rw [hread]
  · rename_i hread
    exact absurd (by rw [hread]) hne

/-- A file that is loaded holds a text, and the text is loaded as the same grammar. -/
lemma exists_text_of_loadFile {g : Grammar}
    (h : (loadFile file (.ok bytes)).result = .ok g) :
    ∃ text, String.fromUTF8? bytes = some text ∧ (loadText text file).result = .ok g := by
  rw [result_loadFile] at h
  cases htext : String.fromUTF8? bytes with
  | none =>
    rw [result_loadLines_of_not_text file htext] at h
    exact absurd h (by simp)
  | some text =>
    rw [loadLines_rawLines file htext] at h
    exact ⟨text, rfl, h⟩

lemma result_loadFile_toUTF8 (text file : String) :
    (loadFile file (.ok text.toUTF8)).result = (loadText text file).result := by
  rw [result_loadFile, loadLines_rawLines file (fromUTF8?_toUTF8 text)]

/-- **Loading a file agrees with loading its text.**  The load of a file that holds some bytes comes
to an end.  If the bytes are those of a text, the file gives the same grammar or the same faults as
the text.  If not, the load fails with the reports of the lines, in their order: a fault of the
whole file for each line that is not text, of which there is at least one, the fault of each
garbled line at its number, and nothing else. -/
theorem loadFile_agrees_with_loadText (bytes : ByteArray) (file : String) :
    loadFile? file (.ok bytes) = some (loadFile file (.ok bytes)) ∧
    (∀ text, String.fromUTF8? bytes = some text →
      (loadFile file (.ok bytes)).result = (loadText text file).result) ∧
    (String.fromUTF8? bytes = none →
      (loadFile file (.ok bytes)).result =
        .error ((numberedByteLines bytes).filterMap (report? file)) ∧
        ∃ bs ∈ byteLines bytes.data.toList, String.fromUTF8? ⟨bs.toArray⟩ = none) ∧
    ∀ l f, report? file l = some f ↔ Reports file l f := by
  refine ⟨loadFile?_eq_some (FileReading.ends_ok bytes), ?_, ?_, fun _ _ => report?_eq_some_iff⟩
  · intro text h
    rw [result_loadFile, loadLines_rawLines file h]
  · intro h
    rw [result_loadFile]
    exact ⟨result_loadLines_of_not_text file h, exists_line_not_text h⟩

/-- Three lines: a declaration, a byte that starts no character, and one that has no head. -/
def brokenBytes : ByteArray := "terminals = é\r\n".toUTF8 ++ ⟨#[0xff, 10]⟩ ++ "= é".toUTF8

/-- A file with a character of two bytes and a carriage return is loaded as its text.  With a byte
that is not text, and a line without a head, there are two reports. -/
theorem loadFile_agrees_on_bytes :
    (loadFile "é.cnf" (.ok "terminals = é\r\n".toUTF8)).result =
        (loadText "terminals = é\r\n" "é.cnf").result ∧
      (loadFile "é.cnf" (.ok brokenBytes)).result =
        .error [⟨⟨"é.cnf", 0⟩, .unreadable .notText⟩, ⟨⟨"é.cnf", 3⟩, .missingHead⟩] := by
  have htext : String.fromUTF8? "terminals = é\r\n".toUTF8 = some "terminals = é\r\n" := by
    decide
  have hbroken : String.fromUTF8? brokenBytes = none := by decide
  obtain ⟨-, -, hfaults, -⟩ := loadFile_agrees_with_loadText brokenBytes "é.cnf"
  refine ⟨(loadFile_agrees_with_loadText _ "é.cnf").2.1 _ htext, ?_⟩
  rw [(hfaults hbroken).1]
  cbv

end GrammarFile

end ChomskyGrammar
