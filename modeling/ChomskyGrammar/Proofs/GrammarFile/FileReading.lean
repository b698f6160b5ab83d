/-
# Readings with and without end

The lines of a file are found by attempts up to the first one that finds none
(`Attempts.endFrom?_eq_some_iff`).  If there is no such attempt, then there is no end to the
reading, and a file that is loaded so is loaded for ever; and this is the only way in which a load
does not end (`loadFile?_eq_none_iff`).
-/
import Mathlib.Data.Nat.Find
import ChomskyGrammar.GrammarFile.Loader

namespace ChomskyGrammar

namespace FileReading

open GrammarFile (rawLines)

lemma ok_eq (bytes : ByteArray) : ok bytes = .opened fun n => (rawLines bytes)[n]? := by
  simp [ok]

/-- Bytes have an end. -/
lemma ends_ok (bytes : ByteArray) : (ok bytes).Ends := by
  rw [ok_eq]
  exact ⟨_, List.getElem?_eq_none (Nat.le_refl _)⟩

/-- What cannot be read has none. -/
lemma not_ends_unreadable (problem : ReadProblem) : ¬(unreadable problem).Ends := by
  simp [unreadable, Ends]

end FileReading

namespace GrammarFile

/-! ### Attempts to read a line -/

namespace Attempts

variable {attempts : Attempts} {n k : Nat}

/-- **What is found is the first attempt that finds no line.** -/
theorem endFrom?_eq_some_iff :
    attempts.endFrom? n = some k ↔
      n ≤ k ∧ attempts k = none ∧ ∀ i, n ≤ i → i < k → attempts i ≠ none := by
  constructor
  · -- What holds of the search so far holds of it with one more attempt.
    refine endFrom?.partial_correctness attempts
      (fun n k => n ≤ k ∧ attempts k = none ∧ ∀ i, n ≤ i → i < k → attempts i ≠ none) ?_ n k
    intro search ih n k hk
    split at hk
    · rename_i hnone
      obtain rfl := Option.some.inj hk
      exact ⟨Nat.le_refl n, hnone, fun i hi hi' => absurd hi' (Nat.not_lt.2 hi)⟩
    · rename_i line hline
      obtain ⟨hle, hend, hbefore⟩ := ih (n + 1) k hk
      refine ⟨by omega, hend, fun i hi hi' => ?_⟩
      rcases Nat.eq_or_lt_of_le hi with rfl | hlt
      · simp [hline]
      · exact hbefore i hlt hi'
  · rintro ⟨hle, hend, hbefore⟩
    obtain ⟨d, rfl⟩ := Nat.exists_eq_add_of_le hle
    induction d generalizing n with
    | zero =>
      rw [Nat.add_zero] at hend ⊢
      rw [endFrom?, hend]
    | succ d ih =>
      obtain ⟨line, hline⟩ := Option.ne_none_iff_exists'.1 (hbefore n (Nat.le_refl n) (by omega))
      rw [endFrom?, hline]
      have hshift : n + (d + 1) = n + 1 + d := by omega
      rw [hshift] at hend hbefore ⊢
      exact ih (by omega) hend fun i hi hi' => hbefore i (by omega) hi'

/-- The lines are found exactly if there is an end to them. -/
lemma exists_lines?_iff : (∃ source, attempts.lines? = some source) ↔ ∃ n, attempts n = none := by
  constructor
  · rintro ⟨source, h⟩
    obtain ⟨k, hk, -⟩ := Option.map_eq_some_iff.1 h
    exact ⟨k, (endFrom?_eq_some_iff.1 hk).2.1⟩
  · intro h
    have hfirst : attempts.endFrom? 0 = some (Nat.find h) :=
      endFrom?_eq_some_iff.2 ⟨Nat.zero_le _, Nat.find_spec h, fun i _ hi => Nat.find_min h hi⟩
    exact ⟨_, by rw [lines?, hfirst, Option.map_some]⟩

lemma filterMap_getElem?_range (source : List RawLine) :
    (List.range source.length).filterMap (fun n => source[n]?) = source := by
  induction source with
  | nil => rfl
  | cons l ls ih =>
    rw [List.length_cons, List.range_succ_eq_map, List.filterMap_cons, List.filterMap_map]
    exact congrArg (l :: ·) ih

/-- If the attempts give a list of lines one after the other, that is what they find. -/
lemma lines?_getElem? (source : List RawLine) : lines? (fun n => source[n]?) = some source := by
  have hend : endFrom? (fun n => source[n]?) 0 = some source.length := by
    refine endFrom?_eq_some_iff.2 ⟨Nat.zero_le _, List.getElem?_eq_none (Nat.le_refl _), ?_⟩
    intro i _ hi
    simp [hi]
  rw [lines?, hend, Option.map_some, filterMap_getElem?_range]

end Attempts

/-! ### Loads -/

variable {file : String} {reading : FileReading}

/-- **A load has no end exactly if the reading of its file has none.** -/
theorem loadFile?_eq_none_iff : loadFile? file reading = none ↔ ¬reading.Ends := by
  cases reading with
  | error problem => simp [loadFile?, FileReading.Ends]
  | opened attempts =>
    rw [loadFile?, Option.map_eq_none_iff, Option.eq_none_iff_forall_ne_some, FileReading.Ends,
      ← Attempts.exists_lines?_iff, not_exists]

/-- A load that ends yields what it is said to yield. -/
lemma loadFile?_eq_some (h : reading.Ends) :
    loadFile? file reading = some (loadFile file reading) := by
  obtain ⟨load, hload⟩ := Option.ne_none_iff_exists'.1 (mt loadFile?_eq_none_iff.1 (not_not.2 h))
  rw [loadFile, hload, Option.getD_some]

lemma result_noteLoaded (file : String) (load : Load) :
    (noteLoaded file load).result = load.result := by
  rw [noteLoaded]
  split <;> rfl

/-- The load of a file that holds some bytes ends, with the grammar of their lines. -/
lemma loadFile?_ok (file : String) (bytes : ByteArray) :
    loadFile? file (.ok bytes) = some (noteLoaded file (loadLines file (rawLines bytes))) := by
  rw [FileReading.ok_eq, loadFile?, Attempts.lines?_getElem?, Option.map_some]

lemma result_loadFile (file : String) (bytes : ByteArray) :
    (loadFile file (.ok bytes)).result = (loadLines file (rawLines bytes)).result := by
  rw [loadFile, loadFile?_ok, Option.getD_some, result_noteLoaded]

/-- A file that is loaded has an end. -/
lemma ends_of_loadFile {g : Grammar} (h : (loadFile file reading).result = .ok g) :
    reading.Ends := by
  by_contra hends
  rw [loadFile, loadFile?_eq_none_iff.2 hends] at h
  exact absurd h (by simp)

/-- What a load yields comes from some lines, unless there are none to load. -/
lemma loadFile_cases (file : String) (reading : FileReading) :
    (∃ faults, loadFile file reading = ⟨[], .error faults⟩) ∨
      ∃ source, loadFile file reading = noteLoaded file (loadLines file source) := by
  cases reading with
  | error problem => exact .inl ⟨_, rfl⟩
  | opened attempts =>
    rw [loadFile, loadFile?]
    cases attempts.lines? with
    | none => exact .inl ⟨[], rfl⟩
    | some source => exact .inr ⟨source, rfl⟩

/-- A file that is loaded can be opened, and its lines are loaded. -/
lemma exists_lines_of_loadFile {g : Grammar} (h : (loadFile file reading).result = .ok g) :
    ∃ source, (loadLines file source).result = .ok g := by
  rcases loadFile_cases file reading with ⟨faults, heq⟩ | ⟨source, heq⟩
  · rw [heq] at h
    exact absurd h (by simp)
  · rw [heq, result_noteLoaded] at h
    exact ⟨source, h⟩

end GrammarFile

end ChomskyGrammar
