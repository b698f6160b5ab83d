/-
# When faults are the same

Faults are compared sort by sort, and what is not listed there is compared by its sort alone
(`Fault.same`).  So a sort of fault that carries something but is not listed would be taken for the
same whatever it carries.  There is no such sort: faults are the same exactly if they are of the
same sort and carry the same (`Fault.same_iff`), where only the kind counts of what is wrong with a
file.  It follows that to be the same is an equivalence relation, for faults and for faults at a
place, and that the same faults are shown alike unless the file could not be read
(`sameness_is_equivalence`).
-/
import ChomskyGrammar.Proofs.GrammarFile.Paths

namespace ChomskyGrammar

/-! ### Faults -/

namespace Fault

/-- What a fault carries, as far as it is compared. -/
inductive Payload where
  | nothing
  | text (text : String)
  | count (count : Nat)
  | refusal (error : GrammarError)
  | kind (kind : ReadProblemKind)

/-- What a fault carries.  Of a problem of reading only the kind counts. -/
def payload : Fault → Payload
  | missingEquals s | unknownDirective s | symbolTooLong s | splitBody s => .text s
  | startArity n => .count n
  | grammar e => .refusal e
  | unreadable p => .kind p.kind
  | unexpectedEquals | unexpectedBar | missingHead | emptyDeclaration | emptyAlternative
  | duplicateStart | unexpectedBlankLine => .nothing

variable {f g : Fault}

/-- Faults of different sorts are not the same. -/
lemma ctorIdx_eq_of_same (h : f.same g = true) : f.ctorIdx = g.ctorIdx := by
  rw [same.eq_def] at h
  split at h
  -- The last case compares the sorts, and in the others they are in sight.
  case h_8 => exact of_decide_eq_true h
  all_goals rfl

/-- Faults of one sort are the same if they carry the same. -/
lemma same_iff_payload_eq (h : f.ctorIdx = g.ctorIdx) :
    f.same g = true ↔ f.payload = g.payload := by
  cases f <;> cases g <;> first
    | (cases h; done)
    | simp [same, payload]

/-- **Faults are the same exactly if they are of the same sort and carry the same.** -/
theorem same_iff : f.same g = true ↔ f.ctorIdx = g.ctorIdx ∧ f.payload = g.payload := by
  constructor
  · intro h
    have hsort := ctorIdx_eq_of_same h
    exact ⟨hsort, (same_iff_payload_eq hsort).1 h⟩
  · rintro ⟨hsort, hpayload⟩
    exact (same_iff_payload_eq hsort).2 hpayload

theorem equivalence_same : Equivalence fun f g : Fault => f.same g = true where
  refl _ := same_iff.2 ⟨rfl, rfl⟩
  symm h := same_iff.2 ⟨(same_iff.1 h).1.symm, (same_iff.1 h).2.symm⟩
  trans h h' :=
    same_iff.2 ⟨(same_iff.1 h).1.trans (same_iff.1 h').1, (same_iff.1 h).2.trans (same_iff.1 h').2⟩

/-- A fault that is not about reading is the same as itself only. -/
lemma eq_of_same (h : f.same g = true) (hf : ∀ p, f ≠ .unreadable p) : f = g := by
  obtain ⟨hsort, hpayload⟩ := same_iff.1 h
  cases f <;> cases g <;> first
    | (cases hsort; done)
    | (cases hpayload; rfl)
    | exact absurd rfl (hf _)

end Fault

/-! ### Faults at a place -/

/-- Locations are the same if they have the same line and the same components of a path. -/
lemma Location.same_iff {l m : Location} :
    l.same m = true ↔
      l.line = m.line ∧ PathComponents.ofPath l.file = PathComponents.ofPath m.file := by
  rw [same, Bool.and_eq_true, decide_eq_true_iff, decide_eq_true_iff]

theorem Location.equivalence_same : Equivalence fun l m : Location => l.same m = true where
  refl _ := same_iff.2 ⟨rfl, rfl⟩
  symm h := same_iff.2 ⟨(same_iff.1 h).1.symm, (same_iff.1 h).2.symm⟩
  trans h h' :=
    same_iff.2 ⟨(same_iff.1 h).1.trans (same_iff.1 h').1, (same_iff.1 h).2.trans (same_iff.1 h').2⟩

namespace LocatedFault

open PathComponents (LeavesOut ofPath ofPath_eq_iff)
open Relation (EqvGen)

/-- Faults at a place are the same if the faults and the places are. -/
lemma same_iff {f g : LocatedFault} :
    f.same g = true ↔ f.fault.same g.fault = true ∧ f.location.same g.location = true := by
  rw [same, Bool.and_eq_true, and_comm]

theorem equivalence_same : Equivalence fun f g : LocatedFault => f.same g = true where
  refl f := same_iff.2 ⟨Fault.equivalence_same.refl f.fault,
    Location.equivalence_same.refl f.location⟩
  symm h := same_iff.2 ⟨Fault.equivalence_same.symm (same_iff.1 h).1,
    Location.equivalence_same.symm (same_iff.1 h).2⟩
  trans h h' := same_iff.2 ⟨Fault.equivalence_same.trans (same_iff.1 h).1 (same_iff.1 h').1,
    Location.equivalence_same.trans (same_iff.1 h).2 (same_iff.1 h').2⟩

/-- **To be the same is an equivalence relation that forgets nothing but what it should.**

* Faults are the same exactly if they are of the same sort and carry the same text, number or
  refusal, or the same kind of a problem of reading.
* Unless they are about reading, the same faults are shown by the same message.
* Faults at a place are the same exactly if the faults are the same, the lines are the same and the
  paths have the same components, which means that the paths differ in redundant separators and dots
  only.
* Both relations are reflexive, symmetric and transitive. -/
theorem sameness_is_equivalence :
    (∀ f g : Fault, f.same g = true ↔ f.ctorIdx = g.ctorIdx ∧ f.payload = g.payload) ∧
      (Equivalence fun f g : Fault => f.same g = true) ∧
      (∀ f g : Fault, f.same g = true → (∀ p, f ≠ .unreadable p) → f.message = g.message) ∧
      (∀ f g : LocatedFault, f.same g = true ↔ f.fault.same g.fault = true ∧
        f.location.line = g.location.line ∧ ofPath f.location.file = ofPath g.location.file) ∧
      (∀ p q : String, ofPath p = ofPath q ↔ EqvGen LeavesOut p.toList q.toList) ∧
      Equivalence fun f g : LocatedFault => f.same g = true := by
  refine ⟨fun f g => Fault.same_iff, Fault.equivalence_same, fun f g h hf => ?_, fun f g => ?_,
    fun p q => ofPath_eq_iff, equivalence_same⟩
  · exact congrArg Fault.message (Fault.eq_of_same h hf)
  · rw [same_iff, Location.same_iff]

/-- A fault is the same if its path is spelled with another redundant separator, but not if it is at
another line.  Two problems of one kind are the same though their texts are not, and two of
different kinds, here of running out of time and of memory, are not. -/
theorem fault_is_same_at_respelled_path :
    let f : LocatedFault := ⟨⟨"cnf/ab.cnf", 3⟩, .splitBody "A B"⟩
    let g : LocatedFault := ⟨⟨"cnf//ab.cnf", 3⟩, .splitBody "A B"⟩
    f.same g = true ∧ f.fault.message = g.fault.message ∧
      f.same ⟨⟨"cnf//ab.cnf", 4⟩, .splitBody "A B"⟩ = false ∧
      (Fault.unreadable .notText).same (.unreadable ⟨.invalidData, "no text"⟩) = true ∧
      (Fault.unreadable (.ofCode 110 "Connection timed out")).same
        (.unreadable (.ofCode 12 "Cannot allocate memory")) = false := by
  intro f g
  obtain ⟨hfault, -, hmessage, hlocated, hpath, -⟩ := sameness_is_equivalence
  have hsame : f.fault.same g.fault = true := (hfault _ _).2 ⟨rfl, rfl⟩
  have hleft : LeavesOut "cnf//ab.cnf".toList "cnf/ab.cnf".toList := by
    simpa using LeavesOut.separator "cnf".toList "ab.cnf".toList
  have hspelled : ofPath f.location.file = ofPath g.location.file :=
    (hpath _ _).2 (.symm _ _ (.rel _ _ hleft))
  refine ⟨(hlocated f g).2 ⟨hsame, rfl, hspelled⟩, hmessage _ _ hsame (by simp [f]), ?_,
    (hfault _ _).2 ⟨rfl, rfl⟩, ?_⟩
  · rw [Bool.eq_false_iff, ne_eq, hlocated]
    simp [f]
  · rw [Bool.eq_false_iff, ne_eq, hfault]
    simp [Fault.payload, ReadProblem.ofCode, ReadProblemKind.ofCode]

end LocatedFault

end ChomskyGrammar
