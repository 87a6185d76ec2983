import CourseAdmission.Report.Document
import CourseAdmission.Proofs.Criteria.Document
import CourseAdmission.Proofs.Report.Uuid
import CourseAdmission.Proofs.Time.Instant

/-!
Saved reports and what is loaded from them.
-/

namespace CourseAdmission

open Document

namespace Uuid

theorem decoder_iff {id i : Uuid} : decoder id.toNode = .ok i ↔ id = i := by
  have hdecode : decoder id.toNode = .ok id := by
    rw [decoder, toNode, text_ofText_iff.2 rfl, ok_bind, ofText?_toText]
    rfl
  rw [hdecode, Except.ok.injEq]

end Uuid

namespace Instant

theorem decoder_iff {t s : Instant} : decoder t.toNode = .ok s ↔ t = s := by
  have hdecode : decoder t.toNode = .ok t := by
    rw [decoder, toNode, text_ofText_iff.2 rfl, ok_bind, ofText?_toText]
    rfl
  rw [hdecode, Except.ok.injEq]

end Instant

namespace StudentVerdict

variable {student s : StudentVerdict} {room : Nat}

def Fits (student : StudentVerdict) : Prop := student.verdict.Fits

instance (student : StudentVerdict) : Decidable student.Fits :=
  inferInstanceAs (Decidable (Verdict.Fits _))

/-- The doubles of the one are read from the texts of those of the other, and all else is equal. -/
structure RereadAs (student s : StudentVerdict) : Prop where
  id : student.id = s.id
  verdict : student.verdict.RereadAs s.verdict

theorem decoder_iff (hfits : student.Fits) (hroom : 7 ≤ room) :
    decoder room student.toNode.reread = .ok s ↔ student.RereadAs s := by
  rw [toNode, Node.reread_ofMembers, decoder]
  refine Iff.trans (Record.ReadsVia.lenient_iff (
      ((Record.readsVia_field 0 rfl).map StudentVerdict.mk).seq
        (Record.readsVia_field 1 rfl) (by simp)) (by simp) (by simp)) ?_
  simp only [Node.reread_ofText, text_ofText_iff,
    Verdict.decoder_iff hfits (show 6 ≤ room - 1 by omega)]
  constructor
  · rintro ⟨_, rfl, _, hverdict, rfl⟩
    exact ⟨rfl, hverdict⟩
  · rintro ⟨hid, hverdict⟩
    exact ⟨_, rfl, _, hverdict, by rw [hid]⟩

@[simp]
theorem isWritable_toNode (student : StudentVerdict) : student.toNode.isWritable = true := by
  simp [toNode]

end StudentVerdict

namespace RuleTally

variable {tally t : RuleTally}

/-- The numbers fit into the bits that they are read with. -/
def Fits (tally : RuleTally) : Prop :=
  tally.index < Word.limit 64 ∧ tally.passed < Word.limit 64 ∧ tally.failed < Word.limit 64

instance (tally : RuleTally) : Decidable tally.Fits := inferInstanceAs (Decidable (_ ∧ _))

theorem decoder_iff (hfits : tally.Fits) : decoder tally.toNode.reread = .ok t ↔ tally = t := by
  rw [toNode, Node.reread_ofMembers, decoder]
  refine Iff.trans (Record.ReadsVia.lenient_iff (
      ((Record.readsVia_field 0 rfl).map RuleTally.mk).seq
        (Record.readsVia_field 1 rfl) (by simp)
      |>.seq (Record.readsVia_field 2 rfl) (by simp)
      |>.seq (Record.readsVia_field 3 rfl) (by simp)
      |>.seq (Record.readsVia_field 4 rfl) (by simp)) (by simp) (by simp)) ?_
  simp only [count_reread_iff hfits.1, count_reread_iff hfits.2.1, count_reread_iff hfits.2.2,
    RuleKind.reread_toNode, RuleKind.decoder_iff, AssignmentType.reread_toNode,
    AssignmentType.decoder_iff, exists_eq_left']

@[simp]
theorem isWritable_toNode (tally : RuleTally) : tally.toNode.isWritable = true := by
  simp [toNode]

end RuleTally

namespace Summary

variable {summary s : Summary}

/-- The numbers fit into the bits that they are read with. -/
def Fits (summary : Summary) : Prop :=
  summary.total < Word.limit 64 ∧ summary.admitted < Word.limit 64 ∧
    summary.denied < Word.limit 64 ∧ summary.withWarnings < Word.limit 64 ∧
    ∀ tally ∈ summary.rules, tally.Fits

instance (summary : Summary) : Decidable summary.Fits := inferInstanceAs (Decidable (_ ∧ _))

theorem decoder_iff (hfits : summary.Fits) :
    decoder summary.toNode.reread = .ok s ↔ summary = s := by
  obtain ⟨htotal, hadmitted, hdenied, hwarnings, hrules⟩ := hfits
  rw [toNode, Node.reread_ofMembers, decoder]
  refine Iff.trans (Record.ReadsVia.lenient_iff (
      ((Record.readsVia_field 0 rfl).map Summary.mk).seq
        (Record.readsVia_field 1 rfl) (by simp)
      |>.seq (Record.readsVia_field 2 rfl) (by simp)
      |>.seq (Record.readsVia_field 3 rfl) (by simp)
      |>.seq (Record.readsVia_field 4 rfl) (by simp)) (by simp) (by simp)) ?_
  simp only [count_reread_iff htotal, count_reread_iff hadmitted, count_reread_iff hdenied,
    count_reread_iff hwarnings, Node.reread_ofList,
    list_ofList_iff fun tally htally _ => RuleTally.decoder_iff (hrules tally htally),
    List.forall₂_eq_eq_eq, exists_eq_left']

@[simp]
theorem isWritable_toNode (summary : Summary) : summary.toNode.isWritable = true := by
  simp [toNode]

end Summary

namespace Report

variable {report r : Report}

/-- The numbers fit into the bits that they are kept with: 64 for counts, eight for the places of a
    rounding. -/
def Fits (report : Report) : Prop :=
  (∀ student ∈ report.students, student.Fits) ∧ report.summary.Fits ∧
    report.duration < Word.limit 64

instance (report : Report) : Decidable report.Fits := inferInstanceAs (Decidable (_ ∧ _))

/-- The doubles of the one are read from the texts of those of the other, and all else is equal. -/
structure RereadAs (report r : Report) : Prop where
  id : report.id = r.id
  createdAt : report.createdAt = r.createdAt
  courseId : report.courseId = r.courseId
  criteria : report.criteria.RereadAs r.criteria
  students : List.Forall₂ StudentVerdict.RereadAs report.students r.students
  summary : report.summary = r.summary
  duration : report.duration = r.duration

theorem decoder_iff (hfits : report.Fits) :
    decoder report.toNode.reread = .ok r ↔ report.RereadAs r := by
  obtain ⟨hstudents, hsummary, hduration⟩ := hfits
  have hid : report.id.toNode.reread = report.id.toNode := rfl
  have hcreated : report.createdAt.toNode.reread = report.createdAt.toNode := rfl
  rw [toNode, Node.reread_ofMembers, decoder]
  refine Iff.trans (Record.ReadsVia.lenient_iff (
      ((Record.readsVia_field 0 rfl).map Report.mk).seq
        (Record.readsVia_field 1 rfl) (by simp)
      |>.seq (Record.readsVia_field 2 rfl) (by simp)
      |>.seq (Record.readsVia_field 3 rfl) (by simp)
      |>.seq (Record.readsVia_field 4 rfl) (by simp)
      |>.seq (Record.readsVia_field 5 rfl) (by simp)
      |>.seq (Record.readsVia_field 6 rfl) (by simp)) (by simp) (by simp)) ?_
  simp only [hid, Uuid.decoder_iff, hcreated, Instant.decoder_iff, Node.reread_ofText,
    text_ofText_iff, Criteria.decoder_iff, Node.reread_ofList,
    list_ofList_iff fun student hstudent _ => StudentVerdict.decoder_iff
      (hstudents student hstudent) (show 7 ≤ Decoder.nestingLimit - 2 by decide),
    Summary.decoder_iff hsummary, count_reread_iff hduration]
  constructor
  · rintro ⟨_, rfl, _, rfl, _, rfl, _, hcriteria, _, hstudents, _, rfl, _, rfl, rfl⟩
    exact ⟨rfl, rfl, rfl, hcriteria, hstudents, rfl, rfl⟩
  · rintro ⟨hid, hcreated, hcourse, hcriteria, hstudents, hsummary, hduration⟩
    exact ⟨_, rfl, _, rfl, _, rfl, _, hcriteria, _, hstudents, _, rfl, _, rfl,
      by rw [hid, hcreated, hcourse, hsummary, hduration]⟩

theorem isWritable_toNode (report : Report) : report.toNode.isWritable = true := by
  simp [toNode, Uuid.toNode, Instant.toNode]

/-- From a saved report those reports are loaded that are equal to it up to their doubles, and have
    as doubles what the texts of its doubles are read as. -/
theorem load_save_iff (hfits : report.Fits) : load report.save = .ok r ↔ report.RereadAs r := by
  rw [load, save, Json.decode_pretty _ (isWritable_toNode report), decoder_iff hfits]

end Report

end CourseAdmission
