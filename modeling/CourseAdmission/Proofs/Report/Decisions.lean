import CourseAdmission.Proofs.Report.Change
import CourseAdmission.Proofs.Report.Document

/-!
What a report that has been saved and loaded says on admission.

Doubles may change between saving and loading, and counts beyond 64 bits are refused. But whatever
is loaded lists the same students in the same order, each admitted or denied as before.
-/

namespace CourseAdmission

open Document

theorem list_reread_eq_ok {α β : Type} {decode : Decoder β} {encode : α → Node} {values : List α}
    {read : List β} (h : Decoder.list decode (Node.ofList encode values).reread = .ok read) :
    List.Forall₂ (fun value b => decode (encode value).reread = .ok b) values read := by
  rw [Node.reread_ofList, Node.ofList, Decoder.list, mapM_eq_ok_iff_forall₂,
    List.forall₂_map_left_iff] at h
  exact h

theorem Verdict.admitted_eq_of_decoder {verdict v : Verdict} {room : Nat}
    (h : decoder room verdict.toNode.reread = .ok v) : verdict.admitted = v.admitted := by
  rw [toNode, Node.reread_ofMembers, decoder] at h
  obtain ⟨_, hadmitted, _, -, rfl⟩ := (Record.ReadsVia.lenient_iff (
    ((Record.readsVia_field 0 rfl).map Verdict.mk).seq
      (Record.readsVia_field 1 rfl) (by simp)) (by simp) (by simp)).1 h
  rw [Node.reread_bool, bool_bool_iff] at hadmitted
  exact hadmitted

namespace StudentVerdict

/-- What an entry says on admission, and of whom. -/
def decision (student : StudentVerdict) : String × Bool := (student.id, student.verdict.admitted)

theorem decision_eq_of_decoder {student s : StudentVerdict} {room : Nat}
    (h : decoder room student.toNode.reread = .ok s) : student.decision = s.decision := by
  rw [toNode, Node.reread_ofMembers, decoder] at h
  obtain ⟨_, hid, _, hverdict, rfl⟩ := (Record.ReadsVia.lenient_iff (
    ((Record.readsVia_field 0 rfl).map StudentVerdict.mk).seq
      (Record.readsVia_field 1 rfl) (by simp)) (by simp) (by simp)).1 h
  rw [Node.reread_ofText, text_ofText_iff] at hid
  exact Prod.ext hid (Verdict.admitted_eq_of_decoder hverdict)

end StudentVerdict

namespace Report

variable {report r baseline current : Report}

def decisions (report : Report) : List (String × Bool) :=
  report.students.map StudentVerdict.decision

theorem decisions_evaluateCourse (criteria : Criteria) (stamp : Stamp) (course : CourseResults) :
    (criteria.evaluateCourse stamp course).decisions =
      course.students.map fun s => (s.id, (criteria.evaluate s.results).admitted) :=
  List.map_map

/-- Whatever is loaded from a saved report says the same on the admission of the students. -/
theorem decisions_eq_of_load_save (h : load report.save = .ok r) :
    report.decisions = r.decisions := by
  rw [load, save, Json.decode_pretty _ (isWritable_toNode report), toNode, Node.reread_ofMembers,
    decoder] at h
  obtain ⟨_, -, _, -, _, -, _, -, _, hstudents, _, -, _, -, rfl⟩ := (Record.ReadsVia.lenient_iff (
    ((Record.readsVia_field 0 rfl).map Report.mk).seq
      (Record.readsVia_field 1 rfl) (by simp)
    |>.seq (Record.readsVia_field 2 rfl) (by simp)
    |>.seq (Record.readsVia_field 3 rfl) (by simp)
    |>.seq (Record.readsVia_field 4 rfl) (by simp)
    |>.seq (Record.readsVia_field 5 rfl) (by simp)
    |>.seq (Record.readsVia_field 6 rfl) (by simp)) (by simp) (by simp)).1 h
  rw [decisions, decisions, ← List.forall₂_eq_eq_eq, List.forall₂_map_left_iff,
    List.forall₂_map_right_iff]
  exact (list_reread_eq_ok hstudents).imp fun _ _ => StudentVerdict.decision_eq_of_decoder

/-- Between reports of which the baseline lists each student once, there are new denials if and only
    if the one admits a student whom the other denies. -/
theorem hasNewDenials_compare_iff_decisions
    (hnodup : (baseline.decisions.map Prod.fst).Nodup) :
    (current.compare baseline).hasNewDenials = true ↔
      ∃ id, (id, true) ∈ baseline.decisions ∧ (id, false) ∈ current.decisions := by
  have hids : (baseline.students.map (·.id)).Nodup := by
    simpa [decisions, StudentVerdict.decision, Function.comp_def] using hnodup
  rw [hasNewDenials_compare_iff]
  simp only [decisions, List.mem_map, StudentVerdict.decision, Prod.mk.injEq]
  constructor
  · rintro ⟨t, ht, before, hlast, hbefore, hdenied⟩
    obtain ⟨s, hs, hid, rfl⟩ := Change.exists_of_lastVerdict?_eq_some hlast
    exact ⟨t.id, ⟨s, hs, hid, hbefore⟩, t, ht, rfl, hdenied⟩
  · rintro ⟨_, ⟨s, hs, rfl, hadmitted⟩, t, ht, hid, hdenied⟩
    exact ⟨t, ht, s.verdict, hid ▸ Change.lastVerdict?_of_mem hids hs, hadmitted, hdenied⟩

/-- Between the reports on two courses, both saved and loaded again, there are new denials if and
    only if a student of both courses is admitted in the first one, which lists each student once,
    and denied in the second one. -/
theorem hasNewDenials_compare_iff_of_load_save {before now : Criteria} {stamp stamp' : Stamp}
    {first second : CourseResults} (hnodup : (first.students.map (·.id)).Nodup)
    (hbaseline : load (before.evaluateCourse stamp first).save = .ok baseline)
    (hcurrent : load (now.evaluateCourse stamp' second).save = .ok current) :
    (current.compare baseline).hasNewDenials = true ↔
      ∃ s ∈ first.students, ∃ t ∈ second.students, s.id = t.id ∧
        (before.evaluate s.results).admitted = true ∧
          (now.evaluate t.results).admitted = false := by
  have hfirst := (decisions_evaluateCourse before stamp first).symm.trans
    (decisions_eq_of_load_save hbaseline)
  have hsecond := (decisions_evaluateCourse now stamp' second).symm.trans
    (decisions_eq_of_load_save hcurrent)
  have hids : (baseline.decisions.map Prod.fst).Nodup := by
    rw [← hfirst]
    simpa [Function.comp_def] using hnodup
  rw [hasNewDenials_compare_iff_decisions hids, ← hfirst, ← hsecond]
  simp only [List.mem_map, Prod.mk.injEq]
  constructor
  · rintro ⟨_, ⟨s, hs, rfl, hadmitted⟩, t, ht, hid, hdenied⟩
    exact ⟨s, hs, t, ht, hid.symm, hadmitted, hdenied⟩
  · rintro ⟨s, hs, t, ht, hid, hadmitted, hdenied⟩
    exact ⟨s.id, ⟨s, hs, rfl, hadmitted⟩, t, ht, hid.symm, hdenied⟩

end Report

end CourseAdmission
