import CourseAdmission.Proofs.Report.Change
import CourseAdmission.Proofs.Report.Counts
import CourseAdmission.Proofs.Time.Instant
import Mathlib.Data.List.Perm.Basic

/-!
Two reports compared in both directions.

Where each report lists a student once, what one direction counts as an admission the other counts
as a denial, for the same reasons, and what is new in one direction is removed in the other.
-/

namespace CourseAdmission

/-! Criteria are compared alike from both sides, because no threshold is undefined. -/

theorem Demand.beq_comm (a b : Demand) : (a == b) = (b == a) := by
  have hrequired : (a.required == b.required) = (b.required == a.required) := by
    rw [Bool.eq_iff_iff, Binary64.beq_iff a.isPercent.isFinite b.isPercent.isFinite,
      Binary64.beq_iff b.isPercent.isFinite a.isPercent.isFinite, eq_comm]
  change (a.required == b.required && a.rounding == b.rounding) =
    (b.required == a.required && b.rounding == a.rounding)
  rw [hrequired, BEq.comm (a := a.rounding)]

theorem Rule.beq_comm (a b : Rule) : (a == b) = (b == a) := by
  cases a with
  | overall type average =>
    cases b with
    | overall type' average' =>
      change (type == type' && average == average') = (type' == type && average' == average)
      rw [average.beq_comm, BEq.comm (a := type)]
    | passedShare => rfl
  | passedShare type average share =>
    cases b with
    | overall => rfl
    | passedShare type' average' share' =>
      change (type == type' && average == average' && share == share') =
        (type' == type && average' == average && share' == share)
      rw [average.beq_comm, share.beq_comm, BEq.comm (a := type)]

theorem Criteria.beq_comm (a b : Criteria) : (a == b) = (b == a) := by
  have hrules : ∀ rules rules' : List Rule, (rules == rules') = (rules' == rules) := by
    intro rules
    induction rules with
    | nil => rintro (_ | ⟨rule', rules'⟩) <;> rfl
    | cons rule rules ih =>
      rintro (_ | ⟨rule', rules'⟩)
      · rfl
      · rw [List.cons_beq_cons, List.cons_beq_cons, rule.beq_comm, ih]
  exact hrules a.rules b.rules

namespace Change

/-- The change of a student whom one list admits and another denies, with the rules that fail in the
    one that denies. -/
def Denies (admitting denying : List StudentVerdict) (change : Change) : Prop :=
  ∃ s ∈ admitting, ∃ t ∈ denying, s.id = t.id ∧ s.verdict.admitted = true ∧
    t.verdict.admitted = false ∧ change = ⟨t.id, t.verdict.failed.map (·.summary)⟩

variable {students : List StudentVerdict}

/-- Where each student is listed once, the last entry of a student is the only one. -/
theorem lastVerdict?_eq_some_iff (hnodup : (students.map (·.id)).Nodup) {id : String}
    {verdict : Verdict} : lastVerdict? students id = some verdict ↔
      ∃ student ∈ students, student.id = id ∧ student.verdict = verdict := by
  constructor
  · exact exists_of_lastVerdict?_eq_some
  · rintro ⟨student, hstudent, rfl, rfl⟩
    exact lastVerdict?_of_mem hnodup hstudent

/-- Changes of different students are different. -/
theorem nodup_filterMap (hnodup : (students.map (·.id)).Nodup)
    {f : StudentVerdict → Option Change} (hid : ∀ s change, f s = some change → change.id = s.id) :
    (students.filterMap f).Nodup := by
  rw [List.Nodup, List.pairwise_map] at hnodup
  refine hnodup.filterMap f ?_
  rintro s t hne change hs _ ht rfl
  exact hne ((hid s change hs).symm.trans (hid t change ht))

end Change

namespace Report

variable {a b : Report}

theorem mem_newlyDenied_iff_denies (hb : (b.students.map (·.id)).Nodup) {change : Change} :
    change ∈ (a.compare b).newlyDenied ↔ Change.Denies b.students a.students change := by
  simp only [mem_newlyDenied_compare_iff, Change.lastVerdict?_eq_some_iff hb, Change.ofDenial,
    Change.Denies]
  constructor
  · rintro ⟨t, ht, _, ⟨s, hs, hid, rfl⟩, hadmitted, hdenied, rfl⟩
    exact ⟨s, hs, t, ht, hid, hadmitted, hdenied, rfl⟩
  · rintro ⟨s, hs, t, ht, hid, hadmitted, hdenied, rfl⟩
    exact ⟨t, ht, _, ⟨s, hs, hid, rfl⟩, hadmitted, hdenied, rfl⟩

theorem mem_newlyAdmitted_iff_denies (hb : (b.students.map (·.id)).Nodup) {change : Change} :
    change ∈ (a.compare b).newlyAdmitted ↔ Change.Denies a.students b.students change := by
  simp only [mem_newlyAdmitted_compare_iff, Change.lastVerdict?_eq_some_iff hb, Change.ofDenial,
    Change.Denies]
  constructor
  · rintro ⟨s, hs, _, ⟨t, ht, hid, rfl⟩, hdenied, hadmitted, rfl⟩
    exact ⟨s, hs, t, ht, hid.symm, hadmitted, hdenied, by rw [hid]⟩
  · rintro ⟨s, hs, t, ht, hid, hadmitted, hdenied, rfl⟩
    exact ⟨s, hs, _, ⟨t, ht, hid.symm, rfl⟩, hdenied, hadmitted, by rw [hid]⟩

theorem nodup_newlyDenied_compare (ha : (a.students.map (·.id)).Nodup) :
    (a.compare b).newlyDenied.Nodup := by
  simp only [compare, List.filterMap_map]
  refine Change.nodup_filterMap ha fun s change hchange => ?_
  obtain ⟨_, -, -, -, rfl⟩ := Change.denied?_kind_eq_some_iff.1 hchange
  rfl

theorem nodup_newlyAdmitted_compare (ha : (a.students.map (·.id)).Nodup) :
    (a.compare b).newlyAdmitted.Nodup := by
  simp only [compare, List.filterMap_map]
  refine Change.nodup_filterMap ha fun s change hchange => ?_
  obtain ⟨_, -, -, -, rfl⟩ := Change.admitted?_kind_eq_some_iff.1 hchange
  rfl

/-- The newly denied of one direction are the newly admitted of the other. -/
theorem perm_newlyDenied_compare (ha : (a.students.map (·.id)).Nodup)
    (hb : (b.students.map (·.id)).Nodup) :
    (a.compare b).newlyDenied.Perm (b.compare a).newlyAdmitted := by
  refine (List.perm_ext_iff_of_nodup (nodup_newlyDenied_compare ha)
    (nodup_newlyAdmitted_compare hb)).2 fun change => ?_
  rw [mem_newlyDenied_iff_denies hb, mem_newlyAdmitted_iff_denies ha]

/-- Both reports have the same number of entries for students whom the other one has. -/
theorem countP_common (ha : (a.students.map (·.id)).Nodup) (hb : (b.students.map (·.id)).Nodup) :
    a.students.countP (fun s => b.students.any (·.id == s.id)) =
      b.students.countP (fun s => a.students.any (·.id == s.id)) := by
  have hcount (l l' : List StudentVerdict) : l.countP (fun s => l'.any (·.id == s.id)) =
      ((l.map (·.id)).filter (· ∈ l'.map (·.id))).length := by
    rw [← List.countP_eq_length_filter, List.countP_map]
    refine List.countP_congr fun s _ => ?_
    simp
  rw [hcount, hcount]
  refine List.Perm.length_eq ((List.perm_ext_iff_of_nodup (ha.filter _) (hb.filter _)).2
    fun id => ?_)
  simp [and_comm]

theorem newStudents_compare_eq (a b : Report) :
    (a.compare b).newStudents = (b.compare a).removedStudents :=
  newStudents_compare

/-- Both directions count the same students as unchanged. -/
theorem unchanged_compare_comm (ha : (a.students.map (·.id)).Nodup)
    (hb : (b.students.map (·.id)).Nodup) :
    (a.compare b).unchanged = (b.compare a).unchanged := by
  have hsplit (a b : Report) : a.students.length =
      a.students.countP (fun s => b.students.any (·.id == s.id)) + (a.compare b).newStudents := by
    rw [newStudents_compare]
    exact length_eq_countP_add_countP_not a.students fun s => b.students.any (·.id == s.id)
  have hcommon := countP_common ha hb
  have hdenied := (perm_newlyDenied_compare ha hb).length_eq
  have hadmitted := (perm_newlyDenied_compare hb ha).length_eq
  have hlength := length_students_eq a b
  have hlength' := length_students_eq b a
  have hsplit_a := hsplit a b
  have hsplit_b := hsplit b a
  omega

/-- Let two reports list each student once. Then the students whom one comparison finds newly
    admitted are those whom the reversed one finds newly denied, denied by the same rules; both
    count the same students as unchanged and find the same difference of criteria; and what is new
    to one is removed for the other. The counts of a comparison add up to the students of either
    report. A change always names the rules that failed in the verdict that denies. -/
theorem compare_reversed (ha : (a.students.map (·.id)).Nodup)
    (hb : (b.students.map (·.id)).Nodup) :
    let changes := a.compare b
    let reversed := b.compare a
    changes.newlyAdmitted.Perm reversed.newlyDenied ∧
      changes.newlyDenied.Perm reversed.newlyAdmitted ∧
      changes.unchanged = reversed.unchanged ∧
      changes.criteriaChanged = reversed.criteriaChanged ∧
      changes.newStudents = reversed.removedStudents ∧
      changes.removedStudents = reversed.newStudents ∧
      a.students.length = changes.newlyAdmitted.length + changes.newlyDenied.length +
        changes.unchanged + changes.newStudents ∧
      b.students.length = changes.newlyAdmitted.length + changes.newlyDenied.length +
        changes.unchanged + changes.removedStudents ∧
      (∀ change, change ∈ changes.newlyDenied ↔ Change.Denies b.students a.students change) ∧
      (∀ change, change ∈ changes.newlyAdmitted ↔
        Change.Denies a.students b.students change) := by
  intro changes reversed
  have hdenied : changes.newlyDenied.Perm reversed.newlyAdmitted := perm_newlyDenied_compare ha hb
  have hadmitted : changes.newlyAdmitted.Perm reversed.newlyDenied :=
    (perm_newlyDenied_compare hb ha).symm
  have hnew : changes.newStudents = reversed.removedStudents := newStudents_compare_eq a b
  have hremoved : changes.removedStudents = reversed.newStudents :=
    (newStudents_compare_eq b a).symm
  have hunchanged : changes.unchanged = reversed.unchanged := unchanged_compare_comm ha hb
  refine ⟨hadmitted, hdenied, hunchanged, congrArg not (Criteria.beq_comm _ _), hnew, hremoved,
    length_students_eq a b, ?_, fun _ => mem_newlyDenied_iff_denies hb,
    fun _ => mem_newlyAdmitted_iff_denies hb⟩
  rw [hdenied.length_eq, hadmitted.length_eq, hunchanged, hremoved, length_students_eq b a,
    Nat.add_comm reversed.newlyDenied.length]

/-- A report on students of whom some have all points in their homework and the others none, where
    half of them is required. -/
def onHomework (students : List (String × Bool)) : Report :=
  let criteria : Criteria := ⟨[.overall .homework ⟨50, .none, Binary64.isPercent_fifty, trivial⟩]⟩
  criteria.evaluateCourse ⟨.nil, .epoch, 0⟩ ⟨"", students.map fun (id, done) =>
    ⟨id, if done then [⟨"x", .homework, 100, true⟩] else []⟩⟩

/-- One student loses the admission, one gains it, one keeps it, one comes and one goes. -/
theorem compare_reversed_onHomework :
    let before := onHomework [("a", true), ("b", false), ("c", true), ("d", true)]
    let after := onHomework [("e", true), ("c", true), ("b", true), ("a", false)]
    (after.students.map (·.id)).Nodup ∧ (before.students.map (·.id)).Nodup ∧
      (after.compare before).newlyAdmitted.Perm (before.compare after).newlyDenied ∧
      (after.compare before).newlyAdmitted.map (·.id) = ["b"] ∧
      (after.compare before).unchanged = (before.compare after).unchanged ∧
      (after.compare before).newStudents = (before.compare after).removedStudents := by
  intro before after
  have hafter : (after.students.map (·.id)).Nodup := by decide
  have hbefore : (before.students.map (·.id)).Nodup := by decide
  obtain ⟨hadmitted, -, hunchanged, -, hnew, -⟩ := compare_reversed hafter hbefore
  exact ⟨hafter, hbefore, hadmitted, by decide +kernel, hunchanged, hnew⟩

end Report

end CourseAdmission
