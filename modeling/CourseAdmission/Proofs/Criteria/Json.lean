import CourseAdmission.Criteria.Document
import CourseAdmission.Proofs.Criteria.Check
import CourseAdmission.Proofs.Criteria.Demand
import CourseAdmission.Proofs.Criteria.Shape
import CourseAdmission.Proofs.Document.Whole

/-!
Criteria in JSON texts: which texts are accepted, what is made of them, and what refuses the others.
-/

namespace CourseAdmission

open Document

namespace CriteriaDraft

variable {drafts : CriteriaDraft}

/-- The draft at a place is faulty, and none before it is. -/
def FaultAt (drafts : CriteriaDraft) (place : Nat) (fault : RuleError) : Prop :=
  (∃ draft, drafts[place]? = some draft ∧ firstFault draft.checks = some fault) ∧
    ∀ earlier < place, ∀ draft, drafts[earlier]? = some draft → firstFault draft.checks = none

/-- The rules are built from the drafts, one from each in order. -/
def BuildAll (drafts : CriteriaDraft) (rules : List Rule) : Prop :=
  rules.length = drafts.length ∧ ∀ (place : Nat) (draft : RuleDraft), drafts[place]? = some draft →
    ∃ rule, rules[place]? = some rule ∧ draft.Builds rule

theorem FaultAt.succ {draft : RuleDraft} {place : Nat} {fault : RuleError}
    (hdraft : firstFault draft.checks = none) (h : FaultAt drafts place fault) :
    FaultAt (draft :: drafts) (place + 1) fault := by
  refine ⟨h.1, fun earlier hless other hother => ?_⟩
  cases earlier with
  | zero =>
    cases hother
    exact hdraft
  | succ earlier => exact h.2 earlier (by omega) other hother

theorem BuildAll.cons {draft : RuleDraft} {rule : Rule} {rules : List Rule}
    (hrule : draft.Builds rule) (h : BuildAll drafts rules) :
    BuildAll (draft :: drafts) (rule :: rules) := by
  refine ⟨by simp [h.1], fun place other hother => ?_⟩
  cases place with
  | zero =>
    cases hother
    exact ⟨rule, rfl, hrule⟩
  | succ place => exact h.2 place other hother

/-- Drafts are refused at the first faulty one; without one they are built into rules. -/
theorem checkFrom_spec (index : Nat) (drafts : CriteriaDraft) :
    (∃ place fault, FaultAt drafts place fault ∧
        checkFrom index drafts = .error (index + place, fault)) ∨
      ∃ rules, (∀ draft ∈ drafts, firstFault draft.checks = none) ∧
        checkFrom index drafts = .ok rules ∧ BuildAll drafts rules := by
  induction drafts generalizing index with
  | nil => exact .inr ⟨[], by simp, rfl, rfl, by simp⟩
  | cons draft drafts ih =>
    rcases draft.checked with ⟨fault, hfault, hcheck⟩ | ⟨rule, hnone, hcheck, hrule⟩
    · exact .inl ⟨0, fault, ⟨⟨draft, rfl, hfault⟩, by simp⟩, by simp [checkFrom, hcheck]⟩
    · rcases ih (index + 1) with ⟨place, fault, hfault, hrest⟩ | ⟨rules, hall, hrest, hbuild⟩
      · refine .inl ⟨place + 1, fault, hfault.succ hnone, ?_⟩
        have hplace : index + 1 + place = index + (place + 1) := by omega
        simp [checkFrom, hcheck, hrest, hplace]
      · refine .inr ⟨rule :: rules, by simpa [hnone] using hall, ?_, hbuild.cons hrule⟩
        simp [checkFrom, hcheck, hrest]

theorem FaultAt.unique {place place' : Nat} {fault fault' : RuleError}
    (h : FaultAt drafts place fault) (h' : FaultAt drafts place' fault') :
    place = place' ∧ fault = fault' := by
  obtain ⟨⟨draft, hdraft, hfault⟩, hearlier⟩ := h
  obtain ⟨⟨draft', hdraft', hfault'⟩, hearlier'⟩ := h'
  have heq : place = place' := by
    by_contra hne
    rcases Nat.lt_or_gt_of_ne hne with hless | hless
    · have := hearlier' place hless draft hdraft
      simp [this] at hfault
    · have := hearlier place' hless draft' hdraft'
      simp [this] at hfault'
  subst heq
  rw [hdraft, Option.some_inj] at hdraft'
  subst hdraft'
  rw [hfault, Option.some_inj] at hfault'
  exact ⟨rfl, hfault'⟩

theorem FaultAt.exists_fault {place : Nat} {fault : RuleError} (h : FaultAt drafts place fault) :
    ¬∀ draft ∈ drafts, firstFault draft.checks = none := by
  obtain ⟨⟨draft, hdraft, hfault⟩, -⟩ := h
  intro hall
  simp [hall draft (List.mem_of_getElem? hdraft)] at hfault

end CriteriaDraft

namespace Criteria

variable {text : String}

/-- The text is a complete document of the shape of criteria. -/
def WellFormed (text : String) : Prop :=
  (Json.read text).complete = true ∧ (Json.read text).root.HasShape CriteriaDraft.shape

/-- The drafts of the rules that a text holds. -/
def draftsOf (text : String) : CriteriaDraft := CriteriaDraft.ofNode (Json.read text).root

theorem decode_eq_ok_iff (hobjects : CriteriaDraft.WrittenAsObjects (Json.read text).root)
    {drafts : CriteriaDraft} :
    Json.decode (CriteriaDraft.decoder .refused) text = .ok drafts ↔
      WellFormed text ∧ drafts = draftsOf text := by
  rw [Json.decode_eq_ok_iff, CriteriaDraft.decoder_eq_ok_iff hobjects, WellFormed, draftsOf,
    and_right_comm, and_comm (b := _ = true)]

/-- A text that is not well-formed is malformed; one that is, is refused at its first faulty rule,
    or its rules are built. -/
theorem ofJson_cases (hobjects : CriteriaDraft.WrittenAsObjects (Json.read text).root) :
    (¬WellFormed text ∧ ∃ cause, ofJson text = .error (.malformed cause)) ∨
      (WellFormed text ∧ ∃ place fault, (draftsOf text).FaultAt place fault ∧
        ofJson text = .error (.rule place fault)) ∨
      (WellFormed text ∧ (∀ draft ∈ draftsOf text, firstFault draft.checks = none) ∧
        ∃ rules, (draftsOf text).BuildAll rules ∧ ofJson text = .ok ⟨rules⟩) := by
  have hdecode (drafts : CriteriaDraft) : Json.decode (CriteriaDraft.decoder .refused) text =
      .ok drafts ↔ WellFormed text ∧ drafts = draftsOf text := decode_eq_ok_iff hobjects
  unfold ofJson ofDrafts
  rcases hread : Json.decode (CriteriaDraft.decoder .refused) text with cause | drafts
  · refine .inl ⟨fun hwell => ?_, cause, rfl⟩
    rw [(hdecode (draftsOf text)).2 ⟨hwell, rfl⟩] at hread
    cases hread
  · obtain ⟨hwell, rfl⟩ := (hdecode drafts).1 hread
    right
    rw [mapError_ok, ok_bind, CriteriaDraft.check]
    rcases CriteriaDraft.checkFrom_spec 0 (draftsOf text) with
      ⟨place, fault, hfault, hcheck⟩ | ⟨rules, hall, hcheck, hbuild⟩
    · exact .inl ⟨hwell, place, fault, hfault, by rw [hcheck, Nat.zero_add]; rfl⟩
    · exact .inr ⟨hwell, hall, rules, hbuild, by rw [hcheck]; rfl⟩

end Criteria

/-- Of the texts that write their criteria as objects, those are accepted that are complete
    documents of the shape of criteria and all of whose rules pass the checks. Their rules are built
    in order by the constructors of their kinds, and demand percentages of at most ten decimal
    places. A text of the shape is refused with the first fault of its first faulty rule, and any
    other text is malformed. -/
theorem Criteria.ofJson_spec (text : String)
    (hobjects : CriteriaDraft.WrittenAsObjects (Json.read text).root) :
    ((∃ criteria, ofJson text = .ok criteria) ↔
        WellFormed text ∧ ∀ draft ∈ draftsOf text, firstFault draft.checks = none) ∧
      (∀ criteria, ofJson text = .ok criteria →
        (draftsOf text).BuildAll criteria.rules ∧
          ∀ rule ∈ criteria.rules, ∀ demand ∈ rule.demands,
            demand.required.isFinite ∧ 0 ≤ demand.required ∧ demand.required ≤ 100 ∧
              ∀ places, demand.rounding = .decimals places → places ≤ 10) ∧
      (∀ place fault, ofJson text = .error (.rule place fault) ↔
        WellFormed text ∧ (draftsOf text).FaultAt place fault) ∧
      ((∃ cause, ofJson text = .error (.malformed cause)) ↔ ¬WellFormed text) := by
  have hdemands (criteria : Criteria) : ∀ rule ∈ criteria.rules, ∀ demand ∈ rule.demands,
      demand.required.isFinite ∧ 0 ≤ demand.required ∧ demand.required ≤ 100 ∧
        ∀ places, demand.rounding = .decimals places → places ≤ 10 := by
    intro rule _ demand _
    refine ⟨demand.isPercent.isFinite, demand.isPercent.1, demand.isPercent.2, ?_⟩
    intro places hplaces
    have hallowed := demand.allowed
    rw [hplaces] at hallowed
    exact hallowed
  rcases ofJson_cases hobjects with ⟨hwell, cause, hjson⟩ | ⟨hwell, place, fault, hfault, hjson⟩ |
    ⟨hwell, hall, rules, hbuild, hjson⟩
  · simp [hjson, hwell]
  · have hsome := hfault.exists_fault
    refine ⟨by simp [hjson, hsome], by simp [hjson], ?_, by simp [hjson, hwell]⟩
    intro place' fault'
    rw [hjson]
    constructor
    · rintro ⟨⟩
      exact ⟨hwell, hfault⟩
    · rintro ⟨-, hother⟩
      obtain ⟨rfl, rfl⟩ := hfault.unique hother
      rfl
  · refine ⟨⟨fun _ => ⟨hwell, hall⟩, fun _ => ⟨_, hjson⟩⟩, ?_, ?_, by simp [hjson, hwell]⟩
    · rintro criteria hcriteria
      cases hjson.symm.trans hcriteria
      exact ⟨hbuild, hdemands _⟩
    · intro place fault
      rw [hjson]
      constructor
      · rintro ⟨⟩
      · rintro ⟨-, hfault⟩
        exact absurd hall hfault.exists_fault

/-- Criteria of one rule that says no more than to how many places it rounds. -/
def placesText (places : String) : String :=
  "\x7b\"rules\":[\x7b\"rounding\":\x7b\"decimals\":" ++ places ++ "\x7d\x7d]\x7d"

/-- The first fault of such a rule is that it has no type. -/
theorem ofJson_spec_of_two_places :
    Criteria.WellFormed (placesText "2") ∧
      (Criteria.draftsOf (placesText "2")).FaultAt 0 (.missingField .kind) :=
  ((Criteria.ofJson_spec (placesText "2") (by decide)).2.2.1 0 _).1 (by decide)

/-- A negative zero is an integer literal, but it is read as a double and so is no number of
    places. -/
theorem ofJson_negative_zero_places :
    Criteria.ofJson (placesText "0") = .error (.rule 0 (.missingField .kind)) ∧
      Criteria.ofJson (placesText "-0") = .error (.malformed .unreadable) := by
  decide

end CourseAdmission
