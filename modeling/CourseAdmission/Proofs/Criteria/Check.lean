import CourseAdmission.Criteria.Draft
import CourseAdmission.Proofs.Except

/-!
The checks that a draft has to pass, one after the other.

Each check looks at the draft for itself and names its fault. A draft is refused with the fault of
the first check that fails, and a draft that passes them all is built into a rule by the constructor
of its kind.
-/

namespace CourseAdmission

/-- The outcome of a check: its fault, if it fails. -/
def faultIf (fails : Prop) [Decidable fails] (fault : RuleError) : Option RuleError :=
  if fails then some fault else none

/-- The fault of the first check that fails. -/
def firstFault (checks : List (Option RuleError)) : Option RuleError := checks.findSome? id

/-- A computation fails with the first fault of its checks; without any it gives a result of the
    property. -/
def Checked {α : Type} (checks : List (Option RuleError)) (result : Except RuleError α)
    (Good : α → Prop) : Prop :=
  (∃ fault, firstFault checks = some fault ∧ result = .error fault) ∨
    ∃ a, firstFault checks = none ∧ result = .ok a ∧ Good a

namespace Checked

variable {α β : Type} {checks further : List (Option RuleError)} {Good : α → Prop} {Fine : β → Prop}

/-- Checks of consecutive computations come one after the other. -/
theorem bind {x : Except RuleError α} {f : α → Except RuleError β} (hx : Checked checks x Good)
    (hf : ∀ a, Good a → Checked further (f a) Fine) :
    Checked (checks ++ further) (x >>= f) Fine := by
  unfold Checked firstFault
  rw [List.findSome?_append]
  rcases hx with ⟨fault, hfault, rfl⟩ | ⟨a, hnone, rfl, ha⟩
  · unfold firstFault at hfault
    exact .inl ⟨fault, by rw [hfault, Option.some_or], rfl⟩
  · unfold firstFault at hnone
    rw [hnone, Option.none_or]
    exact hf a ha

theorem mono {x : Except RuleError α} {Fine : α → Prop} (hx : Checked checks x Good)
    (hfine : ∀ a, x = .ok a → Good a → Fine a) : Checked checks x Fine := by
  rcases hx with ⟨fault, hfault, rfl⟩ | ⟨a, hnone, rfl, ha⟩
  · exact .inl ⟨fault, hfault, rfl⟩
  · exact .inr ⟨a, hnone, rfl, hfine a rfl ha⟩

/-- A computation that gives a result has passed its checks. -/
theorem of_eq_ok {x : Except RuleError α} {a : α} (hx : Checked checks x Good) (ha : x = .ok a) :
    firstFault checks = none ∧ Good a := by
  rcases hx with ⟨fault, -, rfl⟩ | ⟨b, hnone, rfl, hb⟩
  · cases ha
  · cases ha
    exact ⟨hnone, hb⟩

end Checked

/-! Roundings -/

namespace RoundingDraft

def tags : List String := ["NONE", "UP_NEAREST_INTEGER", "DOWN_NEAREST_INTEGER", "DECIMALS"]

/-- The checks of a rounding in a field. -/
def checks (field : RuleField) (draft : Option RoundingDraft) : List (Option RuleError) :=
  let kind := draft.bind (·.kind)
  let decimals := draft.bind (·.decimals)
  [faultIf (draft = none) (.missingField field),
    faultIf (kind = none) (.missingRoundingField field .kind),
    kind.bind fun tag => faultIf (tag ∉ tags) (.unknownRounding field tag),
    faultIf (kind = some "DECIMALS" ∧ decimals = none) (.missingRoundingField field .decimals),
    decimals.bind fun n =>
      faultIf (kind = some "DECIMALS" ∧ ¬(0 ≤ n ∧ n ≤ RoundingPolicy.maxPlaces))
        (.decimalsOutOfRange field n)]

/-- The policy that a draft names. -/
def policy? (draft : Option RoundingDraft) : Option RoundingPolicy :=
  draft.bind fun draft => draft.kind.bind fun tag =>
    if tag = "NONE" then some .none
    else if tag = "UP_NEAREST_INTEGER" then some .up
    else if tag = "DOWN_NEAREST_INTEGER" then some .down
    else if tag = "DECIMALS" then draft.decimals.map fun n => .decimals n.toNat
    else none

/-- A rounding that is not to decimal places is only checked for its tag. -/
theorem firstFault_checks (field : RuleField) {tag : String} (decimals : Option Int)
    (htag : tag ∈ tags) (hother : tag ≠ "DECIMALS") :
    firstFault (checks field (some ⟨some tag, decimals⟩)) = none := by
  cases decimals <;> simp [checks, faultIf, firstFault, htag, hother]

/-- A rounding is refused with its first fault; without any it is the policy that it names. -/
theorem checked (field : RuleField) (draft : Option RoundingDraft) :
    Checked (checks field draft) (check field draft) fun policy =>
      policy? draft = some policy ∧ policy.Allowed := by
  rcases draft with _ | ⟨_ | tag, decimals⟩
  · exact .inl ⟨_, rfl, rfl⟩
  · exact .inl ⟨_, rfl, rfl⟩
  by_cases hnone : tag = "NONE"
  · subst hnone
    exact .inr ⟨.none, firstFault_checks field _ (by decide) (by decide), rfl, rfl, trivial⟩
  by_cases hup : tag = "UP_NEAREST_INTEGER"
  · subst hup
    exact .inr ⟨.up, firstFault_checks field _ (by decide) (by decide), rfl, rfl, trivial⟩
  by_cases hdown : tag = "DOWN_NEAREST_INTEGER"
  · subst hdown
    exact .inr ⟨.down, firstFault_checks field _ (by decide) (by decide), rfl, rfl, trivial⟩
  by_cases hdecimals : tag = "DECIMALS"
  · subst hdecimals
    rcases decimals with _ | n
    · exact .inl ⟨_, by simp [checks, faultIf, firstFault, tags], rfl⟩
    by_cases hin : 0 ≤ n ∧ n ≤ RoundingPolicy.maxPlaces
    · refine .inr ⟨.decimals n.toNat, ?_, ?_, rfl, ?_⟩
      · simp [checks, faultIf, firstFault, tags, hin]
      · simp only [check, if_pos hin]
        rfl
      · have hplaces : n.toNat ≤ RoundingPolicy.maxPlaces := by omega
        exact hplaces
    · refine .inl ⟨.decimalsOutOfRange field n, ?_, ?_⟩
      · simpa [checks, faultIf, firstFault, tags] using hin
      · simp only [check, if_neg hin]
        rfl
  · refine .inl ⟨.unknownRounding field tag, ?_, ?_⟩
    · simp [checks, faultIf, firstFault, tags, *]
    · simp [check, *]
      rfl

end RoundingDraft

/-! Rules -/

namespace RuleDraft

/-- The rule that is meant also asks for a share of passed assignments. -/
def AsksForShare (draft : RuleDraft) : Prop := draft.kind = some RuleKind.passedShare.tag

instance (draft : RuleDraft) : Decidable draft.AsksForShare :=
  inferInstanceAs (Decidable (_ = _))

def presenceCheck {α : Type} (field : RuleField) (value : Option α) : Option RuleError :=
  faultIf (value.isNone = true) (.missingField field)

def kindCheck (kind : Option String) : Option RuleError :=
  kind.bind fun tag =>
    faultIf (tag ∉ [RuleKind.overall.tag, RuleKind.passedShare.tag]) (.unknownRuleKind tag)

def typeCheck (assignmentType : Option String) : Option RuleError :=
  assignmentType.bind fun text =>
    faultIf (AssignmentType.ofText? text = none) (.unknownAssignmentType text)

def percentCheck (field : RuleField) (percent : Option Binary64) : Option RuleError :=
  percent.bind fun value => faultIf (¬value.IsPercent) (.percentOutOfRange field value)

/-- The checks of a rule. That the percentages are in range is checked last. -/
def checks (draft : RuleDraft) : List (Option RuleError) :=
  [presenceCheck .kind draft.kind] ++ ([kindCheck draft.kind] ++
    ([presenceCheck .assignmentType draft.assignmentType] ++ ([typeCheck draft.assignmentType] ++
    ([presenceCheck .requiredPercent draft.requiredPercent] ++
    (RoundingDraft.checks .averageRounding draft.averageRounding ++
    ((if draft.AsksForShare then
      [presenceCheck .passedPercent draft.passedPercent] ++
        RoundingDraft.checks .passedRounding draft.passedRounding
    else []) ++
    ([percentCheck .requiredPercent draft.requiredPercent] ++
    if draft.AsksForShare then [percentCheck .passedPercent draft.passedPercent] else [])))))))

/-- The rule is what the constructor of the draft's kind makes of the draft's fields. -/
def Builds (draft : RuleDraft) (rule : Rule) : Prop :=
  ∃ type required rounding,
    draft.assignmentType.bind AssignmentType.ofText? = some type ∧
    draft.requiredPercent = some required ∧
    RoundingDraft.policy? draft.averageRounding = some rounding ∧
    ((draft.kind = some RuleKind.overall.tag ∧ Rule.makeOverall type required rounding = .ok rule) ∨
      (draft.kind = some RuleKind.passedShare.tag ∧ ∃ passedRequired passedRounding,
        draft.passedPercent = some passedRequired ∧
        RoundingDraft.policy? draft.passedRounding = some passedRounding ∧
        Rule.makePassedShare type required rounding passedRequired passedRounding = .ok rule))

theorem checked_present {α : Type} (field : RuleField) (value : Option α) :
    Checked [presenceCheck field value] (present field value) fun a => value = some a := by
  cases value with
  | none => exact .inl ⟨_, rfl, rfl⟩
  | some a => exact .inr ⟨a, rfl, rfl, rfl⟩

theorem checked_kind (tag : String) :
    Checked [kindCheck (some tag)] (kindOfTag tag) fun kind => tag = kind.tag := by
  by_cases hoverall : tag = RuleKind.overall.tag
  · subst hoverall
    exact .inr ⟨.overall, rfl, rfl, rfl⟩
  by_cases hshare : tag = RuleKind.passedShare.tag
  · subst hshare
    exact .inr ⟨.passedShare, rfl, rfl, rfl⟩
  refine .inl ⟨.unknownRuleKind tag, ?_, ?_⟩
  · simp [kindCheck, faultIf, firstFault, hoverall, hshare]
  · simp [kindOfTag, List.find?, beq_eq_false_iff_ne.2 (Ne.symm hoverall),
      beq_eq_false_iff_ne.2 (Ne.symm hshare)]

theorem checked_type (text : String) :
    Checked [typeCheck (some text)] (typeOfText text) fun type =>
      AssignmentType.ofText? text = some type := by
  cases htype : AssignmentType.ofText? text with
  | none =>
    exact .inl ⟨.unknownAssignmentType text, by simp [typeCheck, faultIf, firstFault, htype],
      by simp [typeOfText, htype]⟩
  | some type => exact .inr ⟨type, by simp [typeCheck, faultIf, firstFault, htype],
      by simp [typeOfText, htype], rfl⟩

theorem checkRounding_eq_ok {field : RuleField} {rounding : RoundingPolicy}
    (hallowed : rounding.Allowed) :
    Demand.checkRounding field rounding = .ok ⟨rounding, hallowed⟩ := by
  cases rounding with
  | decimals places => exact dif_pos hallowed
  | _ => rfl

/-- Of a demand with a rounding that criteria may ask for, only the percentage is left to check. -/
theorem checked_make (percentField roundingField : RuleField) (required : Binary64)
    {rounding : RoundingPolicy} (hallowed : rounding.Allowed) :
    Checked [percentCheck percentField (some required)]
      (Demand.make percentField required roundingField rounding) fun _ => True := by
  unfold Demand.make Demand.checkPercent
  by_cases hpercent : required.IsPercent
  · refine .inr ⟨⟨required, rounding, hpercent, hallowed⟩, ?_, ?_, trivial⟩
    · simp [percentCheck, faultIf, firstFault, hpercent]
    · rw [dif_pos hpercent, ok_bind, checkRounding_eq_ok hallowed]
      rfl
  · refine .inl ⟨.percentOutOfRange percentField required, ?_, ?_⟩
    · simp [percentCheck, faultIf, firstFault, hpercent]
    · rw [dif_neg hpercent, error_bind]

theorem checked_makeOverall (type : AssignmentType) (required : Binary64)
    {rounding : RoundingPolicy} (hallowed : rounding.Allowed) :
    Checked [percentCheck .requiredPercent (some required)]
      (Rule.makeOverall type required rounding) fun _ => True :=
  (checked_make .requiredPercent .averageRounding required hallowed).bind fun _ _ =>
    .inr ⟨_, rfl, rfl, trivial⟩

theorem checked_makePassedShare (type : AssignmentType) (required passedRequired : Binary64)
    {rounding passedRounding : RoundingPolicy} (hallowed : rounding.Allowed)
    (hpassedAllowed : passedRounding.Allowed) :
    Checked ([percentCheck .requiredPercent (some required)] ++
        [percentCheck .passedPercent (some passedRequired)])
      (Rule.makePassedShare type required rounding passedRequired passedRounding) fun _ => True :=
  (checked_make .requiredPercent .averageRounding required hallowed).bind fun _ _ =>
    (checked_make .passedPercent .passedRounding passedRequired hpassedAllowed).bind fun _ _ =>
      .inr ⟨_, rfl, rfl, trivial⟩

/-- A draft is refused with its first fault; without any it is built into a rule. -/
theorem checked (draft : RuleDraft) : Checked draft.checks draft.check draft.Builds := by
  unfold checks check
  apply (checked_present .kind draft.kind).bind
  intro tag htag
  rw [htag]
  apply (checked_kind tag).bind
  intro kind hkind
  apply (checked_present .assignmentType draft.assignmentType).bind
  intro text htext
  rw [htext]
  apply (checked_type text).bind
  intro type htype
  apply (checked_present .requiredPercent draft.requiredPercent).bind
  intro required hrequired
  apply (RoundingDraft.checked .averageRounding draft.averageRounding).bind
  rintro rounding ⟨hrounding, hallowed⟩
  rw [hrequired]
  have hshared : draft.assignmentType.bind AssignmentType.ofText? = some type := by
    rw [htext]
    exact htype
  cases kind with
  | overall =>
    have hasks : ¬draft.AsksForShare := by
      rw [AsksForShare, htag, hkind]
      decide
    rw [if_neg hasks, if_neg hasks]
    exact (checked_makeOverall type required hallowed).mono fun rule hrule _ =>
      ⟨type, required, rounding, hshared, hrequired, hrounding, .inl ⟨by rw [htag, hkind], hrule⟩⟩
  | passedShare =>
    have hasks : draft.AsksForShare := by rw [AsksForShare, htag, hkind]
    rw [if_pos hasks, if_pos hasks, List.append_assoc]
    apply (checked_present .passedPercent draft.passedPercent).bind
    intro passedRequired hpassedRequired
    apply (RoundingDraft.checked .passedRounding draft.passedRounding).bind
    rintro passedRounding ⟨hpassedRounding, hpassedAllowed⟩
    rw [hpassedRequired]
    exact (checked_makePassedShare type required passedRequired hallowed hpassedAllowed).mono
      fun rule hrule _ => ⟨type, required, rounding, hshared, hrequired, hrounding,
        .inr ⟨by rw [htag, hkind], passedRequired, passedRounding, hpassedRequired,
          hpassedRounding, hrule⟩⟩

end RuleDraft

end CourseAdmission
