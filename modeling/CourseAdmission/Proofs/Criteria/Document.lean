import CourseAdmission.Criteria.Document
import CourseAdmission.Proofs.Criteria.Check
import CourseAdmission.Proofs.Criteria.Demand
import CourseAdmission.Proofs.Document.Members
import CourseAdmission.Proofs.Verdict.Document

/-!
Criteria are read back from the documents that they are written to, but for their thresholds: these
become what their own texts are read as, and are checked again.
-/

namespace CourseAdmission

open Document

theorem RoundingPolicy.Allowed.fits {policy : RoundingPolicy} (hallowed : policy.Allowed) :
    policy.Fits := by
  cases policy with
  | decimals places => exact Nat.lt_of_le_of_lt hallowed (by decide)
  | _ => trivial

namespace RoundingDraft

/-- The draft that a policy is written as. -/
def ofPolicy (policy : RoundingPolicy) : RoundingDraft where
  kind := some policy.tag
  decimals := match policy with
    | .decimals places => some (places : Int)
    | _ => none

variable {policy : RoundingPolicy} {surplus : Surplus} {draft : RoundingDraft}

theorem signedWord_ofNat_iff {n : Nat} {m : Int} (hn : n < Word.limit 63) :
    Decoder.signedWord (.ofNat n) = .ok m ↔ (n : Int) = m := by
  rw [signedWord_eq_ok_iff]
  constructor
  · rintro ⟨-, hm⟩
    exact Option.some_inj.1 hm
  · rintro rfl
    exact ⟨⟨n, rfl, by omega, by omega⟩, rfl⟩

/-- A policy without further members is written as its tag alone. -/
theorem decode_tag_iff {tag : String} :
    decoder surplus (.ofMembers [("type", .ofText tag)]) = .ok draft ↔
      ⟨some tag, none⟩ = draft := by
  have hreads : record.ReadsVia _ .refused [("type", .ofText tag)] _ :=
    ((Record.readsVia_some 0 rfl (by simp) (Node.ofText_ne_null _)).map RoundingDraft.mk).seq
      (Record.readsVia_none (by simp [RoundingField.name])) (by decide)
  refine (hreads.decode_iff (by simp) (by simp [RoundingField.name])).trans ?_
  simp [text_ofText_iff]

/-- A policy that criteria may ask for is read as its draft. -/
theorem decoder_iff (hallowed : policy.Allowed) :
    decoder surplus policy.toNode = .ok draft ↔ ofPolicy policy = draft := by
  cases policy with
  | none => exact decode_tag_iff
  | up => exact decode_tag_iff
  | down => exact decode_tag_iff
  | decimals places =>
    have hplaces : places < Word.limit 63 := Nat.lt_of_le_of_lt hallowed (by decide)
    have hreads : record.ReadsVia _ .refused
        [("type", .ofText "DECIMALS"), ("decimals", .ofNat places)] _ :=
      ((Record.readsVia_some 0 rfl (by simp) (Node.ofText_ne_null _)).map RoundingDraft.mk).seq
        (Record.readsVia_some 1 rfl (by simp) (by nofun)) (by decide)
    refine (hreads.decode_iff (by simp) (by simp [RoundingField.name])).trans ?_
    simp [text_ofText_iff, signedWord_ofNat_iff hplaces, ofPolicy, RoundingPolicy.tag]

theorem check_ofPolicy (field : RuleField) (hallowed : policy.Allowed) :
    check field (some (ofPolicy policy)) = .ok policy := by
  cases policy with
  | decimals places =>
    have hplaces : places ≤ RoundingPolicy.maxPlaces := hallowed
    have hin : (0 : Int) ≤ places ∧ (places : Int) ≤ RoundingPolicy.maxPlaces := by omega
    simp only [check, ofPolicy, RoundingPolicy.tag, if_pos hin]
    rfl
  | _ => rfl

end RoundingDraft

namespace Demand

/-- The threshold of the one is read from the text of that of the other. -/
def RereadAs (d e : Demand) : Prop := d.required.RereadAs e.required ∧ d.rounding = e.rounding

theorem make_eq_ok_iff {percentField roundingField : RuleField} {required : Binary64}
    {rounding : RoundingPolicy} {demand : Demand} :
    make percentField required roundingField rounding = .ok demand ↔
      required = demand.required ∧ rounding = demand.rounding := by
  constructor
  · intro hmake
    obtain ⟨percent, hpercent, hmore⟩ := bind_eq_ok_iff.1 hmake
    obtain ⟨policy, hpolicy, heq⟩ := bind_eq_ok_iff.1 hmore
    cases heq
    unfold checkPercent at hpercent
    split at hpercent <;> cases hpercent
    refine ⟨rfl, ?_⟩
    cases rounding with
    | decimals places =>
      simp only [checkRounding] at hpolicy
      split at hpolicy <;> cases hpolicy
      rfl
    | _ =>
      cases hpolicy
      rfl
  · rintro ⟨rfl, rfl⟩
    rw [make, checkPercent, dif_pos demand.isPercent, ok_bind,
      RuleDraft.checkRounding_eq_ok demand.allowed]
    rfl

end Demand

namespace Rule

/-- The rules are of one kind and type, and their thresholds are read from the texts of the
    others. -/
def RereadAs : Rule → Rule → Prop
  | .overall type d, .overall type' e => type = type' ∧ d.RereadAs e
  | .passedShare type d s, .passedShare type' e t => type = type' ∧ d.RereadAs e ∧ s.RereadAs t
  | _, _ => False

end Rule

namespace RuleDraft

variable {rule r : Rule} {type : AssignmentType} {required passedRequired : Binary64}
  {rounding passedRounding : RoundingPolicy} {surplus : Surplus}

/-- A draft of the first kind is checked like its fields. -/
theorem check_overall (hallowed : rounding.Allowed) :
    check ⟨some RuleKind.overall.tag, some type.tag, some required,
      some (RoundingDraft.ofPolicy rounding), none, none⟩ =
      Rule.makeOverall type required rounding := by
  have hkind : kindOfTag RuleKind.overall.tag = .ok .overall := rfl
  simp only [check, present, ok_bind, hkind, RoundingDraft.check_ofPolicy _ hallowed, typeOfText,
    AssignmentType.ofText?_tag]

theorem check_passedShare (hallowed : rounding.Allowed) (hpassed : passedRounding.Allowed) :
    check ⟨some RuleKind.passedShare.tag, some type.tag, some required,
      some (RoundingDraft.ofPolicy rounding), some passedRequired,
      some (RoundingDraft.ofPolicy passedRounding)⟩ =
      Rule.makePassedShare type required rounding passedRequired passedRounding := by
  have hkind : kindOfTag RuleKind.passedShare.tag = .ok .passedShare := rfl
  simp only [check, present, ok_bind, hkind, RoundingDraft.check_ofPolicy _ hallowed,
    RoundingDraft.check_ofPolicy _ hpassed, typeOfText, AssignmentType.ofText?_tag]

end RuleDraft

namespace Rule

variable {rule r : Rule} {surplus : Surplus}

theorem makeOverall_eq_ok_iff {type : AssignmentType} {required : Binary64}
    {rounding : RoundingPolicy} : makeOverall type required rounding = .ok r ↔
      ∃ d : Demand, required = d.required ∧ rounding = d.rounding ∧ .overall type d = r := by
  rw [makeOverall, bind_eq_ok_iff]
  simp only [Demand.make_eq_ok_iff, and_assoc]
  simp [pure, Except.pure]

theorem makePassedShare_eq_ok_iff {type : AssignmentType} {required passedRequired : Binary64}
    {rounding passedRounding : RoundingPolicy} :
    makePassedShare type required rounding passedRequired passedRounding = .ok r ↔
      ∃ d s : Demand, required = d.required ∧ rounding = d.rounding ∧ passedRequired = s.required ∧
        passedRounding = s.rounding ∧ .passedShare type d s = r := by
  rw [makePassedShare, bind_eq_ok_iff]
  simp only [Demand.make_eq_ok_iff, bind_eq_ok_iff, and_assoc]
  simp [pure, Except.pure]

theorem reread_ofDouble_ne_null (d : Demand) : (Node.ofDouble d.required).reread ≠ .null := by
  rw [Node.ofDouble, if_pos d.isPercent.isFinite]
  nofun

theorem reread_rounding (d : Demand) : d.rounding.toNode.reread = d.rounding.toNode :=
  RoundingPolicy.reread_toNode d.allowed.fits

end Rule

namespace RuleDraft

variable {surplus : Surplus} {kind type percent rounding share shareRounding : Node}

/-- What a rule without a share of passed assignments is read from. -/
theorem decoder_overall_iff {P : RuleDraft → Prop} (hkind : kind ≠ .null) (htype : type ≠ .null)
    (hpercent : percent ≠ .null) (hrounding : rounding ≠ .null) :
    (∃ draft, decoder surplus (.ofMembers [("type", kind), (RuleField.assignmentType.name, type),
      (RuleField.requiredPercent.name, percent), (RuleField.averageRounding.name, rounding)]) =
        .ok draft ∧ P draft) ↔
      ∃ k, Decoder.text kind = .ok k ∧ ∃ t, Decoder.text type = .ok t ∧
        ∃ x, Decoder.double percent = .ok x ∧
          ∃ r, RoundingDraft.decoder surplus rounding = .ok r ∧
            P ⟨some k, some t, some x, some r, none, none⟩ := by
  refine Iff.trans (Record.ReadsVia.exists_decode_iff (
      ((Record.readsVia_some 0 rfl (by simp) hkind).map RuleDraft.mk).seq
        (Record.readsVia_some 1 rfl (by simp) htype) (by simp [RuleField.name])
      |>.seq (Record.readsVia_some 2 rfl (by simp) hpercent) (by simp [RuleField.name])
      |>.seq (Record.readsVia_some 3 rfl (by simp [RuleField.name]) hrounding)
        (by simp [RuleField.name])
      |>.seq (Record.readsVia_none (by simp [RuleField.name])) (by simp [RuleField.name])
      |>.seq (Record.readsVia_none (by simp [RuleField.name])) (by simp [RuleField.name]))
    (by simp [RuleField.name]) (by simp [RuleField.name]) surplus P) ?_
  exact Iff.rfl

/-- What a rule with a share of passed assignments is read from. -/
theorem decoder_passedShare_iff {P : RuleDraft → Prop} (hkind : kind ≠ .null) (htype : type ≠ .null)
    (hpercent : percent ≠ .null) (hrounding : rounding ≠ .null) (hshare : share ≠ .null)
    (hshareRounding : shareRounding ≠ .null) :
    (∃ draft, decoder surplus (.ofMembers [("type", kind), (RuleField.assignmentType.name, type),
      (RuleField.requiredPercent.name, percent), (RuleField.averageRounding.name, rounding),
      (RuleField.passedPercent.name, share), (RuleField.passedRounding.name, shareRounding)]) =
        .ok draft ∧ P draft) ↔
      ∃ k, Decoder.text kind = .ok k ∧ ∃ t, Decoder.text type = .ok t ∧
        ∃ x, Decoder.double percent = .ok x ∧
          ∃ r, RoundingDraft.decoder surplus rounding = .ok r ∧
            ∃ y, Decoder.double share = .ok y ∧
              ∃ s, RoundingDraft.decoder surplus shareRounding = .ok s ∧
                P ⟨some k, some t, some x, some r, some y, some s⟩ := by
  refine Iff.trans (Record.ReadsVia.exists_decode_iff (
      ((Record.readsVia_some 0 rfl (by simp) hkind).map RuleDraft.mk).seq
        (Record.readsVia_some 1 rfl (by simp) htype) (by simp [RuleField.name])
      |>.seq (Record.readsVia_some 2 rfl (by simp) hpercent) (by simp [RuleField.name])
      |>.seq (Record.readsVia_some 3 rfl (by simp [RuleField.name]) hrounding)
        (by simp [RuleField.name])
      |>.seq (Record.readsVia_some 4 rfl (by simp) hshare) (by simp [RuleField.name])
      |>.seq (Record.readsVia_some 5 rfl (by simp) hshareRounding) (by simp [RuleField.name]))
    (by simp [RuleField.name]) (by simp [RuleField.name]) surplus P) ?_
  exact Iff.rfl

end RuleDraft

namespace Rule

variable {rule r : Rule} {surplus : Surplus}

theorem reread_rounding_ne_null (d : Demand) : d.rounding.toNode.reread ≠ .null := nofun

/-- The draft that is read from a written rule passes its checks for the rules that the rule is read
    as. -/
theorem decoder_check_iff (surplus : Surplus) :
    (∃ draft, RuleDraft.decoder surplus rule.toNode.reread = .ok draft ∧ draft.check = .ok r) ↔
      rule.RereadAs r := by
  cases rule with
  | overall type d =>
    rw [toNode, Node.reread_ofMembers]
    refine (RuleDraft.decoder_overall_iff (Node.ofText_ne_null _) (Node.ofText_ne_null _)
      (reread_ofDouble_ne_null d) (reread_rounding_ne_null d)).trans ?_
    simp only [text_ofText_iff, exists_eq_left', Node.double_reread_iff,
      reread_rounding, RoundingDraft.decoder_iff d.allowed, RuleDraft.check_overall d.allowed,
      makeOverall_eq_ok_iff]
    constructor
    · rintro ⟨x, hx, e, rfl, hrounding, rfl⟩
      exact ⟨rfl, hx, hrounding⟩
    · intro hreread
      cases r with
      | overall type' e =>
        obtain ⟨rfl, hx, hrounding⟩ := hreread
        exact ⟨_, hx, e, rfl, hrounding, rfl⟩
      | passedShare => exact hreread.elim
  | passedShare type d s =>
    rw [toNode, Node.reread_ofMembers]
    refine (RuleDraft.decoder_passedShare_iff (Node.ofText_ne_null _) (Node.ofText_ne_null _)
      (reread_ofDouble_ne_null d) (reread_rounding_ne_null d) (reread_ofDouble_ne_null s)
      (reread_rounding_ne_null s)).trans ?_
    simp only [text_ofText_iff, exists_eq_left', Node.double_reread_iff,
      reread_rounding, RoundingDraft.decoder_iff d.allowed, RoundingDraft.decoder_iff s.allowed,
      RuleDraft.check_passedShare d.allowed s.allowed, makePassedShare_eq_ok_iff]
    constructor
    · rintro ⟨x, hx, y, hy, e, t, rfl, hrounding, rfl, hpassedRounding, rfl⟩
      exact ⟨rfl, ⟨hx, hrounding⟩, hy, hpassedRounding⟩
    · intro hreread
      cases r with
      | overall => exact hreread.elim
      | passedShare type' e t =>
        obtain ⟨rfl, ⟨hx, hrounding⟩, hy, hpassedRounding⟩ := hreread
        exact ⟨_, hx, _, hy, e, t, rfl, hrounding, rfl, hpassedRounding, rfl⟩

@[simp]
theorem isWritable_toNode (rule : Rule) : rule.toNode.isWritable = true := by
  cases rule <;> simp [toNode]

end Rule

namespace Criteria

variable {criteria c : Criteria}

/-- The thresholds of the one are read from the texts of those of the other, rule by rule. -/
def RereadAs (criteria c : Criteria) : Prop := List.Forall₂ Rule.RereadAs criteria.rules c.rules

theorem checkFrom_eq_ok_iff {index : Nat} {drafts : CriteriaDraft} {rules : List Rule} :
    CriteriaDraft.checkFrom index drafts = .ok rules ↔
      List.Forall₂ (fun draft rule => draft.check = .ok rule) drafts rules := by
  induction drafts generalizing index rules with
  | nil =>
    constructor
    · rintro ⟨⟩
      exact .nil
    · rintro ⟨⟩
      rfl
  | cons draft drafts ih =>
    rw [CriteriaDraft.checkFrom]
    cases hcheck : draft.check with
    | error error => simp [List.forall₂_cons_left_iff, hcheck]
    | ok rule =>
      dsimp only
      rw [map_eq_ok_iff]
      simp only [ih, List.forall₂_cons_left_iff, hcheck, Except.ok.injEq]
      constructor
      · rintro ⟨rest, hrest, rfl⟩
        exact ⟨rule, rest, rfl, hrest, rfl⟩
      · rintro ⟨_, rest, rfl, hrest, rfl⟩
        exact ⟨rest, hrest, rfl⟩

/-- Rules are drafted and then checked one by one. -/
theorem exists_drafts_iff {rules rs : List Rule} {surplus : Surplus} :
    (∃ drafts, List.Forall₂ (fun rule draft =>
        RuleDraft.decoder surplus (Rule.toNode rule).reread = .ok draft) rules drafts ∧
      List.Forall₂ (fun draft rule => draft.check = .ok rule) drafts rs) ↔
      List.Forall₂ Rule.RereadAs rules rs := by
  induction rules generalizing rs with
  | nil => simp
  | cons rule rules ih =>
    simp only [List.forall₂_cons_left_iff, ← ih, ← Rule.decoder_check_iff surplus]
    constructor
    · rintro ⟨_, ⟨draft, drafts, hdraft, hdrafts, rfl⟩, hall⟩
      obtain ⟨r, rs, hr, hrs, rfl⟩ := List.forall₂_cons_left_iff.1 hall
      exact ⟨r, rs, ⟨draft, hdraft, hr⟩, ⟨drafts, hdrafts, hrs⟩, rfl⟩
    · rintro ⟨r, rs, ⟨draft, hdraft, hr⟩, ⟨drafts, hdrafts, hrs⟩, rfl⟩
      exact ⟨_, ⟨draft, drafts, hdraft, hdrafts, rfl⟩, .cons hr hrs⟩

theorem check_eq_ok_iff {drafts : CriteriaDraft} : drafts.check = .ok c ↔
    List.Forall₂ (fun draft rule => draft.check = .ok rule) drafts c.rules := by
  rw [CriteriaDraft.check, map_eq_ok_iff]
  simp only [checkFrom_eq_ok_iff]
  constructor
  · rintro ⟨rules, hrules, rfl⟩
    exact hrules
  · intro hrules
    exact ⟨c.rules, hrules, rfl⟩

theorem decoder_iff : decoder criteria.toNode.reread = .ok c ↔ criteria.RereadAs c := by
  rw [toNode, Node.reread_ofMembers, decoder, bind_eq_ok_iff]
  refine Iff.trans (Record.ReadsVia.exists_decode_iff (Record.readsVia_member 0 rfl (by simp))
    (by simp) (by simp) .refused _) ?_
  simp only [mapError_eq_ok_iff, check_eq_ok_iff, Node.reread_ofList,
    list_ofList_iff fun _ _ _ => Iff.rfl]
  exact exists_drafts_iff

@[simp]
theorem isWritable_toNode (criteria : Criteria) : criteria.toNode.isWritable = true := by
  simp [toNode]

end Criteria

end CourseAdmission
